import BifrostSocket.KubernetesDrivers
import BifrostSocket.OperatorLeadership

/-!
# The operator over Kubernetes

`run_with_leadership_sync` as deployed: the operator's loop runs in its thread while the drivers
of the fleet share a Lease of the API server, with slow requests and skewed clocks. A tick may
step down twice over, when it is marked and when the renew deadline is looked at.
-/

namespace BifrostSocket.KubernetesOperators
open TransitionRuns LeaderElectors InterleavedElectors KubernetesBackends KubernetesElectors
open KubernetesDrivers (SlowFleet KubernetesWorld DriverEvent TimingRule slowPods requested
  step_requested)
open OperatorLeadership (Pod PodOk podOk_stopped podOk_unwound)

section Model

structure Operators (ι : Type) where
  world : KubernetesWorld ι
  pods : ι → Pod

inductive OperatorEvent (ι : Type) where
  | drive (e : DriverEvent ι)
  | startBody (i : ι)
  | endBody (i : ι)
  | setStop (i : ι)
  | seeStop (i : ι)
  | leaveRenewal (i : ι)
  | bodyDone (i : ι)
  | leave (i : ι)
  | restart (i : ι)

/-- What a driver does short of moving its elector or going over to the next loop. -/
def Quiet {ι : Type} : DriverEvent ι → Prop
  | .advance _ | .start _ | .readClock _ | .get _ _ | .write _ _ => True
  | .mark _ | .handle _ | .stop _ | .restart _ => False

variable {ι : Type} [DecidableEq ι]

def Operators.setPod (s : Operators ι) (i : ι) (p : Pod) : Operators ι :=
  { s with pods := Function.update s.pods i p }

/-- The marking and the loop's look at the attempt are where a pod gains and loses leadership. -/
inductive Step (A : ApiServer) (F : SlowFleet ι) (s : Operators ι) :
    OperatorEvent ι → Operators ι → Prop where
  | quiet {e w} (he : Quiet e) (h : KubernetesDrivers.Step A F s.world e w) :
      Step A F s (.drive e) { s with world := w }
  | moves {i e w} (he : e = .mark i ∨ e = .handle i) (h : KubernetesDrivers.Step A F s.world e w) :
      Step A F s (.drive e) (Operators.setPod { s with world := w } i
        ((s.pods i).ticked (s.world.electors i).isLeader (w.electors i).isLeader (w.drivers i)))
  | startBody {i} (hstage : (s.pods i).stage = .leading) (hbody : (s.pods i).body = .notStarted) :
      Step A F s (.startBody i) (s.setPod i { s.pods i with body := .running })
  | endBody {i} (hbody : (s.pods i).body = .running) :
      Step A F s (.endBody i) (s.setPod i { s.pods i with body := .finished })
  | setStop {i} : Step A F s (.setStop i) (s.setPod i { s.pods i with stop := true })
  | seeStop {i w} (hstop : (s.pods i).stop = true)
      (h : KubernetesDrivers.Step A F s.world (.stop i) w) :
      Step A F s (.seeStop i) (Operators.setPod { s with world := w } i (s.pods i).stopped)
  | leaveRenewal {i} (hstage : (s.pods i).stage = .leading) (hlost : s.world.drivers i = .lost) :
      Step A F s (.leaveRenewal i) (s.setPod i (s.pods i).unwound)
  | bodyDone {i w} (hstage : (s.pods i).stage = .leading) (hbody : (s.pods i).body = .finished)
      (h : KubernetesDrivers.Step A F s.world (.stop i) w) :
      Step A F s (.bodyDone i) (Operators.setPod { s with world := w } i (s.pods i).unwound)
  | leave {i} (hstage : (s.pods i).stage = .unwinding) (hbody : (s.pods i).body ≠ .running) :
      Step A F s (.leave i) (s.setPod i { s.pods i with stage := .returned })
  | restart {i w} (h : KubernetesDrivers.Step A F s.world (.restart i) w) :
      Step A F s (.restart i) (Operators.setPod { s with world := w } i {})

end Model

variable {ι : Type}

def InitialOperators (s : Operators ι) : Prop :=
  KubernetesDrivers.InitialWorld s.world ∧ ∀ i, s.pods i = {}

/-- The operator's loop runs and has not been told to stop. -/
def Serves (s : Operators ι) (i : ι) : Prop :=
  (s.pods i).body = .running ∧ (s.pods i).innerStop = false

section Invariants

/-- The electors and drivers, without the server they share. -/
def shared (w : KubernetesWorld ι) : TimedLeaseDrivers.World ι :=
  ⟨w.clock, {}, w.electors, w.drivers⟩

structure OperatorsInvariant (A : ApiServer) (F : SlowFleet ι) (s : Operators ι) : Prop where
  lease : KubernetesDrivers.Invariant A F s.world
  pod : ∀ i, PodOk (shared s.world) (s.pods i) i

variable {A : ApiServer} {F : SlowFleet ι} {w w' : KubernetesWorld ι} {s s' : Operators ι}
  {p : Pod} {i : ι}

theorem operatorsInvariant_initial (h : InitialOperators s) : OperatorsInvariant A F s := by
  obtain ⟨hworld, hpods⟩ := h
  refine ⟨KubernetesDrivers.invariant_initial hworld, fun i => ?_⟩
  have hdriver : s.world.drivers i = .notStarted :=
    congrArg KubernetesDrivers.Pod.driver (hworld.2 i)
  rw [hpods]
  exact ⟨fun _ n => by simp [shared, hdriver], nofun, nofun⟩

variable [DecidableEq ι]

theorem driver_frame {e : DriverEvent ι} (he : e = .mark i ∨ e = .handle i ∨ e = .stop i ∨
    e = .restart i) (h : KubernetesDrivers.Step A F w e w') {j : ι} (hj : j ≠ i) :
    w'.electors j = w.electors j ∧ w'.drivers j = w.drivers j := by
  rcases he with rfl | rfl | rfl | rfl
  · cases h with
    | mark hc =>
      cases KubernetesElectors.step_cases hc with
      | mark =>
        simp [KubernetesCluster.setTick, KubernetesCluster.setElector, Function.update_of_ne hj]
  all_goals
    cases h
    simp [KubernetesWorld.setPod, Function.update_of_ne hj]

/-- A quiet step leaves every elector alone, and at most starts to acquire. -/
theorem quiet_frame {e : DriverEvent ι} (he : Quiet e) (h : KubernetesDrivers.Step A F w e w')
    (j : ι) : w'.electors j = w.electors j ∧
      (w'.drivers j = w.drivers j ∨ ∃ n, w'.drivers j = .acquiring n) := by
  cases h with
  | advance => exact ⟨rfl, .inl rfl⟩
  | @start i hi =>
    by_cases hj : j = i
    · subst hj
      simp [KubernetesWorld.setPod, KubernetesWorld.pod]
    · simp [KubernetesWorld.setPod, Function.update_of_ne hj]
  | @readClock i =>
    by_cases hj : j = i
    · subst hj
      simp [KubernetesWorld.setPod, KubernetesWorld.pod]
    · simp [KubernetesWorld.setPod, Function.update_of_ne hj]
  | get hc => cases KubernetesElectors.step_cases hc <;> exact ⟨rfl, .inl rfl⟩
  | write hc => cases KubernetesElectors.step_cases hc <;> exact ⟨rfl, .inl rfl⟩
  | mark | handle | stop | restart => exact he.elim

theorem OperatorsInvariant.setPod (h : OperatorsInvariant A F s)
    (hlease : KubernetesDrivers.Invariant A F w')
    (hothers : ∀ j ≠ i, w'.electors j = s.world.electors j ∧ w'.drivers j = s.world.drivers j)
    (hpod : PodOk (shared w') p i) :
    OperatorsInvariant A F (Operators.setPod { s with world := w' } i p) := by
  refine ⟨hlease, fun j => ?_⟩
  by_cases hj : j = i
  · subst hj
    simpa [Operators.setPod] using hpod
  · simp only [Operators.setPod, Function.update_of_ne hj]
    exact (h.pod j).frame (hothers j hj).1 (hothers j hj).2

theorem OperatorsInvariant.setOwn (h : OperatorsInvariant A F s)
    (hpod : PodOk (shared s.world) p i) : OperatorsInvariant A F (s.setPod i p) :=
  h.setPod h.lease (fun _ _ => ⟨rfl, rfl⟩) hpod

theorem handled_isLeader (inv : KubernetesDrivers.Invariant A F w) {e : DriverEvent ι}
    (he : e = .mark i ∨ e = .handle i) (h : KubernetesDrivers.Step A F w e w')
    (hacquires : ∀ n, w.drivers i ≠ .renewing n) {m : ℚ} (hm : w'.drivers i = .renewing m) :
    (w'.electors i).isLeader = true := by
  rcases he with rfl | rfl
  · cases h with
    | mark hc =>
      cases KubernetesElectors.step_cases hc with
      | mark => exact absurd hm (hacquires m)
  · cases h with
    | @handle _ attempt ha =>
      have hphase := (inv.pod i).phase
      rw [KubernetesDrivers.PhaseSound, show (w.pod i).tick = _ from ha] at hphase
      obtain ⟨⟨n, hn, hwoke⟩, -⟩ := hphase
      simp only [KubernetesWorld.setPod, Function.update_self,
        KubernetesDrivers.Pod.returned] at hm ⊢
      cases hd : (w.pod i).driver with
      | renewing n => exact absurd hd (hacquires n)
      | acquiring n =>
        rw [hd] at hm
        simp only [TimedLeaseDrivers.afterTick] at hm ⊢
        split at hm
        · next hsuccess =>
          rw [if_pos hsuccess]
          exact (hwoke hsuccess).1
        · cases hm
      | notStarted | lost | stopped =>
        rw [hd] at hn
        cases hn

/-- A marked or handled tick never ends its driver as the stop event does. -/
theorem handled_not_stopped (inv : KubernetesDrivers.Invariant A F w) {e : DriverEvent ι}
    (he : e = .mark i ∨ e = .handle i) (h : KubernetesDrivers.Step A F w e w') :
    w'.drivers i ≠ .stopped := by
  have hrunning : ∀ n, (w.drivers i).tickAt = some n → w.drivers i ≠ .stopped := by
    intro n hn hd
    rw [hd] at hn
    cases hn
  rcases he with rfl | rfl
  · cases h with
    | mark hc =>
      cases KubernetesElectors.step_cases hc with
      | mark hi =>
        have hphase := (inv.pod i).phase
        rw [KubernetesDrivers.PhaseSound, show (w.pod i).tick = _ from hi] at hphase
        obtain ⟨n, hn, -⟩ := hphase.1.woke
        exact hrunning n hn
  · cases h with
    | @handle _ attempt ha =>
      have hphase := (inv.pod i).phase
      rw [KubernetesDrivers.PhaseSound, show (w.pod i).tick = _ from ha] at hphase
      obtain ⟨⟨n, hn, -⟩, -⟩ := hphase
      simp only [KubernetesWorld.setPod, Function.update_self, KubernetesDrivers.Pod.returned]
      cases hd : (w.pod i).driver with
      | acquiring n =>
        simp only [TimedLeaseDrivers.afterTick]
        split <;> simp
      | renewing n =>
        simp only [TimedLeaseDrivers.afterTick]
        split <;> simp
      | notStarted | lost | stopped =>
        rw [hd] at hn
        cases hn

theorem operatorsInvariant_step (rule : TimingRule F) {e : OperatorEvent ι}
    (h : OperatorsInvariant A F s) (hs : Step A F s e s') : OperatorsInvariant A F s' := by
  cases hs with
  | @quiet e w he hw =>
    refine ⟨KubernetesDrivers.invariant_step rule h.lease hw, fun j => ?_⟩
    obtain ⟨helector, hdriver | ⟨n, hdriver⟩⟩ := quiet_frame he hw j
    · exact (h.pod j).frame helector hdriver
    · refine ⟨fun _ m => by simp [shared, hdriver], fun hstage hgo => ?_, (h.pod j).body⟩
      have hleads := ((h.pod j).leads hstage hgo).1
      exact ⟨by simpa [shared, helector] using hleads, by simp [shared, hdriver]⟩
  | @moves i e w he hw =>
    have hlease := KubernetesDrivers.invariant_step rule h.lease hw
    have hframe : e = .mark i ∨ e = .handle i ∨ e = .stop i ∨ e = .restart i := he.imp id .inl
    have hacquired : (s.pods i).stage = .acquiring → ∀ m, (shared w).drivers i = .renewing m →
        ((shared w).electors i).isLeader = true := fun hstage m hm =>
      handled_isLeader h.lease he hw ((h.pod i).acquires hstage) hm
    exact h.setPod hlease (fun j hj => driver_frame hframe hw hj)
      ((h.pod i).ticked hacquired (handled_not_stopped h.lease he hw))
  | @startBody i hstage hbody =>
    exact h.setOwn ⟨(h.pod i).acquires, (h.pod i).leads, fun _ _ => hstage⟩
  | @endBody i hbody => exact h.setOwn ⟨(h.pod i).acquires, (h.pod i).leads, nofun⟩
  | @setStop i => exact h.setOwn ⟨(h.pod i).acquires, (h.pod i).leads, (h.pod i).body⟩
  | @seeStop i w hstop hw =>
    exact h.setPod (KubernetesDrivers.invariant_step rule h.lease hw)
      (fun j hj => driver_frame (by simp) hw hj) podOk_stopped
  | leaveRenewal hstage hlost => exact h.setOwn podOk_unwound
  | @bodyDone i w hstage hbody hw =>
    exact h.setPod (KubernetesDrivers.invariant_step rule h.lease hw)
      (fun j hj => driver_frame (by simp) hw hj) podOk_unwound
  | @leave i hstage hbody => exact h.setOwn ⟨nofun, nofun, fun hb => absurd hb hbody⟩
  | @restart i w hw =>
    refine h.setPod (KubernetesDrivers.invariant_step rule h.lease hw)
      (fun j hj => driver_frame (by simp) hw hj) ?_
    cases hw with
    | restart => exact ⟨fun _ n => by simp [shared, KubernetesWorld.setPod], nofun, nofun⟩

/-- Under the timing rule the stored lease names a pod whose operator loop runs and has not been
told to stop, no pod's clock sees that lease expired, and no other pod is in that state. -/
theorem served_under_kept_lease (rule : TimingRule F)
    (h : Reachable InitialOperators (Step A F) s) (hi : Serves s i) :
    (∃ r, seenLease s.world.server = some r ∧ r.holderIdentity = (F.settings i).identity ∧
      ∀ j, s.world.clock + F.offset j ≤ r.renewTime + r.leaseDurationSec) ∧
    ∀ j, Serves s j → j = i := by
  have inv : OperatorsInvariant A F s :=
    h.invariant (fun _ => operatorsInvariant_initial) fun _ _ _ hI hs =>
      operatorsInvariant_step rule hI hs
  have hleads : ∀ j, Serves s j → (s.world.pod j).Leads := fun j hj =>
    (inv.pod j).leads ((inv.pod j).body hj.1 hj.2) hj.2
  obtain ⟨hlease, halone⟩ := inv.lease.leads_alone rule (hleads i hi)
  exact ⟨hlease, fun j hj => halone j (hleads j hj)⟩

end Invariants

theorem served_under_kept_lease_slow_request :
    ∃ s, Reachable InitialOperators (Step decimalServer slowPods) s ∧ Serves s true ∧
      ∃ r, seenLease s.world.server = some r ∧ r.holderIdentity = "pod-0" := by
  let w₀ : KubernetesWorld Bool := ⟨emptyCluster, fun _ => .notStarted⟩
  let w₁ := w₀.setPod true { w₀.pod true with driver := .acquiring 0 }
  let w₂ := w₁.setPod true { w₁.pod true with tick := .clockRead (0 + 1) }
  let w₃ := requested w₂ (.get true .none)
  let w₄ := requested w₃ (.write true .none)
  let w₅ : KubernetesWorld Bool := { w₄ with clock := 1 }
  let w₆ := requested w₅ (.mark true)
  let w := w₆.setPod true ((w₆.pod true).returned (slowPods.settings true) w₆.clock 1 .acquired)
  let s₅ : Operators Bool := ⟨w₅, fun _ => {}⟩
  let s₆ : Operators Bool := Operators.setPod { s₅ with world := w₆ } true ((s₅.pods true).ticked
    (s₅.world.electors true).isLeader (w₆.electors true).isLeader (w₆.drivers true))
  let s₇ : Operators Bool := Operators.setPod { s₆ with world := w } true ((s₆.pods true).ticked
    (s₆.world.electors true).isLeader (w.electors true).isLeader (w.drivers true))
  let s := s₇.setPod true { s₇.pods true with body := .running }
  have hstart : Step decimalServer slowPods ⟨w₀, fun _ => {}⟩ (.drive (.start true))
    ⟨w₁, fun _ => {}⟩ := .quiet trivial (.start rfl)
  have hread : Step decimalServer slowPods ⟨w₁, fun _ => {}⟩ (.drive (.readClock true))
      ⟨w₂, fun _ => {}⟩ :=
    .quiet trivial (.readClock (n := 0) (by decide +kernel) (by decide +kernel) (by decide +kernel))
  have hget : Step decimalServer slowPods ⟨w₂, fun _ => {}⟩ (.drive (.get true .none))
    ⟨w₃, fun _ => {}⟩ := .quiet trivial (.get (step_requested (by decide +kernel)))
  have hwrite : Step decimalServer slowPods ⟨w₃, fun _ => {}⟩ (.drive (.write true .none))
    ⟨w₄, fun _ => {}⟩ := .quiet trivial (.write (step_requested (by decide +kernel)))
  have hadvance : Step decimalServer slowPods ⟨w₄, fun _ => {}⟩ (.drive (.advance 1)) s₅ :=
    .quiet trivial (.advance (by decide +kernel) (by decide +kernel))
  have hmark : Step decimalServer slowPods s₅ (.drive (.mark true)) s₆ :=
    .moves (.inl rfl) (.mark (step_requested (by decide +kernel)))
  have hhandle : Step decimalServer slowPods s₆ (.drive (.handle true)) s₇ :=
    .moves (.inr rfl) (.handle (by decide +kernel))
  have hbody : Step decimalServer slowPods s₇ (.startBody true) s :=
    .startBody (by decide +kernel) (by decide +kernel)
  have hinit : InitialOperators (⟨w₀, fun _ => {}⟩ : Operators Bool) :=
    ⟨⟨rfl, fun _ => rfl⟩, fun _ => rfl⟩
  have hreach : Reachable InitialOperators (Step decimalServer slowPods) s :=
    (((((Reachable.start hinit).snoc hstart).snoc hread).snoc hget).snoc hwrite).snoc hadvance
      |>.snoc hmark |>.snoc hhandle |>.snoc hbody
  have hserves : Serves s true := by
    unfold Serves
    decide +kernel
  have hrule : TimingRule slowPods := by
    unfold TimingRule
    decide +kernel
  obtain ⟨⟨r, hr, hholder, -⟩, -⟩ := served_under_kept_lease hrule hreach hserves
  exact ⟨s, hreach, hserves, r, hr, hholder⟩

end BifrostSocket.KubernetesOperators
