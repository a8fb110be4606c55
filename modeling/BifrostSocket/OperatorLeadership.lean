import BifrostSocket.LeadershipServices
import BifrostSocket.TimedLeaseDrivers

/-!
# The operator's loop under leadership

`run_with_leadership_sync` runs the operator's loop in a thread of its own. The thread cannot be
cancelled: it is told to stop through an inner event, which the callback of a lost leadership
sets as well as every way out of `run_with_leadership`, and it may take any time to end after that.
Ticks take no time here and waits are exact; `KubernetesOperators` has the requests that take time.
-/

namespace BifrostSocket.OperatorLeadership
open TransitionRuns LeaseRecords LeaderElectors TimedLeaseDrivers
open LeadershipServices (Stage ServiceBody)

section Model

structure Pod where
  stage : Stage := .acquiring
  body : ServiceBody := .notStarted
  innerStop : Bool := false
  stop : Bool := false
  deriving DecidableEq

structure Pods (ι : Type) where
  world : World ι
  pods : ι → Pod

inductive PodEvent (ι : Type) where
  | advance (t : ℚ)
  | start (i : ι)
  | tick (i : ι) (getFault writeFault : CallFault)
  | startBody (i : ι)
  | endBody (i : ι)
  | setStop (i : ι)
  | seeStop (i : ι)
  | leaveRenewal (i : ι)
  | bodyDone (i : ι)
  | leave (i : ι)
  | restart (i : ι)

/-- `acquire` hands over to the service, and a leader that steps down in the tick calls
`on_stopped_leading`. -/
def Pod.ticked (p : Pod) (wasLeader isLeader : Bool) (d : Driver) : Pod :=
  { p with
    stage :=
      match p.stage, d with
      | .acquiring, .renewing _ => .leading
      | stage, _ => stage
    innerStop := p.innerStop || (wasLeader && !isLeader) }

/-- `run_with_leadership` cancels what is not over. A thread that has not begun never does. -/
def Pod.unwound (p : Pod) : Pod :=
  { p with
    stage := .unwinding
    innerStop := true
    body := if p.body = .notStarted then .finished else p.body }

/-- `acquire` returns false, or `renew_until_lost` returns. -/
def Pod.stopped (p : Pod) : Pod :=
  match p.stage with
  | .acquiring => { p with stage := .returned, innerStop := true }
  | _ => p.unwound

variable {ι : Type} [DecidableEq ι]

def Pods.setPod (s : Pods ι) (i : ι) (p : Pod) : Pods ι :=
  { s with pods := Function.update s.pods i p }

/-- The world without the process of one pod: its elector starts afresh. -/
def forget (w : World ι) (i : ι) : World ι :=
  { w with
    electors := Function.update w.electors i {}
    drivers := Function.update w.drivers i .notStarted }

/-- What a coroutine does between two waits takes no time. `asyncio.run` waits for the thread
before it returns; a process may end, and start again, at any time. -/
inductive Step (F : TimedFleet ι) (s : Pods ι) : PodEvent ι → Pods ι → Prop where
  | advance {t w} (h : TimedLeaseDrivers.Step F s.world (.advance t) w) :
      Step F s (.advance t) { s with world := w }
  | start {i w} (h : TimedLeaseDrivers.Step F s.world (.start i) w) :
      Step F s (.start i) { s with world := w }
  | tick {i f g w} (h : TimedLeaseDrivers.Step F s.world (.tick i f g) w) :
      Step F s (.tick i f g) (Pods.setPod { s with world := w } i
        ((s.pods i).ticked (s.world.electors i).isLeader (w.electors i).isLeader (w.drivers i)))
  | startBody {i} (hstage : (s.pods i).stage = .leading) (hbody : (s.pods i).body = .notStarted) :
      Step F s (.startBody i) (s.setPod i { s.pods i with body := .running })
  | endBody {i} (hbody : (s.pods i).body = .running) :
      Step F s (.endBody i) (s.setPod i { s.pods i with body := .finished })
  | setStop {i} : Step F s (.setStop i) (s.setPod i { s.pods i with stop := true })
  | seeStop {i w} (hstop : (s.pods i).stop = true)
      (h : TimedLeaseDrivers.Step F s.world (.stop i) w) :
      Step F s (.seeStop i) (Pods.setPod { s with world := w } i (s.pods i).stopped)
  | leaveRenewal {i} (hstage : (s.pods i).stage = .leading) (hlost : s.world.drivers i = .lost) :
      Step F s (.leaveRenewal i) (s.setPod i (s.pods i).unwound)
  | bodyDone {i w} (hstage : (s.pods i).stage = .leading) (hbody : (s.pods i).body = .finished)
      (h : TimedLeaseDrivers.Step F s.world (.stop i) w) :
      Step F s (.bodyDone i) (Pods.setPod { s with world := w } i (s.pods i).unwound)
  | leave {i} (hstage : (s.pods i).stage = .unwinding) (hbody : (s.pods i).body ≠ .running) :
      Step F s (.leave i) (s.setPod i { s.pods i with stage := .returned })
  | restart {i} :
      Step F s (.restart i) (Pods.setPod { s with world := forget s.world i } i {})

def InitialPods (s : Pods ι) : Prop := InitialWorld s.world ∧ ∀ i, s.pods i = {}

/-- The operator's loop runs and has not been told to stop. -/
def Serves (s : Pods ι) (i : ι) : Prop :=
  (s.pods i).body = .running ∧ (s.pods i).innerStop = false

end Model

section Leaders

variable {s : ElectorSettings} {now : ℚ} {f g : CallFault} {e : LeaderElector}
  {b : InMemoryLeaseBackend}

theorem tick_isLeader (h : (tryAcquireOrRenew s now f g e b).1.isSuccess = true) :
    (tryAcquireOrRenew s now f g e b).2.1.isLeader = true := by
  cases hget : b.getWith f with
  | none => simp [tryAcquireOrRenew, hget, LeaseAttempt.isSuccess] at h
  | some observed =>
    rcases hperform : (Plan.of s now observed).perform b g with ⟨ok, b'⟩
    cases ok with
    | false => simp [tryAcquireOrRenew, hget, hperform, LeaseAttempt.isSuccess] at h
    | true =>
      simp only [tryAcquireOrRenew, hget, hperform] at h ⊢
      cases hplan : Plan.of s now observed with
      | standDown =>
        simp [hplan, Plan.mark, LeaderElector.markNotLeader, LeaseAttempt.isSuccess] at h
      | create fresh => rfl
      | update c acquired => rfl

theorem afterTick_acquired {time : ℚ} {n m : ℚ}
    (h : (afterTick s time now (tryAcquireOrRenew s now f g e b).1
      (tryAcquireOrRenew s now f g e b).2.1 (.acquiring n)).1 = .renewing m) :
    (afterTick s time now (tryAcquireOrRenew s now f g e b).1
      (tryAcquireOrRenew s now f g e b).2.1 (.acquiring n)).2.isLeader = true := by
  simp only [afterTick] at h ⊢
  split at h
  · next hsuccess =>
    rw [if_pos hsuccess]
    exact tick_isLeader hsuccess
  · cases h

end Leaders

section Invariants

variable {ι : Type} {F : TimedFleet ι} {w w' : World ι} {s s' : Pods ι} {p : Pod} {i : ι}

/-- A pod whose service task is on, and not told to stop, leads; its thread runs in that stage
only. -/
structure PodOk (w : World ι) (p : Pod) (i : ι) : Prop where
  acquires : p.stage = .acquiring → ∀ n, w.drivers i ≠ .renewing n
  leads : p.stage = .leading → p.innerStop = false → Leads w i
  body : p.body = .running → p.innerStop = false → p.stage = .leading

structure PodsInvariant (F : TimedFleet ι) (s : Pods ι) : Prop where
  lease : TimedLeaseDrivers.Invariant F s.world
  pod : ∀ i, PodOk s.world (s.pods i) i

/-- A pod that was told to stop, and has left `acquire`. -/
theorem podOk_of_told (hstage : p.stage ≠ .acquiring) (htold : p.innerStop = true) :
    PodOk w p i := by
  refine ⟨fun h => absurd h hstage, fun _ hgo => ?_, fun _ hgo => ?_⟩
  · simp [htold] at hgo
  · simp [htold] at hgo

theorem podOk_unwound : PodOk w p.unwound i := podOk_of_told (by simp [Pod.unwound]) rfl

theorem podOk_stopped : PodOk w p.stopped i := by
  cases hstage : p.stage with
  | acquiring => exact podOk_of_told (by simp [Pod.stopped, hstage]) (by simp [Pod.stopped, hstage])
  | leading | unwinding | returned =>
    rw [Pod.stopped, hstage]
    exact podOk_unwound

theorem PodOk.frame (h : PodOk w p i) (he : w'.electors i = w.electors i)
    (hd : w'.drivers i = w.drivers i) : PodOk w' p i := by
  refine ⟨?_, ?_, h.body⟩
  · rw [hd]
    exact h.acquires
  · rw [Leads, he, hd]
    exact h.leads

/-- What a pod does when its elector or its driver has moved: its service task is on with a leader,
or has been told to stop. -/
theorem PodOk.ticked (h : PodOk w p i)
    (hacquired : p.stage = .acquiring → ∀ m, w'.drivers i = .renewing m →
      (w'.electors i).isLeader = true)
    (hwaits : w'.drivers i ≠ .stopped) :
    PodOk w' (p.ticked (w.electors i).isLeader (w'.electors i).isLeader (w'.drivers i)) i := by
  by_cases hstage : p.stage = .acquiring
  · have hbody : p.body = .running → p.innerStop = true := by
      intro hb
      by_contra hgo
      have hleading := h.body hb (by simpa using hgo)
      simp [hstage] at hleading
    refine ⟨fun hs m hm => ?_, fun hs _ => ?_, fun hb hgo => ?_⟩
    · simp [Pod.ticked, hstage, hm] at hs
    · cases hd : w'.drivers i with
      | renewing m => exact ⟨hacquired hstage m hd, hwaits⟩
      | acquiring | notStarted | lost | stopped => simp [Pod.ticked, hstage, hd] at hs
    · simp [Pod.ticked, hbody hb] at hgo
  · have hsame : ∀ wasLeader isLeader d, (p.ticked wasLeader isLeader d).stage = p.stage := by
      intro wasLeader isLeader d
      cases hs : p.stage with
      | acquiring => exact absurd hs hstage
      | leading | unwinding | returned => simp [Pod.ticked, hs]
    have hinner : ∀ wasLeader isLeader d, (p.ticked wasLeader isLeader d).innerStop = false →
        p.innerStop = false ∧ (wasLeader = true → isLeader = true) := by
      intro wasLeader isLeader d hgo
      simpa [Pod.ticked, Bool.or_eq_false_iff] using hgo
    refine ⟨fun hs => ?_, fun hs hgo => ?_, fun hb hgo => ?_⟩
    · rw [hsame] at hs
      exact absurd hs hstage
    · rw [hsame] at hs
      obtain ⟨hgo, hkept⟩ := hinner _ _ _ hgo
      exact ⟨hkept (h.leads hs hgo).1, hwaits⟩
    · rw [hsame]
      exact h.body hb (hinner _ _ _ hgo).1

theorem podsInvariant_initial (h : InitialPods s) : PodsInvariant F s := by
  obtain ⟨hworld, hpods⟩ := h
  refine ⟨invariant_initial hworld, fun i => ?_⟩
  rw [hpods]
  exact ⟨fun _ n => by simp [hworld.2.2], nofun, nofun⟩

variable [DecidableEq ι]

theorem PodsInvariant.setPod (h : PodsInvariant F s) (hlease : TimedLeaseDrivers.Invariant F w')
    (hothers : ∀ j ≠ i, w'.electors j = s.world.electors j ∧ w'.drivers j = s.world.drivers j)
    (hpod : PodOk w' p i) : PodsInvariant F (Pods.setPod { s with world := w' } i p) := by
  refine ⟨hlease, fun j => ?_⟩
  by_cases hj : j = i
  · subst hj
    simpa [Pods.setPod] using hpod
  · simp only [Pods.setPod, Function.update_of_ne hj]
    exact (h.pod j).frame (hothers j hj).1 (hothers j hj).2

theorem PodsInvariant.setOwn (h : PodsInvariant F s) (hpod : PodOk s.world p i) :
    PodsInvariant F (s.setPod i p) :=
  h.setPod h.lease (fun _ _ => ⟨rfl, rfl⟩) hpod

theorem driver_frame {e : DriverEvent ι} (he : e = .start i ∨ e = .stop i ∨
    ∃ f g, e = .tick i f g) (h : TimedLeaseDrivers.Step F w e w') {j : ι} (hj : j ≠ i) :
    w'.electors j = w.electors j ∧ w'.drivers j = w.drivers j := by
  rcases he with rfl | rfl | ⟨f, g, rfl⟩ <;> cases h <;>
    simp [World.setDriver, World.tick, Function.update_of_ne hj]

/-- A process that ends takes its leadership with it. -/
theorem invariant_forget (inv : TimedLeaseDrivers.Invariant F w) (i : ι) :
    TimedLeaseDrivers.Invariant F (forget w i) := by
  refine ⟨inv.versioned, fun j n hn => ?_, fun j hj => ?_⟩
  · by_cases hij : j = i
    · subst hij
      simp [forget, Driver.tickAt] at hn
    · simp only [forget, Function.update_of_ne hij] at hn
      exact inv.due j n hn
  · have hij : j ≠ i := by
      rintro rfl
      simp [Leads, forget] at hj
    have hlead : Leads w j := by simpa [Leads, forget, Function.update_of_ne hij] using hj
    obtain ⟨hholds, hpast, n, hn, hle⟩ := inv.leading j hlead
    simp only [← Function.update_of_ne hij ({} : LeaderElector) w.electors] at hholds hpast hle
    rw [← Function.update_of_ne hij Driver.notStarted w.drivers] at hn
    exact ⟨hholds, hpast, n, hn, hle⟩

theorem tick_not_stopped {f g : CallFault} (hi : (w.drivers i).tickAt = some w.time) :
    (w.tick F i f g).drivers i ≠ .stopped := by
  simp only [World.tick, Function.update_self]
  cases hd : w.drivers i with
  | acquiring n =>
    simp only [afterTick]
    split <;> simp
  | renewing n =>
    simp only [afterTick]
    split <;> simp
  | notStarted => simp [hd, Driver.tickAt] at hi
  | lost => simp [hd, Driver.tickAt] at hi
  | stopped => simp [hd, Driver.tickAt] at hi

theorem PodOk.tick {f g : CallFault} (h : PodOk w p i)
    (hi : (w.drivers i).tickAt = some w.time) :
    PodOk (w.tick F i f g) (p.ticked (w.electors i).isLeader
      ((w.tick F i f g).electors i).isLeader ((w.tick F i f g).drivers i)) i := by
  refine h.ticked (fun hstage m hm => ?_) (tick_not_stopped hi)
  cases hd : w.drivers i with
  | acquiring n =>
    simp only [World.tick, Function.update_self, hd] at hm ⊢
    exact afterTick_acquired hm
  | renewing n => exact absurd hd (h.acquires hstage n)
  | notStarted => simp [hd, Driver.tickAt] at hi
  | lost => simp [hd, Driver.tickAt] at hi
  | stopped => simp [hd, Driver.tickAt] at hi

theorem podsInvariant_step (rule : TimingRule F) {e : PodEvent ι} (h : PodsInvariant F s)
    (hs : Step F s e s') : PodsInvariant F s' := by
  cases hs with
  | advance hw =>
    refine ⟨invariant_step rule h.lease hw, fun i => ?_⟩
    cases hw
    exact (h.pod i).frame rfl rfl
  | @start i w hw =>
    have hlease := invariant_step rule h.lease hw
    have hothers := fun j (hj : j ≠ i) => driver_frame (.inl rfl) hw hj
    have hown := h.setPod hlease hothers (p := s.pods i) ?_
    · simpa [Pods.setPod] using hown
    · cases hw with
      | start hi =>
        have hdriver : (s.world.setDriver i (.acquiring s.world.time)).drivers i =
            .acquiring s.world.time := Function.update_self ..
        refine ⟨fun _ n => by simp [hdriver], fun hs hgo => ?_, (h.pod i).body⟩
        exact ⟨((h.pod i).leads hs hgo).1, by simp [hdriver]⟩
  | @tick i f g w hw =>
    have hlease := invariant_step rule h.lease hw
    have hothers := fun j (hj : j ≠ i) => driver_frame (.inr (.inr ⟨f, g, rfl⟩)) hw hj
    cases hw with
    | tick hi => exact h.setPod hlease hothers ((h.pod i).tick hi)
  | @startBody i hstage hbody =>
    exact h.setOwn ⟨(h.pod i).acquires, (h.pod i).leads, fun _ _ => hstage⟩
  | @endBody i hbody => exact h.setOwn ⟨(h.pod i).acquires, (h.pod i).leads, nofun⟩
  | @setStop i => exact h.setOwn ⟨(h.pod i).acquires, (h.pod i).leads, (h.pod i).body⟩
  | @seeStop i w hstop hw =>
    exact h.setPod (invariant_step rule h.lease hw)
      (fun j hj => driver_frame (.inr (.inl rfl)) hw hj) podOk_stopped
  | leaveRenewal hstage hlost => exact h.setOwn podOk_unwound
  | @bodyDone i w hstage hbody hw =>
    exact h.setPod (invariant_step rule h.lease hw)
      (fun j hj => driver_frame (.inr (.inl rfl)) hw hj) podOk_unwound
  | @leave i hstage hbody =>
    refine h.setOwn ⟨nofun, nofun, fun hb => absurd hb hbody⟩
  | @restart i =>
    refine h.setPod (invariant_forget h.lease i) (fun j hj => ?_) ?_
    · simp [forget, Function.update_of_ne hj]
    · exact ⟨fun _ n => by simp [forget], nofun, nofun⟩

/-- Under the timing rule the lease names a pod whose operator loop runs and has not been told
to stop, no pod's clock sees that lease expired, and no other pod is in that state. -/
theorem served_under_lease (rule : TimingRule F) (h : Reachable InitialPods (Step F) s)
    (hi : Serves s i) :
    (∃ r, s.world.backend.record = some r ∧ r.holderIdentity = (F.settings i).identity ∧
      ∀ j, s.world.time + F.offset j ≤ r.renewTime + r.leaseDurationSec) ∧
    ∀ j, Serves s j → j = i := by
  have inv : PodsInvariant F s :=
    h.invariant (fun _ => podsInvariant_initial) fun _ _ _ hI hs => podsInvariant_step rule hI hs
  have hleading : ∀ j, Serves s j → Leading F s.world j := fun j hj =>
    inv.lease.leading j ((inv.pod j).leads ((inv.pod j).body hj.1 hj.2) hj.2)
  obtain ⟨⟨r, hr, hholder, hdur, hfresh⟩, -, n, hn, hnext⟩ := hleading i hi
  refine ⟨⟨r, hr, hholder, fun j => ?_⟩, fun j hj => ?_⟩
  · have hdue := inv.lease.due i n (by simp [hn, Driver.tickAt])
    have hskew := F.skewed j i
    have hrule := rule i
    rw [hdur]
    linarith
  · obtain ⟨⟨r', hr', hholder', -⟩, -⟩ := hleading j hj
    obtain rfl : r = r' := Option.some.inj (hr.symm.trans hr')
    exact F.distinct (hholder'.symm.trans hholder)

end Invariants

theorem served_under_lease_first_leader :
    ∃ s, Reachable InitialPods (Step skewedPods) s ∧ Serves s true ∧
      ∃ r, s.world.backend.record = some r ∧ r.holderIdentity = "pod-0" := by
  let s₀ : Pods Bool := ⟨stoppedWorld, fun _ => {}⟩
  let s₁ : Pods Bool := { s₀ with world := stoppedWorld.setDriver true (.acquiring 0) }
  let w₂ := s₁.world.tick skewedPods true .none .none
  let s₂ : Pods Bool := Pods.setPod { s₁ with world := w₂ } true ((s₁.pods true).ticked
    (s₁.world.electors true).isLeader (w₂.electors true).isLeader (w₂.drivers true))
  let s₃ := s₂.setPod true { s₂.pods true with body := .running }
  have hstart : Step skewedPods s₀ (.start true) s₁ := .start (.start rfl)
  have htick : Step skewedPods s₁ (.tick true .none .none) s₂ := .tick (.tick (by decide +kernel))
  have hbody : Step skewedPods s₂ (.startBody true) s₃ :=
    .startBody (by decide +kernel) (by decide +kernel)
  have hreach : Reachable InitialPods (Step skewedPods) s₃ :=
    (((Reachable.start ⟨initialWorld_stoppedWorld, fun _ => rfl⟩).snoc hstart).snoc htick).snoc
      hbody
  have hserves : Serves s₃ true := by
    unfold Serves
    decide +kernel
  have hrule : TimingRule skewedPods := by
    unfold TimingRule
    decide +kernel
  obtain ⟨⟨r, hr, hholder, -⟩, -⟩ := served_under_lease hrule hreach hserves
  exact ⟨s₃, hreach, hserves, r, hr, hholder⟩

end BifrostSocket.OperatorLeadership
