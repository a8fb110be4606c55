import BifrostSocket.LeaseCoverage

/-!
# Services run under leadership

`run_with_leadership` acquires the lease, runs the service beside the renew loop, and once
either of them is over asks the other to stop and waits for it. A service body may take any
time to finish after that. Pods interleave at the grain of their tick steps, and a pod that
has returned is restarted as a fresh standby.
-/

namespace BifrostSocket.LeadershipServices
open LeaseRecords LeaderElectors TransitionRuns InterleavedElectors LeaseCoverage

/-- Where `run_with_leadership` stands: in `acquire`, waiting for the service or the renew
loop, waiting for what it has cancelled, or back at the entrypoint. -/
inductive Stage where
  | acquiring | leading | unwinding | returned
  deriving DecidableEq

inductive ServiceBody where
  | notStarted | running | finished
  deriving DecidableEq

structure Pod where
  stage : Stage := .acquiring
  body : ServiceBody := .notStarted
  stop : Bool := false
  deriving DecidableEq

structure Pods (ι : Type) where
  cluster : Cluster ι
  pods : ι → Pod

inductive PodEvent (ι : Type) where
  | tick (e : TickEvent ι)
  | judge (i : ι)
  | startBody (i : ι)
  | finishBody (i : ι)
  | serviceDone (i : ι)
  | setStop (i : ι)
  | seeStop (i : ι)
  | leave (i : ι)
  | restart (i : ι)

/-- What the pod's coroutine does with the outcome of a tick. -/
def judged (s : ElectorSettings) (clock : ℚ) (attempt : LeaseAttempt) (e : LeaderElector) :
    Stage → Stage × LeaderElector
  | .acquiring => if attempt.isSuccess then (.leading, e) else (.acquiring, e)
  | .leading =>
    match e.afterRenewTick s clock attempt with
    | (true, e') => (.leading, e')
    | (false, e') => (.unwinding, e')
  | stage => (stage, e)

theorem judged_elector (s : ElectorSettings) (clock : ℚ) (a : LeaseAttempt) (e : LeaderElector)
    (stage : Stage) :
    (judged s clock a e stage).2 = e ∨ (judged s clock a e stage).2 = e.expireSelf := by
  cases stage with
  | acquiring =>
    left
    simp only [judged]
    split <;> rfl
  | leading =>
    have hsnd : (judged s clock a e .leading).2 = (e.afterRenewTick s clock a).2 := by
      simp only [judged]
      split <;> simp [*]
    rw [hsnd]
    exact afterRenewTick_cases
  | unwinding => exact .inl rfl
  | returned => exact .inl rfl

theorem judged_leading {s : ElectorSettings} {clock : ℚ} {a : LeaseAttempt} {e : LeaderElector}
    {stage : Stage} (h : (judged s clock a e stage).1 = .leading) :
    stage = .leading ∨ a.isSuccess = true := by
  cases stage with
  | acquiring =>
    right
    simp only [judged] at h
    split at h
    · assumption
    · cases h
  | leading => exact .inl rfl
  | unwinding => cases h
  | returned => cases h

variable {ι : Type}

/-- A running body is allowed to go on until the lease duration after its pod's last
renewal, and a body starts within that time. -/
def InTime (F : Fleet ι) (s : Pods ι) : PodEvent ι → Prop
  | .startBody i => s.cluster.clock - (s.cluster.electors i).lastRenewSuccess ≤
      (F.settings i).leaseDurationSec
  | .tick (.advance t) => ∀ i, (s.pods i).body = .running →
      t - (s.cluster.electors i).lastRenewSuccess ≤ (F.settings i).leaseDurationSec
  | _ => True

/-- Beside the invariant of the electors: a successful outcome and the leading stage are
traces of a term of leadership, and running bodies are in time. -/
structure PodsInvariant (F : Fleet ι) (s : Pods ι) : Prop where
  lease : Invariant F s.cluster
  credited : ∀ i a, s.cluster.ticks i = .returned a → a.isSuccess = true →
    (s.cluster.electors i).HasLed
  led : ∀ i, (s.pods i).stage = .leading → (s.cluster.electors i).HasLed
  inTime : ∀ i, (s.pods i).body = .running → (s.cluster.electors i).HasLed ∧
    s.cluster.clock - (s.cluster.electors i).lastRenewSuccess ≤ (F.settings i).leaseDurationSec

def InitialPods (s : Pods ι) : Prop := Initial s.cluster ∧ ∀ i, s.pods i = {}

theorem podsInvariant_initial {F : Fleet ι} {s : Pods ι} (h : InitialPods s) :
    PodsInvariant F s := by
  obtain ⟨hc, hp⟩ := h
  refine ⟨invariant_initial hc, ?_, ?_, ?_⟩
  · simp [hc.2.2]
  · simp [hp]
  · simp [hp]

/-- While every body is in time, at most one is running. -/
theorem PodsInvariant.running_unique {F : Fleet ι} {s : Pods ι} (h : PodsInvariant F s) {i j : ι}
    (hi : (s.pods i).body = .running) (hj : (s.pods j).body = .running) : i = j := by
  obtain ⟨hli, hvi⟩ := h.inTime i hi
  obtain ⟨hlj, hvj⟩ := h.inTime j hj
  exact (h.lease.covered i hli).unique (h.lease.covered j hlj) hvi hvj

variable [DecidableEq ι]

def Pods.setPod (s : Pods ι) (i : ι) (p : Pod) : Pods ι :=
  { s with pods := Function.update s.pods i p }

/-- A tick begins only in a coroutine that ticks and has dealt with its last outcome; the
step-down belongs to the judgement. -/
def Pods.allows (s : Pods ι) : TickEvent ι → Bool
  | .readClock i => decide (s.cluster.ticks i = .idle) &&
      (decide ((s.pods i).stage = .acquiring) || decide ((s.pods i).stage = .leading))
  | .expireSelf _ => false
  | _ => true

def step (F : Fleet ι) (s : Pods ι) : PodEvent ι → Option (Pods ι)
  | .tick e =>
    if s.allows e then (InterleavedElectors.step F s.cluster e).map ({ s with cluster := · })
    else none
  | .judge i => match s.cluster.ticks i with
    | .returned attempt =>
      let r := judged (F.settings i) s.cluster.clock attempt (s.cluster.electors i) (s.pods i).stage
      some ({ s with cluster := (s.cluster.setElector i r.2).setTick i .idle }.setPod i
        { s.pods i with stage := r.1 })
    | _ => none
  | .startBody i =>
    -- the service task starts only before it is cancelled
    if (s.pods i).stage = .leading ∧ (s.pods i).body = .notStarted then
      some (s.setPod i { s.pods i with body := .running })
    else none
  | .finishBody i =>
    if (s.pods i).body = .running then some (s.setPod i { s.pods i with body := .finished })
    else none
  | .serviceDone i =>
    if (s.pods i).stage = .leading ∧ (s.pods i).body = .finished ∧ s.cluster.ticks i = .idle then
      some (s.setPod i { s.pods i with stage := .unwinding })
    else none
  | .setStop i => some (s.setPod i { s.pods i with stop := true })
  | .seeStop i =>
    if (s.pods i).stop = true ∧ s.cluster.ticks i = .idle then
      match (s.pods i).stage with
      | .acquiring => some (s.setPod i { s.pods i with stage := .returned })
      | .leading => some (s.setPod i { s.pods i with stage := .unwinding })
      | _ => none
    else none
  | .leave i =>
    if (s.pods i).stage = .unwinding ∧ (s.pods i).body ≠ .running then
      some (s.setPod i { s.pods i with stage := .returned })
    else none
  | .restart i =>
    if (s.pods i).stage = .returned ∧ s.cluster.ticks i = .idle then
      some ({ s with cluster := s.cluster.setElector i {} }.setPod i {})
    else none

section Invariants

variable {F : Fleet ι} {s t : Pods ι}

theorem PodsInvariant.setPod (h : PodsInvariant F s) {i : ι} {p : Pod}
    (hled : p.stage = .leading → (s.cluster.electors i).HasLed)
    (htime : p.body = .running → (s.cluster.electors i).HasLed ∧
      s.cluster.clock - (s.cluster.electors i).lastRenewSuccess ≤
        (F.settings i).leaseDurationSec) : PodsInvariant F (s.setPod i p) where
  lease := h.lease
  credited := h.credited
  led j hj := by
    by_cases hij : j = i
    · subst hij
      exact hled (by simpa [Pods.setPod] using hj)
    · exact h.led j (by simpa [Pods.setPod, Function.update_of_ne hij] using hj)
  inTime j hj := by
    by_cases hij : j = i
    · subst hij
      exact htime (by simpa [Pods.setPod] using hj)
    · exact h.inTime j (by simpa [Pods.setPod, Function.update_of_ne hij] using hj)

/-- What a step inside a tick does to the electors: a term of leadership stays on record
and the last renewal never goes back. -/
theorem tick_electors {c c' : Cluster ι} {e : TickEvent ι} (inv : Invariant F c)
    (h : InterleavedElectors.step F c e = some c') (i : ι) :
    ((c.electors i).HasLed → (c'.electors i).HasLed ∧
      (c.electors i).lastRenewSuccess ≤ (c'.electors i).lastRenewSuccess) ∧
    ∀ a, c'.ticks i = .returned a → a.isSuccess = true →
      c.ticks i = .returned a ∨ (c'.electors i).HasLed := by
  cases step_cases h with
  | advance => exact ⟨fun hl => ⟨hl, le_rfl⟩, fun a ha _ => .inl ha⟩
  | readClock =>
    refine ⟨fun hl => ⟨hl, le_rfl⟩, fun a ha _ => .inl ?_⟩
    rcases Cluster.returned_setTick ha with h | h
    · cases h
    · exact h
  | getRaised =>
    refine ⟨fun hl => ⟨hl, le_rfl⟩, fun a ha hs => .inl ?_⟩
    rcases Cluster.returned_setTick ha with h | h
    · cases h
      cases hs
    · exact h
  | get =>
    refine ⟨fun hl => ⟨hl, le_rfl⟩, fun a ha _ => .inl ?_⟩
    rcases Cluster.returned_setTick ha with h | h
    · cases h
    · exact h
  | writeRaised =>
    refine ⟨fun hl => ⟨hl, le_rfl⟩, fun a ha hs => .inl ?_⟩
    rcases Cluster.returned_setTick ha with h | h
    · cases h
      cases hs
    · exact h
  | write =>
    refine ⟨fun hl => ⟨hl, le_rfl⟩, fun a ha _ => .inl ?_⟩
    rcases Cluster.returned_setTick ha with h | h
    · cases h
    · exact h
  | @mark j now plan hj =>
    by_cases hij : i = j
    · subst hij
      have hp := inv.phase i
      rw [PhaseSound, hj] at hp
      obtain ⟨⟨-, hlast⟩, -⟩ := hp
      simp only [Cluster.setTick, Cluster.setElector, Function.update_self]
      cases plan with
      | standDown =>
        refine ⟨fun hl => ?_, fun a ha hs => ?_⟩
        · simpa [Plan.mark, LeaderElector.markNotLeader] using hl
        · obtain rfl : LeaseAttempt.heldByOther = a := by
            simpa [Plan.mark, LeaderElector.markNotLeader] using ha
          cases hs
      | create r =>
        have hled := LeaderElector.hasLed_markLeader (inv.consistent i) now true
        exact ⟨fun hl => ⟨hled, hlast hl⟩, fun _ _ _ => .inr hled⟩
      | update r a =>
        have hled := LeaderElector.hasLed_markLeader (inv.consistent i) now a
        exact ⟨fun hl => ⟨hled, hlast hl⟩, fun _ _ _ => .inr hled⟩
    · simp only [Cluster.setTick, Cluster.setElector, Function.update_of_ne hij]
      exact ⟨fun hl => ⟨hl, le_rfl⟩, fun a ha _ => .inl ha⟩
  | @expireSelf j =>
    by_cases hij : i = j
    · subst hij
      simp only [Cluster.setElector, Function.update_self, LeaderElector.hasLed_expireSelf,
        LeaderElector.expireSelf_lastRenewSuccess]
      exact ⟨fun hl => ⟨hl, le_rfl⟩, fun a ha _ => .inl ha⟩
    · simp only [Cluster.setElector, Function.update_of_ne hij]
      exact ⟨fun hl => ⟨hl, le_rfl⟩, fun a ha _ => .inl ha⟩

theorem tick_clock {c c' : Cluster ι} {e : TickEvent ι}
    (h : InterleavedElectors.step F c e = some c') :
    c'.clock = c.clock ∨ e = .advance c'.clock := by
  cases step_cases h with
  | advance => exact .inr rfl
  | readClock => exact .inl rfl
  | getRaised => exact .inl rfl
  | get => exact .inl rfl
  | writeRaised => exact .inl rfl
  | write => exact .inl rfl
  | mark => exact .inl rfl
  | expireSelf => exact .inl rfl

theorem PodsInvariant.tick (h : PodsInvariant F s) {e : TickEvent ι} {c : Cluster ι}
    (hok : InTime F s (.tick e)) (hc : InterleavedElectors.step F s.cluster e = some c) :
    PodsInvariant F { s with cluster := c } where
  lease := invariant_step h.lease (step_cases hc)
  credited i a ha hs := by
    obtain ⟨hled, hret⟩ := tick_electors h.lease hc i
    rcases hret a ha hs with hr | hr
    · exact (hled (h.credited i a hr hs)).1
    · exact hr
  led i hi := ((tick_electors h.lease hc i).1 (h.led i hi)).1
  inTime i hi := by
    obtain ⟨hl, hle⟩ := h.inTime i hi
    obtain ⟨hl', hmono⟩ := (tick_electors h.lease hc i).1 hl
    refine ⟨hl', ?_⟩
    rcases tick_clock hc with hclock | hadv
    · simp only [hclock]
      linarith
    · have hnew := hok
      rw [hadv] at hnew
      have := hnew i hi
      simp only
      linarith

theorem PodsInvariant.judge (h : PodsInvariant F s) {i : ι} {a : LeaseAttempt}
    (ha : s.cluster.ticks i = .returned a) :
    let r := judged (F.settings i) s.cluster.clock a (s.cluster.electors i) (s.pods i).stage
    PodsInvariant F ({ s with cluster := (s.cluster.setElector i r.2).setTick i .idle }.setPod i
      { s.pods i with stage := r.1 }) := by
  intro r
  have hled : r.2.HasLed ↔ (s.cluster.electors i).HasLed := by
    rcases judged_elector (F.settings i) s.cluster.clock a (s.cluster.electors i)
      (s.pods i).stage with he | he <;> simp [r, he]
  have hlast : r.2.lastRenewSuccess = (s.cluster.electors i).lastRenewSuccess := by
    rcases judged_elector (F.settings i) s.cluster.clock a (s.cluster.electors i)
      (s.pods i).stage with he | he <;> simp [r, he]
  have hcons : r.2.Consistent := by
    rcases judged_elector (F.settings i) s.cluster.clock a (s.cluster.electors i)
      (s.pods i).stage with he | he
    · simpa only [r, he] using h.lease.consistent i
    · simp [r, he, LeaderElector.Consistent]
  have hrest : Invariant F (s.cluster.setTick i .idle) :=
    h.lease.setTick (by simp [PhaseSound, Cluster.setTick])
  have hlease : Invariant F ((s.cluster.setElector i r.2).setTick i .idle) := by
    refine hrest.setElector hcons (.inl (Function.update_self ..)) fun hl => ?_
    rw [hlast]
    exact ⟨h.lease.past i (hled.mp hl), h.lease.covered i (hled.mp hl)⟩
  have hjudged : PodsInvariant F
      { s with cluster := (s.cluster.setElector i r.2).setTick i .idle } := by
    refine ⟨hlease, fun j b hb hs => ?_, fun j hj => ?_, fun j hj => ?_⟩
    all_goals by_cases hij : j = i
    · simp [Cluster.setTick, hij] at hb
    · simp only [Cluster.setTick, Cluster.setElector, Function.update_of_ne hij] at hb ⊢
      exact h.credited j b hb hs
    · subst hij
      simpa [Cluster.setTick, Cluster.setElector, hled] using h.led j hj
    · simpa [Cluster.setTick, Cluster.setElector, Function.update_of_ne hij] using h.led j hj
    · subst hij
      simpa [Cluster.setTick, Cluster.setElector, hled, hlast] using h.inTime j hj
    · simpa [Cluster.setTick, Cluster.setElector, Function.update_of_ne hij] using h.inTime j hj
  refine hjudged.setPod (fun hlead => ?_) fun hrun => ?_
  · have hl : (s.cluster.electors i).HasLed := by
      rcases judged_leading hlead with hst | hs
      · exact h.led i hst
      · exact h.credited i a ha hs
    simpa [Cluster.setTick, Cluster.setElector, hled] using hl
  · simpa [Cluster.setTick, Cluster.setElector, hled, hlast] using h.inTime i hrun

theorem PodsInvariant.restart (h : PodsInvariant F s) {i : ι} (hi : s.cluster.ticks i = .idle) :
    PodsInvariant F ({ s with cluster := s.cluster.setElector i {} }.setPod i {}) := by
  have hlease : Invariant F (s.cluster.setElector i {}) :=
    h.lease.setElector (by simp [LeaderElector.Consistent]) (.inl hi)
      (by simp [LeaderElector.HasLed])
  refine ⟨hlease, fun j a ha hs => ?_, fun j hj => ?_, fun j hj => ?_⟩
  all_goals by_cases hij : j = i
  · simp [Pods.setPod, Cluster.setElector, hij, hi] at ha
  · simpa [Pods.setPod, Cluster.setElector, Function.update_of_ne hij] using h.credited j a ha hs
  · simp [Pods.setPod, hij] at hj
  · simp only [Pods.setPod, Function.update_of_ne hij] at hj
    simpa [Pods.setPod, Cluster.setElector, Function.update_of_ne hij] using h.led j hj
  · simp [Pods.setPod, hij] at hj
  · simp only [Pods.setPod, Function.update_of_ne hij] at hj
    simpa [Pods.setPod, Cluster.setElector, Function.update_of_ne hij] using h.inTime j hj

theorem podsInvariant_step {e : PodEvent ι} (h : PodsInvariant F s)
    (hs : guarded (InTime F) (ofStep (step F)) s e t) : PodsInvariant F t := by
  obtain ⟨hok, hstep⟩ := hs
  simp only [ofStep, step] at hstep
  cases e with
  | tick e =>
    simp only at hstep
    split at hstep
    · obtain ⟨c, hc, rfl⟩ := Option.map_eq_some_iff.mp hstep
      exact h.tick hok hc
    · cases hstep
  | judge i =>
    simp only at hstep
    split at hstep
    · next a ha => exact Option.some.inj hstep ▸ h.judge ha
    · cases hstep
  | startBody i =>
    simp only at hstep
    split at hstep
    · next hi =>
      have hl := h.led i hi.1
      exact Option.some.inj hstep ▸ h.setPod (fun _ => hl) fun _ => ⟨hl, hok⟩
    · cases hstep
  | finishBody i =>
    simp only at hstep
    split at hstep
    · exact Option.some.inj hstep ▸ h.setPod (h.led i) (by simp)
    · cases hstep
  | serviceDone i =>
    simp only at hstep
    split at hstep
    · exact Option.some.inj hstep ▸ h.setPod (by simp) (h.inTime i)
    · cases hstep
  | setStop i => exact Option.some.inj hstep ▸ h.setPod (h.led i) (h.inTime i)
  | seeStop i =>
    simp only at hstep
    split at hstep
    · split at hstep
      · exact Option.some.inj hstep ▸ h.setPod (by simp) (h.inTime i)
      · exact Option.some.inj hstep ▸ h.setPod (by simp) (h.inTime i)
      · cases hstep
    · cases hstep
  | leave i =>
    simp only at hstep
    split at hstep
    · exact Option.some.inj hstep ▸ h.setPod (by simp) (h.inTime i)
    · cases hstep
  | restart i =>
    simp only at hstep
    split at hstep
    · next hi => exact Option.some.inj hstep ▸ h.restart hi.2
    · cases hstep

/-- In runs whose bodies are all in time, a body starts only while no other is running. -/
theorem body_starts_alone (h : Reachable InitialPods (guarded (InTime F) (ofStep (step F))) s)
    {i : ι} (hs : guarded (InTime F) (ofStep (step F)) s (.startBody i) t) {j : ι} (hij : j ≠ i) :
    (s.pods j).body ≠ .running := by
  have inv : PodsInvariant F s :=
    h.invariant (fun _ => podsInvariant_initial) fun _ _ _ => podsInvariant_step
  intro hj
  have inv' := podsInvariant_step inv hs
  obtain ⟨-, hstep⟩ := hs
  simp only [ofStep, step] at hstep
  split at hstep
  · obtain rfl := Option.some.inj hstep
    refine hij (inv'.running_unique ?_ ?_)
    · simpa [Pods.setPod, Function.update_of_ne hij] using hj
    · simp [Pods.setPod]
  · cases hstep

end Invariants

def standbyPods : Pods Bool := ⟨emptyCluster, fun _ => {}⟩

theorem initialPods_standbyPods : InitialPods standbyPods :=
  ⟨⟨rfl, fun _ => rfl, fun _ => rfl⟩, fun _ => rfl⟩

instance [Fintype ι] (F : Fleet ι) (s : Pods ι) (e : PodEvent ι) : Decidable (InTime F s e) :=
  match e with
  | .startBody _ => inferInstanceAs (Decidable (_ ≤ _))
  | .tick (.advance _) => inferInstanceAs (Decidable (∀ _, _ → _))
  | .tick (.readClock _) | .tick (.get _ _) | .tick (.write _ _) | .tick (.mark _)
  | .tick (.expireSelf _) | .judge _ | .finishBody _ | .serviceDone _ | .setStop _ | .seeStop _
  | .leave _ | .restart _ => isTrue trivial

/-- A tick whose backend calls go through, up to its judgement. -/
def wholeTick (i : ι) : List (PodEvent ι) :=
  [.tick (.readClock i), .tick (.get i .none), .tick (.write i .none), .tick (.mark i), .judge i]

/-- A tick whose `get` raises. -/
def failedTick (i : ι) : List (PodEvent ι) :=
  [.tick (.readClock i), .tick (.get i .before), .judge i]

/-- `pod-0` leads first, `pod-1` stands by, and the service of `pod-0` starts alone. -/
theorem body_starts_alone_first_leader :
    ∃ s t, Reachable InitialPods (guarded (InTime twoPods) (ofStep (step twoPods))) s ∧
      guarded (InTime twoPods) (ofStep (step twoPods)) s (.startBody true) t ∧
      ∀ j, j ≠ true → (s.pods j).body ≠ .running := by
  obtain ⟨s, hr, hok, hsome⟩ := Run.ofGuardedFold_satisfies (step twoPods) (InTime twoPods)
    standbyPods (wholeTick true ++ wholeTick false)
    (fun s => InTime twoPods s (.startBody true) ∧
      (step twoPods s (.startBody true)).isSome = true)
    (by decide +kernel)
  obtain ⟨t, ht⟩ := Option.isSome_iff_exists.mp hsome
  have hreach : Reachable InitialPods (guarded (InTime twoPods) (ofStep (step twoPods))) s :=
    ⟨standbyPods, _, initialPods_standbyPods, hr⟩
  exact ⟨s, t, hreach, ⟨hok, ht⟩, fun j hj => body_starts_alone hreach ⟨hok, ht⟩ hj⟩

/-- The backend is down for `pod-0` from its first renewal on. At twelve seconds it asks its
service to stop; at sixteen, with that service still unwinding, `pod-1` takes the lease over
and starts its own. -/
theorem body_starts_beside_unwinding_body :
    ∃ s t, (∀ i, (twoPods.settings i).renewDeadlineSec + (twoPods.settings i).retryPeriodSec ≤
        (twoPods.settings i).leaseDurationSec) ∧
      Reachable InitialPods (ofStep (step twoPods)) s ∧
      step twoPods s (.startBody false) = some t ∧
      (s.pods true).stage = .unwinding ∧ (s.pods true).body = .running := by
  obtain ⟨s, hr, hsome, hst, hb⟩ := Run.ofFold_satisfies (step twoPods) standbyPods
    (wholeTick true ++ [.startBody true] ++
      [2, 4, 6, 8, 10, 12].flatMap (fun t => .tick (.advance t) :: failedTick true) ++
      .tick (.advance 16) :: wholeTick false)
    (fun s => (step twoPods s (.startBody false)).isSome = true ∧
      (s.pods true).stage = .unwinding ∧ (s.pods true).body = .running)
    (by decide +kernel)
  obtain ⟨t, ht⟩ := Option.isSome_iff_exists.mp hsome
  exact ⟨s, t, by decide +kernel, ⟨standbyPods, _, initialPods_standbyPods, hr⟩, ht, hst, hb⟩

end BifrostSocket.LeadershipServices
