import BifrostSocket.LeaderElectors
import BifrostSocket.TransitionRuns

/-!
# Electors interleaved over one backend

Any number of electors share a backend and a clock that never goes back. A tick is taken
apart into its steps: read the clock, `get`, the write, the local marking. Steps of
different electors interleave freely and any delay may pass between them.
-/

namespace BifrostSocket.InterleavedElectors
open LeaseRecords LeaderElectors TransitionRuns

/-- Electors with pairwise distinct identities. -/
structure Fleet (ι : Type) where
  settings : ι → ElectorSettings
  distinct : Function.Injective fun i => (settings i).identity

/-- How far an elector's tick has come. -/
inductive TickPhase where
  | idle
  | clockRead (now : ℚ)
  | observed (now : ℚ) (plan : Plan)
  | performed (now : ℚ) (plan : Plan)
  | returned (attempt : LeaseAttempt)
  deriving DecidableEq

structure Cluster (ι : Type) where
  clock : ℚ
  backend : InMemoryLeaseBackend
  electors : ι → LeaderElector
  ticks : ι → TickPhase

inductive TickEvent (ι : Type) where
  | advance (t : ℚ)
  | readClock (i : ι)
  | get (i : ι) (fault : CallFault)
  | write (i : ι) (fault : CallFault)
  | mark (i : ι)
  | expireSelf (i : ι)

variable {ι : Type} [DecidableEq ι]

def Cluster.setTick (c : Cluster ι) (i : ι) (p : TickPhase) : Cluster ι :=
  { c with ticks := Function.update c.ticks i p }

def Cluster.setElector (c : Cluster ι) (i : ι) (e : LeaderElector) : Cluster ι :=
  { c with electors := Function.update c.electors i e }

/-- An elector whose tick has returned: it was set to that now, or had returned before. -/
theorem Cluster.returned_setTick {c : Cluster ι} {i j : ι} {p : TickPhase} {a : LeaseAttempt}
    (h : (c.setTick j p).ticks i = .returned a) : p = .returned a ∨ c.ticks i = .returned a := by
  by_cases hij : i = j
  · subst hij
    exact .inl (by simpa [setTick] using h)
  · exact .inr (by simpa [setTick, Function.update_of_ne hij] using h)

/-- One step of one elector, or of the clock. A tick that has returned may be followed by
the next one. -/
def step (F : Fleet ι) (c : Cluster ι) : TickEvent ι → Option (Cluster ι)
  | .advance t => if c.clock ≤ t then some { c with clock := t } else none
  | .readClock i => match c.ticks i with
    | .idle | .returned _ => some (c.setTick i (.clockRead c.clock))
    | _ => none
  | .get i fault => match c.ticks i with
    | .clockRead now => match c.backend.getWith fault with
      | none => some (c.setTick i (.returned .failed))
      | some observed => some (c.setTick i (.observed now (Plan.of (F.settings i) now observed)))
    | _ => none
  | .write i fault => match c.ticks i with
    | .observed now plan => match plan.perform c.backend fault with
      | (false, b) => some ({ c with backend := b }.setTick i (.returned .failed))
      | (true, b) => some ({ c with backend := b }.setTick i (.performed now plan))
    | _ => none
  | .mark i => match c.ticks i with
    | .performed now plan =>
      let r := plan.mark now (c.electors i)
      some ((c.setElector i r.2).setTick i (.returned r.1))
    | _ => none
  | .expireSelf i => match c.ticks i with
    | .idle | .returned _ => some (c.setElector i (c.electors i).expireSelf)
    | _ => none

/-- No tick of this elector is under way. -/
def Cluster.Resting (c : Cluster ι) (i : ι) : Prop :=
  c.ticks i = .idle ∨ ∃ a, c.ticks i = .returned a

/-- The same transitions, one constructor for each way a step can go. -/
inductive Step (F : Fleet ι) (c : Cluster ι) : TickEvent ι → Cluster ι → Prop where
  | advance {t} (h : c.clock ≤ t) : Step F c (.advance t) { c with clock := t }
  | readClock {i} (h : c.Resting i) : Step F c (.readClock i) (c.setTick i (.clockRead c.clock))
  | getRaised {i f now} (h : c.ticks i = .clockRead now) :
      Step F c (.get i f) (c.setTick i (.returned .failed))
  | get {i f now} (h : c.ticks i = .clockRead now) :
      Step F c (.get i f) (c.setTick i (.observed now (Plan.of (F.settings i) now c.backend.get)))
  | writeRaised {i f now plan} (h : c.ticks i = .observed now plan) :
      Step F c (.write i f)
        ({ c with backend := (plan.perform c.backend f).2 }.setTick i (.returned .failed))
  | write {i f now plan} (h : c.ticks i = .observed now plan)
      (hok : (plan.perform c.backend f).1 = true) :
      Step F c (.write i f)
        ({ c with backend := (plan.perform c.backend f).2 }.setTick i (.performed now plan))
  | mark {i now plan} (h : c.ticks i = .performed now plan) :
      Step F c (.mark i) ((c.setElector i (plan.mark now (c.electors i)).2).setTick i
        (.returned (plan.mark now (c.electors i)).1))
  | expireSelf {i} (h : c.Resting i) :
      Step F c (.expireSelf i) (c.setElector i (c.electors i).expireSelf)

theorem step_cases {F : Fleet ι} {c c' : Cluster ι} {e : TickEvent ι}
    (h : step F c e = some c') : Step F c e c' := by
  cases e with
  | advance t =>
    simp only [step] at h
    split at h
    · next hle => exact Option.some.inj h ▸ .advance hle
    · cases h
  | readClock i =>
    simp only [step] at h
    split at h
    · next hp => exact Option.some.inj h ▸ .readClock (.inl hp)
    · next a hp => exact Option.some.inj h ▸ .readClock (.inr ⟨a, hp⟩)
    · cases h
  | get i f =>
    simp only [step] at h
    split at h
    · next now hp =>
      cases f with
      | none => exact Option.some.inj h ▸ .get hp
      | before => exact Option.some.inj h ▸ .getRaised hp
      | after => exact Option.some.inj h ▸ .getRaised hp
    · cases h
  | write i f =>
    simp only [step] at h
    split at h
    · next now plan hp =>
      split at h
      · next b hb =>
        rw [show b = (plan.perform c.backend f).2 by rw [hb]] at h
        exact Option.some.inj h ▸ .writeRaised hp
      · next b hb =>
        rw [show b = (plan.perform c.backend f).2 by rw [hb]] at h
        exact Option.some.inj h ▸ .write hp (by rw [hb])
    · cases h
  | mark i =>
    simp only [step] at h
    split at h
    · next now plan hp => exact Option.some.inj h ▸ .mark hp
    · cases h
  | expireSelf i =>
    simp only [step] at h
    split at h
    · next hp => exact Option.some.inj h ▸ .expireSelf (.inl hp)
    · next a hp => exact Option.some.inj h ▸ .expireSelf (.inr ⟨a, hp⟩)
    · cases h

/-- Fresh electors on an empty backend, at any time of the clock. -/
def Initial (c : Cluster ι) : Prop :=
  c.backend = {} ∧ (∀ i, c.electors i = {}) ∧ ∀ i, c.ticks i = .idle

abbrev ReachableCluster (F : Fleet ι) : Cluster ι → Prop :=
  Reachable Initial (ofStep (step F))

section Uninterrupted

theorem Cluster.setElector_self (c : Cluster ι) (i : ι) : c.setElector i (c.electors i) = c := by
  simp [setElector]

/-- The four steps of one tick taken in a row are the tick of the source. -/
theorem uninterrupted_tick (F : Fleet ι) (c : Cluster ι) (i : ι) (f g : CallFault)
    (h : c.ticks i = .idle) :
    let r := tryAcquireOrRenew (F.settings i) c.clock f g (c.electors i) c.backend
    ∃ es, Run (ofStep (step F)) c es
      (({ c with backend := r.2.2 }.setElector i r.2.1).setTick i (.returned r.1)) := by
  have hread : step F c (.readClock i) = some (c.setTick i (.clockRead c.clock)) := by
    simp [step, h]
  cases hget : c.backend.getWith f with
  | none =>
    have hg : step F (c.setTick i (.clockRead c.clock)) (.get i f) =
        some (c.setTick i (.returned .failed)) := by
      simp [step, Cluster.setTick, hget]
    exact ⟨[.readClock i, .get i f], by
      simpa [tryAcquireOrRenew, hget, Cluster.setElector_self] using Run.cons hread (.single hg)⟩
  | some observed =>
    let plan := Plan.of (F.settings i) c.clock observed
    have hg : step F (c.setTick i (.clockRead c.clock)) (.get i f) =
        some (c.setTick i (.observed c.clock plan)) := by
      simp [step, Cluster.setTick, hget, plan]
    cases hp : plan.perform c.backend g with
    | mk ok b =>
      cases ok with
      | false =>
        have hw : step F (c.setTick i (.observed c.clock plan)) (.write i g) =
            some ({ c with backend := b }.setTick i (.returned .failed)) := by
          simp [step, Cluster.setTick, hp]
        have he := Cluster.setElector_self { c with backend := b } i
        refine ⟨[.readClock i, .get i f, .write i g], ?_⟩
        simpa [tryAcquireOrRenew, hget, hp, he, plan] using Run.cons hread (.cons hg (.single hw))
      | true =>
        have hw : step F (c.setTick i (.observed c.clock plan)) (.write i g) =
            some ({ c with backend := b }.setTick i (.performed c.clock plan)) := by
          simp [step, Cluster.setTick, hp]
        have hm : step F ({ c with backend := b }.setTick i (.performed c.clock plan)) (.mark i) =
            some (({ c with backend := b }.setElector i
              (plan.mark c.clock (c.electors i)).2).setTick i
                (.returned (plan.mark c.clock (c.electors i)).1)) := by
          simp [step, Cluster.setTick, Cluster.setElector]
        have hr : Run (ofStep (step F)) c [.readClock i, .get i f, .write i g, .mark i] _ :=
          .cons hread (.cons hg (.cons hw (.single hm)))
        exact ⟨_, by simpa [tryAcquireOrRenew, hget, hp, plan] using hr⟩

end Uninterrupted

end BifrostSocket.InterleavedElectors
