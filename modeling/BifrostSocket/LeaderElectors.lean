import BifrostSocket.LeaseRecords

/-!
# The leader elector's tick

One call of `try_acquire_or_renew` reads the record, decides what to write, writes, and
marks the outcome locally. The decision and the marking are functions of their own, so
that the uninterrupted tick below and the interleaved ticks of several electors run the
same code.
-/

namespace BifrostSocket.LeaderElectors
open TransitionRuns LeaseRecords

/-- Outcome of a single tick. -/
inductive LeaseAttempt where
  | acquired | renewed | heldByOther | failed
  deriving DecidableEq

/-- The drivers go on leading after these outcomes. -/
def LeaseAttempt.isSuccess : LeaseAttempt → Bool
  | .acquired | .renewed => true
  | .heldByOther | .failed => false

inductive LeaderCall where
  | onStartedLeading | onStoppedLeading
  deriving DecidableEq

structure ElectorSettings where
  identity : String
  leaseDurationSec : ℚ := defaultLeaseDurationSec
  renewDeadlineSec : ℚ := defaultRenewDeadlineSec
  retryPeriodSec : ℚ := defaultRetryPeriodSec
  deriving DecidableEq

/-- The elector's own fields, and the callbacks it has fired so far. A callback that
raises is caught by `_safe_call`, so it changes nothing here. -/
structure LeaderElector where
  isLeader : Bool := false
  lastRenewSuccess : ℚ := 0
  calls : List LeaderCall := []
  deriving DecidableEq

namespace LeaderElector

def markLeader (e : LeaderElector) (now : ℚ) (acquired : Bool) : LeaseAttempt × LeaderElector :=
  let calls := if e.isLeader then e.calls else e.calls ++ [.onStartedLeading]
  (if acquired || !e.isLeader then .acquired else .renewed,
    { isLeader := true, lastRenewSuccess := now, calls })

/-- `_expire_self`, and the demotion inside `_mark_not_leader`. -/
def expireSelf (e : LeaderElector) : LeaderElector :=
  if e.isLeader then
    { e with isLeader := false, calls := e.calls ++ [.onStoppedLeading] }
  else e

def markNotLeader (e : LeaderElector) (definitive : Bool) : LeaseAttempt × LeaderElector :=
  (if definitive then .heldByOther else .failed, e.expireSelf)

@[simp] theorem markLeader_lastRenewSuccess (e : LeaderElector) (now : ℚ) (a : Bool) :
    (e.markLeader now a).2.lastRenewSuccess = now := rfl

@[simp] theorem markLeader_isSuccess (e : LeaderElector) (now : ℚ) (a : Bool) :
    (e.markLeader now a).1.isSuccess = true := by
  unfold markLeader
  dsimp only
  split <;> rfl

@[simp] theorem expireSelf_isLeader (e : LeaderElector) : e.expireSelf.isLeader = false := by
  cases h : e.isLeader <;> simp [expireSelf, h]

@[simp] theorem expireSelf_lastRenewSuccess (e : LeaderElector) :
    e.expireSelf.lastRenewSuccess = e.lastRenewSuccess := by
  cases h : e.isLeader <;> simp [expireSelf, h]

/-- A term of leadership was begun at some time. -/
def HasLed (e : LeaderElector) : Prop := .onStartedLeading ∈ e.calls

/-- The flag is only ever set together with the first callback of a term. -/
def Consistent (e : LeaderElector) : Prop := e.isLeader = true → e.HasLed

theorem hasLed_markLeader {e : LeaderElector} (h : e.Consistent) (now : ℚ) (a : Bool) :
    (e.markLeader now a).2.HasLed := by
  cases hl : e.isLeader with
  | true => simpa [markLeader, hl, HasLed] using h hl
  | false => simp [markLeader, hl, HasLed]

@[simp] theorem hasLed_expireSelf (e : LeaderElector) : e.expireSelf.HasLed ↔ e.HasLed := by
  cases h : e.isLeader <;> simp [expireSelf, h, HasLed]

end LeaderElector

/-- What a tick does with the record it read: stand down without writing, create the
lease, or update it. -/
inductive Plan where
  | standDown
  | create (fresh : LeaseRecord)
  | update (candidate : LeaseRecord) (acquired : Bool)
  deriving DecidableEq

namespace Plan

def of (s : ElectorSettings) (now : ℚ) : Option LeaseRecord → Plan
  | none => .create {
      holderIdentity := s.identity
      leaseDurationSec := s.leaseDurationSec
      acquireTime := now
      renewTime := now
      leaseTransitions := 0 }
  | some observed =>
    let heldByUs := observed.holderIdentity == s.identity
    if !heldByUs && !observed.isExpired now then .standDown
    else
      let candidate := { observed with
        holderIdentity := s.identity
        leaseDurationSec := s.leaseDurationSec
        renewTime := now }
      if heldByUs then .update candidate false
      else .update { candidate with
        acquireTime := now
        leaseTransitions := observed.leaseTransitions + 1 } true

/-- The backend call of the plan: whether it returned normally, and the backend after. -/
def perform (b : InMemoryLeaseBackend) (fault : CallFault) : Plan → Bool × InMemoryLeaseBackend
  | .standDown => (true, b)
  | .create fresh => b.callWith (·.create fresh) fault
  | .update candidate _ => b.callWith (·.update candidate) fault

/-- The local marking after the plan went through. -/
def mark (now : ℚ) (e : LeaderElector) : Plan → LeaseAttempt × LeaderElector
  | .standDown => e.markNotLeader true
  | .create _ => e.markLeader now true
  | .update _ acquired => e.markLeader now acquired

/-- The record the plan asks the backend to store. -/
def record : Plan → Option LeaseRecord
  | .standDown => none
  | .create fresh => some fresh
  | .update candidate _ => some candidate

end Plan

/-- A whole uninterrupted tick. -/
def tryAcquireOrRenew (s : ElectorSettings) (now : ℚ) (getFault writeFault : CallFault)
    (e : LeaderElector) (b : InMemoryLeaseBackend) :
    LeaseAttempt × LeaderElector × InMemoryLeaseBackend :=
  match b.getWith getFault with
  | none => (.failed, e, b)
  | some observed =>
    let plan := Plan.of s now observed
    match plan.perform b writeFault with
    | (false, b') => (.failed, e, b')
    | (true, b') => ((plan.mark now e).1, (plan.mark now e).2, b')

/-- How `renew_until_lost` goes on after a tick: whether it renews again, and the elector.
A definitive loss ends it; a transient failure does so once the renew deadline has passed. -/
def LeaderElector.afterRenewTick (s : ElectorSettings) (clock : ℚ) (attempt : LeaseAttempt)
    (e : LeaderElector) : Bool × LeaderElector :=
  if attempt.isSuccess then (true, e)
  else if attempt = .heldByOther then (false, e)
  else if clock - e.lastRenewSuccess > s.renewDeadlineSec then (false, e.expireSelf)
  else (true, e)

section AfterRenewTick

variable {s : ElectorSettings} {clock : ℚ} {a : LeaseAttempt} {e : LeaderElector}

theorem afterRenewTick_cases :
    (e.afterRenewTick s clock a).2 = e ∨ (e.afterRenewTick s clock a).2 = e.expireSelf := by
  unfold LeaderElector.afterRenewTick
  split
  · exact .inl rfl
  · split
    · exact .inl rfl
    · split
      · exact .inr rfl
      · exact .inl rfl

theorem afterRenewTick_leads (hother : a = .heldByOther → e.isLeader = false)
    (h : (e.afterRenewTick s clock a).2.isLeader = true) :
    e.afterRenewTick s clock a = (true, e) ∧
      (a.isSuccess = false → clock - e.lastRenewSuccess ≤ s.renewDeadlineSec) := by
  unfold LeaderElector.afterRenewTick at h ⊢
  split at h
  · next hs => simp [hs]
  · next hs =>
    split at h
    · next ha => simp [hother ha] at h
    · next ha =>
      split at h
      · simp at h
      · next hle => exact ⟨by rw [if_neg hs, if_neg ha, if_neg hle], fun _ => not_lt.mp hle⟩

end AfterRenewTick

section PlanFacts

variable {s : ElectorSettings} {now : ℚ}

/-- Every record a tick writes names the writer, its own duration, and its tick time. -/
theorem Plan.of_record {observed : Option LeaseRecord} {r : LeaseRecord}
    (h : (Plan.of s now observed).record = some r) :
    r.holderIdentity = s.identity ∧ r.leaseDurationSec = s.leaseDurationSec ∧
      r.renewTime = now := by
  cases observed with
  | none =>
    obtain rfl := Option.some.inj h
    exact ⟨rfl, rfl, rfl⟩
  | some o =>
    simp only [Plan.of] at h
    split at h
    · cases h
    · split at h <;> obtain rfl := Option.some.inj h <;> exact ⟨rfl, rfl, rfl⟩

/-- A tick updates only its own record or an expired one, under the version it read. -/
theorem Plan.of_update {observed : Option LeaseRecord} {c : LeaseRecord} {a : Bool}
    (h : Plan.of s now observed = .update c a) :
    ∃ o, observed = some o ∧ c.resourceVersion = o.resourceVersion ∧
      (o.holderIdentity ≠ s.identity → o.renewTime + o.leaseDurationSec < now) := by
  cases observed with
  | none => cases h
  | some o =>
    refine ⟨o, rfl, ?_⟩
    simp only [Plan.of] at h
    split at h
    · cases h
    · next hexp =>
      have hother : o.holderIdentity ≠ s.identity → o.renewTime + o.leaseDurationSec < now := by
        intro hne
        simpa [hne] using hexp
      split at h <;> cases h <;> exact ⟨rfl, hother⟩

end PlanFacts

/-- The effect of a plan on the backend. Either nothing was stored, and then a normal
return means there was nothing to store; or the plan's record was stored. -/
theorem Plan.perform_cases (p : Plan) (b : InMemoryLeaseBackend) (fault : CallFault) :
    ((p.perform b fault).2 = b ∧ ((p.perform b fault).1 = true → p = .standDown)) ∨
      ∃ r, p.record = some r ∧ (p.perform b fault).2 = (b.store r).2 ∧
        ((∃ s b', p = .create r ∧ b.create r = .ok (s, b')) ∨
          ∃ a s b', p = .update r a ∧ b.update r = .ok (s, b')) := by
  cases p with
  | standDown => exact .inl ⟨rfl, fun _ => rfl⟩
  | create r =>
    rcases b.callWith_cases (·.create r) fault with h | ⟨s, b', hw, hb⟩
    · exact .inl (by simp [perform, h])
    · refine .inr ⟨r, rfl, ?_, .inl ⟨s, b', rfl, hw⟩⟩
      rw [perform, hb, (InMemoryLeaseBackend.create_ok hw).2]
  | update r a =>
    rcases b.callWith_cases (·.update r) fault with h | ⟨s, b', hw, hb⟩
    · exact .inl (by simp [perform, h])
    · obtain ⟨-, -, -, rfl⟩ := InMemoryLeaseBackend.update_ok hw
      exact .inr ⟨r, rfl, by rw [perform, hb], .inr ⟨a, s, _, rfl, hw⟩⟩

end BifrostSocket.LeaderElectors
