import BifrostSocket.TransitionRuns
import Mathlib.Algebra.Order.Field.Rat
import Mathlib.Tactic.Linarith

/-!
# Lease records and the in-memory lease backend

The stored lease, its expiry test, and `InMemoryLeaseBackend` with its optimistic
concurrency: every write stamps the record with the next value of a counter, and an
update is accepted only under the version it was read with. Seconds are exact rationals.
A backend call may raise before or after it took effect.
-/

namespace BifrostSocket.LeaseRecords
open TransitionRuns

def defaultLeaseDurationSec : ℚ := 15
def defaultRenewDeadlineSec : ℚ := 10
def defaultRetryPeriodSec : ℚ := 2

/-- The part of a lease that the electors read and write. -/
structure LeaseRecord where
  holderIdentity : String
  leaseDurationSec : ℚ := defaultLeaseDurationSec
  acquireTime : ℚ := 0
  renewTime : ℚ := 0
  leaseTransitions : ℤ := 0
  resourceVersion : Option String := none
  deriving DecidableEq

/-- The lease can be taken over: its last renewal is older than its duration. -/
def LeaseRecord.isExpired (r : LeaseRecord) (now : ℚ) : Bool :=
  decide (now - r.renewTime > r.leaseDurationSec)

@[simp] theorem LeaseRecord.isExpired_iff (r : LeaseRecord) (now : ℚ) :
    r.isExpired now = true ↔ r.renewTime + r.leaseDurationSec < now := by
  simp only [isExpired, decide_eq_true_eq]
  constructor <;> intro h <;> linarith

/-- The reasons for which a write loses the optimistic-concurrency race. -/
inductive LeaseConflict where
  | alreadyExists
  | doesNotExist
  | versionMismatch (have' got : Option String)
  deriving DecidableEq

structure InMemoryLeaseBackend where
  record : Option LeaseRecord := none
  version : ℕ := 0
  deriving DecidableEq

namespace InMemoryLeaseBackend

def get (b : InMemoryLeaseBackend) : Option LeaseRecord := b.record

/-- Store a record under the next version. -/
def store (b : InMemoryLeaseBackend) (r : LeaseRecord) : LeaseRecord × InMemoryLeaseBackend :=
  let stored := { r with resourceVersion := some (toString (b.version + 1)) }
  (stored, ⟨some stored, b.version + 1⟩)

def create (b : InMemoryLeaseBackend) (r : LeaseRecord) :
    Except LeaseConflict (LeaseRecord × InMemoryLeaseBackend) :=
  match b.record with
  | some _ => .error .alreadyExists
  | none => .ok (b.store r)

def update (b : InMemoryLeaseBackend) (r : LeaseRecord) :
    Except LeaseConflict (LeaseRecord × InMemoryLeaseBackend) :=
  match b.record with
  | none => .error .doesNotExist
  | some cur =>
    if r.resourceVersion ≠ cur.resourceVersion then
      .error (.versionMismatch cur.resourceVersion r.resourceVersion)
    else .ok (b.store r)

/-- A call of `get` under a fault: `none` when it raised. -/
def getWith (b : InMemoryLeaseBackend) : CallFault → Option (Option LeaseRecord)
  | .none => some b.get
  | .before | .after => none

/-- A write under a fault: whether the call returned normally, and the backend after it. -/
def callWith (b : InMemoryLeaseBackend)
    (w : InMemoryLeaseBackend → Except LeaseConflict (LeaseRecord × InMemoryLeaseBackend)) :
    CallFault → Bool × InMemoryLeaseBackend
  | .before => (false, b)
  | .none => match w b with
    | .ok (_, b') => (true, b')
    | .error _ => (false, b)
  | .after => match w b with
    | .ok (_, b') => (false, b')
    | .error _ => (false, b)

/-- Every stored record carries the version of the write that stored it. -/
def Versioned (b : InMemoryLeaseBackend) : Prop :=
  ∀ r ∈ b.record, r.resourceVersion = some (toString b.version)

/-- `r` was read from this backend, now or in the past: its version is not newer than
the current one, and equal versions mean equal records. -/
def Seen (b : InMemoryLeaseBackend) (r : LeaseRecord) : Prop :=
  ∃ v ≤ b.version, r.resourceVersion = some (toString v) ∧
    (v = b.version → b.record = some r)

theorem versioned_empty : Versioned {} := by simp [Versioned]

theorem versioned_store (b : InMemoryLeaseBackend) (r : LeaseRecord) :
    Versioned (b.store r).2 := by
  simp [Versioned, store]

theorem Versioned.seen {b : InMemoryLeaseBackend} (h : b.Versioned) {r : LeaseRecord}
    (hr : b.get = some r) : b.Seen r :=
  ⟨b.version, le_rfl, h r hr, fun _ => hr⟩

theorem Seen.store {b : InMemoryLeaseBackend} {r : LeaseRecord} (h : b.Seen r)
    (r' : LeaseRecord) : (b.store r').2.Seen r := by
  obtain ⟨v, hv, hr, -⟩ := h
  exact ⟨v, Nat.le_succ_of_le hv, hr, fun he => by simp [InMemoryLeaseBackend.store] at he; omega⟩

/-- A write that takes effect stores its record under the next version; otherwise the
backend is unchanged. -/
theorem create_ok {b b' : InMemoryLeaseBackend} {r s : LeaseRecord}
    (h : b.create r = .ok (s, b')) : b.record = none ∧ b' = (b.store r).2 := by
  unfold create at h
  split at h
  · cases h
  · next hn => exact ⟨hn, by simpa using (congrArg Prod.snd (Except.ok.inj h)).symm⟩

theorem update_ok {b b' : InMemoryLeaseBackend} {r s : LeaseRecord}
    (h : b.update r = .ok (s, b')) :
    ∃ cur, b.record = some cur ∧ r.resourceVersion = cur.resourceVersion ∧
      b' = (b.store r).2 := by
  unfold update at h
  split at h
  · cases h
  · next cur hc =>
    split at h
    · cases h
    · next hv =>
      exact ⟨cur, hc, not_not.mp hv, by simpa using (congrArg Prod.snd (Except.ok.inj h)).symm⟩

/-- Compare-and-swap: an update of a record read from this backend is accepted only when
that record is still the stored one. -/
theorem Seen.current {b b' : InMemoryLeaseBackend} (hb : b.Versioned) {r c s : LeaseRecord}
    (hr : b.Seen r) (hc : c.resourceVersion = r.resourceVersion)
    (h : b.update c = .ok (s, b')) : b.record = some r := by
  obtain ⟨cur, hcur, hv, -⟩ := update_ok h
  obtain ⟨v, -, hrv, heq⟩ := hr
  apply heq
  have : some (toString v) = some (toString b.version) := by
    rw [← hrv, ← hc, hv, hb cur hcur]
  have hdigits := congrArg (fun text => Nat.ofDigitChars 10 text.toList 0) (Option.some.inj this)
  simpa [Nat.toList_repr, Nat.ofDigitChars_toDigits] using hdigits

theorem eq_get_of_getWith {b : InMemoryLeaseBackend} {fault : CallFault}
    {observed : Option LeaseRecord} (h : b.getWith fault = some observed) : observed = b.get := by
  cases fault with
  | none => exact (Option.some.inj h).symm
  | before => cases h
  | after => cases h

/-- A faulty write either did nothing or took its full effect; it reports success only
in the second case. -/
theorem callWith_cases (b : InMemoryLeaseBackend)
    (w : InMemoryLeaseBackend → Except LeaseConflict (LeaseRecord × InMemoryLeaseBackend))
    (fault : CallFault) :
    b.callWith w fault = (false, b) ∨
      ∃ s b', w b = .ok (s, b') ∧ (b.callWith w fault).2 = b' := by
  cases fault with
  | before => exact .inl rfl
  | none => cases hw : w b with
    | error => simp [callWith, hw]
    | ok p => exact .inr ⟨p.1, p.2, rfl, by simp [callWith, hw]⟩
  | after => cases hw : w b with
    | error => simp [callWith, hw]
    | ok p => exact .inr ⟨p.1, p.2, rfl, by simp [callWith, hw]⟩

end InMemoryLeaseBackend

end BifrostSocket.LeaseRecords
