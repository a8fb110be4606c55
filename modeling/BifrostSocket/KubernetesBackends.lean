import BifrostSocket.ElectorRuns
import BifrostSocket.KubernetesLeases

/-!
# The Kubernetes lease backend

`KubernetesLeaseBackend` keeps a lease behind an API server. The server stamps each write with a
version that only it can read; a replacement of an older version is refused. Every request may
also fail for other reasons, before the server has acted or after.
-/

namespace BifrostSocket.KubernetesBackends
open TransitionRuns LeaseRecords LeaderElectors ElectorRuns KubernetesLeases

section Server

/-- How a server names its versions, and the status it refuses a replacement with that finds no
lease or names no version (`none` where it stores the lease all the same). -/
structure ApiServer where
  resourceVersion : ℕ → String
  injective : Function.Injective resourceVersion
  absent : Option ℕ
  unversioned : Option ℕ

/-- The stored lease of one name and the number of writes. -/
structure ApiState where
  lease : Option V1Lease := none
  writes : ℕ := 0
  deriving DecidableEq

variable (A : ApiServer)

def ApiState.store (s : ApiState) (stored : V1LeaseSpec) : V1Lease × ApiState :=
  let lease := ⟨stored, some (A.resourceVersion (s.writes + 1))⟩
  (lease, ⟨some lease, s.writes + 1⟩)

/-- The errors are the status of the `ApiException`. -/
def readNamespacedLease (s : ApiState) : Except ℕ V1Lease :=
  match s.lease with
  | none => .error 404
  | some lease => .ok lease

def createNamespacedLease (body : V1Lease) (s : ApiState) : Except ℕ (V1Lease × ApiState) :=
  match s.lease with
  | none => .ok (s.store A body.spec)
  | some _ => .error 409

def orStore (status : Option ℕ) (body : V1Lease) (s : ApiState) :
    Except ℕ (V1Lease × ApiState) :=
  match status with
  | some code => .error code
  | none => .ok (s.store A body.spec)

def replaceNamespacedLease (body : V1Lease) (s : ApiState) : Except ℕ (V1Lease × ApiState) :=
  match s.lease, body.resourceVersion with
  | none, _ => orStore A A.absent body s
  | some _, none => orStore A A.unversioned body s
  | some cur, some version =>
    if cur.resourceVersion = some version then .ok (s.store A body.spec) else .error 409

end Server

section Backend

variable (A : ApiServer)

def get (s : ApiState) : Except Raised (Option LeaseRecord) :=
  match readNamespacedLease s with
  | .error status => if status = 404 then .ok none else .error .exception
  | .ok lease => .ok (some (fromK8s lease))

/-- `except ApiException` of `create` and `update`. -/
def conflictOr (status : ℕ) : Raised :=
  if status = 409 then .leaseConflict else .exception

/-- Without a spec a time of the record raised before the request. -/
def create (record : LeaseRecord) (s : ApiState) : Except Raised (LeaseRecord × ApiState) :=
  match spec record with
  | none => .error .exception
  | some stored => match createNamespacedLease A ⟨stored, none⟩ s with
    | .error status => .error (conflictOr status)
    | .ok (created, s') => .ok (fromK8s created, s')

def update (record : LeaseRecord) (s : ApiState) : Except Raised (LeaseRecord × ApiState) :=
  match spec record with
  | none => .error .exception
  | some stored => match replaceNamespacedLease A ⟨stored, record.resourceVersion⟩ s with
    | .error status => .error (conflictOr status)
    | .ok (updated, s') => .ok (fromK8s updated, s')

def getWith (s : ApiState) : CallFault → Except Raised (Option LeaseRecord)
  | .none => get s
  | .before | .after => .error .exception

/-- A write under a fault: whether the call returned, and the server after it. -/
def callWith (s : ApiState) (write : ApiState → Except Raised (LeaseRecord × ApiState)) :
    CallFault → Bool × ApiState
  | .before => (false, s)
  | .none => match write s with
    | .ok (_, s') => (true, s')
    | .error _ => (false, s)
  | .after => match write s with
    | .ok (_, s') => (false, s')
    | .error _ => (false, s)

/-- The backend call of a tick's plan. -/
def perform (s : ApiState) (fault : CallFault) : Plan → Bool × ApiState
  | .standDown => (true, s)
  | .create fresh => callWith s (create A fresh) fault
  | .update candidate _ => callWith s (update A candidate) fault

end Backend

section Versions

theorem toString_inj {m n : ℕ} : toString m = toString n ↔ m = n := by
  constructor
  · intro h
    have hdigits := congrArg (fun text => Nat.ofDigitChars 10 text.toList 0) h
    simpa [Nat.toList_repr, Nat.ofDigitChars_toDigits] using hdigits
  · rintro rfl
    rfl

variable {A : ApiServer} {s : ApiState} {r : LeaseRecord}

/-- What the electors see of the server's lease. -/
def seenLease (s : ApiState) : Option LeaseRecord := s.lease.map fromK8s

@[simp] theorem get_eq (s : ApiState) : get s = .ok (seenLease s) := by
  unfold get readNamespacedLease seenLease
  cases s.lease <;> rfl

theorem eq_seenLease_of_getWith {fault : CallFault} {observed : Option LeaseRecord}
    (h : getWith s fault = .ok observed) : observed = seenLease s := by
  cases fault with
  | none => exact (Except.ok.inj ((get_eq s).symm.trans h)).symm
  | before => cases h
  | after => cases h

/-- The stored lease carries the version of the last write. -/
def Versioned (A : ApiServer) (s : ApiState) : Prop :=
  ∀ lease ∈ s.lease, lease.resourceVersion = some (A.resourceVersion s.writes)

/-- `r` was read from this server, now or in the past. -/
def Seen (A : ApiServer) (s : ApiState) (r : LeaseRecord) : Prop :=
  s.lease ≠ none ∧ ∃ n ≤ s.writes, r.resourceVersion = some (A.resourceVersion n) ∧
    (n = s.writes → seenLease s = some r)

theorem versioned_empty : Versioned A {} := by
  intro lease hlease
  cases hlease

theorem versioned_store (s : ApiState) (stored : V1LeaseSpec) :
    Versioned A (s.store A stored).2 := by
  intro lease hlease
  obtain rfl := Option.some.inj hlease
  rfl

theorem Versioned.seen (h : Versioned A s) (hr : seenLease s = some r) : Seen A s r := by
  obtain ⟨lease, hlease, rfl⟩ := Option.map_eq_some_iff.mp hr
  refine ⟨by rw [hlease]; nofun, s.writes, le_rfl, ?_, fun _ => hr⟩
  rw [fromK8s, h lease hlease]
  rfl

theorem Seen.store (h : Seen A s r) (stored : V1LeaseSpec) :
    Seen A (s.store A stored).2 r := by
  obtain ⟨-, n, hn, hversion, -⟩ := h
  refine ⟨nofun, n, Nat.le_succ_of_le hn, hversion, fun heq => ?_⟩
  have hsucc : n = s.writes + 1 := heq
  omega

theorem create_ok {s' : ApiState} {created : LeaseRecord}
    (h : create A r s = .ok (created, s')) :
    s.lease = none ∧ ∃ stored, spec r = some stored ∧ s' = (s.store A stored).2 := by
  unfold create at h
  split at h
  · cases h
  · next stored hspec =>
    unfold createNamespacedLease at h
    cases hlease : s.lease with
    | none =>
      rw [hlease] at h
      exact ⟨rfl, stored, hspec, (congrArg Prod.snd (Except.ok.inj h)).symm⟩
    | some cur =>
      rw [hlease] at h
      cases h

theorem orStore_ok {s' : ApiState} {status : Option ℕ} {body updated : V1Lease}
    (h : orStore A status body s = .ok (updated, s')) : s' = (s.store A body.spec).2 := by
  cases status with
  | some code => cases h
  | none => exact (congrArg Prod.snd (Except.ok.inj h)).symm

theorem replaceNamespacedLease_ok {s' : ApiState} {body updated : V1Lease}
    (h : replaceNamespacedLease A body s = .ok (updated, s')) :
    s' = (s.store A body.spec).2 ∧ ∀ cur version, s.lease = some cur →
      body.resourceVersion = some version → cur.resourceVersion = some version := by
  unfold replaceNamespacedLease at h
  split at h
  · next hnone => exact ⟨orStore_ok h, fun _ _ hcur => absurd (hnone.symm.trans hcur) nofun⟩
  · next hnone =>
    exact ⟨orStore_ok h, fun _ _ _ hversion => absurd (hnone.symm.trans hversion) nofun⟩
  · next cur version hcur hversion =>
    split at h
    · next hmatch =>
      refine ⟨(congrArg Prod.snd (Except.ok.inj h)).symm, fun cur' version' hcur' hversion' => ?_⟩
      rw [← Option.some.inj (hcur.symm.trans hcur'),
        ← Option.some.inj (hversion.symm.trans hversion')]
      exact hmatch
    · cases h

theorem update_ok {s' : ApiState} {updated : LeaseRecord}
    (h : update A r s = .ok (updated, s')) :
    ∃ stored, spec r = some stored ∧ s' = (s.store A stored).2 ∧
      ∀ cur version, s.lease = some cur → r.resourceVersion = some version →
        cur.resourceVersion = some version := by
  unfold update at h
  split at h
  · cases h
  · next stored hspec =>
    split at h
    · cases h
    · next lease s'' hreplace =>
      obtain rfl : s'' = s' := congrArg Prod.snd (Except.ok.inj h)
      obtain ⟨hstore, hcur⟩ := replaceNamespacedLease_ok hreplace
      exact ⟨stored, hspec, hstore, hcur⟩

/-- An accepted update of a record that was read replaces that very record. -/
theorem Seen.current (hs : Versioned A s) (hr : Seen A s r) {c updated : LeaseRecord}
    {s' : ApiState} (hc : c.resourceVersion = r.resourceVersion)
    (h : update A c s = .ok (updated, s')) : seenLease s = some r := by
  obtain ⟨hpresent, n, -, hversion, hlast⟩ := hr
  obtain ⟨-, -, -, hcur⟩ := update_ok h
  obtain ⟨cur, hlease⟩ := Option.ne_none_iff_exists'.mp hpresent
  apply hlast
  have hmatch := hcur cur _ hlease (hc.trans hversion)
  rw [hs cur hlease] at hmatch
  exact (A.injective (Option.some.inj hmatch)).symm

theorem callWith_cases (s : ApiState)
    (write : ApiState → Except Raised (LeaseRecord × ApiState)) (fault : CallFault) :
    callWith s write fault = (false, s) ∨
      ∃ answer s', write s = .ok (answer, s') ∧ (callWith s write fault).2 = s' := by
  cases fault with
  | before => exact .inl rfl
  | none => cases hw : write s with
    | error => simp [callWith, hw]
    | ok answer => exact .inr ⟨answer.1, answer.2, rfl, by simp [callWith, hw]⟩
  | after => cases hw : write s with
    | error => simp [callWith, hw]
    | ok answer => exact .inr ⟨answer.1, answer.2, rfl, by simp [callWith, hw]⟩

/-- Either nothing was stored, and then a normal return means there was nothing to store; or
the plan's record was. -/
theorem perform_cases (plan : Plan) (s : ApiState) (fault : CallFault) :
    ((perform A s fault plan).2 = s ∧
        ((perform A s fault plan).1 = true → plan = .standDown)) ∨
      ∃ r stored, plan.record = some r ∧ spec r = some stored ∧
        (perform A s fault plan).2 = (s.store A stored).2 ∧
        ((plan = .create r ∧ s.lease = none) ∨
          ∃ acquired updated s', plan = .update r acquired ∧ update A r s = .ok (updated, s')) := by
  cases plan with
  | standDown => exact .inl ⟨rfl, fun _ => rfl⟩
  | create r =>
    rcases callWith_cases s (create A r) fault with h | ⟨created, s', hw, hs⟩
    · exact .inl (by simp [perform, h])
    · obtain ⟨hnone, stored, hspec, rfl⟩ := create_ok hw
      exact .inr ⟨r, stored, rfl, hspec, hs, .inl ⟨rfl, hnone⟩⟩
  | update r acquired =>
    rcases callWith_cases s (update A r) fault with h | ⟨updated, s', hw, hs⟩
    · exact .inl (by simp [perform, h])
    · obtain ⟨stored, hspec, rfl, -⟩ := update_ok hw
      exact .inr ⟨r, stored, rfl, hspec, hs, .inr ⟨acquired, updated, _, rfl, hw⟩⟩

end Versions

end BifrostSocket.KubernetesBackends
