import BifrostSocket.LeaseRecords
import BifrostSocket.HistoricalBars

/-!
# Leases in Kubernetes

`KubernetesLeaseBackend` writes a record as the spec of a `coordination.k8s.io/v1` Lease and
reads it back. The spec holds the duration in whole seconds and the times to the microsecond.
-/

namespace BifrostSocket.KubernetesLeases
open OperatorProtocol HistoricalBars LeaseRecords

section Encoding

/-- A `datetime` stands for the microseconds since the epoch. -/
structure V1LeaseSpec where
  holderIdentity : Option String
  leaseDurationSeconds : Option ℤ
  acquireTime : Option ℤ
  renewTime : Option ℤ
  leaseTransitions : Option ℤ
  deriving DecidableEq

/-- The spec and `metadata.resource_version`. -/
structure V1Lease where
  spec : V1LeaseSpec
  resourceVersion : Option String
  deriving DecidableEq

def toEpoch : Option ℤ → ℚ
  | none => 0
  | some dt => timestamp dt

def toDt (epoch : ℚ) : Option ℤ := fromTimestamp epoch

/-- `float(seconds or DEFAULT_LEASE_DURATION_SEC)`. -/
def durationOf (seconds : Option ℤ) : ℚ :=
  match seconds with
  | none => defaultLeaseDurationSec
  | some n => if n = 0 then defaultLeaseDurationSec else n

def fromK8s (lease : V1Lease) : LeaseRecord where
  holderIdentity := orDefault lease.spec.holderIdentity ""
  leaseDurationSec := durationOf lease.spec.leaseDurationSeconds
  acquireTime := toEpoch lease.spec.acquireTime
  renewTime := toEpoch lease.spec.renewTime
  leaseTransitions := lease.spec.leaseTransitions.getD 0
  resourceVersion := some (lease.resourceVersion.getD "None")

/-- `_spec`; without a result one of the times raised. -/
def spec (r : LeaseRecord) : Option V1LeaseSpec :=
  match toDt r.acquireTime, toDt r.renewTime with
  | some acquireTime, some renewTime => some {
      holderIdentity := some r.holderIdentity
      leaseDurationSeconds := some (roundHalfEven r.leaseDurationSec)
      acquireTime := some acquireTime
      renewTime := some renewTime
      leaseTransitions := some r.leaseTransitions }
  | _, _ => none

end Encoding

section Numbers

@[simp] theorem roundHalfEven_intCast (n : ℤ) : roundHalfEven (n : ℚ) = n := by
  simp [roundHalfEven]

theorem roundHalfEven_near (q : ℚ) : q - 1 / 2 ≤ roundHalfEven q ∧ roundHalfEven q ≤ q + 1 / 2 := by
  have hfloor := Int.floor_le q
  have hceil := Int.lt_floor_add_one q
  unfold roundHalfEven
  split_ifs <;> push_cast <;> constructor <;> linarith

theorem timestamp_mul (us : ℤ) : timestamp us * 1000000 = us := by
  unfold timestamp
  field_simp

theorem timestamp_inj {us vs : ℤ} : timestamp us = timestamp vs ↔ us = vs := by
  simp [timestamp]

theorem fromTimestamp_timestamp (us : ℤ) :
    fromTimestamp (timestamp us) = if minMicros ≤ us ∧ us < maxMicros then some us else none := by
  rw [fromTimestamp, timestamp_mul, roundHalfEven_intCast]

/-- The first second of year 10000. -/
def maxSeconds : ℚ := 253402300800

theorem timestamp_lt_maxSeconds (us : ℤ) : timestamp us < maxSeconds ↔ us < maxMicros := by
  have hmax : maxSeconds = timestamp maxMicros := by norm_num [maxSeconds, timestamp, maxMicros]
  rw [hmax, timestamp, timestamp, div_lt_div_iff_of_pos_right (by norm_num)]
  exact Int.cast_lt

/-- What is read back of a positive duration is that duration exactly for whole seconds. -/
theorem durationOf_round_eq_iff {d : ℚ} (hd : 0 < d) :
    durationOf (some (roundHalfEven d)) = d ↔ ∃ seconds : ℤ, d = seconds := by
  unfold durationOf
  constructor
  · intro h
    dsimp only at h
    split at h
    · exact ⟨15, by rw [← h, defaultLeaseDurationSec]; norm_num⟩
    · exact ⟨roundHalfEven d, h.symm⟩
  · rintro ⟨seconds, rfl⟩
    have hne : seconds ≠ 0 := by
      rintro rfl
      simp at hd
    simp [hne]

end Numbers

section Meaning

/-- A non-negative multiple of a microsecond. -/
def WholeMicros (t : ℚ) : Prop := ∃ us : ℕ, t = timestamp us

/-- A lease is written of the record, and what is read back of it under any version names the
same holder and times and can be taken over at the same times. -/
def KeepsMeaning (r : LeaseRecord) : Prop :=
  ∃ stored, spec r = some stored ∧ ∀ version,
    let read := fromK8s ⟨stored, version⟩
    read.holderIdentity = r.holderIdentity ∧ read.leaseTransitions = r.leaseTransitions ∧
      read.acquireTime = r.acquireTime ∧ read.renewTime = r.renewTime ∧
      ∀ now, read.isExpired now = r.isExpired now

variable {r : LeaseRecord}

theorem WholeMicros.toDt_eq_some_iff {t : ℚ} (ht : WholeMicros t) {dt : ℤ} :
    toDt t = some dt ↔ timestamp dt = t ∧ t < maxSeconds := by
  obtain ⟨us, rfl⟩ := ht
  have hmin : minMicros ≤ (us : ℤ) := le_trans (by decide) (Int.natCast_nonneg us)
  rw [toDt, fromTimestamp_timestamp, timestamp_lt_maxSeconds]
  simp only [hmin, true_and]
  by_cases hmax : (us : ℤ) < maxMicros
  · simp [hmax, timestamp_inj, eq_comm]
  · simp [hmax]

/-- Leases renewed at the same time are taken over at the same times exactly for equal
durations. -/
theorem isExpired_eq_iff {r₁ r₂ : LeaseRecord} (hrenew : r₁.renewTime = r₂.renewTime) :
    (∀ now, r₁.isExpired now = r₂.isExpired now) ↔
      r₁.leaseDurationSec = r₂.leaseDurationSec := by
  constructor
  · intro h
    have hexpiry : r₁.renewTime + r₁.leaseDurationSec = r₂.renewTime + r₂.leaseDurationSec := by
      refine eq_of_forall_gt_iff fun now => ?_
      rw [← LeaseRecord.isExpired_iff, ← LeaseRecord.isExpired_iff, h now]
    linarith
  · intro hduration now
    rw [LeaseRecord.isExpired, LeaseRecord.isExpired, hrenew, hduration]

theorem spec_eq_some_iff (ha : WholeMicros r.acquireTime) (hr : WholeMicros r.renewTime)
    {stored : V1LeaseSpec} :
    spec r = some stored ↔ ∃ acquireTime renewTime,
      (timestamp acquireTime = r.acquireTime ∧ r.acquireTime < maxSeconds) ∧
      (timestamp renewTime = r.renewTime ∧ r.renewTime < maxSeconds) ∧
      stored = ⟨some r.holderIdentity, some (roundHalfEven r.leaseDurationSec),
        some acquireTime, some renewTime, some r.leaseTransitions⟩ := by
  simp only [← ha.toDt_eq_some_iff, ← hr.toDt_eq_some_iff, spec]
  cases toDt r.acquireTime <;> cases toDt r.renewTime <;> simp [eq_comm]

/-- Kubernetes keeps the meaning of a lease exactly if its duration is a whole number of seconds
and its times are before year 10000. -/
theorem keepsMeaning_iff (r : LeaseRecord) (hd : 0 < r.leaseDurationSec)
    (ha : WholeMicros r.acquireTime) (hr : WholeMicros r.renewTime) :
    KeepsMeaning r ↔ (∃ seconds : ℤ, r.leaseDurationSec = seconds) ∧
      r.acquireTime < maxSeconds ∧ r.renewTime < maxSeconds := by
  constructor
  · rintro ⟨stored, hspec, hmeaning⟩
    obtain ⟨acquireTime, renewTime, hacquire, hrenew, rfl⟩ := (spec_eq_some_iff ha hr).mp hspec
    obtain ⟨-, -, -, -, hexpired⟩ := hmeaning none
    have hduration := (isExpired_eq_iff (by exact hrenew.1)).mp hexpired
    exact ⟨(durationOf_round_eq_iff hd).mp hduration, hacquire.2, hrenew.2⟩
  · rintro ⟨hwhole, hacquire, hrenew⟩
    have ⟨acquireTime, hacquireTime⟩ := ha
    have ⟨renewTime, hrenewTime⟩ := hr
    have hspec := (spec_eq_some_iff ha hr).mpr
      ⟨acquireTime, renewTime, ⟨hacquireTime.symm, hacquire⟩, ⟨hrenewTime.symm, hrenew⟩, rfl⟩
    refine ⟨_, hspec, fun version => ⟨?_, rfl, hacquireTime.symm, hrenewTime.symm, ?_⟩⟩
    · by_cases hempty : r.holderIdentity = "" <;> simp [fromK8s, orDefault, hempty]
    · exact (isExpired_eq_iff (by exact hrenewTime.symm)).mpr
        ((durationOf_round_eq_iff hd).mpr hwhole)

theorem default_duration_keepsMeaning :
    KeepsMeaning { holderIdentity := "pod-a", renewTime := 2, leaseTransitions := 3 } :=
  (keepsMeaning_iff _ (by norm_num [defaultLeaseDurationSec])
    ⟨0, by norm_num [timestamp]⟩ ⟨2000000, by norm_num [timestamp]⟩).mpr
    ⟨⟨15, by norm_num [defaultLeaseDurationSec]⟩, by norm_num [maxSeconds],
      by norm_num [maxSeconds]⟩

/-- Renewed at 100 for 14.4 seconds. -/
def fractionalLease : LeaseRecord where
  holderIdentity := "pod-a"
  leaseDurationSec := 72 / 5
  acquireTime := 100
  renewTime := 100

/-- It is stored for 14 seconds, so another pod may take it over 14.2 seconds after its
renewal. -/
theorem fractional_duration_taken_early :
    0 < fractionalLease.leaseDurationSec ∧ WholeMicros fractionalLease.acquireTime ∧
      WholeMicros fractionalLease.renewTime ∧
      fractionalLease.isExpired (571 / 5) = false ∧
      (∀ stored ∈ spec fractionalLease, (fromK8s ⟨stored, none⟩).isExpired (571 / 5) = true) ∧
      ¬ KeepsMeaning fractionalLease := by
  have hmicros : WholeMicros 100 := ⟨100000000, by norm_num [timestamp]⟩
  have hholder : fractionalLease.isExpired (571 / 5) = false := by
    norm_num [LeaseRecord.isExpired, fractionalLease]
  have hround : roundHalfEven (72 / 5) = 14 := by norm_num [roundHalfEven]
  have hread : ∀ stored ∈ spec fractionalLease,
      (fromK8s ⟨stored, none⟩).isExpired (571 / 5) = true := by
    intro stored hspec
    obtain ⟨acquireTime, renewTime, -, hrenew, rfl⟩ :=
      (spec_eq_some_iff hmicros hmicros).mp hspec
    rw [LeaseRecord.isExpired_iff]
    simp only [fromK8s, toEpoch, hrenew.1, fractionalLease, hround, durationOf]
    norm_num
  refine ⟨by norm_num [fractionalLease], hmicros, hmicros, hholder, hread, ?_⟩
  rintro ⟨stored, hspec, hmeaning⟩
  obtain ⟨-, -, -, -, hexpired⟩ := hmeaning none
  have heq := hexpired (571 / 5)
  rw [hread stored hspec, hholder] at heq
  cases heq

end Meaning

end BifrostSocket.KubernetesLeases
