import BifrostSocket.LeaseCoverage

/-!
# The history of a lease record

Beside the interleaved electors every accepted write is kept, newest first, with the record
its tick had read. The history is sound when each write continues the record stored just
before it: nothing is lost, times do not go back, and the holder, its acquire time and the
transition counter change together, and only over an expired record.
-/

namespace BifrostSocket.LeaseHistories
open LeaseRecords LeaderElectors TransitionRuns InterleavedElectors
open LeaseCoverage (twoPods emptyCluster)

section Histories

variable {ι : Type}

structure Write (ι : Type) where
  writer : ι
  now : ℚ
  read : Option LeaseRecord
  version : ℕ
  stored : LeaseRecord
  deriving DecidableEq

/-- The record that the newest of these writes left. -/
def lastStored (writes : List (Write ι)) : Option LeaseRecord := writes.head?.map (·.stored)

/-- How often the holder has changed since the creation. -/
def changes : List (Write ι) → ℕ
  | [] | [_] => 0
  | w :: v :: earlier =>
    (if w.stored.holderIdentity = v.stored.holderIdentity then 0 else 1) + changes (v :: earlier)

/-- The renew time of the write that made the last change of holder, or the creation. -/
def termStart : List (Write ι) → Option ℚ
  | [] => none
  | [w] => some w.stored.renewTime
  | w :: v :: earlier =>
    if w.stored.holderIdentity = v.stored.holderIdentity then termStart (v :: earlier)
    else some w.stored.renewTime

/-- What an accepted write is, over the writes before it. -/
structure SoundWrite (F : Fleet ι) (earlier : List (Write ι)) (w : Write ι) : Prop where
  writer : w.stored.holderIdentity = (F.settings w.writer).identity
  duration : w.stored.leaseDurationSec = (F.settings w.writer).leaseDurationSec
  renewed : w.stored.renewTime = w.now
  based : w.read = lastStored earlier
  version : w.version = earlier.length + 1
  stamped : w.stored.resourceVersion = some (toString w.version)
  monotone : ∀ r ∈ lastStored earlier, r.renewTime ≤ w.stored.renewTime
  acquired : w.stored.acquireTime ≤ w.stored.renewTime
  transitions : w.stored.leaseTransitions = changes (w :: earlier)
  acquireTime : some w.stored.acquireTime = termStart (w :: earlier)
  takeover : ∀ r ∈ lastStored earlier, r.holderIdentity ≠ w.stored.holderIdentity →
    r.isExpired w.now = true

def HistorySound (F : Fleet ι) : List (Write ι) → Prop
  | [] => True
  | w :: earlier => SoundWrite F earlier w ∧ HistorySound F earlier

variable {F : Fleet ι} {writes : List (Write ι)}

theorem HistorySound.of_suffix {w : Write ι} {earlier : List (Write ι)}
    (h : HistorySound F writes) (hsuf : w :: earlier <:+ writes) : SoundWrite F earlier w := by
  induction writes with
  | nil => simp at hsuf
  | cons x xs ih =>
    rcases List.suffix_cons_iff.mp hsuf with heq | hsuf
    · obtain ⟨rfl, rfl⟩ := List.cons.inj heq
      exact h.1
    · exact ih h.2 hsuf

theorem HistorySound.version_le (h : HistorySound F writes) :
    ∀ w ∈ writes, w.version ≤ writes.length := by
  induction writes with
  | nil => simp
  | cons v vs ih =>
    intro w hw
    rcases List.mem_cons.mp hw with rfl | hw
    · exact h.1.version.le
    · exact (ih h.2 w hw).trans (Nat.le_succ _)

theorem HistorySound.versions (h : HistorySound F writes) :
    writes.Pairwise fun w v => v.version < w.version := by
  induction writes with
  | nil => simp
  | cons w ws ih =>
    refine List.pairwise_cons.mpr ⟨fun v hv => ?_, ih h.2⟩
    have hle := h.2.version_le v hv
    have hw := h.1.version
    omega

theorem HistorySound.renewTimes (h : HistorySound F writes) :
    writes.Pairwise fun w v => v.stored.renewTime ≤ w.stored.renewTime := by
  induction writes with
  | nil => simp
  | cons w ws ih =>
    refine List.pairwise_cons.mpr ⟨fun v hv => ?_, ih h.2⟩
    cases ws with
    | nil => simp at hv
    | cons u us =>
      have hu : u.stored.renewTime ≤ w.stored.renewTime := h.1.monotone _ rfl
      rcases List.mem_cons.mp hv with rfl | hv
      · exact hu
      · exact ((List.pairwise_cons.mp (ih h.2)).1 v hv).trans hu

end Histories

section Decisions

/-- The four plans of a tick. -/
inductive Decision (s : ElectorSettings) (now : ℚ) : Option LeaseRecord → Plan → Prop where
  | standDown {o} (hother : o.holderIdentity ≠ s.identity) (hvalid : o.isExpired now = false) :
      Decision s now (some o) .standDown
  | create : Decision s now none
      (.create ⟨s.identity, s.leaseDurationSec, now, now, 0, none⟩)
  | renew {o} (hours : o.holderIdentity = s.identity) : Decision s now (some o)
      (.update { o with
        holderIdentity := s.identity, leaseDurationSec := s.leaseDurationSec, renewTime := now }
        false)
  | takeOver {o} (hother : o.holderIdentity ≠ s.identity) (hexp : o.isExpired now = true) :
      Decision s now (some o)
        (.update { o with
          holderIdentity := s.identity, leaseDurationSec := s.leaseDurationSec,
          renewTime := now, acquireTime := now, leaseTransitions := o.leaseTransitions + 1 } true)

theorem decision (s : ElectorSettings) (now : ℚ) (observed : Option LeaseRecord) :
    Decision s now observed (Plan.of s now observed) := by
  cases observed with
  | none => exact .create
  | some o =>
    by_cases hours : o.holderIdentity = s.identity
    · have hrenew : Decision s now (some o) _ := .renew hours
      simpa [Plan.of, hours] using hrenew
    · cases hexp : o.isExpired now with
      | false => simpa [Plan.of, hours, hexp] using Decision.standDown hours hexp
      | true => simpa [Plan.of, hours, hexp] using Decision.takeOver hours hexp

theorem Decision.renewTime {s : ElectorSettings} {now : ℚ} {observed : Option LeaseRecord}
    {plan : Plan} {r : LeaseRecord} (h : Decision s now observed plan)
    (hr : plan.record = some r) : r.renewTime = now := by
  cases h with
  | standDown => cases hr
  | create | renew | takeOver =>
    obtain rfl := Option.some.inj hr
    rfl

variable {ι : Type} {F : Fleet ι} {writes : List (Write ι)} {i : ι} {now : ℚ}

/-- The write by which elector `i` stores `r` at `now` over the record it has read. -/
def writeOf (i : ι) (now : ℚ) (read : Option LeaseRecord) (writes : List (Write ι))
    (r : LeaseRecord) : Write ι :=
  ⟨i, now, read, writes.length + 1,
    { r with resourceVersion := some (toString (writes.length + 1)) }⟩

/-- A stored record of the elector's own is not renewed later than its tick. -/
theorem lastStored_renewTime (hhist : HistorySound F writes)
    (hown : ∀ w ∈ writes, w.writer = i → w.stored.renewTime ≤ now) {o : LeaseRecord}
    (hlast : lastStored writes = some o) (hours : o.holderIdentity = (F.settings i).identity) :
    o.renewTime ≤ now := by
  cases writes with
  | nil => cases hlast
  | cons w ws =>
    obtain rfl := Option.some.inj hlast
    apply hown w List.mem_cons_self
    exact F.distinct (hhist.1.writer.symm.trans hours)

theorem lastStored_duration (hhist : HistorySound F writes)
    (hdur : ∀ j, 0 ≤ (F.settings j).leaseDurationSec) {o : LeaseRecord}
    (hlast : lastStored writes = some o) :
    0 ≤ o.leaseDurationSec ∧ o.acquireTime ≤ o.renewTime := by
  cases writes with
  | nil => cases hlast
  | cons w ws =>
    obtain rfl := Option.some.inj hlast
    rw [hhist.1.duration]
    exact ⟨hdur w.writer, hhist.1.acquired⟩

/-- A plan made from the record that is still stored continues the history. -/
theorem Decision.soundWrite {observed : Option LeaseRecord} {plan : Plan} {r : LeaseRecord}
    (hdec : Decision (F.settings i) now observed plan) (hr : plan.record = some r)
    (hlast : lastStored writes = observed) (hhist : HistorySound F writes)
    (hdur : ∀ j, 0 ≤ (F.settings j).leaseDurationSec)
    (hown : ∀ w ∈ writes, w.writer = i → w.stored.renewTime ≤ now) :
    SoundWrite F writes (writeOf i now observed writes r) := by
  cases hdec with
  | standDown => cases hr
  | create =>
    obtain rfl := Option.some.inj hr
    cases writes with
    | cons => cases hlast
    | nil => constructor <;> simp [writeOf, lastStored, changes, termStart]
  | @renew o hours =>
    obtain rfl := Option.some.inj hr
    have hrenew := lastStored_renewTime hhist hown hlast hours
    obtain ⟨-, hacq⟩ := lastStored_duration hhist hdur hlast
    cases writes with
    | nil => cases hlast
    | cons v vs =>
      obtain rfl := Option.some.inj hlast
      constructor
      · rfl
      · rfl
      · rfl
      · rfl
      · rfl
      · rfl
      · simpa [lastStored, writeOf] using hrenew
      · exact hacq.trans hrenew
      · simpa [writeOf, changes, hours] using hhist.1.transitions
      · simpa [writeOf, termStart, hours] using hhist.1.acquireTime
      · simp [lastStored, writeOf, hours]
  | @takeOver o hother hexp =>
    obtain rfl := Option.some.inj hr
    obtain ⟨hpos, -⟩ := lastStored_duration hhist hdur hlast
    have hlt := (LeaseRecord.isExpired_iff o now).mp hexp
    cases writes with
    | nil => cases hlast
    | cons v vs =>
      obtain rfl := Option.some.inj hlast
      constructor
      · rfl
      · rfl
      · rfl
      · rfl
      · rfl
      · rfl
      · intro x hx
        obtain rfl := Option.some.inj hx
        change v.stored.renewTime ≤ now
        linarith
      · exact le_rfl
      · have htr := hhist.1.transitions
        simp [writeOf, changes, Ne.symm hother, htr, add_comm]
      · simp [writeOf, termStart, Ne.symm hother]
      · intro x hx _
        obtain rfl := Option.some.inj hx
        exact hexp

end Decisions

section Recording

variable {ι : Type} {F : Fleet ι}

/-- The electors, what each one's last `get` answered, and the accepted writes. -/
structure Recorded (ι : Type) where
  cluster : Cluster ι
  reads : ι → Option LeaseRecord
  writes : List (Write ι)

/-- A write has been accepted when the version has moved. -/
def Recorded.writesAfter (s : Recorded ι) (b : InMemoryLeaseBackend) : TickEvent ι → List (Write ι)
  | .write i _ => match s.cluster.ticks i, b.record with
    | .observed now _, some r =>
      if s.cluster.backend.version < b.version then ⟨i, now, s.reads i, b.version, r⟩ :: s.writes
      else s.writes
    | _, _ => s.writes
  | .advance _ | .readClock _ | .get _ _ | .mark _ | .expireSelf _ => s.writes

def InitialRecorded (s : Recorded ι) : Prop :=
  Initial s.cluster ∧ (∀ i, s.reads i = none) ∧ s.writes = []

/-- The elector's own writes are not newer than its tick. -/
def Timely (s : Recorded ι) (i : ι) (now : ℚ) : Prop :=
  now ≤ s.cluster.clock ∧ ∀ w ∈ s.writes, w.writer = i → w.stored.renewTime ≤ now

def PhaseSound (F : Fleet ι) (s : Recorded ι) (i : ι) : Prop :=
  match s.cluster.ticks i with
  | .clockRead now => Timely s i now
  | .observed now plan => Timely s i now ∧ Decision (F.settings i) now (s.reads i) plan ∧
      ∀ o, s.reads i = some o → s.cluster.backend.Seen o
  | .idle | .performed _ _ | .returned _ => True

/-- The history is the backend's, and sound where lease durations are not negative; every
tick under way is timely and knows what it has read. -/
structure Invariant (F : Fleet ι) (s : Recorded ι) : Prop where
  versioned : s.cluster.backend.Versioned
  record : s.cluster.backend.record = lastStored s.writes
  version : s.cluster.backend.version = s.writes.length
  history : (∀ j, 0 ≤ (F.settings j).leaseDurationSec) → HistorySound F s.writes
  past : ∀ w ∈ s.writes, w.stored.renewTime ≤ s.cluster.clock
  phase : ∀ i, PhaseSound F s i

variable {s t : Recorded ι}

theorem invariant_initial (h : InitialRecorded s) : Invariant F s := by
  obtain ⟨⟨hb, -, hticks⟩, -, hw⟩ := h
  constructor
  · rw [hb]
    exact InMemoryLeaseBackend.versioned_empty
  · rw [hb, hw]
    rfl
  · rw [hb, hw]
    rfl
  · rw [hw]
    exact fun _ => trivial
  · simp [hw]
  · intro i
    simp [PhaseSound, hticks]

/-- A write that changes the backend is made from the record that is still stored. -/
theorem Invariant.accepted (h : Invariant F s) {i : ι} {now : ℚ} {plan : Plan}
    (hi : s.cluster.ticks i = .observed now plan) (fault : CallFault) :
    (plan.perform s.cluster.backend fault).2 = s.cluster.backend ∨
      ∃ r, plan.record = some r ∧ lastStored s.writes = s.reads i ∧
        (plan.perform s.cluster.backend fault).2 = (s.cluster.backend.store r).2 := by
  have hp := h.phase i
  rw [PhaseSound, hi] at hp
  obtain ⟨-, hdec, hseen⟩ := hp
  rcases plan.perform_cases s.cluster.backend fault with ⟨hsame, -⟩ | ⟨r, hr, hstore, hcase⟩
  · exact .inl hsame
  · refine .inr ⟨r, hr, ?_, hstore⟩
    rw [← h.record]
    rcases hcase with ⟨_, _, rfl, hc⟩ | ⟨a, _, _, rfl, hc⟩
    · rw [(InMemoryLeaseBackend.create_ok hc).1]
      generalize hread : s.reads i = observed at hdec
      cases hdec
      rfl
    · generalize hread : s.reads i = observed at hdec
      cases hdec with
      | renew =>
        refine (hseen _ hread).current h.versioned ?_ hc
        rfl
      | takeOver =>
        refine (hseen _ hread).current h.versioned ?_ hc
        rfl

/-- What a write step does to the history: nothing, or it adds the elector's write. -/
theorem Invariant.writesAfter (h : Invariant F s) {i : ι} {now : ℚ} {plan : Plan}
    (hi : s.cluster.ticks i = .observed now plan) (fault : CallFault) :
    ((plan.perform s.cluster.backend fault).2 = s.cluster.backend ∧
        s.writesAfter (plan.perform s.cluster.backend fault).2 (.write i fault) = s.writes) ∨
      ∃ r, plan.record = some r ∧ lastStored s.writes = s.reads i ∧
        (plan.perform s.cluster.backend fault).2 = (s.cluster.backend.store r).2 ∧
        s.writesAfter (plan.perform s.cluster.backend fault).2 (.write i fault) =
          writeOf i now (s.reads i) s.writes r :: s.writes := by
  rcases h.accepted hi fault with hsame | ⟨r, hr, hlast, hstore⟩
  · refine .inl ⟨hsame, ?_⟩
    rw [hsame]
    simp only [Recorded.writesAfter, hi, lt_self_iff_false, if_false]
    split <;> rfl
  · refine .inr ⟨r, hr, hlast, hstore, ?_⟩
    rw [hstore]
    simp [Recorded.writesAfter, hi, InMemoryLeaseBackend.store, writeOf, h.version]

theorem PhaseSound.mono {i : ι} (h : PhaseSound F s i)
    (hticks : t.cluster.ticks i = s.cluster.ticks i) (hreads : t.reads i = s.reads i)
    (hclock : s.cluster.clock ≤ t.cluster.clock)
    (hwrites : ∀ w ∈ t.writes, w.writer = i → w ∈ s.writes)
    (hseen : ∀ o, s.cluster.backend.Seen o → t.cluster.backend.Seen o) : PhaseSound F t i := by
  have htimely : ∀ now, Timely s i now → Timely t i now := by
    intro now ⟨hnow, hown⟩
    exact ⟨hnow.trans hclock, fun w hw hi => hown w (hwrites w hw hi) hi⟩
  unfold PhaseSound at h ⊢
  rw [hticks, hreads]
  cases hi : s.cluster.ticks i with
  | clockRead now =>
    rw [hi] at h
    exact htimely now h
  | observed now plan =>
    rw [hi] at h
    obtain ⟨htime, hdec, hold⟩ := h
    exact ⟨htimely now htime, hdec, fun o ho => hseen o (hold o ho)⟩
  | idle => trivial
  | performed => trivial
  | returned => trivial

variable [DecidableEq ι]

def Recorded.readsAfter (s : Recorded ι) : TickEvent ι → ι → Option LeaseRecord
  | .get i _ => Function.update s.reads i s.cluster.backend.get
  | .advance _ | .readClock _ | .write _ _ | .mark _ | .expireSelf _ => s.reads

def recordStep (F : Fleet ι) (s : Recorded ι) (e : TickEvent ι) : Option (Recorded ι) :=
  (step F s.cluster e).map fun c => ⟨c, s.readsAfter e, s.writesAfter c.backend e⟩

theorem recorded_run {s t : Recorded ι} {es : List (TickEvent ι)}
    (h : Run (ofStep (recordStep F)) s es t) : Run (ofStep (step F)) s.cluster es t.cluster := by
  induction h with
  | nil => exact .nil _
  | cons head _ ih =>
    obtain ⟨c, hc, rfl⟩ := Option.map_eq_some_iff.mp head
    exact .cons hc ih

theorem run_recorded {s : Recorded ι} {c : Cluster ι} {es : List (TickEvent ι)}
    (h : Run (ofStep (step F)) s.cluster es c) :
    ∃ t, Run (ofStep (recordStep F)) s es t ∧ t.cluster = c := by
  generalize hc : s.cluster = c₀ at h
  induction h generalizing s with
  | nil => exact ⟨s, .nil s, hc⟩
  | @cons _ _ _ e _ head _ ih =>
    subst hc
    obtain ⟨t, ht, hcl⟩ := ih (s := ⟨_, s.readsAfter e, s.writesAfter _ e⟩) rfl
    exact ⟨t, .cons (Option.map_eq_some_iff.mpr ⟨_, head, rfl⟩) ht, hcl⟩

/-- A step that stores nothing: it is enough that the acting elector's new phase is sound. -/
theorem Invariant.quiet (h : Invariant F s) {i : ι} {c : Cluster ι}
    {reads : ι → Option LeaseRecord} (hbackend : c.backend = s.cluster.backend)
    (hclock : c.clock = s.cluster.clock) (hticks : ∀ j ≠ i, c.ticks j = s.cluster.ticks j)
    (hreads : ∀ j ≠ i, reads j = s.reads j) (hi : PhaseSound F ⟨c, reads, s.writes⟩ i) :
    Invariant F ⟨c, reads, s.writes⟩ := by
  constructor
  · exact hbackend ▸ h.versioned
  · exact (congrArg _ hbackend).trans h.record
  · exact (congrArg _ hbackend).trans h.version
  · exact h.history
  · intro w hw
    exact (h.past w hw).trans hclock.ge
  · intro j
    by_cases hj : j = i
    · exact hj ▸ hi
    · refine (h.phase j).mono (hticks j hj) (hreads j hj) hclock.ge ?_ ?_
      · exact fun w hw _ => hw
      · exact fun o ho => hbackend ▸ ho

theorem Invariant.write (h : Invariant F s) {i : ι} {now : ℚ} {plan : Plan}
    (hi : s.cluster.ticks i = .observed now plan) (fault : CallFault) {p : TickPhase}
    (hp : p = .performed now plan ∨ p = .returned .failed) :
    Invariant F
      ⟨{ s.cluster with backend := (plan.perform s.cluster.backend fault).2 }.setTick i p, s.reads,
        s.writesAfter (plan.perform s.cluster.backend fault).2 (.write i fault)⟩ := by
  have hphase := h.phase i
  rw [PhaseSound, hi] at hphase
  obtain ⟨⟨hnow, hown⟩, hdec, -⟩ := hphase
  have hother : ∀ {c : Cluster ι}, ∀ j ≠ i, (c.setTick i p).ticks j = c.ticks j := by
    intro c j hj
    simp [Cluster.setTick, Function.update_of_ne hj]
  have hself : ∀ {c : Cluster ι} {reads writes}, PhaseSound F ⟨c.setTick i p, reads, writes⟩ i := by
    intro c reads writes
    rcases hp with rfl | rfl <;> simp [PhaseSound, Cluster.setTick]
  rcases h.writesAfter hi fault with ⟨hsame, hwrites⟩ | ⟨r, hr, hlast, hstore, hwrites⟩
  · rw [hwrites, hsame]
    exact h.quiet (i := i) rfl rfl hother (fun _ _ => rfl) hself
  · rw [hwrites, hstore]
    constructor
    · exact InMemoryLeaseBackend.versioned_store _ r
    · simp [Cluster.setTick, InMemoryLeaseBackend.store, lastStored, writeOf, h.version]
    · simp [Cluster.setTick, InMemoryLeaseBackend.store, h.version]
    · intro hdur
      exact ⟨hdec.soundWrite hr hlast (h.history hdur) hdur hown, h.history hdur⟩
    · intro w hw
      rcases List.mem_cons.mp hw with rfl | hw
      · exact (hdec.renewTime hr).trans_le hnow
      · exact h.past w hw
    · intro j
      by_cases hj : j = i
      · rw [hj]
        exact hself
      · refine (h.phase j).mono (hother j hj) rfl le_rfl ?_ ?_
        · intro w hw hwriter
          rcases List.mem_cons.mp hw with rfl | hw
          · exact absurd hwriter.symm hj
          · exact hw
        · exact fun o ho => ho.store r

theorem invariant_step {e : TickEvent ι} (h : Invariant F s) (hs : recordStep F s e = some t) :
    Invariant F t := by
  obtain ⟨c, hc, rfl⟩ := Option.map_eq_some_iff.mp hs
  have hother : ∀ {i : ι} {p : TickPhase} {c : Cluster ι}, ∀ j ≠ i,
      (c.setTick i p).ticks j = c.ticks j := by
    intro i p c j hj
    simp [Cluster.setTick, Function.update_of_ne hj]
  cases step_cases hc with
  | advance hle =>
    refine ⟨h.versioned, h.record, h.version, h.history, fun w hw => (h.past w hw).trans hle,
      fun j => ?_⟩
    exact (h.phase j).mono rfl rfl hle (fun _ hw _ => hw) fun _ ho => ho
  | @readClock i =>
    refine h.quiet (i := i) rfl rfl hother (fun _ _ => rfl) ?_
    simp only [PhaseSound, Cluster.setTick, Function.update_self]
    exact ⟨le_rfl, fun w hw _ => h.past w hw⟩
  | @getRaised i =>
    refine h.quiet (i := i) rfl rfl hother (fun j hj => ?_) ?_
    · simp [Recorded.readsAfter, Function.update_of_ne hj]
    · simp [PhaseSound, Cluster.setTick]
  | @get i f now hi =>
    have hp := h.phase i
    rw [PhaseSound, hi] at hp
    refine h.quiet (i := i) rfl rfl hother (fun j hj => ?_) ?_
    · simp [Recorded.readsAfter, Function.update_of_ne hj]
    · simp only [PhaseSound, Cluster.setTick, Recorded.readsAfter, Function.update_self]
      exact ⟨hp, decision _ _ _, fun o ho => h.versioned.seen ho⟩
  | writeRaised hi => exact h.write hi _ (.inr rfl)
  | write hi => exact h.write hi _ (.inl rfl)
  | @mark i =>
    refine h.quiet (i := i) rfl rfl (fun j hj => ?_) (fun _ _ => rfl) ?_
    · simp [Cluster.setTick, Cluster.setElector, Function.update_of_ne hj]
    · simp [PhaseSound, Cluster.setTick]
  | @expireSelf i =>
    refine h.quiet (i := i) rfl rfl (fun _ _ => rfl) (fun _ _ => rfl) ?_
    exact (h.phase i).mono rfl rfl le_rfl (fun _ hw _ => hw) fun _ ho => ho

theorem invariant_reachable (h : Reachable InitialRecorded (ofStep (recordStep F)) s) :
    Invariant F s :=
  h.invariant (fun _ => invariant_initial) fun _ _ _ hi hs => invariant_step hi hs

/-- In every run the backend holds the newest write of a sound history: each write is made
from the record before it, versions ascend, renew times do not go back, and the acquire
time, the transition counter and the holder change together, over an expired record. -/
theorem lease_history (hdur : ∀ j, 0 ≤ (F.settings j).leaseDurationSec)
    (h : Reachable InitialRecorded (ofStep (recordStep F)) s) :
    s.cluster.backend.record = lastStored s.writes ∧
      s.cluster.backend.version = s.writes.length ∧
      (∀ w earlier, w :: earlier <:+ s.writes → SoundWrite F earlier w) ∧
      s.writes.Pairwise (fun w v => v.version < w.version) ∧
      s.writes.Pairwise (fun w v => v.stored.renewTime ≤ w.stored.renewTime) := by
  have inv := invariant_reachable h
  have hhist := inv.history hdur
  refine ⟨inv.record, inv.version, ?_, hhist.versions, hhist.renewTimes⟩
  intro w earlier hsuf
  exact hhist.of_suffix hsuf

end Recording

def emptyRecorded : Recorded Bool := ⟨emptyCluster, fun _ => none, []⟩

/-- A whole tick of one elector. -/
def wholeTick (i : Bool) : List (TickEvent Bool) :=
  [.readClock i, .get i .none, .write i .none, .mark i]

theorem lease_history_takeover :
    ∃ s : Recorded Bool, s.writes.map (·.writer) = [false, true] ∧
      s.cluster.backend.record = lastStored s.writes ∧
      s.writes.Pairwise (fun w v => v.version < w.version) := by
  obtain ⟨s, hr, hw⟩ := Run.ofFold_satisfies (recordStep twoPods) emptyRecorded
    (wholeTick true ++ .advance 16 :: wholeTick false)
    (fun s => s.writes.map (·.writer) = [false, true]) (by decide +kernel)
  have hinit : InitialRecorded emptyRecorded :=
    ⟨⟨rfl, fun _ => rfl, fun _ => rfl⟩, fun _ => rfl, rfl⟩
  obtain ⟨hrecord, -, -, hversions, -⟩ :=
    lease_history (F := twoPods) (by decide +kernel) ⟨emptyRecorded, _, hinit, hr⟩
  exact ⟨s, hw, hrecord, hversions⟩

end BifrostSocket.LeaseHistories
