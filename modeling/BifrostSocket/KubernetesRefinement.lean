import BifrostSocket.KubernetesElectors
import BifrostSocket.LeaseHistories

/-!
# Kubernetes electors refine the in-memory ones

For durations of whole seconds and a clock of whole microseconds nothing is lost in the API
server. What electors do over it they can then do, step by step, over the in-memory backend: the
two clusters differ in how the versions are named only.
-/

namespace BifrostSocket.KubernetesRefinement
open TransitionRuns LeaseRecords LeaderElectors InterleavedElectors KubernetesLeases
open KubernetesBackends KubernetesElectors
open HistoricalBars (roundHalfEven timestamp)

section Records

/-- A time that Kubernetes keeps: a whole microsecond before year 10000. -/
def KeptTime (t : ℚ) : Prop := WholeMicros t ∧ t < maxSeconds

def KeptDuration (d : ℚ) : Prop := 0 < d ∧ ∃ seconds : ℤ, d = seconds

/-- A record that Kubernetes keeps. -/
structure Kept (r : LeaseRecord) : Prop where
  duration : KeptDuration r.leaseDurationSec
  acquireTime : KeptTime r.acquireTime
  renewTime : KeptTime r.renewTime

/-- What is stored of a kept record reads back as that record, under the server's version. -/
theorem Kept.spec {r : LeaseRecord} (h : Kept r) :
    ∃ stored, spec r = some stored ∧
      ∀ version, fromK8s ⟨stored, some version⟩ = { r with resourceVersion := some version } := by
  obtain ⟨⟨hpos, hwhole⟩, ⟨ha, hamax⟩, ⟨hr, hrmax⟩⟩ := h
  have ⟨acquireTime, hacquire⟩ := ha
  have ⟨renewTime, hrenew⟩ := hr
  refine ⟨_, (spec_eq_some_iff ha hr).mpr
    ⟨acquireTime, renewTime, ⟨hacquire.symm, hamax⟩, ⟨hrenew.symm, hrmax⟩, rfl⟩, fun version => ?_⟩
  have hduration := (durationOf_round_eq_iff hpos).mpr hwhole
  have hholder : OperatorProtocol.orDefault (some r.holderIdentity) "" = r.holderIdentity := by
    by_cases hempty : r.holderIdentity = "" <;> simp [OperatorProtocol.orDefault, hempty]
  simp [fromK8s, toEpoch, hduration, hholder, ← hacquire, ← hrenew]

variable (A : ApiServer)

/-- A record of the server and the one of the in-memory backend: the same but for the name of the
version. -/
structure SameRecord (r r' : LeaseRecord) : Prop where
  kept : Kept r
  fields : r' = { r with resourceVersion := r'.resourceVersion }
  version : ∃ n, r.resourceVersion = some (A.resourceVersion n) ∧
    r'.resourceVersion = some (toString n)

/-- The stored leases are the same, and both carry the version of the last write. -/
structure SameLease (server : ApiState) (b : InMemoryLeaseBackend) : Prop where
  writes : server.writes = b.version
  versioned : Versioned A server
  current : b.Versioned
  record : Option.Rel (SameRecord A) (seenLease server) b.record

inductive SamePlan : Plan → Plan → Prop where
  | standDown : SamePlan .standDown .standDown
  | create {fresh : LeaseRecord} (h : Kept fresh) : SamePlan (.create fresh) (.create fresh)
  | update {c c' : LeaseRecord} (h : SameRecord A c c') (acquired : Bool) :
      SamePlan (.update c acquired) (.update c' acquired)

inductive SameTick : TickPhase → TickPhase → Prop where
  | idle : SameTick .idle .idle
  | clockRead {now : ℚ} (h : KeptTime now) : SameTick (.clockRead now) (.clockRead now)
  | observed {now : ℚ} {p p' : Plan} (h : SamePlan A p p') :
      SameTick (.observed now p) (.observed now p')
  | performed {now : ℚ} {p p' : Plan} (h : SamePlan A p p') :
      SameTick (.performed now p) (.performed now p')
  | returned (a : LeaseAttempt) : SameTick (.returned a) (.returned a)

end Records

section Writes

variable {A : ApiServer} {server : ApiState} {b : InMemoryLeaseBackend} {r r' : LeaseRecord}
  {p p' : Plan} {s : ElectorSettings} {now : ℚ}

theorem samePlan_of {o o' : Option LeaseRecord} (hs : KeptDuration s.leaseDurationSec)
    (hnow : KeptTime now) (h : Option.Rel (SameRecord A) o o') :
    SamePlan A (Plan.of s now o) (Plan.of s now o') := by
  cases h with
  | none => exact .create ⟨hs, hnow, hnow⟩
  | @some r r' hr =>
    obtain ⟨hkept, hfields, hversion⟩ := hr
    generalize r'.resourceVersion = version at hfields hversion
    subst hfields
    simp only [Plan.of, LeaseRecord.isExpired]
    split
    · exact .standDown
    · split
      · refine .update ?_ false
        exact ⟨⟨hs, hkept.acquireTime, hnow⟩, rfl, hversion⟩
      · refine .update ?_ true
        exact ⟨⟨hs, hnow, hnow⟩, rfl, hversion⟩

theorem SamePlan.mark (h : SamePlan A p p') (e : LeaderElector) :
    p'.mark now e = p.mark now e := by
  cases h <;> rfl

theorem SameLease.seenLease_eq_none_iff (h : SameLease A server b) :
    server.lease = none ↔ b.record = none := by
  have hrec := h.record
  rw [seenLease] at hrec
  generalize b.record = record at hrec
  cases hl : server.lease with
  | none =>
    rw [hl] at hrec
    cases hrec
    simp
  | some lease =>
    rw [hl] at hrec
    cases hrec
    simp

theorem SameLease.store (h : SameLease A server b) (hkept : Kept r)
    (hfields : r' = { r with resourceVersion := r'.resourceVersion }) {stored : V1LeaseSpec}
    (hspec : spec r = some stored) : SameLease A (server.store A stored).2 (b.store r').2 := by
  obtain ⟨stored', hspec', hread⟩ := hkept.spec
  obtain rfl : stored' = stored := Option.some.inj (hspec'.symm.trans hspec)
  refine ⟨congrArg (· + 1) h.writes, versioned_store server stored',
    InMemoryLeaseBackend.versioned_store b r', ?_⟩
  refine .some ⟨?_, ?_, server.writes + 1, ?_, ?_⟩
  · rw [hread]
    exact ⟨hkept.duration, hkept.acquireTime, hkept.renewTime⟩
  · rw [hread, hfields]
  · rw [hread]
  · rw [h.writes]

/-- Both backends accept a write, and then store the same, or neither does. -/
def SameWrite (A : ApiServer) (w : Except ElectorRuns.Raised (LeaseRecord × ApiState))
    (w' : Except LeaseConflict (LeaseRecord × InMemoryLeaseBackend)) : Prop :=
  match w, w' with
  | .ok (_, server), .ok (_, b) => SameLease A server b
  | .error _, .error _ => True
  | _, _ => False

theorem SameLease.create (h : SameLease A server b) (hkept : Kept r) :
    SameWrite A (create A r server) (b.create r) := by
  obtain ⟨stored, hspec, -⟩ := hkept.spec
  unfold KubernetesBackends.create InMemoryLeaseBackend.create createNamespacedLease
  rw [hspec]
  cases hl : server.lease with
  | none =>
    rw [h.seenLease_eq_none_iff.mp hl]
    exact h.store hkept rfl hspec
  | some lease =>
    cases hb : b.record with
    | none =>
      rw [h.seenLease_eq_none_iff.mpr hb] at hl
      cases hl
    | some cur => trivial

theorem version_eq_iff (A : ApiServer) {m n : ℕ} :
    some (A.resourceVersion m) = some (A.resourceVersion n) ↔
      some (toString m) = some (toString n) := by
  rw [Option.some_inj, Option.some_inj, A.injective.eq_iff, toString_inj]

theorem SameLease.update (h : SameLease A server b) (hlease : server.lease ≠ none)
    (hr : SameRecord A r r') : SameWrite A (update A r server) (b.update r') := by
  obtain ⟨hkept, hfields, n, hversion, hversion'⟩ := hr
  obtain ⟨stored, hspec, -⟩ := hkept.spec
  obtain ⟨lease, hl⟩ := Option.ne_none_iff_exists'.mp hlease
  obtain ⟨cur, hb⟩ :=
    Option.ne_none_iff_exists'.mp fun hb => hlease (h.seenLease_eq_none_iff.mpr hb)
  have hcur : cur.resourceVersion = some (toString server.writes) := by
    rw [h.writes]
    exact h.current cur hb
  unfold KubernetesBackends.update InMemoryLeaseBackend.update replaceNamespacedLease
  rw [hspec, hl, hb]
  simp only [hversion, hversion', hcur, h.versioned lease hl, ne_eq]
  by_cases hn : some (A.resourceVersion server.writes) = some (A.resourceVersion n)
  · have hn' := (version_eq_iff A).mp hn
    rw [if_pos hn, if_neg (not_not.mpr hn'.symm)]
    exact h.store hkept hfields hspec
  · have hn' : ¬ some (toString n) = some (toString server.writes) :=
      fun heq => hn ((version_eq_iff A).mpr heq.symm)
    rw [if_neg hn, if_pos hn']
    trivial

theorem SameLease.callWith (h : SameLease A server b)
    {w : ApiState → Except ElectorRuns.Raised (LeaseRecord × ApiState)}
    {w' : InMemoryLeaseBackend → Except LeaseConflict (LeaseRecord × InMemoryLeaseBackend)}
    (hw : SameWrite A (w server) (w' b)) (fault : CallFault) :
    (b.callWith w' fault).1 = (callWith server w fault).1 ∧
      SameLease A (callWith server w fault).2 (b.callWith w' fault).2 := by
  unfold KubernetesBackends.callWith InMemoryLeaseBackend.callWith
  cases fault with
  | before => exact ⟨rfl, h⟩
  | none =>
    cases hl : w server <;> cases hr : w' b <;> rw [hl, hr] at hw
    · exact ⟨rfl, h⟩
    · cases hw
    · cases hw
    · exact ⟨rfl, hw⟩
  | after =>
    cases hl : w server <;> cases hr : w' b <;> rw [hl, hr] at hw
    · exact ⟨rfl, h⟩
    · cases hw
    · cases hw
    · exact ⟨rfl, hw⟩

theorem SameLease.perform (h : SameLease A server b) (hp : SamePlan A p p')
    (hlease : ∀ c a, p = .update c a → server.lease ≠ none) (fault : CallFault) :
    (p'.perform b fault).1 = (perform A server fault p).1 ∧
      SameLease A (perform A server fault p).2 (p'.perform b fault).2 := by
  cases hp with
  | standDown => exact ⟨rfl, h⟩
  | create hkept => exact h.callWith (h.create hkept) fault
  | update hr acquired => exact h.callWith (h.update (hlease _ _ rfl) hr) fault

end Writes

section Clusters

variable {ι : Type} {A : ApiServer} {F : Fleet ι} {k : KubernetesCluster ι} {c : Cluster ι}

/-- The two clusters are the same but for the names of the versions. -/
structure SameCluster (A : ApiServer) (k : KubernetesCluster ι) (c : Cluster ι) : Prop where
  clock : c.clock = k.clock
  time : KeptTime k.clock
  electors : c.electors = k.electors
  lease : SameLease A k.server c.backend
  ticks : ∀ i, SameTick A (k.ticks i) (c.ticks i)

/-- The clock is moved to times that Kubernetes keeps. -/
def KeptTimes (_ : KubernetesCluster ι) : TickEvent ι → Prop
  | .advance t => KeptTime t
  | .readClock _ | .get _ _ | .write _ _ | .mark _ | .expireSelf _ => True

theorem sameCluster_initial (h : KubernetesElectors.Initial k) (ht : KeptTime k.clock) :
    ∃ c : Cluster ι, InterleavedElectors.Initial c ∧ SameCluster A k c := by
  obtain ⟨hs, he, hticks⟩ := h
  refine ⟨⟨k.clock, {}, k.electors, fun _ => .idle⟩, ⟨rfl, he, fun _ => rfl⟩, rfl, ht, rfl, ?_, ?_⟩
  · rw [hs]
    exact ⟨rfl, versioned_empty, InMemoryLeaseBackend.versioned_empty, .none⟩
  · intro i
    rw [hticks]
    exact .idle

theorem SameCluster.resting (h : SameCluster A k c) {i : ι} (hrest : k.Resting i) :
    c.Resting i := by
  have ht := h.ticks i
  rcases hrest with hi | ⟨a, hi⟩
  · rw [hi] at ht
    generalize hc : c.ticks i = phase at ht
    cases ht
    exact .inl hc
  · rw [hi] at ht
    generalize hc : c.ticks i = phase at ht
    cases ht
    exact .inr ⟨a, hc⟩

variable [DecidableEq ι]

theorem SameCluster.setTick (h : SameCluster A k c) (i : ι) {t t' : TickPhase}
    (ht : SameTick A t t') : SameCluster A (k.setTick i t) (c.setTick i t') where
  clock := h.clock
  time := h.time
  electors := h.electors
  lease := h.lease
  ticks j := by
    by_cases hj : j = i
    · subst hj
      simpa [KubernetesCluster.setTick, Cluster.setTick] using ht
    · simpa [KubernetesCluster.setTick, Cluster.setTick, Function.update_of_ne hj] using h.ticks j

theorem SameCluster.setElector (h : SameCluster A k c) (i : ι) (e : LeaderElector) :
    SameCluster A (k.setElector i e) (c.setElector i e) where
  clock := h.clock
  time := h.time
  electors := by rw [Cluster.setElector, KubernetesCluster.setElector, h.electors]
  lease := h.lease
  ticks := h.ticks

/-- Whole seconds, the same for every reader of the lease. -/
def WholeSeconds (F : Fleet ι) : Prop := ∀ i, KeptDuration (F.settings i).leaseDurationSec

theorem SameCluster.get (hF : WholeSeconds F) (h : SameCluster A k c) {i : ι} {now : ℚ}
    (hi : k.ticks i = .clockRead now) (fault : CallFault) {k' : KubernetesCluster ι}
    (hs : KubernetesElectors.step A F k (.get i fault) = some k') :
    ∃ c', InterleavedElectors.step F c (.get i fault) = some c' ∧ SameCluster A k' c' := by
  have ht := h.ticks i
  rw [hi] at ht
  generalize hc : c.ticks i = phase at ht
  cases ht with
  | clockRead hnow =>
    simp only [KubernetesElectors.step, hi] at hs
    simp only [InterleavedElectors.step, hc]
    cases fault with
    | none =>
      simp only [getWith, get_eq] at hs
      obtain rfl := Option.some.inj hs
      refine ⟨_, rfl, h.setTick i (.observed ?_)⟩
      exact samePlan_of (hF i) hnow h.lease.record
    | before =>
      obtain rfl := Option.some.inj hs
      exact ⟨_, rfl, h.setTick i (.returned .failed)⟩
    | after =>
      obtain rfl := Option.some.inj hs
      exact ⟨_, rfl, h.setTick i (.returned .failed)⟩

theorem SameCluster.write (hinv : Invariant A F k) (h : SameCluster A k c) {i : ι} {now : ℚ}
    {plan : Plan} (hi : k.ticks i = .observed now plan) (fault : CallFault)
    {k' : KubernetesCluster ι} (hs : KubernetesElectors.step A F k (.write i fault) = some k') :
    ∃ c', InterleavedElectors.step F c (.write i fault) = some c' ∧ SameCluster A k' c' := by
  have ht := h.ticks i
  rw [hi] at ht
  generalize hc : c.ticks i = phase at ht
  cases ht with
  | @observed _ _ plan' hplan =>
    have hsound := hinv.phase i
    rw [PhaseSound, hi] at hsound
    have hlease : ∀ candidate a, plan = .update candidate a → k.server.lease ≠ none := by
      intro candidate a hu
      obtain ⟨o, ⟨hpresent, -⟩, -⟩ := hsound.2.based candidate a hu
      exact hpresent
    obtain ⟨hok, hafter⟩ := h.lease.perform hplan hlease fault
    have hsame : SameCluster A { k with server := (perform A k.server fault plan).2 }
        { c with backend := (plan'.perform c.backend fault).2 } :=
      ⟨h.clock, h.time, h.electors, hafter, h.ticks⟩
    simp only [KubernetesElectors.step, hi] at hs
    simp only [InterleavedElectors.step, hc]
    rcases hk : perform A k.server fault plan with ⟨_ | _, server⟩ <;>
      rcases hb : plan'.perform c.backend fault with ⟨_ | _, backend⟩ <;>
      rw [hk, hb] at hok hsame <;> rw [hk] at hs
    · obtain rfl := Option.some.inj hs
      exact ⟨_, rfl, hsame.setTick i (.returned .failed)⟩
    · cases hok
    · cases hok
    · obtain rfl := Option.some.inj hs
      exact ⟨_, rfl, hsame.setTick i (.performed hplan)⟩

theorem SameCluster.mark (h : SameCluster A k c) {i : ι} {now : ℚ} {plan : Plan}
    (hi : k.ticks i = .performed now plan) {k' : KubernetesCluster ι}
    (hs : KubernetesElectors.step A F k (.mark i) = some k') :
    ∃ c', InterleavedElectors.step F c (.mark i) = some c' ∧ SameCluster A k' c' := by
  have ht := h.ticks i
  rw [hi] at ht
  generalize hc : c.ticks i = phase at ht
  cases ht with
  | @performed _ _ plan' hplan =>
    simp only [KubernetesElectors.step, hi] at hs
    obtain rfl := Option.some.inj hs
    simp only [InterleavedElectors.step, hc]
    refine ⟨_, rfl, ?_⟩
    rw [hplan.mark, h.electors]
    exact (h.setElector i _).setTick i (.returned _)

/-- Every step over Kubernetes is the same step over the in-memory backend. -/
theorem SameCluster.step (hF : WholeSeconds F) (hinv : Invariant A F k) (h : SameCluster A k c)
    {e : TickEvent ι} {k' : KubernetesCluster ι} (ht : KeptTimes k e)
    (hs : KubernetesElectors.step A F k e = some k') :
    ∃ c', InterleavedElectors.step F c e = some c' ∧ SameCluster A k' c' := by
  cases e with
  | advance t =>
    cases step_cases hs with
    | advance hle =>
      refine ⟨{ c with clock := t }, ?_, rfl, ht, h.electors, h.lease, h.ticks⟩
      simp [InterleavedElectors.step, h.clock, hle]
  | readClock i =>
    cases step_cases hs with
    | readClock hrest =>
      refine ⟨c.setTick i (.clockRead c.clock), ?_, ?_⟩
      · rcases h.resting hrest with hi | ⟨a, hi⟩ <;> simp [InterleavedElectors.step, hi]
      · rw [h.clock]
        exact h.setTick i (.clockRead h.time)
  | get i fault =>
    cases step_cases hs with
    | getRaised hi => exact h.get hF hi fault hs
    | get hi => exact h.get hF hi fault hs
  | write i fault =>
    cases step_cases hs with
    | writeRaised hi => exact h.write hinv hi fault hs
    | write hi => exact h.write hinv hi fault hs
  | mark i =>
    cases step_cases hs with
    | mark hi => exact h.mark hi hs
  | expireSelf i =>
    cases step_cases hs with
    | expireSelf hrest =>
      refine ⟨c.setElector i (c.electors i).expireSelf, ?_, ?_⟩
      · rcases h.resting hrest with hi | ⟨a, hi⟩ <;> simp [InterleavedElectors.step, hi]
      · rw [h.electors]
        exact h.setElector i _

end Clusters

section Takeover

theorem twoPods_wholeSeconds : WholeSeconds LeaseCoverage.twoPods :=
  fun _ => ⟨by norm_num [LeaseCoverage.twoPods, defaultLeaseDurationSec],
    15, by norm_num [LeaseCoverage.twoPods, defaultLeaseDurationSec]⟩

/-- `pod-0` creates the lease; `pod-1` takes it over after 16 seconds. -/
def takeover : List (TickEvent Bool) :=
  LeaseHistories.wholeTick true ++ .advance 16 :: LeaseHistories.wholeTick false

theorem takeover_run {P : KubernetesCluster Bool → Prop} [DecidablePred P]
    (h : (takeover.foldlM (KubernetesElectors.step decimalServer LeaseCoverage.twoPods)
      KubernetesElectors.emptyCluster).any (fun k => decide (P k)) = true) :
    ∃ k, Run (guarded KeptTimes (ofStep (KubernetesElectors.step decimalServer
      LeaseCoverage.twoPods))) KubernetesElectors.emptyCluster takeover k ∧ P k := by
  obtain ⟨k, hr, hk⟩ := Run.ofFold_satisfies _ _ _ P h
  have hkept : KeptTime 16 := ⟨⟨16000000, by norm_num [timestamp]⟩, by norm_num [maxSeconds]⟩
  refine ⟨k, hr.guard fun e he u => ?_, hk⟩
  simp only [takeover, LeaseHistories.wholeTick, List.cons_append, List.nil_append, List.mem_cons,
    List.not_mem_nil, or_false] at he
  rcases he with rfl | rfl | rfl | rfl | rfl | rfl | rfl | rfl | rfl <;> trivial

theorem emptyCluster_initial : KubernetesElectors.Initial KubernetesElectors.emptyCluster :=
  ⟨rfl, fun _ => rfl, fun _ => rfl⟩

theorem emptyCluster_keptTime : KeptTime KubernetesElectors.emptyCluster.clock :=
  ⟨⟨0, by norm_num [timestamp, KubernetesElectors.emptyCluster]⟩,
    by norm_num [maxSeconds, KubernetesElectors.emptyCluster]⟩

end Takeover

section Runs

variable {ι : Type} [DecidableEq ι] {A : ApiServer} {F : Fleet ι} {k : KubernetesCluster ι}

/-- Every run over Kubernetes is, event by event, a run over the in-memory backend that goes
through the same clusters but for the names of the versions. -/
theorem refines_in_memory (hF : WholeSeconds F) {start : KubernetesCluster ι}
    {es : List (TickEvent ι)} (hstart : KubernetesElectors.Initial start)
    (htime : KeptTime start.clock)
    (hrun : Run (guarded KeptTimes (ofStep (KubernetesElectors.step A F))) start es k) :
    ∃ c₀ c, InterleavedElectors.Initial c₀ ∧
      Run (ofStep (InterleavedElectors.step F)) c₀ es c ∧ SameCluster A k c := by
  obtain ⟨c₀, hinit, hsame⟩ := sameCluster_initial hstart htime
  have hstep : ∀ k c e k', (Invariant A F k ∧ SameCluster A k c) →
      guarded KeptTimes (ofStep (KubernetesElectors.step A F)) k e k' →
      ∃ c', ofStep (InterleavedElectors.step F) c e c' ∧ Invariant A F k' ∧
        SameCluster A k' c' := by
    intro k c e k' ⟨hinv, h⟩ ⟨ht, hs⟩
    obtain ⟨c', hc', hsame'⟩ := h.step hF hinv ht hs
    exact ⟨c', hc', invariant_step hinv (step_cases hs), hsame'⟩
  obtain ⟨c, hc, -, hsame'⟩ := hrun.simulated hstep ⟨invariant_initial hstart, hsame⟩
  exact ⟨c₀, c, hinit, hc, hsame'⟩

theorem refines_in_memory_takeover :
    ∃ k c₀ c, InterleavedElectors.Initial c₀ ∧
      Run (ofStep (InterleavedElectors.step LeaseCoverage.twoPods)) c₀ takeover c ∧
      SameCluster decimalServer k c ∧
      (seenLease k.server).map (·.holderIdentity) = some "pod-1" := by
  obtain ⟨k, hr, hk⟩ := @takeover_run
    (fun k => (seenLease k.server).map (·.holderIdentity) = some "pod-1") _ (by decide +kernel)
  obtain ⟨c₀, c, hinit, hc, hsame⟩ :=
    refines_in_memory twoPods_wholeSeconds emptyCluster_initial emptyCluster_keptTime hr
  exact ⟨k, c₀, c, hinit, hc, hsame, hk⟩

/-- Over Kubernetes too, whole seconds and microseconds leave one leader for the full duration
of its lease. -/
theorem sole_leader_of_whole_seconds (hF : WholeSeconds F) {start : KubernetesCluster ι}
    {es : List (TickEvent ι)} (hstart : KubernetesElectors.Initial start)
    (htime : KeptTime start.clock)
    (hrun : Run (guarded KeptTimes (ofStep (KubernetesElectors.step A F))) start es k) {i j : ι}
    (hi : (k.electors i).isLeader = true)
    (hvi : k.clock - (k.electors i).lastRenewSuccess ≤ (F.settings i).leaseDurationSec)
    (hj : (k.electors j).isLeader = true)
    (hvj : k.clock - (k.electors j).lastRenewSuccess ≤ (F.settings j).leaseDurationSec) :
    i = j := by
  obtain ⟨c₀, c, hinit, hc, hsame⟩ := refines_in_memory hF hstart htime hrun
  have inv := @LeaseCoverage.invariant_reachable _ F c _ ⟨c₀, es, hinit, hc⟩
  rw [← hsame.clock, ← hsame.electors] at hvi hvj
  rw [← hsame.electors] at hi hj
  exact (inv.covered i (inv.consistent i hi)).unique (inv.covered j (inv.consistent j hj)) hvi hvj

/-- After the take-over `pod-0` has not yet noticed; its lease is over. -/
theorem sole_leader_of_whole_seconds_takeover :
    ∃ k : KubernetesCluster Bool, (k.electors true).isLeader = true ∧
      (k.electors false).isLeader = true ∧
      ∀ j, (k.electors j).isLeader = true → k.clock - (k.electors j).lastRenewSuccess ≤
        (LeaseCoverage.twoPods.settings j).leaseDurationSec → j = false := by
  obtain ⟨k, hr, hold, hnew, hvalid⟩ := @takeover_run
    (fun k => (k.electors true).isLeader = true ∧ (k.electors false).isLeader = true ∧
      k.clock - (k.electors false).lastRenewSuccess ≤
        (LeaseCoverage.twoPods.settings false).leaseDurationSec) _ (by decide +kernel)
  refine ⟨k, hold, hnew, fun j hj hvj => ?_⟩
  exact sole_leader_of_whole_seconds twoPods_wholeSeconds emptyCluster_initial
    emptyCluster_keptTime hr hj hvj hnew hvalid

/-- The stored lease is the last of a history of writes, each made from the one before it. -/
theorem kubernetes_lease_history (hF : WholeSeconds F) {start : KubernetesCluster ι}
    {es : List (TickEvent ι)} (hstart : KubernetesElectors.Initial start)
    (htime : KeptTime start.clock)
    (hrun : Run (guarded KeptTimes (ofStep (KubernetesElectors.step A F))) start es k) :
    ∃ writes, LeaseHistories.HistorySound F writes ∧ k.server.writes = writes.length ∧
      Option.Rel (SameRecord A) (seenLease k.server) (LeaseHistories.lastStored writes) := by
  obtain ⟨c₀, c, hinit, hc, hsame⟩ := refines_in_memory hF hstart htime hrun
  obtain ⟨t, ht, rfl⟩ := @LeaseHistories.run_recorded _ F _ ⟨c₀, fun _ => none, []⟩ _ _ hc
  have inv := @LeaseHistories.invariant_reachable _ F t _ ⟨_, es, ⟨hinit, fun _ => rfl, rfl⟩, ht⟩
  refine ⟨t.writes, inv.history fun i => (hF i).1.le, ?_, ?_⟩
  · exact hsame.lease.writes.trans inv.version
  · rw [← inv.record]
    exact hsame.lease.record

theorem kubernetes_lease_history_takeover :
    ∃ (k : KubernetesCluster Bool) (writes : List (LeaseHistories.Write Bool)),
      writes.length = 2 ∧ LeaseHistories.HistorySound LeaseCoverage.twoPods writes ∧
      Option.Rel (SameRecord decimalServer) (seenLease k.server)
        (LeaseHistories.lastStored writes) := by
  obtain ⟨k, hr, hk⟩ := @takeover_run (fun k => k.server.writes = 2) _ (by decide +kernel)
  obtain ⟨writes, hsound, hlength, hlast⟩ := kubernetes_lease_history twoPods_wholeSeconds
    emptyCluster_initial emptyCluster_keptTime hr
  exact ⟨k, writes, hlength.symm.trans hk, hsound, hlast⟩

end Runs

end BifrostSocket.KubernetesRefinement
