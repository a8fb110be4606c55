import BifrostSocket.LeaseCoverage
import BifrostSocket.KubernetesBackends

/-!
# Electors interleaved over Kubernetes

The electors of a fleet share one Lease of the API server, and one clock. A lease is stored for a
whole number of seconds and renewed at a whole microsecond, so an elector may count on a little less
than what it reads in its settings; within that time it is the only leader.
-/

namespace BifrostSocket.KubernetesElectors
open TransitionRuns LeaseRecords LeaderElectors InterleavedElectors KubernetesLeases
open KubernetesBackends
open HistoricalBars (roundHalfEven fromTimestamp timestamp)

section Clusters

structure KubernetesCluster (ι : Type) where
  clock : ℚ
  server : ApiState
  electors : ι → LeaderElector
  ticks : ι → TickPhase

variable {ι : Type} [DecidableEq ι]

def KubernetesCluster.setTick (c : KubernetesCluster ι) (i : ι) (p : TickPhase) :
    KubernetesCluster ι :=
  { c with ticks := Function.update c.ticks i p }

def KubernetesCluster.setElector (c : KubernetesCluster ι) (i : ι) (e : LeaderElector) :
    KubernetesCluster ι :=
  { c with electors := Function.update c.electors i e }

/-- One step of one elector, or of the clock. -/
def step (A : ApiServer) (F : Fleet ι) (c : KubernetesCluster ι) :
    TickEvent ι → Option (KubernetesCluster ι)
  | .advance t => if c.clock ≤ t then some { c with clock := t } else none
  | .readClock i => match c.ticks i with
    | .idle | .returned _ => some (c.setTick i (.clockRead c.clock))
    | _ => none
  | .get i fault => match c.ticks i with
    | .clockRead now => match getWith c.server fault with
      | .error _ => some (c.setTick i (.returned .failed))
      | .ok observed => some (c.setTick i (.observed now (Plan.of (F.settings i) now observed)))
    | _ => none
  | .write i fault => match c.ticks i with
    | .observed now plan => match perform A c.server fault plan with
      | (false, server) => some ({ c with server }.setTick i (.returned .failed))
      | (true, server) => some ({ c with server }.setTick i (.performed now plan))
    | _ => none
  | .mark i => match c.ticks i with
    | .performed now plan =>
      let r := plan.mark now (c.electors i)
      some ((c.setElector i r.2).setTick i (.returned r.1))
    | _ => none
  | .expireSelf i => match c.ticks i with
    | .idle | .returned _ => some (c.setElector i (c.electors i).expireSelf)
    | _ => none

/-- No tick of this elector is under way. -/
def KubernetesCluster.Resting (c : KubernetesCluster ι) (i : ι) : Prop :=
  c.ticks i = .idle ∨ ∃ a, c.ticks i = .returned a

/-- The same transitions, one constructor for each way a step can go. -/
inductive Step (A : ApiServer) (F : Fleet ι) (c : KubernetesCluster ι) :
    TickEvent ι → KubernetesCluster ι → Prop where
  | advance {t} (h : c.clock ≤ t) : Step A F c (.advance t) { c with clock := t }
  | readClock {i} (h : c.Resting i) : Step A F c (.readClock i) (c.setTick i (.clockRead c.clock))
  | getRaised {i f now} (h : c.ticks i = .clockRead now) :
      Step A F c (.get i f) (c.setTick i (.returned .failed))
  | get {i f now} (h : c.ticks i = .clockRead now) :
      Step A F c (.get i f)
        (c.setTick i (.observed now (Plan.of (F.settings i) now (seenLease c.server))))
  | writeRaised {i f now plan} (h : c.ticks i = .observed now plan) :
      Step A F c (.write i f)
        ({ c with server := (perform A c.server f plan).2 }.setTick i (.returned .failed))
  | write {i f now plan} (h : c.ticks i = .observed now plan)
      (hok : (perform A c.server f plan).1 = true) :
      Step A F c (.write i f)
        ({ c with server := (perform A c.server f plan).2 }.setTick i (.performed now plan))
  | mark {i now plan} (h : c.ticks i = .performed now plan) :
      Step A F c (.mark i) ((c.setElector i (plan.mark now (c.electors i)).2).setTick i
        (.returned (plan.mark now (c.electors i)).1))
  | expireSelf {i} (h : c.Resting i) :
      Step A F c (.expireSelf i) (c.setElector i (c.electors i).expireSelf)

theorem step_cases {A : ApiServer} {F : Fleet ι} {c c' : KubernetesCluster ι} {e : TickEvent ι}
    (h : step A F c e = some c') : Step A F c e c' := by
  cases e with
  | advance t =>
    simp only [step] at h
    split at h
    · next hle => exact Option.some.inj h ▸ .advance hle
    · cases h
  | readClock i =>
    simp only [step] at h
    split at h
    · next hp => exact Option.some.inj h ▸ .readClock (.inl hp)
    · next a hp => exact Option.some.inj h ▸ .readClock (.inr ⟨a, hp⟩)
    · cases h
  | get i f =>
    simp only [step] at h
    split at h
    · next now hp =>
      split at h
      · exact Option.some.inj h ▸ .getRaised hp
      · next observed hget =>
        rw [eq_seenLease_of_getWith hget] at h
        exact Option.some.inj h ▸ .get hp
    · cases h
  | write i f =>
    simp only [step] at h
    split at h
    · next now plan hp =>
      split at h
      · next server hs =>
        rw [show server = (perform A c.server f plan).2 by rw [hs]] at h
        exact Option.some.inj h ▸ .writeRaised hp
      · next server hs =>
        rw [show server = (perform A c.server f plan).2 by rw [hs]] at h
        exact Option.some.inj h ▸ .write hp (by rw [hs])
    · cases h
  | mark i =>
    simp only [step] at h
    split at h
    · next now plan hp => exact Option.some.inj h ▸ .mark hp
    · cases h
  | expireSelf i =>
    simp only [step] at h
    split at h
    · next hp => exact Option.some.inj h ▸ .expireSelf (.inl hp)
    · next a hp => exact Option.some.inj h ▸ .expireSelf (.inr ⟨a, hp⟩)
    · cases h

/-- Fresh electors and no stored lease, at any time of the clock. -/
def Initial (c : KubernetesCluster ι) : Prop :=
  c.server = {} ∧ (∀ i, c.electors i = {}) ∧ ∀ i, c.ticks i = .idle

abbrev ReachableCluster (A : ApiServer) (F : Fleet ι) : KubernetesCluster ι → Prop :=
  Reachable Initial (ofStep (step A F))

end Clusters

section Rounding

/-- A moment that Kubernetes stores is at most half a microsecond earlier. -/
theorem le_timestamp_of_toDt {t : ℚ} {us : ℤ} (h : toDt t = some us) :
    t - 1 / 2000000 ≤ timestamp us := by
  simp only [toDt, fromTimestamp] at h
  split at h
  · obtain rfl := Option.some.inj h
    have hnear := (roundHalfEven_near (t * 1000000)).1
    rw [timestamp, le_div_iff₀ (by norm_num)]
    linarith
  · cases h

/-- The lease duration that a reader finds in what the elector has written. -/
def storedDurationSec (s : ElectorSettings) : ℚ :=
  durationOf (some (roundHalfEven s.leaseDurationSec))

/-- How long after a renewal an elector may be sure of the lease. -/
def guaranteedSec (s : ElectorSettings) : ℚ := storedDurationSec s - 1 / 2000000

theorem spec_stored {r : LeaseRecord} {stored : V1LeaseSpec} (version : Option String)
    (h : spec r = some stored) :
    (fromK8s ⟨stored, version⟩).holderIdentity = r.holderIdentity ∧
      (fromK8s ⟨stored, version⟩).leaseDurationSec =
        durationOf (some (roundHalfEven r.leaseDurationSec)) ∧
      r.renewTime - 1 / 2000000 ≤ (fromK8s ⟨stored, version⟩).renewTime := by
  unfold spec at h
  split at h
  · next acquireTime renewTime _ hrenew =>
    obtain rfl := Option.some.inj h
    refine ⟨?_, rfl, le_timestamp_of_toDt hrenew⟩
    by_cases hempty : r.holderIdentity = "" <;> simp [fromK8s, OperatorProtocol.orDefault, hempty]
  · cases h

end Rounding

section Coverage

variable {A : ApiServer} {server : ApiState} {clock now last : ℚ} {s t : ElectorSettings}
  {plan : Plan}

/-- A success of the elector at time `last` is backed by the stored lease, or over. -/
def Covered (server : ApiState) (clock : ℚ) (s : ElectorSettings) (last : ℚ) : Prop :=
  (∃ r, seenLease server = some r ∧ r.holderIdentity = s.identity ∧
    last + guaranteedSec s ≤ r.renewTime + r.leaseDurationSec) ∨
  last + guaranteedSec s < clock

/-- What a tick that has read the lease knows about it. -/
structure SoundPlan (A : ApiServer) (s : ElectorSettings) (server : ApiState) (now : ℚ)
    (plan : Plan) : Prop where
  writes : ∀ r, plan.record = some r → r.holderIdentity = s.identity ∧
    r.leaseDurationSec = s.leaseDurationSec ∧ r.renewTime = now
  based : ∀ c a, plan = .update c a → ∃ o, Seen A server o ∧
    c.resourceVersion = o.resourceVersion ∧
    (o.holderIdentity ≠ s.identity → o.renewTime + o.leaseDurationSec < now)

theorem SoundPlan.of_seenLease (h : Versioned A server) :
    SoundPlan A s server now (Plan.of s now (seenLease server)) where
  writes _ hr := Plan.of_record hr
  based _ _ hu := by
    obtain ⟨o, ho, hversion, hexpired⟩ := Plan.of_update hu
    exact ⟨o, h.seen ho, hversion, hexpired⟩

theorem Covered.advance {clock' : ℚ} (h : Covered server clock s last) (hle : clock ≤ clock') :
    Covered server clock' s last :=
  h.imp_right fun hlt => hlt.trans_le hle

/-- What a plan does to the server: it stores a lease of the elector that lasts for at least the
guaranteed time, in place of its own lease or of one that has expired. -/
theorem SoundPlan.perform (hs : Versioned A server) (hp : SoundPlan A s server now plan)
    (fault : CallFault) :
    ((perform A server fault plan).2 = server ∧
        ((perform A server fault plan).1 = true → plan = .standDown)) ∨
      ∃ stored, (perform A server fault plan).2 = (server.store A stored).2 ∧
        (fromK8s (server.store A stored).1).holderIdentity = s.identity ∧
        now + guaranteedSec s ≤ (fromK8s (server.store A stored).1).renewTime +
          (fromK8s (server.store A stored).1).leaseDurationSec ∧
        ∀ cur, seenLease server = some cur → cur.holderIdentity ≠ s.identity →
          cur.renewTime + cur.leaseDurationSec < now := by
  rcases perform_cases plan server fault with h | ⟨r, stored, hr, hspec, hstore, hcase⟩
  · exact .inl h
  · obtain ⟨hid, hdur, hnow⟩ := hp.writes r hr
    obtain ⟨hholder, hduration, hrenew⟩ :=
      spec_stored (some (A.resourceVersion (server.writes + 1))) hspec
    refine .inr ⟨stored, hstore, hholder.trans hid, ?_, ?_⟩
    · rw [hdur] at hduration
      rw [hnow] at hrenew
      simp only [ApiState.store, guaranteedSec, storedDurationSec]
      linarith
    · rcases hcase with ⟨-, hnone⟩ | ⟨acquired, updated, s', hu, hw⟩
      · simp [seenLease, hnone]
      · obtain ⟨o, hseen, hversion, hexpired⟩ := hp.based r acquired hu
        intro cur hcur hne
        obtain rfl : o = cur := Option.some.inj ((hseen.current hs hversion hw).symm.trans hcur)
        exact hexpired hne

theorem SoundPlan.versioned (hs : Versioned A server) (hp : SoundPlan A s server now plan)
    (fault : CallFault) : Versioned A (KubernetesBackends.perform A server fault plan).2 := by
  rcases hp.perform hs fault with ⟨h, -⟩ | ⟨stored, h, -⟩
  · rwa [h]
  · rw [h]
    exact versioned_store server stored

theorem Covered.perform (hs : Versioned A server) (hp : SoundPlan A s server now plan)
    (hnow : now ≤ clock) (fault : CallFault) (h : Covered server clock t last)
    (hown : t.identity = s.identity → t = s ∧ last ≤ now) :
    Covered (KubernetesBackends.perform A server fault plan).2 clock t last := by
  rcases hp.perform hs fault with ⟨he, -⟩ | ⟨stored, he, hid, hlasts, hold⟩
  · rwa [he]
  · rw [he]
    by_cases hst : t.identity = s.identity
    · obtain ⟨rfl, hle⟩ := hown hst
      exact .inl ⟨_, rfl, hid, (add_le_add hle le_rfl).trans hlasts⟩
    · rcases h with ⟨cur, hcur, hcid, hle⟩ | hlt
      · have hexpired := hold cur hcur (hcid ▸ hst)
        right
        linarith
      · exact .inr hlt

theorem SoundPlan.covered (hs : Versioned A server) (hp : SoundPlan A s server now plan)
    (fault : CallFault) (hok : (KubernetesBackends.perform A server fault plan).1 = true)
    (hplan : plan ≠ .standDown) :
    Covered (KubernetesBackends.perform A server fault plan).2 clock s now := by
  rcases hp.perform hs fault with ⟨-, hnone⟩ | ⟨stored, he, hid, hlasts, -⟩
  · exact absurd (hnone hok) hplan
  · rw [he]
    exact .inl ⟨_, rfl, hid, hlasts⟩

theorem SoundPlan.perform_other {plan' : Plan} {now' : ℚ} (hs : Versioned A server)
    (hp : SoundPlan A s server now plan) (fault : CallFault)
    (h : SoundPlan A t server now' plan') :
    SoundPlan A t (KubernetesBackends.perform A server fault plan).2 now' plan' := by
  rcases hp.perform hs fault with ⟨he, -⟩ | ⟨stored, he, -⟩
  · rwa [he]
  · rw [he]
    refine ⟨h.writes, fun c a hu => ?_⟩
    obtain ⟨o, ho, hversion, hexpired⟩ := h.based c a hu
    exact ⟨o, ho.store stored, hversion, hexpired⟩

end Coverage

section Safety

variable {ι : Type} {A : ApiServer} {F : Fleet ι} {c c' : KubernetesCluster ι}

/-- The tick of an elector read the clock at `now`, not in the future and not before the
elector's last success. -/
def Timely (c : KubernetesCluster ι) (i : ι) (now : ℚ) : Prop :=
  now ≤ c.clock ∧ ((c.electors i).HasLed → (c.electors i).lastRenewSuccess ≤ now)

def PhaseSound (A : ApiServer) (F : Fleet ι) (c : KubernetesCluster ι) (i : ι) : Prop :=
  match c.ticks i with
  | .idle | .returned _ => True
  | .clockRead now => Timely c i now
  | .observed now plan => Timely c i now ∧ SoundPlan A (F.settings i) c.server now plan
  | .performed now plan => Timely c i now ∧
      (plan ≠ .standDown → Covered c.server c.clock (F.settings i) now)

structure Invariant (A : ApiServer) (F : Fleet ι) (c : KubernetesCluster ι) : Prop where
  versioned : Versioned A c.server
  consistent : ∀ i, (c.electors i).Consistent
  past : ∀ i, (c.electors i).HasLed → (c.electors i).lastRenewSuccess ≤ c.clock
  covered : ∀ i, (c.electors i).HasLed →
    Covered c.server c.clock (F.settings i) (c.electors i).lastRenewSuccess
  phase : ∀ i, PhaseSound A F c i

theorem invariant_initial (h : Initial c) : Invariant A F c := by
  obtain ⟨hs, he, ht⟩ := h
  refine ⟨?_, ?_, ?_, ?_, ?_⟩
  · rw [hs]
    exact versioned_empty
  all_goals intro i
  · simp [he, LeaderElector.Consistent]
  · simp [he, LeaderElector.HasLed]
  · simp [he, LeaderElector.HasLed]
  · simp [PhaseSound, ht]

/-- An elector's phase stays sound where its tick and its fields stay, the clock goes on, and the
server keeps what the tick relies on. -/
theorem PhaseSound.mono {i : ι} (h : PhaseSound A F c i) (hticks : c'.ticks i = c.ticks i)
    (helector : c'.electors i = c.electors i) (hclock : c.clock ≤ c'.clock)
    (hplan : ∀ now plan, c.ticks i = .observed now plan →
      SoundPlan A (F.settings i) c.server now plan → SoundPlan A (F.settings i) c'.server now plan)
    (hcovered : ∀ now, Covered c.server c.clock (F.settings i) now →
      Covered c'.server c'.clock (F.settings i) now) : PhaseSound A F c' i := by
  have htimely : ∀ now, Timely c i now → Timely c' i now := by
    intro now ⟨hnow, hlast⟩
    rw [Timely, helector]
    exact ⟨hnow.trans hclock, hlast⟩
  unfold PhaseSound at h ⊢
  rw [hticks]
  cases hi : c.ticks i with
  | idle => trivial
  | returned => trivial
  | clockRead now =>
    rw [hi] at h
    exact htimely now h
  | observed now plan =>
    rw [hi] at h
    exact ⟨htimely now h.1, hplan now plan hi h.2⟩
  | performed now plan =>
    rw [hi] at h
    exact ⟨htimely now h.1, fun hplan => hcovered now (h.2 hplan)⟩

theorem Invariant.advance (h : Invariant A F c) {t : ℚ} (ht : c.clock ≤ t) :
    Invariant A F { c with clock := t } where
  versioned := h.versioned
  consistent := h.consistent
  past i hi := (h.past i hi).trans ht
  covered i hi := (h.covered i hi).advance ht
  phase i := (h.phase i).mono rfl rfl ht (fun _ _ _ hp => hp) fun _ hc => hc.advance ht

variable [DecidableEq ι]

theorem setTick_ticks_of_ne {i j : ι} {p : TickPhase} (hj : j ≠ i) :
    (c.setTick i p).ticks j = c.ticks j := by
  simp [KubernetesCluster.setTick, Function.update_of_ne hj]

theorem Invariant.setTick (h : Invariant A F c) {i : ι} {p : TickPhase}
    (hp : PhaseSound A F (c.setTick i p) i) : Invariant A F (c.setTick i p) where
  versioned := h.versioned
  consistent := h.consistent
  past := h.past
  covered := h.covered
  phase j := by
    by_cases hj : j = i
    · exact hj ▸ hp
    · exact (h.phase j).mono (setTick_ticks_of_ne hj) rfl le_rfl (fun _ _ _ hs => hs)
        fun _ hc => hc

theorem Invariant.setElector (h : Invariant A F c) {i : ι} {e : LeaderElector}
    (hcons : e.Consistent) (hrest : c.Resting i)
    (hled : e.HasLed → e.lastRenewSuccess ≤ c.clock ∧
      Covered c.server c.clock (F.settings i) e.lastRenewSuccess) :
    Invariant A F (c.setElector i e) := by
  have hself : (c.setElector i e).electors i = e := Function.update_self ..
  have hother : ∀ j ≠ i, (c.setElector i e).electors j = c.electors j :=
    fun j hj => Function.update_of_ne hj ..
  refine ⟨h.versioned, fun j => ?_, fun j => ?_, fun j => ?_, fun j => ?_⟩ <;>
    by_cases hj : j = i
  · rw [hj, hself]
    exact hcons
  · rw [hother j hj]
    exact h.consistent j
  · rw [hj, hself]
    exact fun hl => (hled hl).1
  · rw [hother j hj]
    exact h.past j
  · rw [hj, hself]
    exact fun hl => (hled hl).2
  · rw [hother j hj]
    exact h.covered j
  · subst hj
    rcases hrest with hr | ⟨a, hr⟩ <;> simp [PhaseSound, KubernetesCluster.setElector, hr]
  · exact (h.phase j).mono rfl (hother j hj) le_rfl (fun _ _ _ hs => hs) fun _ hc => hc

/-- A write changes the server only, and the writer's own phase is given. -/
theorem Invariant.perform (h : Invariant A F c) {i : ι} {plan : Plan} {now : ℚ}
    (hi : c.ticks i = .observed now plan) (fault : CallFault) {p : TickPhase}
    (hp : PhaseSound A F
      ({ c with server := (perform A c.server fault plan).2 }.setTick i p) i) :
    Invariant A F ({ c with server := (perform A c.server fault plan).2 }.setTick i p) := by
  have hphase := h.phase i
  rw [PhaseSound, hi] at hphase
  obtain ⟨⟨hnow, hlast⟩, hsound⟩ := hphase
  have hne : ∀ j, j ≠ i → (F.settings j).identity ≠ (F.settings i).identity :=
    fun j hj he => hj (F.distinct he)
  refine ⟨hsound.versioned h.versioned fault, h.consistent, h.past, fun j hj => ?_, fun j => ?_⟩
  · refine (h.covered j hj).perform h.versioned hsound hnow fault fun he => ?_
    obtain rfl : j = i := F.distinct he
    exact ⟨rfl, hlast hj⟩
  · by_cases hj : j = i
    · exact hj ▸ hp
    · refine (h.phase j).mono (setTick_ticks_of_ne hj) rfl le_rfl ?_ ?_
      · exact fun now' plan' _ hs => hsound.perform_other h.versioned fault hs
      · exact fun now' hc => hc.perform h.versioned hsound hnow fault
          fun he => absurd he (hne j hj)

theorem invariant_step {e : TickEvent ι} (h : Invariant A F c) (hs : Step A F c e c') :
    Invariant A F c' := by
  cases hs with
  | advance ht => exact h.advance ht
  | @readClock i hr =>
    exact h.setTick (by simpa [PhaseSound, KubernetesCluster.setTick, Timely] using h.past i)
  | getRaised => exact h.setTick (by simp [PhaseSound, KubernetesCluster.setTick])
  | @get i f now hi =>
    have hp := h.phase i
    rw [PhaseSound, hi] at hp
    refine h.setTick ?_
    simpa [PhaseSound, KubernetesCluster.setTick] using
      ⟨hp, SoundPlan.of_seenLease h.versioned⟩
  | writeRaised hi =>
    exact h.perform hi _ (by simp [PhaseSound, KubernetesCluster.setTick])
  | @write i f now plan hi hok =>
    have hp := h.phase i
    rw [PhaseSound, hi] at hp
    refine h.perform hi f ?_
    simpa [PhaseSound, KubernetesCluster.setTick] using
      ⟨hp.1, hp.2.covered h.versioned f hok⟩
  | @mark i now plan hi =>
    have hp := h.phase i
    rw [PhaseSound, hi] at hp
    obtain ⟨⟨hnow, -⟩, hcov⟩ := hp
    -- the phase changes first, so that the elector's own fields move while it rests
    have hrest := h.setTick (i := i) (p := .returned (plan.mark now (c.electors i)).1)
      (by simp [PhaseSound, KubernetesCluster.setTick])
    refine (hrest.setElector (i := i) (e := (plan.mark now (c.electors i)).2)
      ?_ (.inr ⟨_, Function.update_self ..⟩) ?_ :)
    · cases plan with
      | standDown => simp [Plan.mark, LeaderElector.markNotLeader, LeaderElector.Consistent]
      | create r => exact fun _ => LeaderElector.hasLed_markLeader (h.consistent i) now true
      | update r a => exact fun _ => LeaderElector.hasLed_markLeader (h.consistent i) now a
    · cases plan with
      | standDown =>
        simp only [Plan.mark, LeaderElector.markNotLeader, LeaderElector.hasLed_expireSelf,
          LeaderElector.expireSelf_lastRenewSuccess]
        exact fun hl => ⟨h.past i hl, h.covered i hl⟩
      | create r => exact fun _ => ⟨hnow, hcov (by simp)⟩
      | update r a => exact fun _ => ⟨hnow, hcov (by simp)⟩
  | @expireSelf i hr =>
    refine h.setElector (by simp [LeaderElector.Consistent]) hr ?_
    simpa using fun hl => And.intro (h.past i hl) (h.covered i hl)

theorem invariant_reachable (h : ReachableCluster A F c) : Invariant A F c :=
  h.invariant (fun _ => invariant_initial) fun _ _ _ hi hs => invariant_step hi (step_cases hs)

/-- The elector reports leadership and renewed within the time it may count on. -/
def GuaranteedLeader (F : Fleet ι) (c : KubernetesCluster ι) (i : ι) : Prop :=
  (c.electors i).isLeader = true ∧
    c.clock - (c.electors i).lastRenewSuccess ≤ guaranteedSec (F.settings i)

instance (F : Fleet ι) (c : KubernetesCluster ι) (i : ι) : Decidable (GuaranteedLeader F c i) :=
  inferInstanceAs (Decidable (_ ∧ _))

theorem Covered.holder {server : ApiState} {clock last : ℚ} {s : ElectorSettings}
    (h : Covered server clock s last) (hv : clock - last ≤ guaranteedSec s) :
    ∃ r, seenLease server = some r ∧ r.holderIdentity = s.identity := by
  rcases h with ⟨r, hr, hid, -⟩ | hlt
  · exact ⟨r, hr, hid⟩
  · linarith

/-- In every reachable state the stored lease names every elector that leads within its guaranteed
time, and at most one elector does. -/
theorem guaranteed_leader_holds_lease (h : ReachableCluster A F c) {i : ι}
    (hi : GuaranteedLeader F c i) :
    (∃ r, seenLease c.server = some r ∧ r.holderIdentity = (F.settings i).identity) ∧
      ∀ j, GuaranteedLeader F c j → j = i := by
  have inv := invariant_reachable h
  have hholder : ∀ j, GuaranteedLeader F c j →
      ∃ r, seenLease c.server = some r ∧ r.holderIdentity = (F.settings j).identity :=
    fun j hj => (inv.covered j (inv.consistent j hj.1)).holder hj.2
  refine ⟨hholder i hi, fun j hj => ?_⟩
  obtain ⟨r, hr, hri⟩ := hholder i hi
  obtain ⟨r', hr', hrj⟩ := hholder j hj
  obtain rfl : r = r' := Option.some.inj (hr.symm.trans hr')
  exact F.distinct (hrj.symm.trans hri)

end Safety

/-- A server that counts its versions in decimal. -/
def decimalServer : ApiServer where
  resourceVersion n := toString (1000 + n)
  injective m n h := by
    have hsum := toString_inj.mp h
    omega
  absent := some 404
  unversioned := some 422

def emptyCluster : KubernetesCluster Bool :=
  ⟨0, {}, fun _ => {}, fun _ => .idle⟩

theorem guaranteed_leader_between_microseconds :
    ∃ c, ReachableCluster decimalServer LeaseCoverage.twoPods c ∧
      GuaranteedLeader LeaseCoverage.twoPods c true ∧
      (∃ r, seenLease c.server = some r ∧ r.holderIdentity = "pod-0") := by
  obtain ⟨c, hr, hv⟩ := Run.ofFold_satisfies (step decimalServer LeaseCoverage.twoPods) emptyCluster
    [.advance (3 / 2000000), .readClock true, .get true .none, .write true .none, .mark true,
      .advance 14]
    (fun c => GuaranteedLeader LeaseCoverage.twoPods c true) (by decide +kernel)
  have hreach : ReachableCluster decimalServer LeaseCoverage.twoPods c :=
    ⟨emptyCluster, _, ⟨rfl, fun _ => rfl, fun _ => rfl⟩, hr⟩
  exact ⟨c, hreach, hv, (guaranteed_leader_holds_lease hreach hv).1⟩

end BifrostSocket.KubernetesElectors
