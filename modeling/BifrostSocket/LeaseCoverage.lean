import BifrostSocket.InterleavedElectors
import Mathlib.Data.Fintype.Basic

/-!
# An elector's last renewal is covered by the stored record

Once an elector has led, either the stored record is its own and renewed no earlier than
the elector's last success, or that success is already older than the elector's lease
duration. Compare-and-swap carries this through stale reads, writes with a lost reply,
paused ticks and take-overs, and it leaves room for one valid leader only.
-/

namespace BifrostSocket.LeaseCoverage
open LeaseRecords LeaderElectors TransitionRuns InterleavedElectors

/-- A success of the elector at time `last` is backed by the stored record, or over. -/
def Covered (b : InMemoryLeaseBackend) (clock : ℚ) (s : ElectorSettings) (last : ℚ) : Prop :=
  (∃ r, b.record = some r ∧ r.holderIdentity = s.identity ∧
    r.leaseDurationSec = s.leaseDurationSec ∧ last ≤ r.renewTime) ∨
  last + s.leaseDurationSec < clock

/-- What a tick that has read the record knows about it. -/
structure SoundPlan (s : ElectorSettings) (b : InMemoryLeaseBackend) (now : ℚ) (plan : Plan) :
    Prop where
  writes : ∀ r, plan.record = some r → r.holderIdentity = s.identity ∧
    r.leaseDurationSec = s.leaseDurationSec ∧ r.renewTime = now
  based : ∀ c a, plan = .update c a → ∃ o, b.Seen o ∧ c.resourceVersion = o.resourceVersion ∧
    (o.holderIdentity ≠ s.identity → o.renewTime + o.leaseDurationSec < now)

variable {b : InMemoryLeaseBackend} {clock now last : ℚ} {s t : ElectorSettings} {plan : Plan}

theorem SoundPlan.of_get (hb : b.Versioned) : SoundPlan s b now (Plan.of s now b.get) where
  writes _ hr := Plan.of_record hr
  based _ _ hu := by
    obtain ⟨o, ho, hv, hexp⟩ := Plan.of_update hu
    exact ⟨o, hb.seen ho, hv, hexp⟩

theorem Covered.advance {clock' : ℚ} (h : Covered b clock s last) (hle : clock ≤ clock') :
    Covered b clock' s last :=
  h.imp_right fun hlt => hlt.trans_le hle

/-- What a plan does to the backend, with the record an accepted update replaced. -/
theorem SoundPlan.perform (hb : b.Versioned) (hp : SoundPlan s b now plan) (fault : CallFault) :
    ((plan.perform b fault).2 = b ∧ ((plan.perform b fault).1 = true → plan = .standDown)) ∨
      ∃ r, (plan.perform b fault).2 = (b.store r).2 ∧ r.holderIdentity = s.identity ∧
        r.leaseDurationSec = s.leaseDurationSec ∧ r.renewTime = now ∧
        ∀ cur, b.record = some cur → cur.holderIdentity ≠ s.identity →
          cur.renewTime + cur.leaseDurationSec < now := by
  rcases plan.perform_cases b fault with h | ⟨r, hr, hstore, hcase⟩
  · exact .inl h
  · obtain ⟨hid, hdur, hnow⟩ := hp.writes r hr
    refine .inr ⟨r, hstore, hid, hdur, hnow, ?_⟩
    rcases hcase with ⟨_, _, -, hc⟩ | ⟨a, _, _, hu, hc⟩
    · have hnone := (InMemoryLeaseBackend.create_ok hc).1
      simp [hnone]
    · obtain ⟨o, hseen, hv, hexp⟩ := hp.based r a hu
      have hcur := hseen.current hb hv hc
      intro cur hcur' hne
      obtain rfl : o = cur := Option.some.inj (hcur.symm.trans hcur')
      exact hexp hne

theorem SoundPlan.versioned (hb : b.Versioned) (hp : SoundPlan s b now plan) (fault : CallFault) :
    (plan.perform b fault).2.Versioned := by
  rcases hp.perform hb fault with ⟨h, -⟩ | ⟨r, h, -⟩
  · rwa [h]
  · rw [h]
    exact InMemoryLeaseBackend.versioned_store b r

/-- A write of elector `s` keeps every elector covered. A foreign record is replaced only
after it expired, and the writer's own last success is not newer than its tick. -/
theorem Covered.perform (hb : b.Versioned) (hp : SoundPlan s b now plan) (hnow : now ≤ clock)
    (fault : CallFault) (h : Covered b clock t last)
    (hown : t.identity = s.identity → t.leaseDurationSec = s.leaseDurationSec ∧ last ≤ now) :
    Covered (plan.perform b fault).2 clock t last := by
  rcases hp.perform hb fault with ⟨he, -⟩ | ⟨r, he, hid, hdur, hrenew, hold⟩
  · rwa [he]
  · rw [he]
    by_cases hst : t.identity = s.identity
    · obtain ⟨hd, hl⟩ := hown hst
      exact .inl ⟨_, rfl, hid.trans hst.symm, hdur.trans hd.symm, hl.trans_eq hrenew.symm⟩
    · rcases h with ⟨cur, hcur, hcid, hcdur, hle⟩ | hlt
      · have hne : cur.holderIdentity ≠ s.identity := hcid ▸ hst
        have hexp := hold cur hcur hne
        right
        linarith
      · exact .inr hlt

theorem SoundPlan.stored (hb : b.Versioned) (hp : SoundPlan s b now plan) (fault : CallFault)
    (hok : (plan.perform b fault).1 = true) (hplan : plan ≠ .standDown) :
    ∃ r, (plan.perform b fault).2.record = some r ∧ r.holderIdentity = s.identity ∧
      r.leaseDurationSec = s.leaseDurationSec ∧ r.renewTime = now := by
  rcases hp.perform hb fault with ⟨-, hn⟩ | ⟨r, he, hid, hdur, hrenew, -⟩
  · exact absurd (hn hok) hplan
  · rw [he]
    exact ⟨_, rfl, hid, hdur, hrenew⟩

theorem Covered.of_perform (hb : b.Versioned) (hp : SoundPlan s b now plan) (fault : CallFault)
    (hok : (plan.perform b fault).1 = true) (hplan : plan ≠ .standDown) :
    Covered (plan.perform b fault).2 clock s now := by
  obtain ⟨r, hr, hid, hdur, hrenew⟩ := hp.stored hb fault hok hplan
  exact .inl ⟨r, hr, hid, hdur, hrenew.ge⟩

theorem SoundPlan.perform_other {plan' : Plan} {now' : ℚ} (hb : b.Versioned)
    (hp : SoundPlan s b now plan) (fault : CallFault) (h : SoundPlan t b now' plan') :
    SoundPlan t (plan.perform b fault).2 now' plan' := by
  rcases hp.perform hb fault with ⟨he, -⟩ | ⟨r, he, -⟩
  · rwa [he]
  · rw [he]
    refine ⟨h.writes, fun c a hu => ?_⟩
    obtain ⟨o, ho, hv, hexp⟩ := h.based c a hu
    exact ⟨o, ho.store r, hv, hexp⟩

section Clusters

variable {ι : Type} {F : Fleet ι} {c c' : Cluster ι}

/-- The tick of an elector read the clock at `now`, not in the future and not before the
elector's last success. -/
def Timely (c : Cluster ι) (i : ι) (now : ℚ) : Prop :=
  now ≤ c.clock ∧ ((c.electors i).HasLed → (c.electors i).lastRenewSuccess ≤ now)

def PhaseSound (F : Fleet ι) (c : Cluster ι) (i : ι) : Prop :=
  match c.ticks i with
  | .idle | .returned _ => True
  | .clockRead now => Timely c i now
  | .observed now plan => Timely c i now ∧ SoundPlan (F.settings i) c.backend now plan
  | .performed now plan => Timely c i now ∧
      (plan ≠ .standDown → Covered c.backend c.clock (F.settings i) now)

structure Invariant (F : Fleet ι) (c : Cluster ι) : Prop where
  versioned : c.backend.Versioned
  consistent : ∀ i, (c.electors i).Consistent
  past : ∀ i, (c.electors i).HasLed → (c.electors i).lastRenewSuccess ≤ c.clock
  covered : ∀ i, (c.electors i).HasLed →
    Covered c.backend c.clock (F.settings i) (c.electors i).lastRenewSuccess
  phase : ∀ i, PhaseSound F c i

theorem invariant_initial (h : Initial c) : Invariant F c := by
  obtain ⟨hb, he, ht⟩ := h
  refine ⟨?_, ?_, ?_, ?_, ?_⟩
  · rw [hb]
    exact InMemoryLeaseBackend.versioned_empty
  all_goals intro i
  · simp [he, LeaderElector.Consistent]
  · simp [he, LeaderElector.HasLed]
  · simp [he, LeaderElector.HasLed]
  · simp [PhaseSound, ht]

theorem Invariant.advance (h : Invariant F c) {t : ℚ} (ht : c.clock ≤ t) :
    Invariant F { c with clock := t } where
  versioned := h.versioned
  consistent := h.consistent
  past i hi := (h.past i hi).trans ht
  covered i hi := (h.covered i hi).advance ht
  phase i := by
    have hp := h.phase i
    unfold PhaseSound at hp ⊢
    cases hc : c.ticks i with
    | idle => trivial
    | returned => trivial
    | clockRead now =>
      simp only [hc] at hp ⊢
      exact ⟨hp.1.trans ht, hp.2⟩
    | observed now plan =>
      simp only [hc] at hp ⊢
      exact ⟨⟨hp.1.1.trans ht, hp.1.2⟩, hp.2⟩
    | performed now plan =>
      simp only [hc] at hp ⊢
      exact ⟨⟨hp.1.1.trans ht, hp.1.2⟩, fun hs => (hp.2 hs).advance ht⟩

/-- A write changes the backend only; the other electors' ticks stay sound. -/
theorem Invariant.perform (h : Invariant F c) {i : ι} {plan : Plan} {now : ℚ}
    (hi : c.ticks i = .observed now plan) (fault : CallFault) :
    (plan.perform c.backend fault).2.Versioned ∧
    (∀ j, (c.electors j).HasLed → Covered (plan.perform c.backend fault).2 c.clock
      (F.settings j) (c.electors j).lastRenewSuccess) ∧
    ∀ j, j ≠ i → PhaseSound F { c with backend := (plan.perform c.backend fault).2 } j := by
  have hph := h.phase i
  rw [PhaseSound, hi] at hph
  obtain ⟨⟨hnow, hlast⟩, hsound⟩ := hph
  have hne : ∀ j, j ≠ i → (F.settings j).identity ≠ (F.settings i).identity :=
    fun j hj he => hj (F.distinct he)
  refine ⟨hsound.versioned h.versioned fault, fun j hj => ?_, fun j hj => ?_⟩
  · refine (h.covered j hj).perform h.versioned hsound hnow fault fun he => ?_
    obtain rfl : j = i := F.distinct he
    exact ⟨rfl, hlast hj⟩
  · have hp := h.phase j
    unfold PhaseSound at hp ⊢
    cases hc : c.ticks j with
    | idle => trivial
    | returned => trivial
    | clockRead now' =>
      simp only [hc] at hp ⊢
      exact hp
    | observed now' plan' =>
      simp only [hc] at hp ⊢
      exact ⟨hp.1, hsound.perform_other h.versioned fault hp.2⟩
    | performed now' plan' =>
      simp only [hc] at hp ⊢
      exact ⟨hp.1, fun hs => (hp.2 hs).perform h.versioned hsound hnow fault
        fun he => absurd he (hne j hj)⟩

/-- The elector reports leadership and its lease has not run out at the present clock. -/
def ValidLeader (F : Fleet ι) (c : Cluster ι) (i : ι) : Prop :=
  (c.electors i).isLeader = true ∧
    c.clock - (c.electors i).lastRenewSuccess ≤ (F.settings i).leaseDurationSec

instance (F : Fleet ι) (c : Cluster ι) (i : ι) : Decidable (ValidLeader F c i) :=
  inferInstanceAs (Decidable (_ ∧ _))

theorem Covered.holder (h : Covered b clock s last) (hv : clock - last ≤ s.leaseDurationSec) :
    ∃ r, b.record = some r ∧ r.holderIdentity = s.identity := by
  rcases h with ⟨r, hr, hid, -⟩ | hlt
  · exact ⟨r, hr, hid⟩
  · linarith

/-- Two covered and valid successes belong to the same elector. -/
theorem Covered.unique {i j : ι} {li lj : ℚ} (hi : Covered b clock (F.settings i) li)
    (hj : Covered b clock (F.settings j) lj) (vi : clock - li ≤ (F.settings i).leaseDurationSec)
    (vj : clock - lj ≤ (F.settings j).leaseDurationSec) : i = j := by
  obtain ⟨r, hr, hri⟩ := hi.holder vi
  obtain ⟨r', hr', hrj⟩ := hj.holder vj
  obtain rfl : r = r' := Option.some.inj (hr.symm.trans hr')
  exact F.distinct (hri.symm.trans hrj)

variable [DecidableEq ι]

theorem Invariant.setTick (h : Invariant F c) {i : ι} {p : TickPhase}
    (hp : PhaseSound F (c.setTick i p) i) : Invariant F (c.setTick i p) where
  versioned := h.versioned
  consistent := h.consistent
  past := h.past
  covered := h.covered
  phase j := by
    by_cases hj : j = i
    · exact hj ▸ hp
    · have hph := h.phase j
      simpa [PhaseSound, Cluster.setTick, Function.update_of_ne hj, Timely] using hph

theorem Invariant.setElector (h : Invariant F c) {i : ι} {e : LeaderElector}
    (hcons : e.Consistent) (hrest : c.Resting i)
    (hled : e.HasLed → e.lastRenewSuccess ≤ c.clock ∧
      Covered c.backend c.clock (F.settings i) e.lastRenewSuccess) :
    Invariant F (c.setElector i e) where
  versioned := h.versioned
  consistent j := by
    by_cases hj : j = i
    · subst hj
      simpa [Cluster.setElector] using hcons
    · simpa [Cluster.setElector, Function.update_of_ne hj] using h.consistent j
  past j := by
    by_cases hj : j = i
    · subst hj
      simpa [Cluster.setElector] using fun hl => (hled hl).1
    · simpa [Cluster.setElector, Function.update_of_ne hj] using h.past j
  covered j := by
    by_cases hj : j = i
    · subst hj
      simpa [Cluster.setElector] using fun hl => (hled hl).2
    · simpa [Cluster.setElector, Function.update_of_ne hj] using h.covered j
  phase j := by
    by_cases hj : j = i
    · subst hj
      rcases hrest with hr | ⟨a, hr⟩ <;> simp [PhaseSound, Cluster.setElector, hr]
    · have hp := h.phase j
      simpa [PhaseSound, Cluster.setElector, Function.update_of_ne hj, Timely] using hp

theorem invariant_step {e : TickEvent ι} (h : Invariant F c) (hs : Step F c e c') :
    Invariant F c' := by
  cases hs with
  | advance ht => exact h.advance ht
  | @readClock i hr =>
    exact h.setTick (by simpa [PhaseSound, Cluster.setTick, Timely] using h.past i)
  | getRaised => exact h.setTick (by simp [PhaseSound, Cluster.setTick])
  | @get i f now hi =>
    have hp := h.phase i
    rw [PhaseSound, hi] at hp
    refine h.setTick ?_
    simpa [PhaseSound, Cluster.setTick] using ⟨hp, SoundPlan.of_get h.versioned⟩
  | @writeRaised i f now plan hi =>
    obtain ⟨hv, hcov, hother⟩ := h.perform hi f
    refine ⟨hv, h.consistent, h.past, hcov, fun j => ?_⟩
    by_cases hj : j = i
    · simp [PhaseSound, Cluster.setTick, hj]
    · simpa [PhaseSound, Cluster.setTick, Function.update_of_ne hj, Timely] using hother j hj
  | @write i f now plan hi hok =>
    obtain ⟨hv, hcov, hother⟩ := h.perform hi f
    refine ⟨hv, h.consistent, h.past, hcov, fun j => ?_⟩
    by_cases hj : j = i
    · have hp := h.phase i
      rw [PhaseSound, hi] at hp
      subst hj
      simpa [PhaseSound, Cluster.setTick] using
        ⟨hp.1, Covered.of_perform h.versioned hp.2 f hok⟩
    · simpa [PhaseSound, Cluster.setTick, Function.update_of_ne hj, Timely] using hother j hj
  | @mark i now plan hi =>
    have hp := h.phase i
    rw [PhaseSound, hi] at hp
    obtain ⟨⟨hnow, -⟩, hcov⟩ := hp
    -- the phase changes first, so that the elector's own fields move while it rests
    have hrest := h.setTick (i := i) (p := .returned (plan.mark now (c.electors i)).1)
      (by simp [PhaseSound, Cluster.setTick])
    refine (hrest.setElector (i := i) (e := (plan.mark now (c.electors i)).2)
      ?_ (.inr ⟨_, Function.update_self ..⟩) ?_ :)
    · cases plan with
      | standDown => simp [Plan.mark, LeaderElector.markNotLeader, LeaderElector.Consistent]
      | create r => exact fun _ => LeaderElector.hasLed_markLeader (h.consistent i) now true
      | update r a => exact fun _ => LeaderElector.hasLed_markLeader (h.consistent i) now a
    · cases plan with
      | standDown =>
        simp only [Plan.mark, LeaderElector.markNotLeader, LeaderElector.hasLed_expireSelf,
          LeaderElector.expireSelf_lastRenewSuccess]
        exact fun hl => ⟨h.past i hl, h.covered i hl⟩
      | create r => exact fun _ => ⟨hnow, hcov (by simp)⟩
      | update r a => exact fun _ => ⟨hnow, hcov (by simp)⟩
  | @expireSelf i hr =>
    refine h.setElector (by simp [LeaderElector.Consistent]) hr ?_
    simpa using fun hl => And.intro (h.past i hl) (h.covered i hl)

theorem invariant_reachable (h : ReachableCluster F c) : Invariant F c :=
  h.invariant (fun _ => invariant_initial) fun _ _ _ hi hs => invariant_step hi (step_cases hs)

/-- In every reachable state at most one elector is a leader whose lease still runs. -/
theorem unique_valid_leader (h : ReachableCluster F c) {i j : ι} (hi : ValidLeader F c i)
    (hj : ValidLeader F c j) : i = j := by
  have inv := invariant_reachable h
  have ci := inv.covered i (inv.consistent i hi.1)
  have cj := inv.covered j (inv.consistent j hj.1)
  exact ci.unique cj hi.2 hj.2

end Clusters

/-- Two pods with the default timing. -/
def twoPods : Fleet Bool where
  settings i := { identity := if i then "pod-0" else "pod-1" }
  distinct := by decide

def emptyCluster : Cluster Bool :=
  ⟨0, {}, fun _ => {}, fun _ => .idle⟩

theorem unique_valid_leader_first_tick :
    ∃ c, ReachableCluster twoPods c ∧ ValidLeader twoPods c true ∧
      ∀ j, ValidLeader twoPods c j → j = true := by
  obtain ⟨c, hr, hv⟩ := Run.ofFold_satisfies (step twoPods) emptyCluster
    [.readClock true, .get true .none, .write true .none, .advance 15, .mark true]
    (fun c => ValidLeader twoPods c true) (by decide +kernel)
  have hreach : ReachableCluster twoPods c :=
    ⟨emptyCluster, _, ⟨rfl, fun _ => rfl, fun _ => rfl⟩, hr⟩
  exact ⟨c, hreach, hv, fun j hj => unique_valid_leader hreach hj hv⟩

end BifrostSocket.LeaseCoverage
