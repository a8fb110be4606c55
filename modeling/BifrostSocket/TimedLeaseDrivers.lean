import BifrostSocket.LeaseCoverage

/-!
# Electors driven by `acquire` and `renew_until_lost` on skewed clocks

Each driver ticks once per retry period, a tick takes no time, and every elector reads
real time plus an offset of its own. A leader examines its renew deadline on failed
ticks only, and another pod's clock decides when its record may be taken over.
-/

namespace BifrostSocket.TimedLeaseDrivers
open LeaseRecords LeaderElectors TransitionRuns InterleavedElectors LeaseCoverage

/-- Electors with distinct identities, clocks that differ by at most `skew`, and a
positive wait between ticks. -/
structure TimedFleet (ι : Type) extends Fleet ι where
  offset : ι → ℚ
  skew : ℚ
  skewed : ∀ i j, offset i - offset j ≤ skew
  waits : ∀ i, 0 < (settings i).retryPeriodSec

/-- Where the coroutine of a driver stands; `tickAt` is the real time of its next tick. -/
inductive Driver where
  | notStarted
  | acquiring (tickAt : ℚ)
  | renewing (tickAt : ℚ)
  | lost
  | stopped
  deriving DecidableEq

def Driver.tickAt : Driver → Option ℚ
  | .acquiring t | .renewing t => some t
  | .notStarted | .lost | .stopped => none

structure World (ι : Type) where
  time : ℚ
  backend : InMemoryLeaseBackend
  electors : ι → LeaderElector
  drivers : ι → Driver

inductive DriverEvent (ι : Type) where
  | advance (t : ℚ)
  | start (i : ι)
  | tick (i : ι) (getFault writeFault : CallFault)
  | stop (i : ι)

/-- The driver and the elector after a tick at clock time `now` returned. `acquire` waits
and tries again or hands over to `renew_until_lost`. -/
def afterTick (s : ElectorSettings) (time now : ℚ) (attempt : LeaseAttempt) (e : LeaderElector) :
    Driver → Driver × LeaderElector
  | .acquiring _ =>
    if attempt.isSuccess then (.renewing (time + s.retryPeriodSec), e)
    else (.acquiring (time + s.retryPeriodSec), e)
  | .renewing _ =>
    match e.afterRenewTick s now attempt with
    | (true, e') => (.renewing (time + s.retryPeriodSec), e')
    | (false, e') => (.lost, e')
  | d => (d, e)

section WholeTicks

variable (s : ElectorSettings) (now : ℚ) (f g : CallFault) (e : LeaderElector)
  {b : InMemoryLeaseBackend}

/-- A whole tick leaves the backend alone or stores the elector's record at its tick time,
and then any foreign record it replaced had expired. -/
theorem tick_backend (hb : b.Versioned) :
    (tryAcquireOrRenew s now f g e b).2.2 = b ∨
      ∃ r, (tryAcquireOrRenew s now f g e b).2.2 = (b.store r).2 ∧
        r.holderIdentity = s.identity ∧ r.leaseDurationSec = s.leaseDurationSec ∧
        r.renewTime = now ∧ ∀ cur, b.record = some cur → cur.holderIdentity ≠ s.identity →
          cur.renewTime + cur.leaseDurationSec < now := by
  cases hget : b.getWith f with
  | none => simp [tryAcquireOrRenew, hget]
  | some observed =>
    obtain rfl := InMemoryLeaseBackend.eq_get_of_getWith hget
    have hback : (tryAcquireOrRenew s now f g e b).2.2 =
        ((Plan.of s now b.get).perform b g).2 := by
      simp only [tryAcquireOrRenew, hget]
      split <;> simp [*]
    rw [hback]
    exact ((SoundPlan.of_get hb).perform hb g).imp_left And.left

theorem tick_outcome (hb : b.Versioned) :
    ((tryAcquireOrRenew s now f g e b).1.isSuccess = true ∧
      (tryAcquireOrRenew s now f g e b).2.1.lastRenewSuccess = now ∧
      ∃ r, (tryAcquireOrRenew s now f g e b).2.2.record = some r ∧
        r.holderIdentity = s.identity ∧ r.leaseDurationSec = s.leaseDurationSec ∧
        now ≤ r.renewTime) ∨
    ((tryAcquireOrRenew s now f g e b).1 = .heldByOther ∧
      (tryAcquireOrRenew s now f g e b).2.1 = e.expireSelf) ∨
    ((tryAcquireOrRenew s now f g e b).1 = .failed ∧
      (tryAcquireOrRenew s now f g e b).2.1 = e) := by
  cases hget : b.getWith f with
  | none => simp [tryAcquireOrRenew, hget]
  | some observed =>
    obtain rfl := InMemoryLeaseBackend.eq_get_of_getWith hget
    have hsound : SoundPlan s b now (Plan.of s now b.get) := .of_get hb
    generalize hplan : Plan.of s now b.get = plan at hsound
    rcases hp : plan.perform b g with ⟨ok, b'⟩
    cases ok with
    | false => simp [tryAcquireOrRenew, hget, hplan, hp]
    | true =>
      by_cases hstand : plan = .standDown
      · simp [tryAcquireOrRenew, hget, hplan, hstand, Plan.perform, Plan.mark,
          LeaderElector.markNotLeader]
      · have hst := hsound.stored hb g (by rw [hp]) hstand
        rw [hp] at hst
        obtain ⟨r, hr, hid, hdur, hrenew⟩ := hst
        left
        cases plan with
        | standDown => exact absurd rfl hstand
        | create fresh =>
          simp only [tryAcquireOrRenew, hget, hplan, hp, Plan.mark,
            LeaderElector.markLeader_isSuccess, LeaderElector.markLeader_lastRenewSuccess]
          exact ⟨trivial, trivial, r, hr, hid, hdur, hrenew.ge⟩
        | update c a =>
          simp only [tryAcquireOrRenew, hget, hplan, hp, Plan.mark,
            LeaderElector.markLeader_isSuccess, LeaderElector.markLeader_lastRenewSuccess]
          exact ⟨trivial, trivial, r, hr, hid, hdur, hrenew.ge⟩

end WholeTicks

section Ticks

variable {ι : Type} [DecidableEq ι]

/-- The state after elector `i` ticked: one uninterrupted `tryAcquireOrRenew`, then the
driver's reaction. -/
def World.tick (F : TimedFleet ι) (w : World ι) (i : ι) (f g : CallFault) : World ι :=
  let now := w.time + F.offset i
  let r := tryAcquireOrRenew (F.settings i) now f g (w.electors i) w.backend
  let d := afterTick (F.settings i) w.time now r.1 r.2.1 (w.drivers i)
  { w with
    backend := r.2.2
    electors := Function.update w.electors i d.2
    drivers := Function.update w.drivers i d.1 }

def World.setDriver (w : World ι) (i : ι) (d : Driver) : World ι :=
  { w with drivers := Function.update w.drivers i d }

/-- Real time passes up to the next tick of any running driver, never beyond it. The stop
event ends a waiting driver at once. -/
inductive Step (F : TimedFleet ι) (w : World ι) : DriverEvent ι → World ι → Prop where
  | advance {t} (h : w.time ≤ t) (hnext : ∀ i, ∀ n ∈ (w.drivers i).tickAt, t ≤ n) :
      Step F w (.advance t) { w with time := t }
  | start {i} (h : w.drivers i = .notStarted) :
      Step F w (.start i) (w.setDriver i (.acquiring w.time))
  | tick {i f g} (h : (w.drivers i).tickAt = some w.time) : Step F w (.tick i f g) (w.tick F i f g)
  | stop {i n} (h : (w.drivers i).tickAt = some n) : Step F w (.stop i) (w.setDriver i .stopped)

end Ticks

variable {ι : Type}

def InitialWorld (w : World ι) : Prop :=
  w.backend = {} ∧ (∀ i, w.electors i = {}) ∧ ∀ i, w.drivers i = .notStarted

/-- The elector reports leadership and the stop event has not ended its driver. -/
def Leads (w : World ι) (i : ι) : Prop :=
  (w.electors i).isLeader = true ∧ w.drivers i ≠ .stopped

section Timing

variable {F : TimedFleet ι} {w w' : World ι}

/-- The renew deadline, one wait and the clock skew fit into the lease duration. -/
def TimingRule (F : TimedFleet ι) : Prop :=
  ∀ i, max (F.settings i).renewDeadlineSec 0 + (F.settings i).retryPeriodSec + F.skew ≤
    (F.settings i).leaseDurationSec

/-- What holds of a leader between two ticks: the stored record is its own and at least as
fresh as its last success, and its next tick comes in time to step down. -/
structure Leading (F : TimedFleet ι) (w : World ι) (i : ι) : Prop where
  holds : ∃ r, w.backend.record = some r ∧ r.holderIdentity = (F.settings i).identity ∧
    r.leaseDurationSec = (F.settings i).leaseDurationSec ∧
    (w.electors i).lastRenewSuccess ≤ r.renewTime
  past : (w.electors i).lastRenewSuccess ≤ w.time + F.offset i
  next : ∃ n, w.drivers i = .renewing n ∧ n + F.offset i ≤
    (w.electors i).lastRenewSuccess + max (F.settings i).renewDeadlineSec 0 +
      (F.settings i).retryPeriodSec

structure Invariant (F : TimedFleet ι) (w : World ι) : Prop where
  versioned : w.backend.Versioned
  due : ∀ i, ∀ n ∈ (w.drivers i).tickAt, w.time ≤ n
  leading : ∀ i, Leads w i → Leading F w i

theorem invariant_initial (h : InitialWorld w) : Invariant F w := by
  obtain ⟨hb, he, hd⟩ := h
  refine ⟨?_, ?_, ?_⟩
  · rw [hb]
    exact InMemoryLeaseBackend.versioned_empty
  · simp [hd, Driver.tickAt]
  · simp [Leads, he]

theorem afterTick_tickAt {s : ElectorSettings} {time now : ℚ} {a : LeaseAttempt}
    {e : LeaderElector} {d : Driver} {n : ℚ} (hd : d.tickAt.isSome = true)
    (h : (afterTick s time now a e d).1.tickAt = some n) : n = time + s.retryPeriodSec := by
  cases d with
  | acquiring t =>
    simp only [afterTick] at h
    split at h <;> exact (Option.some.inj h).symm
  | renewing t =>
    simp only [afterTick] at h
    split at h
    · exact (Option.some.inj h).symm
    · cases h
  | notStarted => cases hd
  | lost => cases hd
  | stopped => cases hd

/-- An elector that leads after its own tick either succeeded in it or is a leader whose
failed tick came within the deadline. -/
theorem afterTick_leads {s : ElectorSettings} {time now : ℚ} {a : LeaseAttempt}
    {e : LeaderElector} {d : Driver} (hd : d.tickAt.isSome = true)
    (hother : a = .heldByOther → e.isLeader = false)
    (h : (afterTick s time now a e d).2.isLeader = true) :
    (afterTick s time now a e d).2 = e ∧ e.isLeader = true ∧
      (a.isSuccess = true → (afterTick s time now a e d).1 = .renewing (time + s.retryPeriodSec)) ∧
      (a.isSuccess = false → ∀ n, d = .renewing n →
        (afterTick s time now a e d).1 = .renewing (time + s.retryPeriodSec) ∧
          now - e.lastRenewSuccess ≤ s.renewDeadlineSec) := by
  cases d with
  | acquiring t =>
    simp only [afterTick] at h ⊢
    split at h <;> simp_all
  | renewing t =>
    have hsnd : (afterTick s time now a e (.renewing t)).2 = (e.afterRenewTick s now a).2 := by
      simp only [afterTick]
      split <;> simp [*]
    rw [hsnd] at h
    obtain ⟨hgo, hdead⟩ := afterRenewTick_leads hother h
    have hl : e.isLeader = true := by rwa [hgo] at h
    simp only [afterTick, hgo]
    exact ⟨trivial, hl, fun _ => trivial, fun hs n _ => ⟨trivial, hdead hs⟩⟩
  | notStarted => cases hd
  | lost => cases hd
  | stopped => cases hd

variable [DecidableEq ι]

/-- A tick of one elector keeps what is known of the others that lead: before a leader's
next tick no other clock sees its record expired. -/
theorem Leading.other_tick (rule : TimingRule F) (inv : Invariant F w) {i j : ι} (hij : j ≠ i)
    (f g : CallFault) (h : Leading F w j) : Leading F (w.tick F i f g) j := by
  obtain ⟨⟨cur, hcur, hid, hdur, hle⟩, hpast, n, hn, hnext⟩ := h
  have he : (w.tick F i f g).electors j = w.electors j := by
    simp [World.tick, Function.update_of_ne hij]
  have hd : (w.tick F i f g).drivers j = w.drivers j := by
    simp [World.tick, Function.update_of_ne hij]
  refine ⟨?_, by rwa [he], n, by rwa [hd], by rwa [he]⟩
  rw [he]
  rcases tick_backend (F.settings i) (w.time + F.offset i) f g (w.electors i)
    inv.versioned with hb | ⟨r, -, -, -, -, hold⟩
  · exact ⟨cur, by rw [World.tick, hb, hcur], hid, hdur, hle⟩
  · exfalso
    have hne : cur.holderIdentity ≠ (F.settings i).identity := by
      rw [hid]
      exact fun heq => hij (F.distinct heq)
    have hexp := hold cur hcur hne
    have hdue := inv.due j n (by simp [hn, Driver.tickAt])
    have hskew := F.skewed i j
    have hrule := rule j
    rw [hdur] at hexp
    linarith

theorem Leading.own_tick (inv : Invariant F w) {i : ι} (f g : CallFault)
    (hi : (w.drivers i).tickAt = some w.time) (h : Leads (w.tick F i f g) i) :
    Leading F (w.tick F i f g) i := by
  have hsome : (w.drivers i).tickAt.isSome = true := by simp [hi]
  have hback := tick_backend (F.settings i) (w.time + F.offset i) f g (w.electors i)
    inv.versioned
  have hout := tick_outcome (F.settings i) (w.time + F.offset i) f g (w.electors i)
    inv.versioned
  have hb : (w.tick F i f g).backend = (tryAcquireOrRenew (F.settings i) (w.time + F.offset i) f g
      (w.electors i) w.backend).2.2 := rfl
  have hlead := h.1
  have he : (w.tick F i f g).electors i = (afterTick (F.settings i) w.time (w.time + F.offset i)
      (tryAcquireOrRenew (F.settings i) (w.time + F.offset i) f g (w.electors i) w.backend).1
      (tryAcquireOrRenew (F.settings i) (w.time + F.offset i) f g (w.electors i) w.backend).2.1
      (w.drivers i)).2 := by simp [World.tick]
  have hd : (w.tick F i f g).drivers i = (afterTick (F.settings i) w.time (w.time + F.offset i)
      (tryAcquireOrRenew (F.settings i) (w.time + F.offset i) f g (w.electors i) w.backend).1
      (tryAcquireOrRenew (F.settings i) (w.time + F.offset i) f g (w.electors i) w.backend).2.1
      (w.drivers i)).1 := by simp [World.tick]
  have ht : (w.tick F i f g).time = w.time := rfl
  generalize tryAcquireOrRenew (F.settings i) (w.time + F.offset i) f g (w.electors i)
    w.backend = r at hback hout hb he hd
  rw [he] at hlead
  have hother : r.1 = .heldByOther → r.2.1.isLeader = false := by
    intro ha
    rcases hout with ⟨hs, -⟩ | ⟨-, hexp⟩ | ⟨hf, -⟩
    · simp [ha, LeaseAttempt.isSuccess] at hs
    · simp [hexp]
    · simp [ha] at hf
  obtain ⟨hsame, hl, hgo, hkeep⟩ := afterTick_leads hsome hother hlead
  rw [hsame] at he
  rcases hout with ⟨hs, hlast, c, hc, hid, hdur, hle⟩ | ⟨-, hexp⟩ | ⟨hfail, hold⟩
  · -- a success starts a fresh term of the deadline
    have hmax := le_max_right (F.settings i).renewDeadlineSec 0
    rw [hgo hs] at hd
    rw [← hb] at hc
    exact ⟨⟨c, hc, hid, hdur, by rwa [he, hlast]⟩, by rw [he, hlast, ht], _, hd, by
      rw [he, hlast]
      linarith⟩
  · simp [hexp] at hl
  · -- a failed tick of a leader within its deadline
    rw [hold] at hl he
    have hns : w.drivers i ≠ .stopped := by
      intro hs
      simp [hs, Driver.tickAt] at hi
    obtain ⟨⟨cur, hcur, hcid, hcdur, hcle⟩, hpast, n, hn, -⟩ := inv.leading i ⟨hl, hns⟩
    obtain ⟨hdrv, hdead⟩ := hkeep (by rw [hfail]; rfl) n hn
    rw [hdrv] at hd
    rw [hold] at hdead
    refine ⟨?_, by rwa [he], _, hd, ?_⟩
    · rw [he, hb]
      rcases hback with hu | ⟨c, hu, hid, hdur, hnow, -⟩
      · exact ⟨cur, by rw [hu, hcur], hcid, hcdur, hcle⟩
      · exact ⟨(w.backend.store c).1, by rw [hu]; rfl, hid, hdur, hpast.trans_eq hnow.symm⟩
    · have hmax := le_max_left (F.settings i).renewDeadlineSec 0
      rw [he]
      linarith

theorem invariant_tick (rule : TimingRule F) (inv : Invariant F w) {i : ι} (f g : CallFault)
    (hi : (w.drivers i).tickAt = some w.time) : Invariant F (w.tick F i f g) := by
  refine ⟨?_, ?_, ?_⟩
  · rcases tick_backend (F.settings i) (w.time + F.offset i) f g (w.electors i)
      inv.versioned with hb | ⟨r, hb, -⟩
    · rw [World.tick, hb]
      exact inv.versioned
    · rw [World.tick, hb]
      exact InMemoryLeaseBackend.versioned_store _ r
  · intro j n hn
    by_cases hj : j = i
    · subst hj
      simp only [World.tick, Function.update_self, Option.mem_def] at hn
      rw [afterTick_tickAt (by simp [hi]) hn]
      have hwait := F.waits j
      simp only [World.tick]
      linarith
    · simp only [World.tick, Function.update_of_ne hj] at hn
      exact inv.due j n hn
  · intro j hj
    by_cases hij : j = i
    · subst hij
      exact Leading.own_tick inv f g hi hj
    · have hlead : Leads w j := by
        simpa [Leads, World.tick, Function.update_of_ne hij] using hj
      exact (inv.leading j hlead).other_tick rule inv hij f g

theorem invariant_step (rule : TimingRule F) {e : DriverEvent ι} (inv : Invariant F w)
    (hs : Step F w e w') : Invariant F w' := by
  cases hs with
  | @advance t ht hnext =>
    refine ⟨inv.versioned, fun i n hn => hnext i n hn, fun i hi => ?_⟩
    obtain ⟨hholds, hpast, hn⟩ := inv.leading i hi
    exact ⟨hholds, by simp only; linarith, hn⟩
  | @start i hi =>
    refine ⟨inv.versioned, fun j n hn => ?_, fun j hj => ?_⟩
    · by_cases hij : j = i
      · subst hij
        simp [World.setDriver, Driver.tickAt] at hn
        simp [World.setDriver, hn]
      · simp only [World.setDriver, Function.update_of_ne hij] at hn
        exact inv.due j n hn
    · have hlead : Leads w j := by
        refine ⟨hj.1, fun hs => ?_⟩
        by_cases hij : j = i
        · simp [← hij, hs] at hi
        · exact hj.2 (by simpa [World.setDriver, Function.update_of_ne hij] using hs)
      obtain ⟨hholds, hpast, n, hn, hle⟩ := inv.leading j hlead
      have hij : j ≠ i := by
        rintro rfl
        simp [hn] at hi
      exact ⟨hholds, hpast, n, by simpa [World.setDriver, Function.update_of_ne hij] using hn, hle⟩
  | tick hi => exact invariant_tick rule inv _ _ hi
  | @stop i n hi =>
    refine ⟨inv.versioned, fun j m hm => ?_, fun j hj => ?_⟩
    · by_cases hij : j = i
      · subst hij
        simp [World.setDriver, Driver.tickAt] at hm
      · simp only [World.setDriver, Function.update_of_ne hij] at hm
        exact inv.due j m hm
    · have hij : j ≠ i := by
        rintro rfl
        simp [Leads, World.setDriver] at hj
      have hlead : Leads w j := by
        simpa [Leads, World.setDriver, Function.update_of_ne hij] using hj
      obtain ⟨hholds, hpast, m, hm, hle⟩ := inv.leading j hlead
      exact ⟨hholds, hpast, m, by simpa [World.setDriver, Function.update_of_ne hij] using hm, hle⟩

/-- Under the timing rule no two electors lead at any real time. -/
theorem no_two_leaders (rule : TimingRule F) (h : Reachable InitialWorld (Step F) w) {i j : ι}
    (hi : Leads w i) (hj : Leads w j) : i = j := by
  have inv := h.invariant (fun _ => invariant_initial) fun _ _ _ hI hs => invariant_step rule hI hs
  obtain ⟨⟨r, hr, hri, -⟩, -⟩ := inv.leading i hi
  obtain ⟨⟨r', hr', hrj, -⟩, -⟩ := inv.leading j hj
  obtain rfl : r = r' := Option.some.inj (hr.symm.trans hr')
  exact F.distinct (hri.symm.trans hrj)

end Timing

/-- Two pods with the default timing whose clocks are up to three seconds apart. -/
def skewedPods : TimedFleet Bool where
  toFleet := twoPods
  offset i := if i then 3 else 0
  skew := 3
  skewed := by decide +kernel
  waits := by decide +kernel

def stoppedWorld : World Bool := ⟨0, {}, fun _ => {}, fun _ => .notStarted⟩

theorem initialWorld_stoppedWorld : InitialWorld stoppedWorld :=
  ⟨rfl, fun _ => rfl, fun _ => rfl⟩

theorem no_two_leaders_first_tick :
    ∃ w, Reachable InitialWorld (Step skewedPods) w ∧ Leads w true ∧
      ∀ j, Leads w j → j = true := by
  let w := (stoppedWorld.setDriver true (.acquiring 0)).tick skewedPods true .none .none
  have hstart : Step skewedPods stoppedWorld (.start true) _ := .start rfl
  have htick : Step skewedPods _ (.tick true .none .none) w := .tick (by decide +kernel)
  have hreach : Reachable InitialWorld (Step skewedPods) w :=
    ((Reachable.start initialWorld_stoppedWorld).snoc hstart).snoc htick
  have hlead : Leads w true := by
    unfold Leads
    decide +kernel
  have hrule : TimingRule skewedPods := by
    unfold TimingRule
    decide +kernel
  exact ⟨w, hreach, hlead, fun j hj => no_two_leaders hrule hreach hj hlead⟩

/-- Two pods whose renew deadline is negative, with a wait longer than the lease. -/
def hastyPods : TimedFleet Bool where
  settings i := {
    identity := if i then "pod-0" else "pod-1"
    leaseDurationSec := 1
    renewDeadlineSec := -1
    retryPeriodSec := 2 }
  distinct := by decide
  offset _ := 0
  skew := 0
  skewed := by decide +kernel
  waits := by decide +kernel

/-- A negative deadline does not make a leader tick any earlier: `pod-1` takes the expired
lease over while `pod-0` still waits for its next tick. -/
theorem two_leaders_negative_deadline :
    ∃ (F : TimedFleet Bool) (w : World Bool),
      (∀ i, (F.settings i).renewDeadlineSec + (F.settings i).retryPeriodSec + F.skew ≤
        (F.settings i).leaseDurationSec) ∧
      Reachable InitialWorld (Step F) w ∧ Leads w true ∧ Leads w false := by
  let w₁ := (stoppedWorld.setDriver true (.acquiring 0)).tick hastyPods true .none .none
  let w₂ := { w₁ with time := 3 / 2 }
  let w₃ := (w₂.setDriver false (.acquiring (3 / 2))).tick hastyPods false .none .none
  have hstart : Step hastyPods stoppedWorld (.start true) _ := .start rfl
  have htick : Step hastyPods _ (.tick true .none .none) w₁ := .tick (by decide +kernel)
  have hadvance : Step hastyPods w₁ (.advance (3 / 2)) w₂ :=
    .advance (by decide +kernel) (by decide +kernel)
  have hstart' : Step hastyPods w₂ (.start false) _ := .start (by decide +kernel)
  have htick' : Step hastyPods _ (.tick false .none .none) w₃ := .tick (by decide +kernel)
  refine ⟨hastyPods, w₃, by decide +kernel, ?_, ?_, ?_⟩
  · exact ((((Reachable.start initialWorld_stoppedWorld).snoc hstart).snoc htick).snoc
      hadvance).snoc hstart' |>.snoc htick'
  · unfold Leads
    decide +kernel
  · unfold Leads
    decide +kernel

end BifrostSocket.TimedLeaseDrivers
