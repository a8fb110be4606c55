import BifrostSocket.KubernetesElectors
import BifrostSocket.TimedLeaseDrivers

/-!
# Slow requests on skewed clocks

The drivers of a fleet over Kubernetes. A tick reads its clock, then waits for one or two requests,
while time passes and other pods send theirs; only then does it mark its elector, and only when it
has returned does a leader look at the renew deadline. A pod may end at any point of a tick.
-/

namespace BifrostSocket.KubernetesDrivers
open TransitionRuns LeaseRecords LeaderElectors InterleavedElectors KubernetesLeases
open KubernetesBackends KubernetesElectors
open TimedLeaseDrivers (TimedFleet Driver afterTick)

section Model

/-- A tick has returned `delay` seconds after its wait was over at the latest. -/
structure SlowFleet (ι : Type) extends TimedFleet ι where
  delay : ι → ℚ
  delays : ∀ i, 0 ≤ delay i

/-- The clock of the cluster is real time. -/
structure KubernetesWorld (ι : Type) extends KubernetesCluster ι where
  drivers : ι → Driver

inductive DriverEvent (ι : Type) where
  | advance (t : ℚ)
  | start (i : ι)
  | readClock (i : ι)
  | get (i : ι) (fault : CallFault)
  | write (i : ι) (fault : CallFault)
  | mark (i : ι)
  | handle (i : ι)
  | stop (i : ι)
  | restart (i : ι)

/-- What a pod keeps outside the server. -/
structure Pod where
  elector : LeaderElector
  driver : Driver
  tick : TickPhase

def KubernetesWorld.pod {ι : Type} (w : KubernetesWorld ι) (i : ι) : Pod :=
  ⟨w.electors i, w.drivers i, w.ticks i⟩

variable {ι : Type} [DecidableEq ι]

def KubernetesWorld.setPod (w : KubernetesWorld ι) (i : ι) (p : Pod) : KubernetesWorld ι :=
  { w with
    electors := Function.update w.electors i p.elector
    drivers := Function.update w.drivers i p.driver
    ticks := Function.update w.ticks i p.tick }

/-- The loops of `acquire` and `renew_until_lost` take up the attempt and read the clock again. -/
def Pod.returned (s : ElectorSettings) (time offset : ℚ) (attempt : LeaseAttempt) (p : Pod) : Pod :=
  let d := afterTick s time (time + offset) attempt p.elector p.driver
  ⟨d.2, d.1, .idle⟩

/-- Real time goes on while no wait and no tick is overdue. -/
inductive Step (A : ApiServer) (F : SlowFleet ι) (w : KubernetesWorld ι) :
    DriverEvent ι → KubernetesWorld ι → Prop where
  | advance {t} (h : w.clock ≤ t) (hnext : ∀ i, ∀ n ∈ (w.drivers i).tickAt, t ≤ n + F.delay i) :
      Step A F w (.advance t) { w with clock := t }
  | start {i} (h : w.drivers i = .notStarted) :
      Step A F w (.start i) (w.setPod i { w.pod i with driver := .acquiring w.clock })
  | readClock {i n} (hidle : w.ticks i = .idle) (hn : (w.drivers i).tickAt = some n)
      (h : n ≤ w.clock) :
      Step A F w (.readClock i)
        (w.setPod i { w.pod i with tick := .clockRead (w.clock + F.offset i) })
  | get {i f c}
      (h : KubernetesElectors.step A F.toFleet w.toKubernetesCluster (.get i f) = some c) :
      Step A F w (.get i f) { w with toKubernetesCluster := c }
  | write {i f c}
      (h : KubernetesElectors.step A F.toFleet w.toKubernetesCluster (.write i f) = some c) :
      Step A F w (.write i f) { w with toKubernetesCluster := c }
  | mark {i c} (h : KubernetesElectors.step A F.toFleet w.toKubernetesCluster (.mark i) = some c) :
      Step A F w (.mark i) { w with toKubernetesCluster := c }
  | handle {i a} (h : w.ticks i = .returned a) :
      Step A F w (.handle i)
        (w.setPod i ((w.pod i).returned (F.settings i) w.clock (F.offset i) a))
  | stop {i n} (hidle : w.ticks i = .idle) (hn : (w.drivers i).tickAt = some n) :
      Step A F w (.stop i) (w.setPod i { w.pod i with driver := .stopped })
  | restart {i} : Step A F w (.restart i) (w.setPod i ⟨{}, .notStarted, .idle⟩)

end Model

variable {ι : Type}

def InitialWorld (w : KubernetesWorld ι) : Prop :=
  w.server = {} ∧ ∀ i, w.pod i = ⟨{}, .notStarted, .idle⟩

/-- The elector reports leadership and the stop event has not ended its driver. -/
def Pod.Leads (p : Pod) : Prop := p.elector.isLeader = true ∧ p.driver ≠ .stopped

section Pods

/-- How long after its last renewal a pod may lead on by its own clock. -/
def stepDownSec (F : SlowFleet ι) (i : ι) : ℚ :=
  max (F.settings i).renewDeadlineSec (F.delay i) + (F.settings i).retryPeriodSec + F.delay i

/-- The time to step down and the clock skew fit into the lease as the server keeps it. -/
def TimingRule (F : SlowFleet ι) : Prop :=
  ∀ i, stepDownSec F i + F.skew ≤ guaranteedSec (F.settings i)

/-- The stored lease is the elector's own and lasts for the guaranteed time from `last`. -/
def Holds (server : ApiState) (s : ElectorSettings) (last : ℚ) : Prop :=
  ∃ r, seenLease server = some r ∧ r.holderIdentity = s.identity ∧
    last + guaranteedSec s ≤ r.renewTime + r.leaseDurationSec

/-- The tick read `now` after its wait was over. -/
structure Timely (offset clock now : ℚ) (p : Pod) : Prop where
  woke : ∃ n, p.driver.tickAt = some n ∧ n + offset ≤ now
  past : now ≤ clock + offset
  fresh : p.elector.isLeader = true → p.elector.lastRenewSuccess ≤ now

/-- The tick has returned, and its driver has yet to take the attempt up. -/
structure Returned (offset : ℚ) (attempt : LeaseAttempt) (p : Pod) : Prop where
  woke : ∃ n, p.driver.tickAt = some n ∧ (attempt.isSuccess = true →
    p.elector.isLeader = true ∧ n + offset ≤ p.elector.lastRenewSuccess)
  lost : attempt = .heldByOther → p.elector.isLeader = false

def PhaseSound (A : ApiServer) (s : ElectorSettings) (offset : ℚ) (server : ApiState) (clock : ℚ)
    (p : Pod) : Prop :=
  match p.tick with
  | .idle => True
  | .clockRead now => Timely offset clock now p
  | .observed now plan => Timely offset clock now p ∧ SoundPlan A s server now plan
  | .performed now plan => Timely offset clock now p ∧ (plan ≠ .standDown → Holds server s now)
  | .returned attempt => Returned offset attempt p

/-- What holds of a leader: the stored lease is its own, and its next tick returns in time to step
down. -/
structure Leading (F : SlowFleet ι) (i : ι) (server : ApiState) (clock : ℚ) (p : Pod) : Prop where
  holds : Holds server (F.settings i) p.elector.lastRenewSuccess
  past : p.elector.lastRenewSuccess ≤ clock + F.offset i
  next : ∃ n, p.driver.tickAt = some n ∧
    n + F.delay i + F.offset i ≤ p.elector.lastRenewSuccess + stepDownSec F i
  renews : (∃ n, p.driver = .renewing n) ∨ ∃ a, p.tick = .returned a ∧ a.isSuccess = true

structure PodSound (A : ApiServer) (F : SlowFleet ι) (i : ι) (server : ApiState) (clock : ℚ)
    (p : Pod) : Prop where
  due : ∀ n ∈ p.driver.tickAt, clock ≤ n + F.delay i
  phase : PhaseSound A (F.settings i) (F.offset i) server clock p
  leading : p.Leads → Leading F i server clock p

structure Invariant (A : ApiServer) (F : SlowFleet ι) (w : KubernetesWorld ι) : Prop where
  versioned : Versioned A w.server
  pod : ∀ i, PodSound A F i w.server w.clock (w.pod i)

variable {A : ApiServer} {F : SlowFleet ι} {i j : ι} {server : ApiState} {clock now last : ℚ}
  {s t : ElectorSettings} {p : Pod} {plan : Plan}

theorem delay_le_stepDownSec (F : SlowFleet ι) (i : ι) : F.delay i ≤ stepDownSec F i := by
  have hmax := le_max_right (F.settings i).renewDeadlineSec (F.delay i)
  have hdelay := F.delays i
  have hwait := F.waits i
  unfold stepDownSec
  linarith

theorem Holds.other_write (hs : Versioned A server) (hp : SoundPlan A t server now plan)
    (fault : CallFault) (hne : s.identity ≠ t.identity) (hnow : now ≤ last + guaranteedSec s)
    (h : Holds server s last) : Holds (perform A server fault plan).2 s last := by
  obtain ⟨cur, hcur, hid, hlasts⟩ := h
  rcases hp.perform hs fault with ⟨he, -⟩ | ⟨stored, -, -, -, hold⟩
  · rw [he]
    exact ⟨cur, hcur, hid, hlasts⟩
  · have hexpired := hold cur hcur (hid ▸ hne)
    linarith

theorem Holds.own_write (hs : Versioned A server) (hp : SoundPlan A s server now plan)
    (fault : CallFault) (hle : last ≤ now) (h : Holds server s last) :
    Holds (perform A server fault plan).2 s last := by
  rcases hp.perform hs fault with ⟨he, -⟩ | ⟨stored, he, hid, hlasts, -⟩
  · rwa [he]
  · rw [he]
    exact ⟨_, rfl, hid, (add_le_add hle le_rfl).trans hlasts⟩

/-- The elector holds the lease once its write went through. -/
theorem holds_of_perform (hs : Versioned A server) (hp : SoundPlan A s server now plan)
    (fault : CallFault) (hok : (perform A server fault plan).1 = true)
    (hplan : plan ≠ .standDown) : Holds (perform A server fault plan).2 s now := by
  rcases hp.perform hs fault with ⟨-, hnone⟩ | ⟨stored, he, hid, hlasts, -⟩
  · exact absurd (hnone hok) hplan
  · rw [he]
    exact ⟨_, rfl, hid, hlasts⟩

theorem Timely.advance {clock' : ℚ} (h : Timely (F.offset i) clock now p) (hle : clock ≤ clock') :
    Timely (F.offset i) clock' now p := by
  obtain ⟨hwoke, hpast, hfresh⟩ := h
  exact ⟨hwoke, by linarith, hfresh⟩

theorem PodSound.advance (h : PodSound A F i server clock p) {clock' : ℚ} (hle : clock ≤ clock')
    (hdue : ∀ n ∈ p.driver.tickAt, clock' ≤ n + F.delay i) : PodSound A F i server clock' p := by
  obtain ⟨-, hphase, hleading⟩ := h
  refine ⟨hdue, ?_, fun hp => ?_⟩
  · unfold PhaseSound at hphase ⊢
    cases ht : p.tick with
    | idle => trivial
    | clockRead now =>
      rw [ht] at hphase
      exact Timely.advance hphase hle
    | observed now plan =>
      rw [ht] at hphase
      exact ⟨hphase.1.advance hle, hphase.2⟩
    | performed now plan =>
      rw [ht] at hphase
      exact ⟨hphase.1.advance hle, hphase.2⟩
    | returned attempt =>
      rw [ht] at hphase
      exact hphase
  · obtain ⟨hholds, hpast, hnext, hrenews⟩ := hleading hp
    exact ⟨hholds, by linarith, hnext, hrenews⟩

/-- No clock of the fleet reaches the end of a lease before the tick is over that renews it. -/
theorem clock_le_guaranteed (rule : TimingRule F) {n : ℚ} (hdue : clock ≤ n + F.delay j)
    (hn : n + F.delay j + F.offset j ≤ last + stepDownSec F j) :
    clock + F.offset i ≤ last + guaranteedSec (F.settings j) := by
  have hskew := F.skewed i j
  have hrule := rule j
  linarith

theorem PodSound.other_write (rule : TimingRule F) (hij : j ≠ i)
    (hs : Versioned A server) (hp : SoundPlan A (F.settings i) server now plan)
    (hnow : now ≤ clock + F.offset i) (fault : CallFault) (h : PodSound A F j server clock p) :
    PodSound A F j (perform A server fault plan).2 clock p := by
  have hne : (F.settings j).identity ≠ (F.settings i).identity := fun he => hij (F.distinct he)
  obtain ⟨hdue, hphase, hleading⟩ := h
  refine ⟨hdue, ?_, fun hlead => ?_⟩
  · unfold PhaseSound at hphase ⊢
    cases ht : p.tick with
    | idle => trivial
    | clockRead now' =>
      rw [ht] at hphase
      exact hphase
    | observed now' plan' =>
      rw [ht] at hphase
      exact ⟨hphase.1, hp.perform_other hs fault hphase.2⟩
    | performed now' plan' =>
      rw [ht] at hphase
      obtain ⟨htimely, hheld⟩ := hphase
      obtain ⟨n, hn, hwoke⟩ := htimely.woke
      have hdelay := delay_le_stepDownSec F j
      have hend : clock + F.offset i ≤ now' + guaranteedSec (F.settings j) :=
        clock_le_guaranteed rule (hdue n hn) (by linarith)
      exact ⟨htimely, fun hplan => (hheld hplan).other_write hs hp fault hne (hnow.trans hend)⟩
    | returned attempt =>
      rw [ht] at hphase
      exact hphase
  · obtain ⟨hholds, hpast, ⟨n, hn, hnext⟩, hrenews⟩ := hleading hlead
    have hend := clock_le_guaranteed (i := i) rule (hdue n hn) hnext
    exact ⟨hholds.other_write hs hp fault hne (hnow.trans hend), hpast, ⟨n, hn, hnext⟩, hrenews⟩

theorem PodSound.setTick (h : PodSound A F i server clock p) {tick : TickPhase}
    (hrenews : ∀ a, p.tick ≠ .returned a)
    (hphase : PhaseSound A (F.settings i) (F.offset i) server clock { p with tick }) :
    PodSound A F i server clock { p with tick } := by
  obtain ⟨hdue, -, hleading⟩ := h
  refine ⟨hdue, hphase, fun hp => ?_⟩
  obtain ⟨hholds, hpast, hnext, hrenewing | ⟨a, ha, -⟩⟩ := hleading hp
  · exact ⟨hholds, hpast, hnext, .inl hrenewing⟩
  · exact absurd ha (hrenews a)

theorem PodSound.failed (h : PodSound A F i server clock p)
    (htimely : Timely (F.offset i) clock now p) (hrenews : ∀ a, p.tick ≠ .returned a) :
    PodSound A F i server clock { p with tick := .returned .failed } := by
  obtain ⟨n, hn, -⟩ := htimely.woke
  exact h.setTick hrenews ⟨⟨n, hn, nofun⟩, nofun⟩

theorem podSound_fresh : PodSound A F i server clock ⟨{}, .notStarted, .idle⟩ := by
  refine ⟨fun n hn => ?_, trivial, fun hlead => ?_⟩
  · cases hn
  · cases hlead.1

/-- A pod whose driver is not running is in no tick. -/
theorem PodSound.idle (h : PodSound A F i server clock p) (hd : p.driver.tickAt = none) :
    p.tick = .idle := by
  have hwoke : ∀ q : ℚ → Prop, ¬ ∃ n, p.driver.tickAt = some n ∧ q n := by
    rintro q ⟨n, hn, -⟩
    rw [hd] at hn
    cases hn
  have hphase := h.phase
  unfold PhaseSound at hphase
  cases ht : p.tick with
  | idle => rfl
  | clockRead now =>
    rw [ht] at hphase
    exact absurd hphase.woke (hwoke _)
  | observed now plan =>
    rw [ht] at hphase
    exact absurd hphase.1.woke (hwoke _)
  | performed now plan =>
    rw [ht] at hphase
    exact absurd hphase.1.woke (hwoke _)
  | returned attempt =>
    rw [ht] at hphase
    exact absurd hphase.woke (hwoke _)

theorem PodSound.start (h : PodSound A F i server clock p) (hd : p.driver = .notStarted) :
    PodSound A F i server clock { p with driver := .acquiring clock } := by
  have hnone : p.driver.tickAt = none := by rw [hd]; rfl
  have hdelay := F.delays i
  refine ⟨fun n hn => ?_, ?_, fun hlead => ?_⟩
  · obtain rfl := Option.some.inj hn
    linarith
  · rw [PhaseSound, show ({ p with driver := .acquiring clock } : Pod).tick = _ from h.idle hnone]
    trivial
  · obtain ⟨-, -, ⟨n, hn, -⟩, -⟩ := h.leading ⟨hlead.1, by rw [hd]; nofun⟩
    rw [hnone] at hn
    cases hn

theorem PodSound.readClock (h : PodSound A F i server clock p) (hidle : p.tick = .idle) {n : ℚ}
    (hn : p.driver.tickAt = some n) (hle : n ≤ clock) :
    PodSound A F i server clock { p with tick := .clockRead (clock + F.offset i) } := by
  refine h.setTick (by simp [hidle]) ⟨⟨n, hn, by linarith⟩, le_rfl, fun hleads => ?_⟩
  refine (h.leading ⟨hleads, fun hstopped => ?_⟩).past
  rw [hstopped] at hn
  cases hn

theorem PodSound.own_write (hs : Versioned A server) (h : PodSound A F i server clock p)
    (ht : p.tick = .observed now plan) (fault : CallFault) :
    PodSound A F i (perform A server fault plan).2 clock { p with tick := .returned .failed } ∧
      ((perform A server fault plan).1 = true →
        PodSound A F i (perform A server fault plan).2 clock
          { p with tick := .performed now plan }) := by
  have hphase := h.phase
  rw [PhaseSound, ht] at hphase
  obtain ⟨htimely, hp⟩ := hphase
  have hrenews : ∀ a, p.tick ≠ .returned a := by simp [ht]
  have hkept : p.Leads → Leading F i (perform A server fault plan).2 clock p := by
    intro hlead
    obtain ⟨hholds, hpast, hnext, hrenewing⟩ := h.leading hlead
    exact ⟨hholds.own_write hs hp fault (htimely.fresh hlead.1), hpast, hnext, hrenewing⟩
  -- with the tick taken out of the way the pod is sound after the write
  have hidle : PodSound A F i (perform A server fault plan).2 clock { p with tick := .idle } := by
    refine ⟨h.due, trivial, fun hlead => ?_⟩
    obtain ⟨hholds, hpast, hnext, hrenewing | ⟨a, ha, -⟩⟩ := hkept hlead
    · exact ⟨hholds, hpast, hnext, .inl hrenewing⟩
    · exact absurd ha (hrenews a)
  refine ⟨hidle.failed ⟨htimely.woke, htimely.past, htimely.fresh⟩ nofun, fun hok => ?_⟩
  exact hidle.setTick nofun
    ⟨⟨htimely.woke, htimely.past, htimely.fresh⟩, holds_of_perform hs hp fault hok⟩

theorem PodSound.mark (h : PodSound A F i server clock p) (ht : p.tick = .performed now plan) :
    PodSound A F i server clock
      ⟨(plan.mark now p.elector).2, p.driver, .returned (plan.mark now p.elector).1⟩ := by
  have hphase := h.phase
  rw [PhaseSound, ht] at hphase
  obtain ⟨⟨⟨n, hn, hwoke⟩, hpast, -⟩, hheld⟩ := hphase
  by_cases hplan : plan = .standDown
  · subst hplan
    refine ⟨h.due, ⟨⟨n, hn, nofun⟩, fun _ => ?_⟩, fun hlead => ?_⟩
    · exact LeaderElector.expireSelf_isLeader _
    · have hled : p.elector.expireSelf.isLeader = true := hlead.1
      simp at hled
  · have hmark : (plan.mark now p.elector).1.isSuccess = true ∧
        (plan.mark now p.elector).2.isLeader = true ∧
        (plan.mark now p.elector).2.lastRenewSuccess = now := by
      cases plan with
      | standDown => exact absurd rfl hplan
      | create fresh => exact ⟨LeaderElector.markLeader_isSuccess .., rfl, rfl⟩
      | update c acquired => exact ⟨LeaderElector.markLeader_isSuccess .., rfl, rfl⟩
    obtain ⟨hsuccess, hleads, hlast⟩ := hmark
    have hdelay := delay_le_stepDownSec F i
    refine ⟨h.due, ⟨⟨n, hn, fun _ => ⟨hleads, by rwa [hlast]⟩⟩, fun hother => ?_⟩, fun _ => ?_⟩
    · rw [hother] at hsuccess
      cases hsuccess
    · rw [← hlast] at hpast
      refine ⟨?_, hpast, ⟨n, hn, ?_⟩, .inr ⟨_, rfl, hsuccess⟩⟩
      · rw [hlast]
        exact hheld hplan
      · rw [hlast]
        linarith

/-- The loop takes the attempt up: a leader goes on to its next tick, or steps down. -/
theorem PodSound.returned (h : PodSound A F i server clock p) {attempt : LeaseAttempt}
    (ht : p.tick = .returned attempt) :
    PodSound A F i server clock (p.returned (F.settings i) clock (F.offset i) attempt) := by
  have hphase := h.phase
  rw [PhaseSound, ht] at hphase
  obtain ⟨⟨n, hn, hwoke⟩, hlost⟩ := hphase
  have hsome : p.driver.tickAt.isSome = true := by rw [hn]; rfl
  have hwait := F.waits i
  have hdelay := F.delays i
  refine ⟨fun m hm => ?_, trivial, fun hlead => ?_⟩
  · obtain rfl := TimedLeaseDrivers.afterTick_tickAt hsome hm
    linarith
  · have hstop : p.driver ≠ .stopped := by
      intro hstopped
      rw [hstopped] at hn
      cases hn
    obtain ⟨hsame, hleads, hgo, hkeep⟩ := TimedLeaseDrivers.afterTick_leads hsome hlost hlead.1
    obtain ⟨hholds, hpast, ⟨m, hm, hnext⟩, hrenews⟩ := h.leading ⟨hleads, hstop⟩
    obtain rfl : n = m := Option.some.inj (hn.symm.trans hm)
    have hdue := h.due n hn
    have hstep : (p.returned (F.settings i) clock (F.offset i) attempt).driver =
        .renewing (clock + (F.settings i).retryPeriodSec) ∧
        clock + F.offset i ≤ p.elector.lastRenewSuccess +
          max (F.settings i).renewDeadlineSec (F.delay i) := by
      cases hsuccess : attempt.isSuccess with
      | true =>
        have hmax := le_max_right (F.settings i).renewDeadlineSec (F.delay i)
        have hlast := (hwoke hsuccess).2
        exact ⟨hgo hsuccess, by linarith⟩
      | false =>
        have hmax := le_max_left (F.settings i).renewDeadlineSec (F.delay i)
        rcases hrenews with ⟨k, hk⟩ | ⟨a, ha, hsuccess'⟩
        · obtain ⟨hdriver, hdeadline⟩ := hkeep hsuccess k hk
          exact ⟨hdriver, by linarith⟩
        · rw [ht] at ha
          obtain rfl : attempt = a := TickPhase.returned.inj ha
          rw [hsuccess] at hsuccess'
          cases hsuccess'
    have hlast : (p.returned (F.settings i) clock (F.offset i) attempt).elector = p.elector := hsame
    obtain ⟨hdriver, hbound⟩ := hstep
    refine ⟨by rwa [hlast], by rwa [hlast], ⟨_, by rw [hdriver]; rfl, ?_⟩, .inl ⟨_, hdriver⟩⟩
    rw [hlast, stepDownSec]
    linarith

end Pods

section Safety

variable {A : ApiServer} {F : SlowFleet ι} {w w' : KubernetesWorld ι} {i : ι}

theorem invariant_initial (h : InitialWorld w) : Invariant A F w := by
  obtain ⟨hserver, hpods⟩ := h
  refine ⟨?_, fun i => ?_⟩
  · rw [hserver]
    exact versioned_empty
  · rw [hpods]
    exact podSound_fresh

/-- A leader's lease is its own, on every clock, and it is the only leader. -/
theorem Invariant.leads_alone (rule : TimingRule F) (inv : Invariant A F w)
    (hi : (w.pod i).Leads) :
    (∃ r, seenLease w.server = some r ∧ r.holderIdentity = (F.settings i).identity ∧
      ∀ j, w.clock + F.offset j ≤ r.renewTime + r.leaseDurationSec) ∧
    ∀ j, (w.pod j).Leads → j = i := by
  obtain ⟨⟨r, hr, hholder, hlasts⟩, -, ⟨n, hn, hnext⟩, -⟩ := (inv.pod i).leading hi
  refine ⟨⟨r, hr, hholder, fun j => ?_⟩, fun j hj => ?_⟩
  · exact (clock_le_guaranteed rule ((inv.pod i).due n hn) hnext).trans hlasts
  · obtain ⟨⟨r', hr', hholder', -⟩, -⟩ := (inv.pod j).leading hj
    obtain rfl : r = r' := Option.some.inj (hr.symm.trans hr')
    exact F.distinct (hholder'.symm.trans hholder)

variable [DecidableEq ι]

theorem Invariant.setPod (h : Invariant A F w) {p : Pod}
    (hp : PodSound A F i w.server w.clock p) : Invariant A F (w.setPod i p) := by
  refine ⟨h.versioned, fun j => ?_⟩
  by_cases hj : j = i
  · subst hj
    simpa [KubernetesWorld.setPod, KubernetesWorld.pod] using hp
  · simpa [KubernetesWorld.setPod, KubernetesWorld.pod, Function.update_of_ne hj] using h.pod j

theorem Invariant.write (rule : TimingRule F) (h : Invariant A F w) {now : ℚ} {plan : Plan}
    (hi : w.ticks i = .observed now plan) (fault : CallFault) {p : Pod}
    (hp : PodSound A F i (perform A w.server fault plan).2 w.clock p) :
    Invariant A F (KubernetesWorld.setPod
      { w with server := (perform A w.server fault plan).2 } i p) := by
  have hphase := (h.pod i).phase
  rw [PhaseSound, show (w.pod i).tick = _ from hi] at hphase
  obtain ⟨htimely, hsound⟩ := hphase
  refine ⟨hsound.versioned h.versioned fault, fun j => ?_⟩
  by_cases hj : j = i
  · subst hj
    simpa [KubernetesWorld.setPod, KubernetesWorld.pod] using hp
  · have hother := (h.pod j).other_write rule hj h.versioned hsound htimely.past fault
    simpa [KubernetesWorld.setPod, KubernetesWorld.pod, Function.update_of_ne hj] using hother

theorem setPod_setTick (w : KubernetesWorld ι) (i : ι) (tick : TickPhase) :
    { w with toKubernetesCluster := w.toKubernetesCluster.setTick i tick } =
      w.setPod i { w.pod i with tick } := by
  simp [KubernetesWorld.setPod, KubernetesWorld.pod, KubernetesCluster.setTick]

theorem invariant_step (rule : TimingRule F) {e : DriverEvent ι} (h : Invariant A F w)
    (hs : Step A F w e w') : Invariant A F w' := by
  cases hs with
  | advance hle hnext => exact ⟨h.versioned, fun j => (h.pod j).advance hle (hnext j)⟩
  | @start i hi => exact h.setPod ((h.pod i).start hi)
  | @readClock i n hidle hn hle => exact h.setPod ((h.pod i).readClock hidle hn hle)
  | @get i f c hc =>
    have hrenews : ∀ now, w.ticks i = .clockRead now → ∀ a, (w.pod i).tick ≠ .returned a := by
      intro now hi a ha
      cases hi.symm.trans ha
    cases KubernetesElectors.step_cases hc with
    | getRaised hi =>
      have hphase := (h.pod i).phase
      rw [PhaseSound, show (w.pod i).tick = _ from hi] at hphase
      rw [setPod_setTick]
      exact h.setPod ((h.pod i).failed hphase (hrenews _ hi))
    | get hi =>
      have hphase := (h.pod i).phase
      rw [PhaseSound, show (w.pod i).tick = _ from hi] at hphase
      rw [setPod_setTick]
      refine h.setPod ((h.pod i).setTick (hrenews _ hi) ⟨?_, SoundPlan.of_seenLease h.versioned⟩)
      exact ⟨hphase.woke, hphase.past, hphase.fresh⟩
  | @write i f c hc =>
    cases KubernetesElectors.step_cases hc with
    | writeRaised hi =>
      rw [setPod_setTick { w with server := (perform A w.server f _).2 }]
      exact h.write rule hi f ((h.pod i).own_write h.versioned hi f).1
    | write hi hok =>
      rw [setPod_setTick { w with server := (perform A w.server f _).2 }]
      exact h.write rule hi f (((h.pod i).own_write h.versioned hi f).2 hok)
  | @mark i c hc =>
    cases KubernetesElectors.step_cases hc with
    | mark hi =>
      have hpod := h.setPod ((h.pod i).mark hi)
      simpa [KubernetesWorld.setPod, KubernetesWorld.pod, KubernetesCluster.setTick,
        KubernetesCluster.setElector] using hpod
  | @handle i a ha => exact h.setPod ((h.pod i).returned ha)
  | @stop i n hidle hn =>
    have hphase : PhaseSound A (F.settings i) (F.offset i) w.server w.clock
        { w.pod i with driver := .stopped } := by
      rw [PhaseSound, show ({ w.pod i with driver := .stopped } : Pod).tick = _ from hidle]
      trivial
    refine h.setPod ⟨fun n hn => ?_, hphase, fun hlead => absurd rfl hlead.2⟩
    cases hn
  | @restart i => exact h.setPod podSound_fresh

/-- Under the timing rule the stored lease names a pod that leads, no pod's clock sees that lease
expired, and no other pod leads. -/
theorem leads_under_kept_lease (rule : TimingRule F) (h : Reachable InitialWorld (Step A F) w)
    (hi : (w.pod i).Leads) :
    (∃ r, seenLease w.server = some r ∧ r.holderIdentity = (F.settings i).identity ∧
      ∀ j, w.clock + F.offset j ≤ r.renewTime + r.leaseDurationSec) ∧
    ∀ j, (w.pod j).Leads → j = i := by
  have inv : Invariant A F w :=
    h.invariant (fun _ => invariant_initial) fun _ _ _ hI hs => invariant_step rule hI hs
  exact inv.leads_alone rule hi

end Safety

section Contention

/-- Two pods with the default timing, clocks up to a second apart and ticks of up to a second. -/
def slowPods : SlowFleet Bool where
  toFleet := LeaseCoverage.twoPods
  offset i := if i then 1 else 0
  skew := 1
  skewed := by decide +kernel
  waits := TimedLeaseDrivers.skewedPods.waits
  delay _ := 1
  delays _ := zero_le_one

/-- The cluster after a request or a mark. -/
def requested (w : KubernetesWorld Bool) (e : TickEvent Bool) : KubernetesWorld Bool :=
  { w with
    toKubernetesCluster := (KubernetesElectors.step decimalServer slowPods.toFleet
      w.toKubernetesCluster e).getD w.toKubernetesCluster }

theorem step_requested {w : KubernetesWorld Bool} {e : TickEvent Bool}
    (h : (KubernetesElectors.step decimalServer slowPods.toFleet
      w.toKubernetesCluster e).isSome = true) :
    KubernetesElectors.step decimalServer slowPods.toFleet w.toKubernetesCluster e =
      some (requested w e).toKubernetesCluster := by
  obtain ⟨c, hc⟩ := Option.isSome_iff_exists.mp h
  rw [requested, hc, Option.getD_some]

/-- Both pods find no lease and ask for it; `pod-0` comes first and leads. -/
theorem leads_under_kept_lease_contended :
    ∃ w, Reachable InitialWorld (Step decimalServer slowPods) w ∧ (w.pod true).Leads ∧
      ∀ j, (w.pod j).Leads → j = true := by
  let w₀ : KubernetesWorld Bool := ⟨emptyCluster, fun _ => .notStarted⟩
  let w₁ := w₀.setPod true { w₀.pod true with driver := .acquiring 0 }
  let w₂ := w₁.setPod false { w₁.pod false with driver := .acquiring 0 }
  let w₃ := w₂.setPod true { w₂.pod true with tick := .clockRead (0 + 1) }
  let w₄ := w₃.setPod false { w₃.pod false with tick := .clockRead (0 + 0) }
  let w₅ := requested w₄ (.get false .none)
  let w₆ := requested w₅ (.get true .none)
  let w₇ : KubernetesWorld Bool := { w₆ with clock := 1 / 2 }
  let w₈ := requested w₇ (.write true .none)
  let w₉ := requested w₈ (.write false .none)
  let w := requested w₉ (.mark true)
  have hstart : Step decimalServer slowPods w₀ (.start true) w₁ := .start rfl
  have hstart' : Step decimalServer slowPods w₁ (.start false) w₂ := .start (by decide +kernel)
  have hread : Step decimalServer slowPods w₂ (.readClock true) w₃ :=
    .readClock (n := 0) (by decide +kernel) (by decide +kernel) (by decide +kernel)
  have hread' : Step decimalServer slowPods w₃ (.readClock false) w₄ :=
    .readClock (n := 0) (by decide +kernel) (by decide +kernel) (by decide +kernel)
  have hget : Step decimalServer slowPods w₄ (.get false .none) w₅ :=
    .get (step_requested (by decide +kernel))
  have hget' : Step decimalServer slowPods w₅ (.get true .none) w₆ :=
    .get (step_requested (by decide +kernel))
  have hadvance : Step decimalServer slowPods w₆ (.advance (1 / 2)) w₇ :=
    .advance (by decide +kernel) (by decide +kernel)
  have hwrite : Step decimalServer slowPods w₇ (.write true .none) w₈ :=
    .write (step_requested (by decide +kernel))
  have hwrite' : Step decimalServer slowPods w₈ (.write false .none) w₉ :=
    .write (step_requested (by decide +kernel))
  have hmark : Step decimalServer slowPods w₉ (.mark true) w :=
    .mark (step_requested (by decide +kernel))
  have hinit : InitialWorld w₀ := ⟨rfl, fun _ => rfl⟩
  have hreach : Reachable InitialWorld (Step decimalServer slowPods) w :=
    (((((Reachable.start hinit).snoc hstart).snoc hstart').snoc hread).snoc hread').snoc hget
      |>.snoc hget' |>.snoc hadvance |>.snoc hwrite |>.snoc hwrite' |>.snoc hmark
  have hlead : (w.pod true).Leads := by
    unfold Pod.Leads
    decide +kernel
  have hrule : TimingRule slowPods := by
    unfold TimingRule
    decide +kernel
  exact ⟨w, hreach, hlead, (leads_under_kept_lease hrule hreach hlead).2⟩

end Contention

end BifrostSocket.KubernetesDrivers
