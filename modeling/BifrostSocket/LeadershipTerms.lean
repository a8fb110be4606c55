import BifrostSocket.LeadershipServices
import BifrostSocket.LeaseHistories

/-!
# Terms of leadership

Electors driven by `acquire` and `renew_until_lost`, whose ticks may be delayed by any
amount. A log, newest first, keeps the holders stored, the callbacks fired, and when
`renew_until_lost` was called and returned. A term is continuous when the elector never takes
the record back from another holder before it was demoted.
-/

namespace BifrostSocket.LeadershipTerms
open LeaseRecords LeaderElectors TransitionRuns InterleavedElectors LeaseHistories
open LeadershipServices (Stage judged judged_elector)
open LeaseCoverage (twoPods)

inductive TermEvent (ι : Type) where
  | stored (holder : String)
  | call (i : ι) (c : LeaderCall)
  | renewing (i : ι)
  | returned (i : ι)
  deriving DecidableEq

structure Terms (ι : Type) where
  recorded : Recorded ι
  stages : ι → Stage
  log : List (TermEvent ι)

/-- A step of the electors or the clock, what the coroutine makes of a tick's outcome, the
stop event, and a new call of `acquire` after a lost term. -/
inductive DriverEvent (ι : Type) where
  | tick (e : TickEvent ι)
  | judge (i : ι)
  | stop (i : ι)
  | acquire (i : ι)

section Logs

variable {ι : Type}

/-- The callbacks an elector has fired between two of its states, newest first. -/
def callsOf (i : ι) (before after : LeaderElector) : List (TermEvent ι) :=
  ((after.calls.drop before.calls.length).map (TermEvent.call i)).reverse

def lastHolder : List (TermEvent ι) → Option String
  | [] => none
  | .stored holder :: _ => some holder
  | .call _ _ :: log | .renewing _ :: log | .returned _ :: log => lastHolder log

theorem lastHolder_append {log new : List (TermEvent ι)}
    (hnew : ∀ ev ∈ new, ∀ holder, ev ≠ .stored holder) :
    lastHolder (new ++ log) = lastHolder log := by
  induction new with
  | nil => rfl
  | cons ev new ih =>
    have hrest := ih fun x hx => hnew x (List.mem_cons_of_mem _ hx)
    cases ev with
    | stored holder => exact absurd rfl (hnew _ List.mem_cons_self holder)
    | call | renewing | returned => exact hrest

/-- The flag and the callbacks move together. -/
inductive Fired (before after : LeaderElector) : Prop where
  | same (hflag : after.isLeader = before.isLeader) (hcalls : after.calls = before.calls)
  | started (hbefore : before.isLeader = false) (hafter : after.isLeader = true)
      (hcalls : after.calls = before.calls ++ [.onStartedLeading])
  | stopped (hbefore : before.isLeader = true) (hafter : after.isLeader = false)
      (hcalls : after.calls = before.calls ++ [.onStoppedLeading])

theorem fired_markLeader (e : LeaderElector) (now : ℚ) (acquired : Bool) :
    Fired e (e.markLeader now acquired).2 := by
  cases hl : e.isLeader with
  | true =>
    exact .same (by simp [LeaderElector.markLeader, hl]) (by simp [LeaderElector.markLeader, hl])
  | false => exact .started hl rfl (by simp [LeaderElector.markLeader, hl])

theorem fired_expireSelf (e : LeaderElector) : Fired e e.expireSelf := by
  cases hl : e.isLeader with
  | true => exact .stopped hl (by simp) (by simp [LeaderElector.expireSelf, hl])
  | false => exact .same (by simp [hl]) (by simp [LeaderElector.expireSelf, hl])

theorem fired_mark (e : LeaderElector) (now : ℚ) (plan : Plan) : Fired e (plan.mark now e).2 := by
  cases plan with
  | standDown => exact fired_expireSelf e
  | create r => exact fired_markLeader e now true
  | update r a => exact fired_markLeader e now a

variable {i j : ι} {e e' : LeaderElector} {log new : List (TermEvent ι)}

theorem Fired.callsOf_cases (h : Fired e e') :
    (callsOf i e e' = [] ∧ e'.isLeader = e.isLeader) ∨
      ∃ c, callsOf i e e' = [.call i c] ∧ e'.isLeader = decide (c = .onStartedLeading) := by
  cases h with
  | same hflag hcalls => exact .inl ⟨by simp [callsOf, hcalls], hflag⟩
  | started _ hafter hcalls =>
    exact .inr ⟨.onStartedLeading, by simp [callsOf, hcalls], by simp [hafter]⟩
  | stopped _ hafter hcalls =>
    exact .inr ⟨.onStoppedLeading, by simp [callsOf, hcalls], by simp [hafter]⟩

/-- Callbacks of one elector, which store nothing and are nobody else's. -/
theorem mem_callsOf {ev : TermEvent ι} (hev : ev ∈ callsOf i e e') : ∃ c, ev = .call i c := by
  obtain ⟨c, -, rfl⟩ := List.mem_map.mp (List.mem_reverse.mp hev)
  exact ⟨c, rfl⟩

/-- The calls and returns of `renew_until_lost` by the stages of its coroutine. -/
def stageLog (i : ι) : Stage → Stage → List (TermEvent ι)
  | .acquiring, .leading => [.renewing i]
  | .leading, .unwinding | .leading, .returned => [.returned i]
  | _, _ => []

theorem lastHolder_callsOf : lastHolder (callsOf i e e' ++ log) = lastHolder log := by
  apply lastHolder_append
  intro ev hev holder
  obtain ⟨c, rfl⟩ := mem_callsOf hev
  simp

theorem lastHolder_stageLog {a b : Stage} :
    lastHolder (stageLog i a b ++ log) = lastHolder log := by
  cases a <;> cases b <;> rfl

variable [DecidableEq ι]

/-- The elector's last callback is `on_started_leading`. -/
def termOpen (i : ι) : List (TermEvent ι) → Bool
  | [] => false
  | .call j c :: log => if j = i then decide (c = .onStartedLeading) else termOpen i log
  | .stored _ :: log | .renewing _ :: log | .returned _ :: log => termOpen i log

/-- The elector's `renew_until_lost` was called and has not returned. -/
def inRenew (i : ι) : List (TermEvent ι) → Bool
  | [] => false
  | .renewing j :: log => if j = i then true else inRenew i log
  | .returned j :: log => if j = i then false else inRenew i log
  | .stored _ :: log | .call _ _ :: log => inRenew i log

theorem termOpen_append (hnew : ∀ ev ∈ new, ∀ c, ev ≠ .call i c) :
    termOpen i (new ++ log) = termOpen i log := by
  induction new with
  | nil => rfl
  | cons ev new ih =>
    have hrest := ih fun x hx => hnew x (List.mem_cons_of_mem _ hx)
    cases ev with
    | stored | renewing | returned => exact hrest
    | call j c =>
      have hne : j ≠ i := by
        rintro rfl
        exact hnew _ List.mem_cons_self c rfl
      rw [List.cons_append, termOpen, if_neg hne]
      exact hrest

theorem inRenew_append (hnew : ∀ ev ∈ new, ev ≠ .renewing i ∧ ev ≠ .returned i) :
    inRenew i (new ++ log) = inRenew i log := by
  induction new with
  | nil => rfl
  | cons ev new ih =>
    have hrest := ih fun x hx => hnew x (List.mem_cons_of_mem _ hx)
    obtain ⟨hren, hret⟩ := hnew ev List.mem_cons_self
    cases ev with
    | stored | call => exact hrest
    | renewing j =>
      have hne : j ≠ i := fun h => hren (h ▸ rfl)
      rw [List.cons_append, inRenew, if_neg hne]
      exact hrest
    | returned j =>
      have hne : j ≠ i := fun h => hret (h ▸ rfl)
      rw [List.cons_append, inRenew, if_neg hne]
      exact hrest

theorem Fired.termOpen (h : Fired e e') (hopen : termOpen i log = e.isLeader) :
    LeadershipTerms.termOpen i (callsOf i e e' ++ log) = e'.isLeader := by
  rcases h.callsOf_cases (i := i) with ⟨hnil, hflag⟩ | ⟨c, hone, hc⟩
  · rw [hnil, hflag]
    exact hopen
  · rw [hone, hc]
    simp [LeadershipTerms.termOpen]

theorem termOpen_callsOf_other (hne : j ≠ i) :
    termOpen j (callsOf i e e' ++ log) = termOpen j log := by
  apply termOpen_append
  intro ev hev c heq
  obtain ⟨c', rfl⟩ := mem_callsOf hev
  exact hne (TermEvent.call.inj heq).1.symm

theorem inRenew_callsOf : inRenew j (callsOf i e e' ++ log) = inRenew j log := by
  apply inRenew_append
  intro ev hev
  obtain ⟨c, rfl⟩ := mem_callsOf hev
  simp

/-- Whenever the elector takes the record from another holder, its own last term is closed
and `renew_until_lost` has returned from it. -/
def Continuous (F : Fleet ι) (i : ι) (log : List (TermEvent ι)) : Prop :=
  ∀ later earlier holder, log = later ++ .stored (F.settings i).identity :: earlier →
    lastHolder earlier = some holder → holder ≠ (F.settings i).identity →
      termOpen i earlier = false ∧ inRenew i earlier = false

theorem Continuous.of_suffix {F : Fleet ι} {log' : List (TermEvent ι)}
    (h : Continuous F i log') (hsuf : log <:+ log') : Continuous F i log := by
  obtain ⟨front, rfl⟩ := hsuf
  intro later earlier holder heq
  apply h (front ++ later)
  rw [heq, List.append_assoc]

end Logs

section Drivers

variable {ι : Type} [DecidableEq ι]

/-- A tick begins in `acquire` or `renew_until_lost` once the last outcome is dealt with; the
step-down at the deadline belongs to the judgement. -/
def Terms.allows (s : Terms ι) : TickEvent ι → Bool
  | .readClock i => decide (s.recorded.cluster.ticks i = .idle) &&
      (decide (s.stages i = .acquiring) || decide (s.stages i = .leading))
  | .expireSelf _ => false
  | .advance _ | .get _ _ | .write _ _ | .mark _ => true

/-- What a tick's step adds to the log: the holder of a newly stored record, or callbacks. -/
def tickLog (before after : Recorded ι) : TickEvent ι → List (TermEvent ι)
  | .write _ _ => match after.cluster.backend.record with
    | some r =>
      if before.cluster.backend.version < after.cluster.backend.version then
        [.stored r.holderIdentity]
      else []
    | none => []
  | .mark i => callsOf i (before.cluster.electors i) (after.cluster.electors i)
  | .advance _ | .readClock _ | .get _ _ | .expireSelf _ => []

def Terms.setStage (s : Terms ι) (i : ι) (stage : Stage) : Terms ι :=
  { s with
    stages := Function.update s.stages i stage
    log := stageLog i (s.stages i) stage ++ s.log }

def Terms.setCluster (s : Terms ι) (c : Cluster ι) (new : List (TermEvent ι)) : Terms ι :=
  { s with recorded := { s.recorded with cluster := c }, log := new ++ s.log }

def step (F : Fleet ι) (s : Terms ι) : DriverEvent ι → Option (Terms ι)
  | .tick e =>
    if s.allows e then
      (recordStep F s.recorded e).map fun r => ⟨r, s.stages, tickLog s.recorded r e ++ s.log⟩
    else none
  | .judge i =>
    let c := s.recorded.cluster
    match c.ticks i with
    | .returned attempt =>
      let r := judged (F.settings i) c.clock attempt (c.electors i) (s.stages i)
      some ((s.setCluster ((c.setElector i r.2).setTick i .idle)
        (callsOf i (c.electors i) r.2)).setStage i r.1)
    | _ => none
  | .stop i =>
    if s.recorded.cluster.ticks i = .idle ∧ (s.stages i = .acquiring ∨ s.stages i = .leading) then
      some (s.setStage i .returned)
    else none
  | .acquire i =>
    if s.recorded.cluster.ticks i = .idle ∧ s.stages i = .unwinding then
      some (s.setStage i .acquiring)
    else none

def InitialTerms (s : Terms ι) : Prop :=
  InitialRecorded s.recorded ∧ (∀ i, s.stages i = .acquiring) ∧ s.log = []

/-- The record a tick is about to write over another holder's. -/
def takeOver : TickPhase → Option LeaseRecord
  | .observed _ (.update c true) => some c
  | _ => none

/-- The elector's flag is still set, its tick has planned a take-over, and the update is about
to be accepted. -/
def Interrupted (s : Terms ι) : DriverEvent ι → Prop
  | .tick (.write i fault) => (s.recorded.cluster.electors i).isLeader = true ∧ fault ≠ .before ∧
      ∃ c ∈ takeOver (s.recorded.cluster.ticks i), ∃ r ∈ s.recorded.cluster.backend.record,
        r.resourceVersion = c.resourceVersion
  | _ => False

instance (s : Terms ι) (e : DriverEvent ι) : Decidable (Interrupted s e) := by
  unfold Interrupted
  split <;> infer_instance

section StageLogs

variable {i j : ι} {a b : Stage} {log : List (TermEvent ι)}

theorem termOpen_stageLog : termOpen j (stageLog i a b ++ log) = termOpen j log := by
  cases a <;> cases b <;> rfl

theorem inRenew_stageLog_other (hne : j ≠ i) :
    inRenew j (stageLog i a b ++ log) = inRenew j log := by
  cases a <;> cases b <;> simp [stageLog, inRenew, Ne.symm hne]

theorem inRenew_stageLog (hlog : inRenew i log = decide (a = .leading))
    (hway : b = .leading → a = .acquiring ∨ a = .leading) (hback : a = .leading → b ≠ .acquiring) :
    inRenew i (stageLog i a b ++ log) = decide (b = .leading) := by
  cases a <;> cases b <;> simp_all [stageLog, inRenew]

end StageLogs

/-- The log tells the stored holder, the flags and the stages; an elector in
`renew_until_lost` is a leader unless its tick has just come back with another holder. -/
structure Invariant (F : Fleet ι) (s : Terms ι) : Prop where
  base : LeaseHistories.Invariant F s.recorded
  holder : lastHolder s.log = s.recorded.cluster.backend.record.map (·.holderIdentity)
  flag : ∀ i, termOpen i s.log = (s.recorded.cluster.electors i).isLeader
  renew : ∀ i, inRenew i s.log = decide (s.stages i = .leading)
  leads : ∀ i, s.stages i = .leading → s.recorded.cluster.ticks i ≠ .returned .heldByOther →
    (s.recorded.cluster.electors i).isLeader = true
  credited : ∀ i a, s.recorded.cluster.ticks i = .returned a → a.isSuccess = true →
    (s.recorded.cluster.electors i).isLeader = true

variable {F : Fleet ι} {s t : Terms ι}

theorem invariant_initial (h : InitialTerms s) : Invariant F s := by
  obtain ⟨hrec, hstages, hlog⟩ := h
  have hbase := LeaseHistories.invariant_initial (F := F) hrec
  obtain ⟨⟨hb, he, ht⟩, -, -⟩ := hrec
  constructor
  · exact hbase
  · simp [hlog, lastHolder, hb]
  · simp [hlog, termOpen, he]
  · simp [hlog, inRenew, hstages]
  · simp [hstages]
  · simp [ht]

/-- A tick's step that marks nothing: the acting elector does not come back with another
holder's record, nor with a success. -/
theorem Invariant.moved (h : Invariant F s) {i : ι} {r : Recorded ι} {l : List (TermEvent ι)}
    (hbase : LeaseHistories.Invariant F r) (hnew : ∀ ev ∈ l, ∃ holder, ev = .stored holder)
    (hholder : lastHolder (l ++ s.log) = r.cluster.backend.record.map (·.holderIdentity))
    (helectors : r.cluster.electors = s.recorded.cluster.electors)
    (hother : ∀ j ≠ i, r.cluster.ticks j = s.recorded.cluster.ticks j)
    (hbefore : s.recorded.cluster.ticks i ≠ .returned .heldByOther)
    (hafter : ∀ a, r.cluster.ticks i = .returned a → a.isSuccess = false) :
    Invariant F ⟨r, s.stages, l ++ s.log⟩ := by
  refine ⟨hbase, hholder, fun j => ?_, fun j => ?_, fun j hstage htick => ?_,
    fun j a ha hsucc => ?_⟩
  · rw [helectors, ← h.flag j]
    apply termOpen_append
    intro ev hev c
    obtain ⟨holder, rfl⟩ := hnew ev hev
    simp
  · rw [← h.renew j]
    apply inRenew_append
    intro ev hev
    obtain ⟨holder, rfl⟩ := hnew ev hev
    simp
  · rw [helectors]
    by_cases hj : j = i
    · subst hj
      exact h.leads j hstage hbefore
    · exact h.leads j hstage (by rwa [← hother j hj])
  · rw [helectors]
    by_cases hj : j = i
    · subst hj
      have hfail := hafter a ha
      rw [hsucc] at hfail
      cases hfail
    · exact h.credited j a ((hother j hj).symm.trans ha) hsucc

/-- What a write's step logs: nothing, or the writer as the new holder. -/
theorem Invariant.tickLog_write (h : Invariant F s) {i : ι} {now : ℚ} {plan : Plan}
    (hi : s.recorded.cluster.ticks i = .observed now plan) (fault : CallFault) {r : Recorded ι}
    (hr : r.cluster.backend = (plan.perform s.recorded.cluster.backend fault).2) :
    (r.cluster.backend = s.recorded.cluster.backend ∧
        tickLog s.recorded r (.write i fault) = []) ∨
      ((plan.perform s.recorded.cluster.backend fault).2 ≠ s.recorded.cluster.backend ∧
        r.cluster.backend.record.map (·.holderIdentity) = some (F.settings i).identity ∧
        tickLog s.recorded r (.write i fault) = [.stored (F.settings i).identity]) := by
  rcases h.base.accepted hi fault with hsame | ⟨x, hx, -, hstore⟩
  · refine .inl ⟨hr.trans hsame, ?_⟩
    simp only [tickLog, hr.trans hsame, lt_self_iff_false, if_false]
    split <;> rfl
  · right
    have hholder : x.holderIdentity = (F.settings i).identity := by
      have hp := h.base.phase i
      rw [LeaseHistories.PhaseSound, hi] at hp
      obtain ⟨-, hdec, -⟩ := hp
      generalize s.recorded.reads i = observed at hdec
      cases hdec with
      | standDown => cases hx
      | create | renew | takeOver =>
        obtain rfl := Option.some.inj hx
        rfl
    have hchanged : (s.recorded.cluster.backend.store x).2 ≠ s.recorded.cluster.backend := by
      intro heq
      have hversion := congrArg InMemoryLeaseBackend.version heq
      simp [InMemoryLeaseBackend.store] at hversion
    rw [hstore] at hr ⊢
    refine ⟨hchanged, ?_⟩
    simp [tickLog, hr, InMemoryLeaseBackend.store, hholder]

theorem Invariant.stored (h : Invariant F s) {i : ι} {now : ℚ} {plan : Plan} {fault : CallFault}
    {r : Recorded ι} (hi : s.recorded.cluster.ticks i = .observed now plan)
    (hbase : LeaseHistories.Invariant F r)
    (hr : r.cluster.backend = (plan.perform s.recorded.cluster.backend fault).2)
    (helectors : r.cluster.electors = s.recorded.cluster.electors)
    (hother : ∀ j ≠ i, r.cluster.ticks j = s.recorded.cluster.ticks j)
    (hafter : ∀ a, r.cluster.ticks i = .returned a → a.isSuccess = false) :
    Invariant F ⟨r, s.stages, tickLog s.recorded r (.write i fault) ++ s.log⟩ := by
  have hbefore : s.recorded.cluster.ticks i ≠ .returned .heldByOther := by
    rw [hi]
    simp
  rcases h.tickLog_write hi fault hr with ⟨hsame, hlog⟩ | ⟨-, hholder, hlog⟩
  · rw [hlog]
    refine h.moved hbase (by simp) ?_ helectors hother hbefore hafter
    rw [hsame]
    exact h.holder
  · rw [hlog]
    exact h.moved hbase (by simp) hholder.symm helectors hother hbefore hafter

theorem invariant_tick (h : Invariant F s) {e : TickEvent ι} {r : Recorded ι}
    (hallow : s.allows e = true) (hs : recordStep F s.recorded e = some r) :
    Invariant F ⟨r, s.stages, tickLog s.recorded r e ++ s.log⟩ := by
  have hbase := LeaseHistories.invariant_step h.base hs
  obtain ⟨c, hc, rfl⟩ := Option.map_eq_some_iff.mp hs
  have hother : ∀ {i : ι} {p : TickPhase} {c : Cluster ι}, ∀ j ≠ i,
      (c.setTick i p).ticks j = c.ticks j := by
    intro i p c j hj
    simp [Cluster.setTick, Function.update_of_ne hj]
  have hself : ∀ {i : ι} {p : TickPhase} {c : Cluster ι}, (c.setTick i p).ticks i = p := by
    intro i p c
    simp [Cluster.setTick]
  have hfailed : ∀ {i : ι} {c : Cluster ι} {a}, (c.setTick i (.returned .failed)).ticks i =
      .returned a → a.isSuccess = false := by
    intro i c a ha
    rw [hself] at ha
    cases ha
    rfl
  cases step_cases hc with
  | advance => exact ⟨hbase, h.holder, h.flag, h.renew, h.leads, h.credited⟩
  | @readClock i =>
    simp only [Terms.allows, Bool.and_eq_true, decide_eq_true_eq] at hallow
    refine h.moved (l := []) hbase (by simp) h.holder rfl hother (by simp [hallow.1]) ?_
    intro a ha
    rw [hself] at ha
    cases ha
  | getRaised hi =>
    exact h.moved (l := []) hbase (by simp) h.holder rfl hother (by simp [hi]) fun a => hfailed
  | get hi =>
    refine h.moved (l := []) hbase (by simp) h.holder rfl hother (by simp [hi]) ?_
    intro a ha
    rw [hself] at ha
    cases ha
  | writeRaised hi => exact h.stored hi hbase rfl rfl hother fun a => hfailed
  | write hi =>
    refine h.stored hi hbase rfl rfl hother ?_
    intro a ha
    rw [hself] at ha
    cases ha
  | @mark i now plan hi =>
    refine ⟨hbase, ?_, fun j => ?_, fun j => ?_, fun j hstage htick => ?_, fun j a ha hsucc => ?_⟩
    · exact lastHolder_callsOf.trans h.holder
    · by_cases hj : j = i
      · subst hj
        have hfired := (fired_mark (s.recorded.cluster.electors j) now plan).termOpen (h.flag j)
        simpa [tickLog, Cluster.setTick, Cluster.setElector] using hfired
      · simp only [tickLog, Cluster.setTick, Cluster.setElector, Function.update_of_ne hj]
        exact (termOpen_callsOf_other hj).trans (h.flag j)
    · exact inRenew_callsOf.trans (h.renew j)
    · by_cases hj : j = i
      · subst hj
        simp only [Cluster.setTick, Cluster.setElector, Function.update_self] at htick ⊢
        cases plan with
        | standDown => exact absurd rfl htick
        | create => rfl
        | update => rfl
      · simp only [Cluster.setTick, Cluster.setElector, Function.update_of_ne hj] at htick ⊢
        exact h.leads j hstage htick
    · by_cases hj : j = i
      · subst hj
        simp only [Cluster.setTick, Cluster.setElector, Function.update_self] at ha ⊢
        cases plan with
        | standDown =>
          cases ha
          cases hsucc
        | create => rfl
        | update => rfl
      · simp only [Cluster.setTick, Cluster.setElector, Function.update_of_ne hj] at ha ⊢
        exact h.credited j a ha hsucc
  | expireSelf => cases hallow

theorem judged_facts (E : ElectorSettings) (clock : ℚ) {a : LeaseAttempt} {e : LeaderElector}
    {stage : Stage} (hleads : stage = .leading → a ≠ .heldByOther → e.isLeader = true)
    (hcred : a.isSuccess = true → e.isLeader = true) :
    Fired e (judged E clock a e stage).2 ∧
      ((judged E clock a e stage).1 = .leading →
        (stage = .acquiring ∨ stage = .leading) ∧ (judged E clock a e stage).2.isLeader = true) ∧
      (stage = .leading → (judged E clock a e stage).1 ≠ .acquiring) := by
  refine ⟨?_, ?_, ?_⟩
  · rcases judged_elector E clock a e stage with heq | heq
    · rw [heq]
      exact .same rfl rfl
    · rw [heq]
      exact fired_expireSelf e
  · intro hlead
    cases stage with
    | acquiring =>
      simp only [judged] at hlead ⊢
      cases hs : a.isSuccess with
      | true => exact ⟨by simp, by simpa using hcred hs⟩
      | false => simp [hs] at hlead
    | leading =>
      refine ⟨.inr rfl, ?_⟩
      simp only [judged, LeaderElector.afterRenewTick] at hlead ⊢
      by_cases hs : a.isSuccess = true
      · simpa [hs] using hcred hs
      · by_cases hother : a = .heldByOther
        · simp [hother, LeaseAttempt.isSuccess] at hlead
        · by_cases hlate : clock - e.lastRenewSuccess > E.renewDeadlineSec
          · simp [hs, hother, hlate] at hlead
          · simpa [hs, hother, hlate] using hleads rfl hother
    | unwinding => cases hlead
    | returned => cases hlead
  · rintro rfl
    simp only [judged]
    split <;> simp

theorem invariant_judge (h : Invariant F s) {i : ι} {a : LeaseAttempt}
    (hi : s.recorded.cluster.ticks i = .returned a) {r : Stage × LeaderElector}
    (hr : r = judged (F.settings i) s.recorded.cluster.clock a (s.recorded.cluster.electors i)
      (s.stages i)) :
    Invariant F ((s.setCluster ((s.recorded.cluster.setElector i r.2).setTick i .idle)
      (callsOf i (s.recorded.cluster.electors i) r.2)).setStage i r.1) := by
  obtain ⟨hfired, hlead, hback⟩ := judged_facts (F.settings i) s.recorded.cluster.clock
    (fun hstage hother => h.leads i hstage (by simp [hi, hother])) (h.credited i a hi)
  rw [← hr] at hfired hlead hback
  refine ⟨?_, ?_, fun j => ?_, fun j => ?_, fun j hstage htick => ?_, fun j b hb hsucc => ?_⟩
  · refine h.base.quiet (i := i) rfl rfl (fun j hj => ?_) (fun _ _ => rfl) ?_
    · simp [Cluster.setTick, Cluster.setElector, Function.update_of_ne hj]
    · simp [LeaseHistories.PhaseSound, Cluster.setTick]
  · exact lastHolder_stageLog.trans (lastHolder_callsOf.trans h.holder)
  · refine termOpen_stageLog.trans ?_
    by_cases hj : j = i
    · subst hj
      simpa [Terms.setCluster, Terms.setStage, Cluster.setTick, Cluster.setElector] using
        hfired.termOpen (h.flag j)
    · simpa [Terms.setCluster, Terms.setStage, Cluster.setTick, Cluster.setElector,
        Function.update_of_ne hj] using (termOpen_callsOf_other hj).trans (h.flag j)
  · by_cases hj : j = i
    · subst hj
      simp only [Terms.setStage, Function.update_self]
      exact inRenew_stageLog (inRenew_callsOf.trans (h.renew j)) (fun hl => (hlead hl).1) hback
    · simp only [Terms.setStage, Function.update_of_ne hj]
      exact (inRenew_stageLog_other hj).trans (inRenew_callsOf.trans (h.renew j))
  · by_cases hj : j = i
    · subst hj
      simp only [Terms.setStage, Function.update_self] at hstage
      simpa [Terms.setCluster, Terms.setStage, Cluster.setTick, Cluster.setElector] using
        (hlead hstage).2
    · simp only [Terms.setCluster, Terms.setStage, Cluster.setTick, Cluster.setElector,
        Function.update_of_ne hj] at hstage htick ⊢
      exact h.leads j hstage htick
  · by_cases hj : j = i
    · subst hj
      simp [Terms.setCluster, Terms.setStage, Cluster.setTick] at hb
    · simp only [Terms.setCluster, Terms.setStage, Cluster.setTick, Cluster.setElector,
        Function.update_of_ne hj] at hb ⊢
      exact h.credited j b hb hsucc

theorem Invariant.setStage (h : Invariant F s) {i : ι} {stage : Stage} (hlead : stage ≠ .leading)
    (hback : s.stages i = .leading → stage ≠ .acquiring) : Invariant F (s.setStage i stage) := by
  refine ⟨h.base, lastHolder_stageLog.trans h.holder, fun j => termOpen_stageLog.trans (h.flag j),
    fun j => ?_, fun j hstage => ?_, h.credited⟩
  · by_cases hj : j = i
    · subst hj
      simp only [Terms.setStage, Function.update_self]
      exact inRenew_stageLog (h.renew j) (fun hl => absurd hl hlead) hback
    · simp only [Terms.setStage, Function.update_of_ne hj]
      exact (inRenew_stageLog_other hj).trans (h.renew j)
  · by_cases hj : j = i
    · subst hj
      simp only [Terms.setStage, Function.update_self] at hstage
      exact absurd hstage hlead
    · simp only [Terms.setStage, Function.update_of_ne hj] at hstage
      exact h.leads j hstage

theorem invariant_step (h : Invariant F s) {e : DriverEvent ι} (hs : step F s e = some t) :
    Invariant F t := by
  cases e with
  | tick e =>
    simp only [step] at hs
    split at hs
    · next hallow =>
      obtain ⟨r, hr, rfl⟩ := Option.map_eq_some_iff.mp hs
      exact invariant_tick h hallow hr
    · cases hs
  | judge i =>
    simp only [step] at hs
    split at hs
    · next a hi =>
      obtain rfl := Option.some.inj hs
      exact invariant_judge h hi rfl
    · cases hs
  | stop i =>
    simp only [step] at hs
    split at hs
    · obtain rfl := Option.some.inj hs
      exact h.setStage (by simp) (by simp)
    · cases hs
  | acquire i =>
    simp only [step] at hs
    split at hs
    · next hi =>
      obtain rfl := Option.some.inj hs
      exact h.setStage (by simp) (by simp [hi.2])
    · cases hs

theorem perform_update_iff (b : InMemoryLeaseBackend) (c : LeaseRecord) (a : Bool)
    (fault : CallFault) : ((Plan.update c a).perform b fault).2 ≠ b ↔
      fault ≠ .before ∧ ∃ r, b.record = some r ∧ r.resourceVersion = c.resourceVersion := by
  have hstore : (b.store c).2 ≠ b := by
    intro heq
    have hversion := congrArg InMemoryLeaseBackend.version heq
    simp [InMemoryLeaseBackend.store] at hversion
  cases hrec : b.record with
  | none => cases fault <;> simp [Plan.perform, InMemoryLeaseBackend.callWith,
      InMemoryLeaseBackend.update, hrec]
  | some r =>
    by_cases hv : c.resourceVersion = r.resourceVersion
    · cases fault <;> simp [Plan.perform, InMemoryLeaseBackend.callWith,
        InMemoryLeaseBackend.update, hrec, hv, hstore]
    · cases fault <;> simp [Plan.perform, InMemoryLeaseBackend.callWith,
        InMemoryLeaseBackend.update, hrec, hv, Ne.symm hv]

/-- A write that changes the backend takes the record from another holder exactly when its
plan was a take-over. -/
theorem Invariant.takeover_iff (h : Invariant F s) {i : ι} {now : ℚ} {plan : Plan}
    (hi : s.recorded.cluster.ticks i = .observed now plan) {fault : CallFault}
    (hne : (plan.perform s.recorded.cluster.backend fault).2 ≠ s.recorded.cluster.backend) :
    (∃ holder, lastHolder s.log = some holder ∧ holder ≠ (F.settings i).identity) ↔
      ∃ c, plan = .update c true := by
  rcases h.base.accepted hi fault with hsame | ⟨r, hr, hlast, -⟩
  · exact absurd hsame hne
  · have hp := h.base.phase i
    rw [LeaseHistories.PhaseSound, hi] at hp
    obtain ⟨-, hdec, -⟩ := hp
    rw [h.holder, h.base.record, hlast]
    generalize s.recorded.reads i = observed at hdec
    cases hdec with
    | standDown => cases hr
    | create => simp
    | renew hours => simp [hours]
    | takeOver hother => simpa using hother

/-- A write step is interrupted exactly when it stores over another holder while the term of
its elector is open. -/
theorem Invariant.interrupted_iff (h : Invariant F s) {i : ι} {now : ℚ} {plan : Plan}
    (hi : s.recorded.cluster.ticks i = .observed now plan) {fault : CallFault} :
    Interrupted s (.tick (.write i fault)) ↔
      (plan.perform s.recorded.cluster.backend fault).2 ≠ s.recorded.cluster.backend ∧
      (∃ holder, lastHolder s.log = some holder ∧ holder ≠ (F.settings i).identity) ∧
      termOpen i s.log = true := by
  rw [h.flag i]
  constructor
  · rintro ⟨hflag, hfault, c, hc, hrec⟩
    obtain rfl : plan = .update c true := by
      rw [hi] at hc
      unfold takeOver at hc
      split at hc <;> simp_all
    have hne := (perform_update_iff _ c true fault).mpr ⟨hfault, hrec⟩
    exact ⟨hne, (h.takeover_iff hi hne).mpr ⟨c, rfl⟩, hflag⟩
  · rintro ⟨hne, htake, hflag⟩
    obtain ⟨c, rfl⟩ := (h.takeover_iff hi hne).mp htake
    obtain ⟨hfault, hrec⟩ := (perform_update_iff _ c true fault).mp hne
    exact ⟨hflag, hfault, c, by rw [hi]; rfl, hrec⟩

theorem Invariant.write_log (h : Invariant F s) {i : ι} {fault : CallFault} {now : ℚ}
    {plan : Plan} (hi : s.recorded.cluster.ticks i = .observed now plan)
    (hs : step F s (.tick (.write i fault)) = some t) :
    ((plan.perform s.recorded.cluster.backend fault).2 = s.recorded.cluster.backend ∧
        t.log = s.log) ∨
      ((plan.perform s.recorded.cluster.backend fault).2 ≠ s.recorded.cluster.backend ∧
        t.log = .stored (F.settings i).identity :: s.log) := by
  simp only [step, Terms.allows, if_true] at hs
  obtain ⟨r, hr, rfl⟩ := Option.map_eq_some_iff.mp hs
  obtain ⟨c, hc, rfl⟩ := Option.map_eq_some_iff.mp hr
  have hbackend : c.backend = (plan.perform s.recorded.cluster.backend fault).2 := by
    simp only [InterleavedElectors.step, hi] at hc
    split at hc <;> obtain rfl := Option.some.inj hc <;> simp [Cluster.setTick, *]
  rcases h.tickLog_write hi fault (r := ⟨c, _, _⟩) hbackend with ⟨hsame, hlog⟩ | ⟨hne, -, hlog⟩
  · exact .inl ⟨hbackend.symm.trans hsame, congrArg (· ++ s.log) hlog⟩
  · exact .inr ⟨hne, congrArg (· ++ s.log) hlog⟩

/-- What a step adds to the log: one accepted write, or nothing that is stored. -/
theorem step_log (h : Invariant F s) {e : DriverEvent ι} (hs : step F s e = some t) :
    (∃ i fault now plan, e = .tick (.write i fault) ∧
      s.recorded.cluster.ticks i = .observed now plan ∧
      (plan.perform s.recorded.cluster.backend fault).2 ≠ s.recorded.cluster.backend ∧
      t.log = .stored (F.settings i).identity :: s.log) ∨
    ∃ new, t.log = new ++ s.log ∧ ∀ ev ∈ new, ∀ holder, ev ≠ .stored holder := by
  have hcalls : ∀ {i : ι} {a b : LeaderElector}, ∀ ev ∈ callsOf i a b, ∀ holder,
      ev ≠ .stored holder := by
    intro i a b ev hev holder
    obtain ⟨c, rfl⟩ := mem_callsOf hev
    simp
  have hstages : ∀ {i : ι} {a b : Stage}, ∀ ev ∈ stageLog i a b, ∀ holder,
      ev ≠ .stored holder := by
    intro i a b ev hev holder
    cases a <;> cases b <;> simp_all [stageLog]
  cases e with
  | tick e =>
    simp only [step] at hs
    have hs' := hs
    split at hs
    · obtain ⟨r, hr, rfl⟩ := Option.map_eq_some_iff.mp hs
      obtain ⟨c, hc, rfl⟩ := Option.map_eq_some_iff.mp hr
      cases step_cases hc with
      | advance | readClock | getRaised | get | expireSelf => exact .inr ⟨[], rfl, by simp⟩
      | mark => exact .inr ⟨_, rfl, hcalls⟩
      | @writeRaised i fault now plan hi | @write i fault now plan hi =>
        rcases h.write_log hi hs' with ⟨-, hlog⟩ | ⟨hne, hlog⟩
        · exact .inr ⟨[], hlog, by simp⟩
        · exact .inl ⟨i, fault, now, plan, rfl, hi, hne, hlog⟩
    · cases hs
  | judge i =>
    simp only [step] at hs
    split at hs
    · obtain rfl := Option.some.inj hs
      refine .inr ⟨stageLog _ _ _ ++ callsOf _ _ _, (List.append_assoc _ _ _).symm, ?_⟩
      intro ev hev
      rcases List.mem_append.mp hev with hev | hev
      · exact hstages ev hev
      · exact hcalls ev hev
    · cases hs
  | stop i =>
    simp only [step] at hs
    split at hs
    · obtain rfl := Option.some.inj hs
      exact .inr ⟨_, rfl, hstages⟩
    · cases hs
  | acquire i =>
    simp only [step] at hs
    split at hs
    · obtain rfl := Option.some.inj hs
      exact .inr ⟨_, rfl, hstages⟩
    · cases hs

theorem step_log_suffix (h : Invariant F s) {e : DriverEvent ι} (hs : step F s e = some t) :
    s.log <:+ t.log := by
  rcases step_log h hs with ⟨i, fault, now, plan, -, -, -, hlog⟩ | ⟨new, hlog, -⟩
  · rw [hlog]
    exact List.suffix_cons _ _
  · rw [hlog]
    exact List.suffix_append _ _

theorem continuous_step (h : Invariant F s) {e : DriverEvent ι} (hs : step F s e = some t)
    (hcalm : ¬ Interrupted s e) (hcont : ∀ i, Continuous F i s.log) (i : ι) :
    Continuous F i t.log := by
  intro later earlier holder heq hlast hother
  rcases step_log h hs with ⟨j, fault, now, plan, rfl, hj, hne, hlog⟩ | ⟨new, hlog, hnew⟩
  · rw [hlog] at heq
    cases later with
    | cons x xs => exact hcont i xs earlier holder (List.cons.inj heq).2 hlast hother
    | nil =>
      obtain ⟨hid, rfl⟩ := List.cons.inj heq
      obtain rfl : j = i := F.distinct (TermEvent.stored.inj hid)
      have hclosed : termOpen j s.log = false := by
        by_contra hopen
        apply hcalm
        rw [h.interrupted_iff hj]
        exact ⟨hne, ⟨holder, hlast, hother⟩, by simpa using hopen⟩
      refine ⟨hclosed, ?_⟩
      rw [h.renew j]
      by_contra hstage
      have hleads := h.leads j (by simpa using hstage) (by simp [hj])
      rw [← h.flag j, hclosed] at hleads
      cases hleads
  · rw [hlog] at heq
    rcases List.append_eq_append_iff.mp heq with ⟨mid, -, hmid⟩ | ⟨mid, hmid, hrest⟩
    · exact hcont i mid earlier holder hmid hlast hother
    · cases mid with
      | nil => exact hcont i [] earlier holder hrest.symm hlast hother
      | cons x xs =>
        obtain ⟨rfl, -⟩ := List.cons.inj hrest
        refine absurd rfl (hnew _ ?_ (F.settings i).identity)
        rw [hmid]
        simp

theorem not_continuous_of_interrupted (h : Invariant F s) {e : DriverEvent ι}
    (hs : step F s e = some t) (hint : Interrupted s e) : ∃ i, ¬ Continuous F i t.log := by
  cases e with
  | judge | stop | acquire => exact hint.elim
  | tick e =>
    cases e with
    | advance | readClock | get | mark | expireSelf => exact hint.elim
    | write i fault =>
      obtain ⟨now, plan, hi⟩ : ∃ now plan, s.recorded.cluster.ticks i = .observed now plan := by
        obtain ⟨-, -, c, hc, -⟩ := hint
        unfold takeOver at hc
        split at hc
        · next now _ hi => exact ⟨now, _, hi⟩
        · cases hc
      obtain ⟨hne, ⟨holder, hlast, hother⟩, hopen⟩ := (h.interrupted_iff hi).mp hint
      refine ⟨i, fun hcont => ?_⟩
      rcases h.write_log hi hs with ⟨hsame, -⟩ | ⟨-, hlog⟩
      · exact hne hsame
      · have hclosed := (hcont [] s.log holder hlog hlast hother).1
        rw [hopen] at hclosed
        cases hclosed

theorem run_log_suffix (h : Invariant F s) {es : List (DriverEvent ι)}
    (hr : Run (ofStep (step F)) s es t) : s.log <:+ t.log := by
  induction hr with
  | nil => exact List.suffix_refl _
  | cons head _ ih => exact (step_log_suffix h head).trans (ih (invariant_step h head))

/-- From any state of a run, the steps are uninterrupted exactly when the terms of the log
are continuous. -/
theorem run_continuous_iff (h : Invariant F s) (hcont : ∀ i, Continuous F i s.log)
    {es : List (DriverEvent ι)} (hr : Run (ofStep (step F)) s es t) :
    (∀ i, Continuous F i t.log) ↔
      Run (guarded (fun s e => ¬ Interrupted s e) (ofStep (step F))) s es t := by
  induction hr with
  | nil => exact ⟨fun _ => .nil _, fun _ => hcont⟩
  | @cons s u t e es head tail ih =>
    have hu := invariant_step h head
    constructor
    · intro hfinal
      have hsuf := run_log_suffix hu tail
      have hcalm : ¬ Interrupted s e := by
        intro hint
        obtain ⟨i, hbroken⟩ := not_continuous_of_interrupted h head hint
        exact hbroken ((hfinal i).of_suffix hsuf)
      exact .cons ⟨hcalm, head⟩ ((ih hu (continuous_step h head hcalm hcont)).mp hfinal)
    · intro hguarded
      cases hguarded with
      | cons head' tail' =>
        obtain rfl := Option.some.inj (head.symm.trans head'.2)
        exact (ih hu (continuous_step h head head'.1 hcont)).mpr tail'

/-- In a run from fresh electors every term is continuous if and only if no step lets an
elector whose flag is still set take the record over from another holder. -/
theorem terms_continuous_iff (hinit : InitialTerms s) {es : List (DriverEvent ι)}
    (hr : Run (ofStep (step F)) s es t) :
    (∀ i, Continuous F i t.log) ↔
      Run (guarded (fun s e => ¬ Interrupted s e) (ofStep (step F))) s es t := by
  apply run_continuous_iff (invariant_initial hinit) ?_ hr
  intro i later earlier holder heq
  rw [hinit.2.2] at heq
  simp at heq

end Drivers

section Instances

def emptyTerms : Terms Bool := ⟨emptyRecorded, fun _ => .acquiring, []⟩

theorem initialTerms_emptyTerms : InitialTerms emptyTerms :=
  ⟨⟨⟨rfl, fun _ => rfl, fun _ => rfl⟩, fun _ => rfl, rfl⟩, fun _ => rfl, rfl⟩

/-- A tick of one elector and what its coroutine makes of it. -/
def drivenTick (i : Bool) : List (DriverEvent Bool) := (wholeTick i).map .tick ++ [.judge i]

theorem terms_continuous_iff_demotion :
    ∃ s : Terms Bool, (∀ i, Continuous twoPods i s.log) ∧
      .call true .onStoppedLeading ∈ s.log ∧ .returned true ∈ s.log := by
  obtain ⟨s, hr, hlog⟩ := Run.ofGuardedFold_satisfies (step twoPods) (fun s e => ¬ Interrupted s e)
    emptyTerms (drivenTick true ++ .tick (.advance 16) :: drivenTick false ++ drivenTick true)
    (fun s => .call true .onStoppedLeading ∈ s.log ∧ .returned true ∈ s.log) (by decide +kernel)
  have hcont := (terms_continuous_iff (F := twoPods) initialTerms_emptyTerms
    (hr.mono fun _ _ _ h => h.2)).mpr hr
  exact ⟨s, hcont, hlog⟩

/-- `pod-0` is held up until `pod-1` has taken the lease and let it expire, takes it back,
and no callback has fired in between. -/
theorem interrupted_term_goes_on :
    ¬ ∀ s : Terms Bool, Reachable InitialTerms (ofStep (step twoPods)) s →
      ∀ i, Continuous twoPods i s.log := by
  intro hall
  obtain ⟨s, hr, hlog⟩ := Run.ofFold_satisfies (step twoPods) emptyTerms
    (drivenTick true ++ .tick (.advance 16) :: drivenTick false ++
      .tick (.advance 32) :: drivenTick true)
    (fun s => s.log = [.stored "pod-0", .renewing false, .call false .onStartedLeading,
      .stored "pod-1", .renewing true, .call true .onStartedLeading, .stored "pod-0"])
    (by decide +kernel)
  have hclosed := (hall s ⟨emptyTerms, _, initialTerms_emptyTerms, hr⟩ true [] _ "pod-1" hlog
    rfl (by decide)).1
  cases hclosed

end Instances

end BifrostSocket.LeadershipTerms
