import BifrostSocket.LeaderElectors
import Mathlib.Data.List.Chain

/-!
# Runs of one elector

An elector ticks and expires in any order, against a backend and callbacks that end each call as
they like. Both callbacks are set. The calls that an elector makes of them are kept in `calls`,
together with its flag.
-/

namespace BifrostSocket.ElectorRuns
open TransitionRuns LeaseRecords LeaderElectors

section Ticks

/-- What a call raises; all but the last is an `Exception`, and caught. -/
inductive Raised where
  | leaseConflict | exception | baseException
  deriving DecidableEq

/-- How the backend's methods end during one tick. -/
structure LeaseBackend where
  get : Except Raised (Option LeaseRecord)
  create : LeaseRecord → Except Raised (Option LeaseRecord)
  update : LeaseRecord → Except Raised (Option LeaseRecord)

/-- How the callbacks end. -/
structure Callbacks where
  onStartedLeading : Except Raised Unit
  onStoppedLeading : Except Raised Unit

def safeCall : Except Raised Unit → Except Raised Unit
  | .error .baseException => .error .baseException
  | .error .leaseConflict | .error .exception | .ok () => .ok ()

/-- The handlers of a tick. -/
def failed : Raised → Except Raised LeaseAttempt
  | .baseException => .error .baseException
  | .leaseConflict | .exception => .ok .failed

variable (callbacks : Callbacks)

def markLeaderWith (e : LeaderElector) (now : ℚ) (acquired : Bool) :
    Except Raised LeaseAttempt × LeaderElector :=
  let marked := e.markLeader now acquired
  let call := if e.isLeader then .ok () else safeCall callbacks.onStartedLeading
  (call.map fun _ => marked.1, marked.2)

def markNotLeaderWith (e : LeaderElector) (definitive : Bool) :
    Except Raised LeaseAttempt × LeaderElector :=
  let marked := e.markNotLeader definitive
  let call := if e.isLeader then safeCall callbacks.onStoppedLeading else .ok ()
  (call.map fun _ => marked.1, marked.2)

def expireSelfWith (e : LeaderElector) : Except Raised Unit × LeaderElector :=
  (if e.isLeader then safeCall callbacks.onStoppedLeading else .ok (), e.expireSelf)

/-- The write of the plan, if it has one. -/
def writeWith (b : LeaseBackend) : Plan → Except Raised (Option LeaseRecord)
  | .standDown => .ok none
  | .create fresh => b.create fresh
  | .update candidate _ => b.update candidate

def markWith (now : ℚ) (e : LeaderElector) : Plan → Except Raised LeaseAttempt × LeaderElector
  | .standDown => markNotLeaderWith callbacks e true
  | .create _ => markLeaderWith callbacks e now true
  | .update _ acquired => markLeaderWith callbacks e now acquired

/-- A tick whose calls end in any way. -/
def tryAcquireOrRenewWith (s : ElectorSettings) (now : ℚ) (b : LeaseBackend)
    (e : LeaderElector) : Except Raised LeaseAttempt × LeaderElector :=
  match b.get with
  | .error raised => (failed raised, e)
  | .ok observed =>
    let plan := Plan.of s now observed
    match writeWith b plan with
    | .error raised => (failed raised, e)
    | .ok _ => markWith callbacks now e plan

end Ticks

section InMemory

/-- The in-memory backend, under the faults of one tick. -/
def ofInMemory (b : InMemoryLeaseBackend) (getFault writeFault : CallFault) : LeaseBackend where
  get := match b.getWith getFault with
    | none => .error .exception
    | some observed => .ok observed
  create r := if (b.callWith (·.create r) writeFault).1 then .ok (some r) else .error .leaseConflict
  update r := if (b.callWith (·.update r) writeFault).1 then .ok (some r) else .error .leaseConflict

variable {callbacks : Callbacks} {s : ElectorSettings} {now : ℚ} {e : LeaderElector}

/-- Both callbacks return or raise an `Exception`. -/
def Callbacks.Caught (callbacks : Callbacks) : Prop :=
  safeCall callbacks.onStartedLeading = .ok () ∧ safeCall callbacks.onStoppedLeading = .ok ()

theorem Callbacks.Caught.markWith (h : callbacks.Caught) (plan : Plan) :
    markWith callbacks now e plan = (.ok (plan.mark now e).1, (plan.mark now e).2) := by
  obtain ⟨hstarted, hstopped⟩ := h
  cases plan with
  | standDown =>
    cases hleads : e.isLeader <;>
      simp [ElectorRuns.markWith, Plan.mark, markNotLeaderWith, hleads, hstopped, Except.map]
  | create fresh =>
    cases hleads : e.isLeader <;>
      simp [ElectorRuns.markWith, Plan.mark, markLeaderWith, hleads, hstarted, Except.map]
  | update candidate acquired =>
    cases hleads : e.isLeader <;>
      simp [ElectorRuns.markWith, Plan.mark, markLeaderWith, hleads, hstarted, Except.map]

theorem writeWith_ofInMemory (b : InMemoryLeaseBackend) (getFault writeFault : CallFault)
    (plan : Plan) : writeWith (ofInMemory b getFault writeFault) plan =
      if (plan.perform b writeFault).1 then .ok plan.record else .error .leaseConflict := by
  cases plan <;> rfl

/-- Against the in-memory backend this tick is the one of the electors that share it. -/
theorem tryAcquireOrRenewWith_ofInMemory (h : callbacks.Caught) (b : InMemoryLeaseBackend)
    (getFault writeFault : CallFault) :
    tryAcquireOrRenewWith callbacks s now (ofInMemory b getFault writeFault) e =
      (.ok (tryAcquireOrRenew s now getFault writeFault e b).1,
        (tryAcquireOrRenew s now getFault writeFault e b).2.1) := by
  unfold tryAcquireOrRenewWith tryAcquireOrRenew
  have hget : (ofInMemory b getFault writeFault).get =
      match b.getWith getFault with
      | none => .error .exception
      | some observed => .ok observed := rfl
  cases hobserved : b.getWith getFault with
  | none =>
    rw [hobserved] at hget
    rw [hget]
    rfl
  | some observed =>
    rw [hobserved] at hget
    rw [hget]
    dsimp only
    rw [writeWith_ofInMemory]
    rcases hperform : (Plan.of s now observed).perform b writeFault with ⟨_ | _, b'⟩
    · rfl
    · exact h.markWith _

end InMemory

section Laws

variable {callbacks : Callbacks} {s : ElectorSettings} {now : ℚ} {b : LeaseBackend}
  {e : LeaderElector}

/-- The callbacks alternate, beginning with the start of a term, and the flag tells the last. -/
structure CallsLawful (e : LeaderElector) : Prop where
  alternate : e.calls.IsChain (· ≠ ·)
  starts : ∀ call ∈ e.calls.head?, call = .onStartedLeading
  leads_iff : e.isLeader = true ↔ e.calls.getLast? = some .onStartedLeading

/-- What the outcome of a tick says of the elector before and after it. -/
structure TickLawful (s : ElectorSettings) (now : ℚ) (b : LeaseBackend) (e : LeaderElector)
    (outcome : Except Raised LeaseAttempt) (e' : LeaderElector) : Prop where
  leads : outcome = .ok .acquired ∨ outcome = .ok .renewed →
    e'.isLeader = true ∧ e'.lastRenewSuccess = now
  renewed : outcome = .ok .renewed →
    e.isLeader = true ∧ ∃ o, b.get = .ok (some o) ∧ o.holderIdentity = s.identity
  heldByOther : outcome = .ok .heldByOther → e'.isLeader = false
  failed : outcome = .ok .failed →
    e'.isLeader = e.isLeader ∧ e'.lastRenewSuccess = e.lastRenewSuccess ∧ e'.calls = e.calls

theorem callsLawful_start : CallsLawful {} :=
  ⟨.nil, nofun, by simp⟩

/-- A call that is not the last one made goes on with the alternation. -/
theorem isChain_append {calls : List LeaderCall} {call : LeaderCall}
    (h : calls.IsChain (· ≠ ·)) (hlast : calls.getLast? ≠ some call) :
    (calls ++ [call]).IsChain (· ≠ ·) := by
  rw [List.isChain_append]
  refine ⟨h, .singleton call, ?_⟩
  intro x hx y hy heq
  obtain rfl : call = y := by simpa using hy
  exact hlast (heq ▸ hx)

/-- The callback that a change of the flag goes with. -/
def changeCall (isLeader : Bool) : LeaderCall :=
  if isLeader then .onStoppedLeading else .onStartedLeading

theorem CallsLawful.change (h : CallsLawful e) {e' : LeaderElector}
    (hflag : e'.isLeader = !e.isLeader) (hcalls : e'.calls = e.calls ++ [changeCall e.isLeader]) :
    CallsLawful e' := by
  have hlast : e.calls.getLast? ≠ some (changeCall e.isLeader) := by
    cases hleads : e.isLeader with
    | true =>
      rw [h.leads_iff.mp hleads]
      nofun
    | false =>
      intro hstarted
      rw [h.leads_iff.mpr hstarted] at hleads
      cases hleads
  refine ⟨hcalls ▸ isChain_append h.alternate hlast, ?_, ?_⟩
  · rw [hcalls]
    cases hfirst : e.calls with
    | cons call rest =>
      have hstarts := h.starts
      rw [hfirst] at hstarts
      exact hstarts
    | nil =>
      -- before the first callback the elector does not lead
      have hleads : e.isLeader = false := by
        rw [Bool.eq_false_iff, ne_eq, h.leads_iff, hfirst]
        nofun
      rw [hleads]
      intro call hcall
      exact (Option.some.inj hcall).symm
  · rw [hcalls, hflag, List.getLast?_concat]
    cases e.isLeader <;> decide

theorem CallsLawful.markLeader (h : CallsLawful e) (acquired : Bool) :
    CallsLawful (e.markLeader now acquired).2 := by
  cases hleads : e.isLeader with
  | true =>
    have hcalls : (e.markLeader now acquired).2.calls = e.calls := by
      simp [LeaderElector.markLeader, hleads]
    refine ⟨hcalls ▸ h.alternate, hcalls ▸ h.starts, ?_⟩
    rw [hcalls, ← h.leads_iff, hleads]
    rfl
  | false =>
    apply h.change
    · rw [hleads]
      rfl
    · simp [LeaderElector.markLeader, hleads, changeCall]

theorem CallsLawful.expireSelf (h : CallsLawful e) : CallsLawful e.expireSelf := by
  cases hleads : e.isLeader with
  | true =>
    apply h.change
    · rw [hleads, LeaderElector.expireSelf_isLeader, Bool.not_true]
    · simp [LeaderElector.expireSelf, hleads, changeCall]
  | false => rwa [LeaderElector.expireSelf, hleads, if_neg Bool.false_ne_true]

theorem eq_failed {raised : Raised} {attempt : LeaseAttempt}
    (h : failed raised = .ok attempt) : attempt = .failed := by
  cases raised with
  | baseException => cases h
  | leaseConflict => exact (Except.ok.inj h).symm
  | exception => exact (Except.ok.inj h).symm

/-- A tick leaves the elector as it was, or marks the outcome of its plan. -/
theorem tryAcquireOrRenewWith_cases :
    (tryAcquireOrRenewWith callbacks s now b e).2 = e ∧
        (∀ attempt, (tryAcquireOrRenewWith callbacks s now b e).1 = .ok attempt →
          attempt = .failed) ∨
      ∃ observed, b.get = .ok observed ∧
        tryAcquireOrRenewWith callbacks s now b e =
          markWith callbacks now e (Plan.of s now observed) := by
  unfold tryAcquireOrRenewWith
  cases b.get with
  | error raised => exact .inl ⟨rfl, fun attempt hattempt => eq_failed hattempt⟩
  | ok observed =>
    dsimp only
    cases writeWith b (Plan.of s now observed) with
    | error raised => exact .inl ⟨rfl, fun attempt hattempt => eq_failed hattempt⟩
    | ok stored => exact .inr ⟨observed, rfl, rfl⟩

theorem CallsLawful.markWith (h : CallsLawful e) (plan : Plan) :
    CallsLawful (markWith callbacks now e plan).2 := by
  cases plan with
  | standDown => exact h.expireSelf
  | create fresh => exact h.markLeader true
  | update candidate acquired => exact h.markLeader acquired

theorem CallsLawful.tryAcquireOrRenewWith (h : CallsLawful e) :
    CallsLawful (tryAcquireOrRenewWith callbacks s now b e).2 := by
  obtain ⟨hsame, -⟩ | ⟨observed, -, hmark⟩ :=
    @tryAcquireOrRenewWith_cases callbacks s now b e
  · rwa [hsame]
  · rw [hmark]
    exact h.markWith _

/-- What a callback does, the attempt that a marking returns is the one it decided on. -/
theorem eq_of_map_ok {call : Except Raised Unit} {attempt attempt' : LeaseAttempt}
    (h : (call.map fun _ => attempt) = .ok attempt') : attempt = attempt' := by
  cases call with
  | error raised => cases h
  | ok => exact Except.ok.inj h

theorem of_update_renewal {observed : Option LeaseRecord} {candidate : LeaseRecord}
    (h : Plan.of s now observed = .update candidate false) :
    ∃ o, observed = some o ∧ o.holderIdentity = s.identity := by
  cases observed with
  | none => cases h
  | some o =>
    refine ⟨o, rfl, ?_⟩
    simp only [Plan.of] at h
    split at h
    · cases h
    · split at h
      · next hours => exact eq_of_beq hours
      · cases h

theorem markWith_snd (plan : Plan) :
    (markWith callbacks now e plan).2 = (plan.mark now e).2 := by
  cases plan <;> rfl

theorem markWith_ok {plan : Plan} {attempt : LeaseAttempt}
    (h : (markWith callbacks now e plan).1 = .ok attempt) : (plan.mark now e).1 = attempt := by
  cases plan with
  | standDown => exact eq_of_map_ok h
  | create fresh => exact eq_of_map_ok h
  | update candidate acquired => exact eq_of_map_ok h

theorem eq_standDown_or_mark_isSuccess (plan : Plan) :
    plan = .standDown ∨ (plan.mark now e).1.isSuccess = true := by
  cases plan with
  | standDown => exact .inl rfl
  | create fresh => exact .inr (e.markLeader_isSuccess now true)
  | update candidate acquired => exact .inr (e.markLeader_isSuccess now acquired)

theorem mark_leads {plan : Plan} (h : (plan.mark now e).1.isSuccess = true) :
    (plan.mark now e).2.isLeader = true ∧ (plan.mark now e).2.lastRenewSuccess = now := by
  cases plan with
  | standDown => cases h
  | create fresh => exact ⟨rfl, rfl⟩
  | update candidate acquired => exact ⟨rfl, rfl⟩

theorem mark_renewed {plan : Plan} (h : (plan.mark now e).1 = .renewed) :
    e.isLeader = true ∧ ∃ candidate, plan = .update candidate false := by
  cases plan with
  | standDown => cases h
  | create fresh => cases h
  | update candidate acquired =>
    cases acquired with
    | true => cases h
    | false =>
      refine ⟨?_, candidate, rfl⟩
      by_contra hleads
      simp [Plan.mark, LeaderElector.markLeader, hleads] at h

theorem mark_heldByOther {plan : Plan} (h : (plan.mark now e).1 = .heldByOther) :
    (plan.mark now e).2.isLeader = false := by
  obtain rfl | hsuccess := @eq_standDown_or_mark_isSuccess now e plan
  · exact e.expireSelf_isLeader
  · rw [h] at hsuccess
    cases hsuccess

theorem mark_ne_failed (plan : Plan) : (plan.mark now e).1 ≠ .failed := by
  intro h
  obtain rfl | hsuccess := @eq_standDown_or_mark_isSuccess now e plan
  · cases h
  · rw [h] at hsuccess
    cases hsuccess

theorem tickLawful (callbacks : Callbacks) (s : ElectorSettings) (now : ℚ) (b : LeaseBackend)
    (e : LeaderElector) :
    TickLawful s now b e (tryAcquireOrRenewWith callbacks s now b e).1
      (tryAcquireOrRenewWith callbacks s now b e).2 := by
  obtain ⟨hsame, hfailed⟩ | ⟨observed, hget, htick⟩ :=
    @tryAcquireOrRenewWith_cases callbacks s now b e
  · refine ⟨?_, ?_, ?_, ?_⟩
    · rintro (h | h) <;> cases hfailed _ h
    · intro h
      cases hfailed _ h
    · intro h
      cases hfailed _ h
    · intro _
      rw [hsame]
      exact ⟨rfl, rfl, rfl⟩
  · rw [htick, markWith_snd]
    refine ⟨?_, ?_, ?_, ?_⟩
    · rintro (h | h)
      · exact mark_leads (by rw [markWith_ok h]; rfl)
      · exact mark_leads (by rw [markWith_ok h]; rfl)
    · intro h
      obtain ⟨hleads, candidate, hplan⟩ := mark_renewed (markWith_ok h)
      obtain ⟨o, rfl, hholder⟩ := of_update_renewal hplan
      exact ⟨hleads, o, hget, hholder⟩
    · intro h
      exact mark_heldByOther (markWith_ok h)
    · intro h
      exact absurd (markWith_ok h) (mark_ne_failed _)

end Laws

section Runs

/-- One operation on the elector. -/
inductive Operation where
  | tryAcquireOrRenew (now : ℚ) (b : LeaseBackend) (callbacks : Callbacks)
  | expireSelf (callbacks : Callbacks)

def after (s : ElectorSettings) (e : LeaderElector) : Operation → LeaderElector
  | .tryAcquireOrRenew now b callbacks => (tryAcquireOrRenewWith callbacks s now b e).2
  | .expireSelf callbacks => (expireSelfWith callbacks e).2

/-- The electors that some sequence of operations leads to from a new one. -/
def ElectorReachable (s : ElectorSettings) : LeaderElector → Prop :=
  Reachable (fun e => e = {}) fun e op e' => after s e op = e'

variable {s : ElectorSettings} {e : LeaderElector}

theorem CallsLawful.after (h : CallsLawful e) (op : Operation) : CallsLawful (after s e op) := by
  cases op with
  | tryAcquireOrRenew now b callbacks => exact h.tryAcquireOrRenewWith
  | expireSelf callbacks => exact h.expireSelf

theorem ElectorReachable.callsLawful (h : ElectorReachable s e) : CallsLawful e := by
  refine Reachable.invariant ?_ ?_ h
  · rintro _ rfl
    exact callsLawful_start
  · rintro e op _ hlawful rfl
    exact hlawful.after op

/-- After every sequence of operations the callbacks alternate and agree with the flag, and the
next tick's outcome tells what it did. -/
theorem leadership_consistent (h : ElectorReachable s e) :
    CallsLawful e ∧ ∀ now b callbacks,
      TickLawful s now b e (tryAcquireOrRenewWith callbacks s now b e).1
        (tryAcquireOrRenewWith callbacks s now b e).2 :=
  ⟨h.callsLawful, fun now b callbacks => tickLawful callbacks s now b e⟩

/-- An elector whose callbacks all raise acquires the lease, then steps down. -/
theorem raising_callbacks_consistent :
    CallsLawful ⟨false, 5, [.onStartedLeading, .onStoppedLeading]⟩ := by
  let raising : Callbacks := ⟨.error .exception, .error .baseException⟩
  let empty : LeaseBackend := ⟨.ok none, fun r => .ok (some r), fun _ => .error .leaseConflict⟩
  have hreachable : ElectorReachable { identity := "pod-a" }
      ⟨false, 5, [.onStartedLeading, .onStoppedLeading]⟩ :=
    ⟨{}, [.tryAcquireOrRenew 5 empty raising, .expireSelf raising], rfl,
      .cons rfl (.single rfl)⟩
  exact (leadership_consistent hreachable).1

end Runs

end BifrostSocket.ElectorRuns
