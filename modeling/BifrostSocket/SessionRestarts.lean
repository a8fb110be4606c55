import BifrostSocket.AccountFills

/-!
# Restarts of the account agent's sessions

`run` counts attempts for the backoff and restarts for the health hash; `_run_session` resets
the second counter when it starts. Beside them stand what happened: whether the host has been
connected in the current session, and how many sessions failed since it last was.
-/

namespace BifrostSocket.SessionRestarts
open TransitionRuns AccountFills

section Sessions

/-- Where `run` and `_run_session` are. `raised` tells how a session was left. -/
inductive Phase where
  | checking
  | connecting
  | preparing
  | polling
  | ending (raised : Bool)
  | waiting
  | stopped
  deriving DecidableEq

structure Agent where
  phase : Phase
  attempt : ℕ
  reconnects : ℕ
  hostFailStreak : ℕ
  stop : Bool
  sessionDisconnected : Bool
  hostConnected : Bool
  failedSessions : ℕ
  deriving DecidableEq

/-- `hostConnects` is the host's connection, in `ensure_connected` or by a heartbeat.
`iterates` reads the host's state, if that does not raise, and does the rest of an iteration. -/
inductive Event where
  | begins
  | hostConnects
  | connectRaises
  | settled (hostOk : Bool)
  | prepared (result : CallEnd)
  | iterates (hostOk : Option Bool) (rest : CallEnd)
  | probeDisconnects
  | stopRequested
  | ended
  | waitEnds
  | cancelled

def Agent.begins (s : Agent) : Agent :=
  if s.stop then { s with phase := .stopped }
  else
    { s with
      phase := .connecting
      reconnects := 0
      sessionDisconnected := false
      hostConnected := false }

/-- An exception inside an iteration; only a `ConnectionError` leaves the loop. -/
def Agent.iterationEnds (s : Agent) : CallEnd → Agent
  | .connectionError => { s with phase := .ending true }
  | .returns | .raises => s

def Agent.iterates (s : Agent) (hostOk : Option Bool) (rest : CallEnd) : Agent :=
  if s.stop then { s with phase := .ending false }
  else if s.sessionDisconnected then { s with phase := .ending true }
  else match hostOk with
    | none => s.iterationEnds rest
    | some true =>
      { s with hostFailStreak := 0, hostConnected := true }.iterationEnds rest
    | some false =>
      let s := { s with hostFailStreak := s.hostFailStreak + 1 }
      if hostFailIterationsBeforeSessionReset ≤ s.hostFailStreak then
        { s with phase := .ending true }
      else s.iterationEnds rest

/-- The end of a round of `run`: the two counters, and the wait or the end. -/
def Agent.ended (s : Agent) (raised : Bool) : Agent :=
  let s := { s with
    attempt := if raised then s.attempt + 1 else 0
    failedSessions := if s.hostConnected then 0 else s.failedSessions + 1 }
  if s.stop then { s with phase := .stopped }
  else { s with phase := .waiting, reconnects := s.reconnects + 1 }

def step (s : Agent) : Event → Option Agent
  | .begins => if s.phase = .checking then some s.begins else none
  | .hostConnects =>
    if s.phase = .connecting ∨ s.phase = .preparing ∨ s.phase = .polling then
      some { s with hostConnected := true }
    else none
  | .connectRaises =>
    if s.phase = .connecting then some { s with phase := .ending true } else none
  | .settled hostOk =>
    if s.phase = .connecting then
      some { s with phase := .preparing, hostConnected := s.hostConnected || hostOk }
    else none
  | .prepared result =>
    if s.phase = .preparing then
      match result with
      | .returns => some { s with phase := .polling, hostFailStreak := 0 }
      | .raises | .connectionError => some { s with phase := .ending true }
    else none
  | .iterates hostOk rest => if s.phase = .polling then some (s.iterates hostOk rest) else none
  | .probeDisconnects =>
    if s.phase = .preparing ∨ s.phase = .polling then
      some { s with sessionDisconnected := true }
    else none
  | .stopRequested => some { s with stop := true }
  | .ended =>
    match s.phase with
    | .ending raised => some (s.ended raised)
    | _ => none
  | .waitEnds => if s.phase = .waiting then some { s with phase := .checking } else none
  | .cancelled =>
    if s.phase = .checking ∨ s.phase = .stopped then none else some { s with phase := .stopped }

def Step : Agent → Event → Agent → Prop := ofStep step

def initialAgent : Agent where
  phase := .checking
  attempt := 0
  reconnects := 0
  hostFailStreak := 0
  stop := false
  sessionDisconnected := false
  hostConnected := false
  failedSessions := 0

end Sessions

section Steps

variable {s s' : Agent} {e : Event}

def Phase.InSession : Phase → Prop
  | .connecting | .preparing | .polling | .ending _ => True
  | .checking | .waiting | .stopped => False

/-- A step inside a session counts nothing, and only a stopped agent's session returns. -/
structure StaysInSession (s s' : Agent) : Prop where
  before : s.phase.InSession
  after : s'.phase.InSession
  attempt : s'.attempt = s.attempt
  reconnects : s'.reconnects = s.reconnects
  failedSessions : s'.failedSessions = s.failedSessions
  returned : s'.phase = .ending false → s'.stop = true

/-- What each event can do. -/
inductive StepCase (s : Agent) : Event → Agent → Prop where
  | begins (hphase : s.phase = .checking) : StepCase s .begins s.begins
  | inSession {e : Event} {s' : Agent} (hne : e ≠ .ended) (hstays : StaysInSession s s') :
      StepCase s e s'
  | stopRequested : StepCase s .stopRequested { s with stop := true }
  | ended {raised : Bool} (hphase : s.phase = .ending raised) : StepCase s .ended (s.ended raised)
  | waitEnds (hphase : s.phase = .waiting) : StepCase s .waitEnds { s with phase := .checking }
  | cancelled : StepCase s .cancelled { s with phase := .stopped }

theorem StaysInSession.trans {s'' : Agent} (h : StaysInSession s s') (h' : StaysInSession s' s'') :
    StaysInSession s s'' where
  before := h.before
  after := h'.after
  attempt := h'.attempt.trans h.attempt
  reconnects := h'.reconnects.trans h.reconnects
  failedSessions := h'.failedSessions.trans h.failedSessions
  returned := h'.returned

theorem Agent.inSession_of_polling (h : s.phase = .polling) : s.phase.InSession := by
  rw [h]
  trivial

theorem staysInSession_iterationEnds (h : s.phase = .polling) (rest : CallEnd) :
    StaysInSession s (s.iterationEnds rest) := by
  have hin := Agent.inSession_of_polling h
  cases rest with
  | connectionError => exact ⟨hin, trivial, rfl, rfl, rfl, by simp [Agent.iterationEnds]⟩
  | returns | raises => exact ⟨hin, hin, rfl, rfl, rfl, by simp [Agent.iterationEnds, h]⟩

theorem StaysInSession.iterationEnds (h : StaysInSession s s') (hpolls : s'.phase = .polling)
    (rest : CallEnd) : StaysInSession s (s'.iterationEnds rest) :=
  h.trans (staysInSession_iterationEnds hpolls rest)

theorem staysInSession_iterates (h : s.phase = .polling) (hostOk : Option Bool)
    (rest : CallEnd) : StaysInSession s (s.iterates hostOk rest) := by
  have hin := Agent.inSession_of_polling h
  unfold Agent.iterates
  split
  · next hstop => exact ⟨hin, trivial, rfl, rfl, rfl, fun _ => hstop⟩
  split
  · exact ⟨hin, trivial, rfl, rfl, rfl, by simp⟩
  cases hostOk with
  | none => exact staysInSession_iterationEnds h rest
  | some ok => cases ok with
    | true =>
      have hread : StaysInSession s { s with hostFailStreak := 0, hostConnected := true } :=
        ⟨hin, hin, rfl, rfl, rfl, by simp [h]⟩
      exact hread.iterationEnds h rest
    | false =>
      have hread : StaysInSession s { s with hostFailStreak := s.hostFailStreak + 1 } :=
        ⟨hin, hin, rfl, rfl, rfl, by simp [h]⟩
      dsimp only
      split
      · exact hread.trans ⟨hin, trivial, rfl, rfl, rfl, by simp⟩
      · exact hread.iterationEnds h rest

theorem step_cases (h : Step s e s') : StepCase s e s' := by
  unfold Step ofStep at h
  cases e with
  | begins =>
    simp only [step, Option.ite_none_right_eq_some, Option.some.injEq] at h
    obtain ⟨hphase, rfl⟩ := h
    exact .begins hphase
  | hostConnects =>
    simp only [step, Option.ite_none_right_eq_some, Option.some.injEq] at h
    obtain ⟨hphase, rfl⟩ := h
    obtain ⟨hin, hne⟩ : s.phase.InSession ∧ s.phase ≠ .ending false := by
      rcases hphase with hphase | hphase | hphase
      all_goals simp [hphase, Phase.InSession]
    exact .inSession (by simp) ⟨hin, hin, rfl, rfl, rfl, fun hend => absurd hend hne⟩
  | connectRaises =>
    simp only [step, Option.ite_none_right_eq_some, Option.some.injEq] at h
    obtain ⟨hphase, rfl⟩ := h
    exact .inSession (by simp) ⟨by simp [hphase, Phase.InSession], trivial, rfl, rfl, rfl, by simp⟩
  | settled hostOk =>
    simp only [step, Option.ite_none_right_eq_some, Option.some.injEq] at h
    obtain ⟨hphase, rfl⟩ := h
    exact .inSession (by simp) ⟨by simp [hphase, Phase.InSession], trivial, rfl, rfl, rfl, by simp⟩
  | prepared result =>
    simp only [step] at h
    split at h
    · next hphase =>
      have hin : s.phase.InSession := by
        rw [hphase]
        trivial
      cases result with
      | returns =>
        obtain rfl := Option.some.inj h
        exact .inSession (by simp) ⟨hin, trivial, rfl, rfl, rfl, by simp⟩
      | raises | connectionError =>
        obtain rfl := Option.some.inj h
        exact .inSession (by simp) ⟨hin, trivial, rfl, rfl, rfl, by simp⟩
    · cases h
  | iterates hostOk rest =>
    simp only [step, Option.ite_none_right_eq_some, Option.some.injEq] at h
    obtain ⟨hphase, rfl⟩ := h
    exact .inSession (by simp) (staysInSession_iterates hphase hostOk rest)
  | probeDisconnects =>
    simp only [step, Option.ite_none_right_eq_some, Option.some.injEq] at h
    obtain ⟨hphase, rfl⟩ := h
    obtain ⟨hin, hne⟩ : s.phase.InSession ∧ s.phase ≠ .ending false := by
      rcases hphase with hphase | hphase
      all_goals simp [hphase, Phase.InSession]
    exact .inSession (by simp) ⟨hin, hin, rfl, rfl, rfl, fun hend => absurd hend hne⟩
  | stopRequested =>
    obtain rfl := Option.some.inj h
    exact .stopRequested
  | ended =>
    simp only [step] at h
    split at h
    · next raised hphase =>
      obtain rfl := Option.some.inj h
      exact .ended hphase
    · cases h
  | waitEnds =>
    simp only [step, Option.ite_none_right_eq_some, Option.some.injEq] at h
    obtain ⟨hphase, rfl⟩ := h
    exact .waitEnds hphase
  | cancelled =>
    simp only [step] at h
    split at h
    · cases h
    · obtain rfl := Option.some.inj h
      exact .cancelled

end Steps

section Counters

variable {s s' : Agent} {e : Event}

theorem Phase.InSession.ne_stopped {p : Phase} (h : p.InSession) : p ≠ .stopped := by
  rintro rfl
  exact h

theorem Phase.InSession.ne_waiting {p : Phase} (h : p.InSession) : p ≠ .waiting := by
  rintro rfl
  exact h

/-- The counters while `run` goes on. -/
structure Invariant (s : Agent) : Prop where
  inSession : s.phase.InSession → s.reconnects = 0
  waiting : s.phase = .waiting → s.reconnects = 1
  returned : s.phase = .ending false → s.stop = true
  failed : s.phase ≠ .stopped → s.failedSessions ≤ s.attempt

theorem invariant_initial : Invariant initialAgent := by
  constructor
  all_goals simp [initialAgent, Phase.InSession]

/-- A session that ends without a stop was left by an exception, and a wait follows. -/
theorem Invariant.ended_waits {raised : Bool} (h : Invariant s) (hphase : s.phase = .ending raised)
    (hstop : s.stop = false) :
    s.ended raised = { s with
      phase := .waiting
      attempt := s.attempt + 1
      reconnects := 1
      failedSessions := if s.hostConnected then 0 else s.failedSessions + 1 } := by
  have hzero : s.reconnects = 0 := h.inSession (by rw [hphase]; trivial)
  cases raised with
  | false =>
    rw [h.returned hphase] at hstop
    cases hstop
  | true => simp [Agent.ended, hstop, hzero]

theorem invariant_step (h : Invariant s) (hs : Step s e s') : Invariant s' := by
  cases step_cases hs with
  | begins hphase =>
    have hfailed := h.failed (by simp [hphase])
    unfold Agent.begins
    split
    · exact ⟨False.elim, by simp, by simp, by simp⟩
    · exact ⟨fun _ => rfl, by simp, by simp, fun _ => hfailed⟩
  | inSession _ hstays =>
    have hzero := h.inSession hstays.before
    have hfailed := h.failed hstays.before.ne_stopped
    refine ⟨fun _ => ?_, fun hwaiting => ?_, hstays.returned, fun _ => ?_⟩
    · rw [hstays.reconnects, hzero]
    · exact absurd hwaiting hstays.after.ne_waiting
    · rw [hstays.failedSessions, hstays.attempt]
      exact hfailed
  | stopRequested => exact ⟨h.inSession, h.waiting, fun _ => rfl, h.failed⟩
  | ended hphase =>
    cases hstop : s.stop with
    | true =>
      unfold Agent.ended
      simp only [hstop, if_true]
      exact ⟨False.elim, by simp, by simp, by simp⟩
    | false =>
      rw [h.ended_waits hphase hstop]
      have hfailed := h.failed (by simp [hphase])
      refine ⟨False.elim, fun _ => rfl, by simp, fun _ => ?_⟩
      dsimp only
      split
      · exact Nat.zero_le _
      · exact Nat.succ_le_succ hfailed
  | waitEnds hphase =>
    exact ⟨False.elim, by simp, by simp, fun _ => h.failed (by simp [hphase])⟩
  | cancelled => exact ⟨False.elim, by simp, by simp, by simp⟩

/-- Every wait publishes one reconnect. -/
theorem waits_publish_one (h : Reachable (· = initialAgent) Step s)
    (hwaiting : s.phase = .waiting) : s.reconnects = 1 := by
  have hinv : Invariant s := by
    refine h.invariant ?_ fun s e s' hs hstep => invariant_step hs hstep
    rintro _ rfl
    exact invariant_initial
  exact hinv.waiting hwaiting

end Counters

section Accounting

variable {s s' : Agent} {e : Event}

/-- In a wait, the backoff counts the sessions that failed since the host was last connected,
and after such a session the reconnects that are published do so too. -/
def Accounted (s : Agent) : Prop :=
  s.phase = .waiting → s.attempt = s.failedSessions ∧
    (s.hostConnected = false → s.reconnects = s.failedSessions)

/-- A session that ends without a stop is the first one, and the host was never connected. -/
def FirstFailure (s : Agent) (e : Event) : Prop :=
  e = .ended → s.stop = false → s.attempt = 0 ∧ s.hostConnected = false

theorem accounted_ended_iff {raised : Bool} (h : Invariant s) (hphase : s.phase = .ending raised) :
    Accounted (s.ended raised) ↔ FirstFailure s .ended := by
  cases hstop : s.stop with
  | true => simp [Accounted, FirstFailure, Agent.ended, hstop]
  | false =>
    have hfailed := h.failed (by simp [hphase])
    rw [h.ended_waits hphase hstop]
    cases hconn : s.hostConnected with
    | true => simp [Accounted, FirstFailure, hstop, hconn]
    | false =>
      simp only [Accounted, FirstFailure, hstop, hconn]
      simp
      omega

/-- From a state whose wait is accounted for, a step leads to such a state exactly where the
session that ends is the first failure. -/
theorem accounted_step_iff (hinv : Invariant s) (hacc : Accounted s) (hs : Step s e s') :
    Accounted s' ↔ FirstFailure s e := by
  cases step_cases hs with
  | ended hphase => exact accounted_ended_iff hinv hphase
  | begins hphase =>
    refine iff_of_true (fun hwaiting => ?_) (by simp [FirstFailure])
    unfold Agent.begins at hwaiting
    split at hwaiting
    · cases hwaiting
    · cases hwaiting
  | inSession hne hstays =>
    exact iff_of_true (fun hwaiting => absurd hwaiting hstays.after.ne_waiting)
      fun hended => absurd hended hne
  | stopRequested => exact iff_of_true hacc (by simp [FirstFailure])
  | waitEnds hphase => exact iff_of_true (by simp [Accounted]) (by simp [FirstFailure])
  | cancelled => exact iff_of_true (by simp [Accounted]) (by simp [FirstFailure])

/-- In a run of the account agent every wait is accounted for if and only if no session but the
first ends without a stop, and that one before the host was connected. -/
theorem reconnects_accounted_iff (es : List Event) (s : Agent) :
    Run (fun s e s' => Step s e s' ∧ Accounted s') initialAgent es s ↔
      Run (guarded FirstFailure Step) initialAgent es s := by
  refine Run.congr (P := fun s => Invariant s ∧ Accounted s)
    (fun s e s' h hs => ⟨invariant_step h.1 hs.1, hs.2⟩) (fun s e s' h => ?_)
    ⟨invariant_initial, by simp [Accounted, initialAgent]⟩
  constructor
  · rintro ⟨hs, hacc⟩
    exact ⟨(accounted_step_iff h.1 h.2 hs).mp hacc, hs⟩
  · rintro ⟨hfirst, hs⟩
    exact ⟨hs, (accounted_step_iff h.1 h.2 hs).mpr hfirst⟩

end Accounting

section Instances

/-- A session that connects, polls once and is dropped. -/
def droppedSession : List Event :=
  [.begins, .hostConnects, .settled true, .prepared .returns, .iterates (some true) .returns,
    .probeDisconnects, .iterates (some false) .returns, .ended]

/-- A session in which `ensure_connected` raises. -/
def failedSession : List Event := [.begins, .connectRaises, .ended]

/-- A healthy session that is dropped counts as an attempt, and two failed sessions publish
one reconnect. -/
theorem dropped_session_counts_attempt :
    ¬ (∀ es s, Run Step initialAgent es s → s.phase = .waiting →
      s.attempt = s.failedSessions) ∧
    ¬ (∀ es s, Run Step initialAgent es s → s.phase = .waiting → s.hostConnected = false →
      s.reconnects = s.failedSessions) := by
  constructor
  · intro hall
    obtain ⟨s, hrun, hwaiting, hattempt, hfailed⟩ := Run.ofFold_satisfies step initialAgent
      droppedSession (fun s => s.phase = .waiting ∧ s.attempt = 1 ∧ s.failedSessions = 0)
      (by decide +kernel)
    have hequal := hall _ s hrun hwaiting
    omega
  · intro hall
    obtain ⟨s, hrun, hwaiting, hnever, hpublished, hfailed⟩ :=
      Run.ofFold_satisfies step initialAgent (failedSession ++ .waitEnds :: failedSession)
        (fun s => s.phase = .waiting ∧ s.hostConnected = false ∧ s.reconnects = 1 ∧
          s.failedSessions = 2) (by decide +kernel)
    have hequal := hall _ s hrun hwaiting hnever
    omega

end Instances

end BifrostSocket.SessionRestarts
