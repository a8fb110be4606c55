import BifrostSocket.TransitionRuns
import BifrostSocket.HeartbeatSchedules

/-!
# The ingestor's process

`run` goes from session to session; in a session a poll loop and a probe task share the event loop.
Both publish health, and a session is over when the poll loop sees the stop or what the probe saw.
What the sessions subscribe is left to the poll cycles; here a cycle succeeds or raises.
-/

namespace BifrostSocket.IngestorProcess
open TransitionRuns HeartbeatReconnects HeartbeatSchedules

section Process

/-- How a session is left: `_run_session` returns, raises, or its task is cancelled. -/
inductive Ending where
  | returned | raised | cancelled
  deriving DecidableEq

/-- Where `run` is. `finishing` is before its last health write; `crashed` is left by an
exception. -/
inductive Phase where
  | checking
  | connecting
  | cycling
  | polling
  | ending (e : Ending)
  | waiting
  | finishing
  | stopped
  | crashed
  deriving DecidableEq

/-- The probe task, if there is one. A heartbeat's reconnect began at `now`. -/
inductive Probe where
  | sleeping
  | reconnecting (now : ℚ)
  | done
  | died
  deriving DecidableEq

inductive Reason where
  | sessionEnded | serviceStopped
  deriving DecidableEq

/-- The health hash, without the budget of data lines. -/
structure Health where
  clientId : ℕ
  connected : Bool
  lastMsgTs : ℚ
  reconnects : ℕ
  msgCount : ℕ
  ibProbeAt : ℚ
  ibProbeOk : Bool
  ibProbeIntervalSec : ℚ
  serviceHeartbeat : RedisFields
  deriving DecidableEq

/-- The tracker's update for the slot `host`. -/
structure SlotUpdate where
  connected : Bool
  clientId : Option ℕ
  occurredAt : ℚ
  reason : Option Reason
  deriving DecidableEq

/-- A session that `run` has counted: how it was left, and what the events said then. -/
structure Ended where
  raised : Bool
  disconnected : Bool
  stop : Bool
  deriving DecidableEq

structure Settings where
  clientId : ℕ
  probeIntervalSec : ℚ
  serviceHeartbeatIntervalSec : ℚ

structure Ingestor where
  phase : Phase
  probe : Option Probe
  stop : Bool
  sessionDisconnected : Bool
  attempt : ℕ
  reconnects : ℕ
  msgCount : ℕ
  lastMsgTs : ℚ
  lastProbeAt : ℚ
  lastProbeOk : Bool
  hbClock : ServiceHeartbeatClock
  health : Option Health
  slot : Option SlotUpdate
  /-- The counted sessions, the last one first. -/
  ended : List Ended
  deriving DecidableEq

/-- How far a health write gets: the hash, and then the tracker. -/
inductive Outcome where
  | returns | failsBefore | failsAfterHash | failsAfterSlot
  deriving DecidableEq

/-- One call of `_push_health`: the time it reads, and how far it gets. -/
structure Push where
  now : ℚ
  outcome : Outcome
  deriving DecidableEq

/-- The arguments of `_push_health` that its callers choose, and their defaults. -/
structure PushArgs where
  connected : Bool
  lastMsgTs : ℚ
  ibProbeAt : ℚ := 0
  ibProbeOk : Bool := false
  ibProbeIntervalSec : ℚ := 0
  reconnectInProgress : String := ""
  reason : Option Reason := none

variable (st : Settings)

def Ingestor.healthOf (s : Ingestor) (now : ℚ) (args : PushArgs) : Health where
  clientId := st.clientId
  connected := args.connected
  lastMsgTs := args.lastMsgTs
  reconnects := s.reconnects
  msgCount := s.msgCount
  ibProbeAt := args.ibProbeAt
  ibProbeOk := args.ibProbeOk
  ibProbeIntervalSec := args.ibProbeIntervalSec
  serviceHeartbeat := redisFields s.hbClock now args.reconnectInProgress

def slotOf (args : PushArgs) : SlotUpdate where
  connected := args.connected
  clientId := if st.clientId = 0 then none else some st.clientId
  occurredAt := args.lastMsgTs
  reason := args.reason

/-- Whether `_push_health` returned, and what it left. -/
def Ingestor.pushHealth (s : Ingestor) (args : PushArgs) (p : Push) : Bool × Ingestor :=
  let written := { s with health := some (s.healthOf st p.now args) }
  let tracked := { written with slot := some (slotOf st args) }
  match p.outcome with
  | .returns => (true, tracked)
  | .failsBefore => (false, s)
  | .failsAfterHash => (false, written)
  | .failsAfterSlot => (false, tracked)

/-- `self._last_msg_ts or time.time()`. -/
def Ingestor.msgTs (s : Ingestor) (now : ℚ) : ℚ := if s.lastMsgTs = 0 then now else s.lastMsgTs

/-- The arguments that all writes of a session but the probe's share. -/
def Ingestor.sessionArgs (s : Ingestor) (connected : Bool) (ts : ℚ) : PushArgs where
  connected := connected
  lastMsgTs := ts
  ibProbeAt := s.lastProbeAt
  ibProbeOk := s.lastProbeOk
  ibProbeIntervalSec := st.probeIntervalSec

/-- The main task's write that leads on to the phase `next`, or ends the session. -/
def Ingestor.report (s : Ingestor) (connected : Bool) (ts : ℚ) (p : Push) (next : Phase) :
    Ingestor :=
  let r := s.pushHealth st (s.sessionArgs st connected ts) p
  { r.2 with phase := if r.1 then next else .ending .raised }

/-- After `ensure_connected`: the flag of an earlier session goes, and the probe task starts. -/
def Ingestor.connects (s : Ingestor) (connected : Bool) (p : Push) : Ingestor :=
  let s := { s with sessionDisconnected := false }
  let r := s.pushHealth st (s.sessionArgs st connected p.now) p
  if r.1 then
    { r.2 with
      probe := some .sleeping
      phase := if s.stop then .ending .returned else .cycling }
  else { r.2 with phase := .ending .raised }

/-- What a probe iteration that began at `now` notes down. -/
def Ingestor.probed (s : Ingestor) (now : ℚ) (ok : Bool) : Ingestor :=
  { s with
    probe := some .sleeping
    sessionDisconnected := s.sessionDisconnected || !ok
    lastProbeAt := now
    lastProbeOk := ok }

def Ingestor.probeArgs (s : Ingestor) (now : ℚ) (ok : Bool) : PushArgs where
  connected := ok
  lastMsgTs := s.msgTs now
  ibProbeAt := now
  ibProbeOk := ok
  ibProbeIntervalSec := st.probeIntervalSec

/-- The end of a probe iteration; a failing write is only logged. -/
def Ingestor.probeChecks (s : Ingestor) (now : ℚ) (ok : Bool) (p : Push) : Ingestor :=
  ((s.probed now ok).pushHealth st (s.probeArgs st now ok) p).2

def Ingestor.reconnectArgs (s : Ingestor) (now : ℚ) : PushArgs :=
  { s.sessionArgs st false (s.msgTs now) with
    reconnectInProgress := ServiceHeartbeatClock.reconnectHintPart "Host" st.clientId }

/-- A probe iteration. At a heartbeat that finds the client down it announces the reconnect
first, and that write ends the task if it raises. -/
def Ingestor.probeWakes (s : Ingestor) (now : ℚ) (connected : Bool) (hint : Push) (ok : Bool)
    (p : Push) : Ingestor :=
  let s' := { s with hbClock := (s.hbClock.tick now).2 }
  if (s.hbClock.tick now).1 && !connected then
    let r := s'.pushHealth st (s.reconnectArgs st now) hint
    { r.2 with probe := some (if r.1 then .reconnecting now else .died) }
  else s'.probeChecks st now ok p

/-- The arguments of the write after a session, and of the last one. -/
def Ingestor.sessionEndedArgs (s : Ingestor) (now : ℚ) : PushArgs where
  connected := false
  lastMsgTs := s.msgTs now
  ibProbeAt := s.lastProbeAt
  ibProbeIntervalSec := st.probeIntervalSec
  reason := some .sessionEnded

def Ingestor.serviceStoppedArgs (s : Ingestor) (now : ℚ) : PushArgs where
  connected := false
  lastMsgTs := s.msgTs now
  reason := some .serviceStopped

/-- The `finally` of `_run_session` and the rest of the round of `run`. Awaiting a probe task
that died raises its exception. -/
def Ingestor.sessionOver (s : Ingestor) (e : Ending) (p : Push) : Ingestor :=
  let raised := decide (s.probe = some .died) || decide (e = .raised)
  let left := { s with probe := none }
  if e = .cancelled ∧ s.probe ≠ some .died then { left with phase := .finishing }
  else
    let counted := { left with
      attempt := if raised then s.attempt + 1 else 0
      ended := ⟨raised, s.sessionDisconnected, s.stop⟩ :: s.ended }
    if s.stop then { counted with phase := .finishing }
    else
      let restarting := { counted with reconnects := s.reconnects + 1 }
      let r := restarting.pushHealth st (s.sessionEndedArgs st p.now) p
      { r.2 with phase := if r.1 then .waiting else .crashed }

def Ingestor.finishes (s : Ingestor) (p : Push) : Ingestor :=
  let r := s.pushHealth st (s.serviceStoppedArgs p.now) p
  { r.2 with phase := if r.1 then .stopped else .crashed }

/-- `connected` and `ok` are what `connected_snapshot` answers. -/
inductive Event where
  | requestStop
  | begins
  | connectRaises
  | connects (connected : Bool) (p : Push)
  | cycleRaises
  | cycleDone (connected : Bool) (p : Push)
  | pollReturns
  | pollElapses
  | message (now : ℚ)
  | probeWakes (now : ℚ) (connected : Bool) (hint : Push) (ok : Bool) (p : Push)
  | probeReconnected (ok : Bool) (p : Push)
  | probeStops
  | sessionOver (p : Push)
  | waitEnds
  | finishes (p : Push)
  | cancel

def Ingestor.cancel (s : Ingestor) : Option Ingestor :=
  match s.phase with
  | .connecting | .cycling | .polling | .ending _ => some { s with phase := .ending .cancelled }
  | .waiting => some { s with phase := .crashed }
  | .checking | .finishing | .stopped | .crashed => none

def step (s : Ingestor) : Event → Option Ingestor
  | .requestStop => some { s with stop := true }
  | .begins =>
    if s.phase = .checking then
      some { s with phase := if s.stop then .finishing else .connecting }
    else none
  | .connectRaises =>
    if s.phase = .connecting then some { s with phase := .ending .raised } else none
  | .connects connected p =>
    if s.phase = .connecting then some (s.connects st connected p) else none
  | .cycleRaises => if s.phase = .cycling then some { s with phase := .ending .raised } else none
  | .cycleDone connected p =>
    if s.phase = .cycling then some (s.report st connected (s.msgTs p.now) p .polling) else none
  | .pollReturns =>
    if s.phase = .polling ∧ (s.stop = true ∨ s.sessionDisconnected = true) then
      some { s with phase := .ending .returned }
    else none
  | .pollElapses =>
    if s.phase = .polling ∧ s.stop = false ∧ s.sessionDisconnected = false then
      some { s with phase := .cycling }
    else none
  | .message now => some { s with lastMsgTs := now, msgCount := s.msgCount + 1 }
  | .probeWakes now connected hint ok p =>
    if s.probe = some .sleeping then some (s.probeWakes st now connected hint ok p) else none
  | .probeReconnected ok p =>
    match s.probe with
    | some (.reconnecting now) => some (s.probeChecks st now ok p)
    | _ => none
  | .probeStops =>
    if s.probe = some .sleeping ∧ s.stop = true then some { s with probe := some .done } else none
  | .sessionOver p =>
    match s.phase with
    | .ending e => some (s.sessionOver st e p)
    | _ => none
  | .waitEnds => if s.phase = .waiting then some { s with phase := .checking } else none
  | .finishes p => if s.phase = .finishing then some (s.finishes st p) else none
  | .cancel => s.cancel

def Step : Ingestor → Event → Ingestor → Prop := ofStep (step st)

/-- A process that starts at `now`. -/
def initialIngestor (now : ℚ) : Ingestor where
  phase := .checking
  probe := none
  stop := false
  sessionDisconnected := false
  attempt := 0
  reconnects := 0
  msgCount := 0
  lastMsgTs := 0
  lastProbeAt := 0
  lastProbeOk := false
  hbClock := ⟨st.serviceHeartbeatIntervalSec, now⟩
  health := none
  slot := none
  ended := []

end Process

section Steps

variable {st : Settings} {s s' : Ingestor} {e : Event}

theorem pushHealth_frame (s : Ingestor) (args : PushArgs) (p : Push) :
    ∃ h u, (s.pushHealth st args p).2 = { s with health := h, slot := u } := by
  unfold Ingestor.pushHealth
  cases p.outcome with
  | returns => exact ⟨_, _, rfl⟩
  | failsBefore => exact ⟨s.health, s.slot, rfl⟩
  | failsAfterHash => exact ⟨_, s.slot, rfl⟩
  | failsAfterSlot => exact ⟨_, _, rfl⟩

section Frame

variable (s : Ingestor) (args : PushArgs) (p : Push)

@[simp] theorem pushHealth_phase : (s.pushHealth st args p).2.phase = s.phase := by
  obtain ⟨h, u, heq⟩ := @pushHealth_frame st s args p
  rw [heq]

@[simp] theorem pushHealth_stop : (s.pushHealth st args p).2.stop = s.stop := by
  obtain ⟨h, u, heq⟩ := @pushHealth_frame st s args p
  rw [heq]

@[simp] theorem pushHealth_sessionDisconnected :
    (s.pushHealth st args p).2.sessionDisconnected = s.sessionDisconnected := by
  obtain ⟨h, u, heq⟩ := @pushHealth_frame st s args p
  rw [heq]

@[simp] theorem pushHealth_attempt : (s.pushHealth st args p).2.attempt = s.attempt := by
  obtain ⟨h, u, heq⟩ := @pushHealth_frame st s args p
  rw [heq]

@[simp] theorem pushHealth_reconnects :
    (s.pushHealth st args p).2.reconnects = s.reconnects := by
  obtain ⟨h, u, heq⟩ := @pushHealth_frame st s args p
  rw [heq]

@[simp] theorem pushHealth_ended : (s.pushHealth st args p).2.ended = s.ended := by
  obtain ⟨h, u, heq⟩ := @pushHealth_frame st s args p
  rw [heq]

@[simp] theorem pushHealth_probe : (s.pushHealth st args p).2.probe = s.probe := by
  obtain ⟨h, u, heq⟩ := @pushHealth_frame st s args p
  rw [heq]

end Frame

theorem pushHealth_returns {args : PushArgs} {p : Push} (h : (s.pushHealth st args p).1 = true) :
    (s.pushHealth st args p).2 =
      { s with health := some (s.healthOf st p.now args), slot := some (slotOf st args) } := by
  unfold Ingestor.pushHealth at h ⊢
  cases hp : p.outcome with
  | returns => rfl
  | failsBefore | failsAfterHash | failsAfterSlot => simp [hp] at h

/-- A session goes on from `ensure_connected` to its `finally`. -/
def Phase.InSession : Phase → Prop
  | .cycling | .polling | .ending _ => True
  | .checking | .connecting | .waiting | .finishing | .stopped | .crashed => False

/-- A step inside a session counts nothing, and only a stop or a probe that saw the client down
lets the session return. -/
structure StaysInSession (s s' : Ingestor) : Prop where
  before : s.phase = .connecting ∨ s.phase.InSession
  after : s'.phase.InSession
  stop : s'.stop = s.stop
  attempt : s'.attempt = s.attempt
  reconnects : s'.reconnects = s.reconnects
  ended : s'.ended = s.ended
  returned : s'.phase = .ending .returned →
    s'.stop = true ∨ s'.sessionDisconnected = true ∨
      s.phase = .ending .returned ∧ (s.sessionDisconnected = true → s'.sessionDisconnected = true)

/-- What each event can do. -/
inductive StepCase (st : Settings) (s : Ingestor) : Event → Ingestor → Prop where
  | inSession {e : Event} {s' : Ingestor} (hstays : StaysInSession s s') : StepCase st s e s'
  | requestStop : StepCase st s .requestStop { s with stop := true }
  | message {now : ℚ} :
      StepCase st s (.message now) { s with lastMsgTs := now, msgCount := s.msgCount + 1 }
  | begins (hphase : s.phase = .checking) :
      StepCase st s .begins { s with phase := if s.stop then .finishing else .connecting }
  | sessionOver {e : Ending} {p : Push} (hphase : s.phase = .ending e) :
      StepCase st s (.sessionOver p) (s.sessionOver st e p)
  | waitEnds (hphase : s.phase = .waiting) : StepCase st s .waitEnds { s with phase := .checking }
  | finishes {p : Push} (hphase : s.phase = .finishing) :
      StepCase st s (.finishes p) (s.finishes st p)
  | crashes (hphase : s.phase = .waiting) : StepCase st s .cancel { s with phase := .crashed }

theorem staysInSession_of_probe (hbefore : s.phase.InSession) (hphase : s'.phase = s.phase)
    (hstop : s'.stop = s.stop) (hattempt : s'.attempt = s.attempt)
    (hreconnects : s'.reconnects = s.reconnects) (hended : s'.ended = s.ended)
    (hflag : s.sessionDisconnected = true → s'.sessionDisconnected = true) :
    StaysInSession s s' where
  before := .inr hbefore
  after := hphase ▸ hbefore
  stop := hstop
  attempt := hattempt
  reconnects := hreconnects
  ended := hended
  returned h := .inr (.inr ⟨hphase ▸ h, hflag⟩)

theorem staysInSession_probeChecks (hbefore : s.phase.InSession) (now : ℚ) (ok : Bool) (p : Push) :
    StaysInSession s (s.probeChecks st now ok p) := by
  apply staysInSession_of_probe hbefore
  all_goals simp +contextual [Ingestor.probeChecks, Ingestor.probed]

theorem staysInSession_probeWakes (hbefore : s.phase.InSession) (now : ℚ) (connected : Bool)
    (hint : Push) (ok : Bool) (p : Push) :
    StaysInSession s (s.probeWakes st now connected hint ok p) := by
  unfold Ingestor.probeWakes
  dsimp only
  split
  · apply staysInSession_of_probe hbefore
    all_goals simp
  · have hchecks := @staysInSession_probeChecks st { s with hbClock := (s.hbClock.tick now).2 }
      hbefore now ok p
    exact ⟨.inr hbefore, hchecks.after, hchecks.stop, hchecks.attempt, hchecks.reconnects,
      hchecks.ended, hchecks.returned⟩

theorem staysInSession_report (hphase : s.phase = .cycling) (connected : Bool) (ts : ℚ)
    (p : Push) : StaysInSession s (s.report st connected ts p .polling) := by
  have hbefore : s.phase.InSession := by
    rw [hphase]
    trivial
  unfold Ingestor.report
  refine ⟨.inr hbefore, ?_, by simp, by simp, by simp, by simp, ?_⟩
  · dsimp only
    split <;> trivial
  · dsimp only
    split <;> simp

theorem staysInSession_connects (hphase : s.phase = .connecting) (connected : Bool) (p : Push) :
    StaysInSession s (s.connects st connected p) := by
  unfold Ingestor.connects
  dsimp only
  split
  · refine ⟨.inl hphase, ?_, by simp, by simp, by simp, by simp, ?_⟩
    · dsimp only
      split <;> trivial
    · dsimp only
      split
      · next hstop => simp [hstop]
      · simp
  · exact ⟨.inl hphase, trivial, by simp, by simp, by simp, by simp, by simp⟩

/-- A step of the main task that changes the phase only. -/
theorem staysInSession_of_phase {next : Phase} (hbefore : s.phase = .connecting ∨ s.phase.InSession)
    (hafter : next.InSession) (hreturned : next = .ending .returned →
      s.stop = true ∨ s.sessionDisconnected = true) :
    StaysInSession s { s with phase := next } where
  before := hbefore
  after := hafter
  stop := rfl
  attempt := rfl
  reconnects := rfl
  ended := rfl
  returned h := (hreturned h).imp_right .inl

theorem step_cases (hprobe : s.probe ≠ none → s.phase.InSession) (h : Step st s e s') :
    StepCase st s e s' := by
  unfold Step ofStep at h
  cases e with
  | requestStop =>
    obtain rfl := Option.some.inj h
    exact .requestStop
  | message now =>
    obtain rfl := Option.some.inj h
    exact .message
  | begins =>
    simp only [step, Option.ite_none_right_eq_some, Option.some.injEq] at h
    obtain ⟨hphase, rfl⟩ := h
    exact .begins hphase
  | connectRaises =>
    simp only [step, Option.ite_none_right_eq_some, Option.some.injEq] at h
    obtain ⟨hphase, rfl⟩ := h
    exact .inSession (staysInSession_of_phase (.inl hphase) trivial (by simp))
  | connects connected p =>
    simp only [step, Option.ite_none_right_eq_some, Option.some.injEq] at h
    obtain ⟨hphase, rfl⟩ := h
    exact .inSession (staysInSession_connects hphase connected p)
  | cycleRaises =>
    simp only [step, Option.ite_none_right_eq_some, Option.some.injEq] at h
    obtain ⟨hphase, rfl⟩ := h
    exact .inSession (staysInSession_of_phase (.inr (by simp [hphase, Phase.InSession])) trivial
      (by simp))
  | cycleDone connected p =>
    simp only [step, Option.ite_none_right_eq_some, Option.some.injEq] at h
    obtain ⟨hphase, rfl⟩ := h
    exact .inSession (staysInSession_report hphase connected _ p)
  | pollReturns =>
    simp only [step, Option.ite_none_right_eq_some, Option.some.injEq] at h
    obtain ⟨⟨hphase, hends⟩, rfl⟩ := h
    exact .inSession (staysInSession_of_phase (.inr (by simp [hphase, Phase.InSession])) trivial
      fun _ => hends)
  | pollElapses =>
    simp only [step, Option.ite_none_right_eq_some, Option.some.injEq] at h
    obtain ⟨⟨hphase, -⟩, rfl⟩ := h
    exact .inSession (staysInSession_of_phase (.inr (by simp [hphase, Phase.InSession])) trivial
      (by simp))
  | probeWakes now connected hint ok p =>
    simp only [step, Option.ite_none_right_eq_some, Option.some.injEq] at h
    obtain ⟨hsleeping, rfl⟩ := h
    exact .inSession (staysInSession_probeWakes (hprobe (by simp [hsleeping])) now connected hint
      ok p)
  | probeReconnected ok p =>
    simp only [step] at h
    split at h
    · next now hreconnecting =>
      obtain rfl := Option.some.inj h
      exact .inSession (staysInSession_probeChecks (hprobe (by simp [hreconnecting])) now ok p)
    · cases h
  | probeStops =>
    simp only [step, Option.ite_none_right_eq_some, Option.some.injEq] at h
    obtain ⟨⟨hsleeping, -⟩, rfl⟩ := h
    exact .inSession (staysInSession_of_probe (hprobe (by simp [hsleeping])) rfl rfl rfl rfl rfl id)
  | sessionOver p =>
    simp only [step] at h
    split at h
    · next e hphase =>
      obtain rfl := Option.some.inj h
      exact .sessionOver hphase
    · cases h
  | waitEnds =>
    simp only [step, Option.ite_none_right_eq_some, Option.some.injEq] at h
    obtain ⟨hphase, rfl⟩ := h
    exact .waitEnds hphase
  | finishes p =>
    simp only [step, Option.ite_none_right_eq_some, Option.some.injEq] at h
    obtain ⟨hphase, rfl⟩ := h
    exact .finishes hphase
  | cancel =>
    simp only [step, Ingestor.cancel] at h
    split at h
    · next hphase =>
      obtain rfl := Option.some.inj h
      exact .inSession (staysInSession_of_phase (.inl hphase) trivial (by simp))
    · next hphase =>
      obtain rfl := Option.some.inj h
      exact .inSession (staysInSession_of_phase (.inr (by simp [hphase, Phase.InSession])) trivial
        (by simp))
    · next hphase =>
      obtain rfl := Option.some.inj h
      exact .inSession (staysInSession_of_phase (.inr (by simp [hphase, Phase.InSession])) trivial
        (by simp))
    · next hphase =>
      obtain rfl := Option.some.inj h
      exact .inSession (staysInSession_of_phase (.inr (by simp [hphase, Phase.InSession])) trivial
        (by simp))
    · next hphase =>
      obtain rfl := Option.some.inj h
      exact .crashes hphase
    all_goals cases h

end Steps

section Invariants

variable {st : Settings} {s s' : Ingestor} {e : Event}

/-- What Redis and the tracker last heard: the host is down for this reason, and no reconnect is
under way. -/
def Reported (s : Ingestor) (reason : Reason) : Prop :=
  ∃ h u, s.health = some h ∧ s.slot = some u ∧ h.connected = false ∧ h.ibProbeOk = false ∧
    h.reconnects = s.reconnects ∧
    h.serviceHeartbeat.serviceHeartbeatReconnectInProgress = none ∧
    u.connected = false ∧ u.reason = some reason

/-- The sessions in a row, up to the last one, that were left by an exception. -/
def failedInARow (ended : List Ended) : ℕ := (ended.takeWhile Ended.raised).length

/-- `run` is past its loop. -/
def Phase.Over : Phase → Prop
  | .finishing | .stopped | .crashed => True
  | .checking | .connecting | .cycling | .polling | .ending _ | .waiting => False

/-- A write that returns has reported what its arguments say. -/
theorem reported_of_push {args : PushArgs} {p : Push} {reason : Reason}
    (hconnected : args.connected = false) (hok : args.ibProbeOk = false)
    (hhint : args.reconnectInProgress = "") (hreason : args.reason = some reason)
    (h : (s.pushHealth st args p).1 = true) : Reported (s.pushHealth st args p).2 reason := by
  rw [pushHealth_returns h]
  refine ⟨_, _, rfl, rfl, hconnected, hok, rfl, ?_, hconnected, hreason⟩
  simp [Ingestor.healthOf, redisFields, hhint]

theorem Reported.frame {reason : Reason} (h : Reported s reason) (hhealth : s'.health = s.health)
    (hslot : s'.slot = s.slot) (hreconnects : s'.reconnects = s.reconnects) :
    Reported s' reason := by
  rw [Reported, hhealth, hslot, hreconnects]
  exact h

structure Invariant (s : Ingestor) : Prop where
  probe : s.probe ≠ none → s.phase.InSession
  between : s.phase = .checking ∨ s.phase = .connecting →
    s.health = none ∧ s.slot = none ∨ Reported s .sessionEnded
  waiting : s.phase = .waiting → Reported s .sessionEnded
  stopped : s.phase = .stopped → Reported s .serviceStopped
  returned : s.phase = .ending .returned → s.stop = true ∨ s.sessionDisconnected = true
  attempt : s.attempt = failedInARow s.ended
  counted : s.reconnects ≤ s.ended.length ∧ s.ended.length ≤ s.reconnects + 1
  exact : ¬ s.phase.Over → s.reconnects = s.ended.length
  ended : ∀ r ∈ s.ended, r.raised = false → r.disconnected = true ∨ r.stop = true

theorem invariant_initial {now : ℚ} : Invariant (initialIngestor st now) := by
  constructor
  all_goals simp [initialIngestor, failedInARow]

theorem Phase.InSession.not_over {p : Phase} (h : p.InSession) : ¬ p.Over := by
  cases p with
  | cycling | polling | ending => exact id
  | checking | connecting | waiting | finishing | stopped | crashed => exact h.elim

theorem Invariant.no_probe (h : Invariant s) (hphase : ¬ s.phase.InSession) : s.probe = none := by
  by_contra hsome
  exact hphase (h.probe hsome)

theorem Invariant.inSession (h : Invariant s) (hs : StaysInSession s s') : Invariant s' := by
  have hin : ∀ p, ¬ p.InSession → s'.phase ≠ p := by
    rintro p hp rfl
    exact hp hs.after
  have hbefore : ¬ s.phase.Over := by
    rcases hs.before with hphase | hphase
    · simp [hphase, Phase.Over]
    · exact hphase.not_over
  refine ⟨fun _ => hs.after, fun hphase => ?_, fun hphase => ?_, fun hphase => ?_,
    fun hphase => ?_, ?_, ?_, fun _ => ?_, ?_⟩
  · exact absurd hphase (not_or.mpr ⟨hin _ id, hin _ id⟩)
  · exact absurd hphase (hin _ id)
  · exact absurd hphase (hin _ id)
  · rcases hs.returned hphase with hstop | hflag | ⟨hold, hflag⟩
    · exact .inl hstop
    · exact .inr hflag
    · exact (h.returned hold).imp (fun hstop => hs.stop.trans hstop) hflag
  · rw [hs.attempt, hs.ended, h.attempt]
  · rw [hs.reconnects, hs.ended]
    exact h.counted
  · rw [hs.reconnects, hs.ended, h.exact hbefore]
  · rw [hs.ended]
    exact h.ended

@[simp] theorem failedInARow_cons (r : Ended) (ended : List Ended) :
    failedInARow (r :: ended) = if r.raised then failedInARow ended + 1 else 0 := by
  unfold failedInARow
  rw [List.takeWhile_cons]
  split <;> rfl

/-- After the counted session, `run` waits or the write's exception leaves it. -/
theorem invariant_restarts {w : Ingestor} (s : Ingestor) (p : Push) (hprobe : w.probe = none)
    (hattempt : w.attempt = failedInARow w.ended) (hcounted : w.reconnects = w.ended.length)
    (hended : ∀ r ∈ w.ended, r.raised = false → r.disconnected = true ∨ r.stop = true) :
    Invariant { (w.pushHealth st (s.sessionEndedArgs st p.now) p).2 with
      phase := if (w.pushHealth st (s.sessionEndedArgs st p.now) p).1 then .waiting
        else .crashed } := by
  have hreported := @reported_of_push st w (s.sessionEndedArgs st p.now) p .sessionEnded
    rfl rfl rfl rfl
  have hbounds : w.reconnects ≤ w.ended.length ∧ w.ended.length ≤ w.reconnects + 1 :=
    ⟨hcounted.le, hcounted.ge.trans (Nat.le_succ _)⟩
  split
  · next hdone =>
    exact ⟨by simp [hprobe], by simp, fun _ => (hreported hdone).frame rfl rfl rfl, by simp,
      by simp, by simpa using hattempt, by simpa using hbounds, fun _ => by simpa using hcounted,
      by simpa using hended⟩
  · exact ⟨by simp [hprobe], by simp, by simp, by simp, by simp, by simpa using hattempt,
      by simpa using hbounds, fun _ => by simpa using hcounted, by simpa using hended⟩

/-- The session that ends is counted, and what it left is overwritten before the wait. -/
theorem Invariant.sessionOver (h : Invariant s) {e : Ending} (hphase : s.phase = .ending e)
    (p : Push) : Invariant (s.sessionOver st e p) := by
  have hexact := h.exact (by simp [hphase, Phase.Over])
  unfold Ingestor.sessionOver
  dsimp only
  split
  · exact ⟨nofun, by simp, by simp, by simp, by simp, h.attempt, h.counted,
      fun hover => absurd trivial hover, h.ended⟩
  · next hcounts =>
    have hreturned : (decide (s.probe = some .died) || decide (e = .raised)) = false →
        s.sessionDisconnected = true ∨ s.stop = true := by
      intro hraised
      simp only [Bool.or_eq_false_iff, decide_eq_false_iff_not] at hraised
      cases e with
      | returned => exact (h.returned hphase).symm
      | raised => exact absurd rfl hraised.2
      | cancelled => exact absurd ⟨rfl, hraised.1⟩ hcounts
    generalize (decide (s.probe = some .died) || decide (e = .raised)) = raised at hreturned
    have hattempt : (if raised = true then s.attempt + 1 else 0) =
        failedInARow (⟨raised, s.sessionDisconnected, s.stop⟩ :: s.ended) := by
      rw [failedInARow_cons, h.attempt]
    have hended : ∀ r ∈ (⟨raised, s.sessionDisconnected, s.stop⟩ : Ended) :: s.ended,
        r.raised = false → r.disconnected = true ∨ r.stop = true :=
      List.forall_mem_cons.mpr ⟨hreturned, h.ended⟩
    have hlength : (⟨raised, s.sessionDisconnected, s.stop⟩ :: s.ended).length =
        s.reconnects + 1 := by
      rw [List.length_cons, hexact]
    split
    · refine ⟨nofun, by simp, by simp, by simp, by simp, hattempt, ?_,
        fun hover => absurd trivial hover, hended⟩
      exact ⟨hlength ▸ Nat.le_succ _, hlength.le⟩
    · exact invariant_restarts s p rfl hattempt hlength.symm hended

theorem Invariant.finishes (h : Invariant s) (hphase : s.phase = .finishing) (p : Push) :
    Invariant (s.finishes st p) := by
  have hprobe := h.no_probe (by simp [hphase, Phase.InSession])
  have hreported := @reported_of_push st s (s.serviceStoppedArgs p.now) p .serviceStopped
    rfl rfl rfl rfl
  unfold Ingestor.finishes
  dsimp only
  split
  · next hdone =>
    exact ⟨by simp [hprobe], by simp, by simp, fun _ => (hreported hdone).frame rfl rfl rfl,
      by simp, by simpa using h.attempt, by simpa using h.counted,
      fun hover => absurd trivial hover, by simpa using h.ended⟩
  · exact ⟨by simp [hprobe], by simp, by simp, by simp, by simp, by simpa using h.attempt,
      by simpa using h.counted, fun hover => absurd trivial hover, by simpa using h.ended⟩

theorem invariant_step (h : Invariant s) (hs : Step st s e s') : Invariant s' := by
  cases step_cases h.probe hs with
  | inSession hstays => exact h.inSession hstays
  | requestStop =>
    exact ⟨h.probe, h.between, h.waiting, h.stopped, fun _ => .inl rfl, h.attempt, h.counted,
      h.exact, h.ended⟩
  | message =>
    exact ⟨h.probe, h.between, h.waiting, h.stopped, h.returned, h.attempt, h.counted, h.exact,
      h.ended⟩
  | begins hphase =>
    have hexact := h.exact (by simp [hphase, Phase.Over])
    have hprobe := h.no_probe (by simp [hphase, Phase.InSession])
    have hbetween := h.between (.inl hphase)
    refine ⟨fun hsome => absurd hprobe hsome, fun _ => hbetween, ?_, ?_, ?_, h.attempt, h.counted,
      fun _ => hexact, h.ended⟩
    all_goals
      dsimp only
      split <;> simp
  | sessionOver hphase => exact h.sessionOver hphase _
  | waitEnds hphase =>
    have hexact := h.exact (by simp [hphase, Phase.Over])
    have hprobe := h.no_probe (by simp [hphase, Phase.InSession])
    exact ⟨fun hsome => absurd hprobe hsome, fun _ => .inr (h.waiting hphase), by simp, by simp,
      by simp, h.attempt, h.counted, fun _ => hexact, h.ended⟩
  | finishes hphase => exact h.finishes hphase _
  | crashes hphase =>
    have hprobe := h.no_probe (by simp [hphase, Phase.InSession])
    exact ⟨fun hsome => absurd hprobe hsome, by simp, by simp, by simp, by simp, h.attempt,
      h.counted, fun hover => absurd trivial hover, h.ended⟩

theorem invariant_reachable
    (h : Reachable (fun s => ∃ now, s = initialIngestor st now) (Step st) s) :
    Invariant s := by
  refine h.invariant ?_ fun _ _ _ hI hs => invariant_step hI hs
  rintro _ ⟨now, rfl⟩
  exact invariant_initial

/-- Between the sessions of the loop, health hash and tracker last heard that the host is down, with
no reconnect under way and all restarts counted; once `run` has returned, that the service
stopped. -/
theorem published_between_sessions
    (h : Reachable (fun s => ∃ now, s = initialIngestor st now) (Step st) s) :
    (s.phase = .checking ∨ s.phase = .connecting →
      s.health = none ∧ s.slot = none ∨ Reported s .sessionEnded) ∧
    (s.phase = .waiting → Reported s .sessionEnded) ∧
    (s.phase = .stopped → Reported s .serviceStopped) :=
  have inv := invariant_reachable h
  ⟨inv.between, inv.waiting, inv.stopped⟩

/-- The backoff's attempt is the number of sessions in a row that raised, the restarts are all
sessions, and only a stop or a probe that found the client down ends a session otherwise. -/
theorem backoff_counts_failed_sessions
    (h : Reachable (fun s => ∃ now, s = initialIngestor st now) (Step st) s) :
    s.attempt = failedInARow s.ended ∧
    (¬ s.phase.Over → s.reconnects = s.ended.length) ∧
    ∀ r ∈ s.ended, r.raised = false → r.disconnected = true ∨ r.stop = true :=
  have inv := invariant_reachable h
  ⟨inv.attempt, inv.exact, inv.ended⟩

end Invariants

section LastCycles

variable {st : Settings} {s s' : Ingestor} {e : Event} {es : List Event}

def Event.isConnect : Event → Bool
  | .connects _ _ => true
  | _ => false

/-- A poll cycle ends, well or not. -/
def Event.isCycle : Event → Bool
  | .cycleRaises | .cycleDone _ _ => true
  | _ => false

@[simp] theorem probeChecks_phase (s : Ingestor) (now : ℚ) (ok : Bool) (p : Push) :
    (s.probeChecks st now ok p).phase = s.phase := by
  simp [Ingestor.probeChecks, Ingestor.probed]

@[simp] theorem probeWakes_phase (s : Ingestor) (now : ℚ) (connected : Bool) (hint : Push)
    (ok : Bool) (p : Push) : (s.probeWakes st now connected hint ok p).phase = s.phase := by
  unfold Ingestor.probeWakes
  dsimp only
  split <;> simp

theorem connects_phase_stopped (h : s.stop = true) (connected : Bool) (p : Push) :
    (s.connects st connected p).phase ≠ .cycling := by
  unfold Ingestor.connects
  dsimp only
  split <;> simp

theorem report_phase (connected : Bool) (ts : ℚ) (p : Push) :
    (s.report st connected ts p .polling).phase ≠ .cycling := by
  unfold Ingestor.report
  dsimp only
  split <;> simp

theorem sessionOver_phase (e : Ending) (p : Push) :
    (s.sessionOver st e p).phase ≠ .cycling := by
  unfold Ingestor.sessionOver
  dsimp only
  repeat' split
  all_goals simp

theorem finishes_phase (p : Push) : (s.finishes st p).phase ≠ .cycling := by
  unfold Ingestor.finishes
  dsimp only
  split <;> simp

theorem cycling_step (hs : Step st s e s')
    (hends : s.stop = true ∨ s.sessionDisconnected = true ∧ e.isConnect = false) :
    (e.isCycle = true → s.phase = .cycling ∧ s'.phase ≠ .cycling) ∧
      (s'.phase = .cycling → s.phase = .cycling) := by
  unfold Step ofStep at hs
  cases e with
  | requestStop | message =>
    obtain rfl := Option.some.inj hs
    exact ⟨nofun, id⟩
  | begins =>
    simp only [step, Option.ite_none_right_eq_some, Option.some.injEq] at hs
    obtain ⟨-, rfl⟩ := hs
    refine ⟨nofun, ?_⟩
    dsimp only
    split <;> simp
  | connectRaises | waitEnds =>
    simp only [step, Option.ite_none_right_eq_some, Option.some.injEq] at hs
    obtain ⟨-, rfl⟩ := hs
    exact ⟨nofun, by simp⟩
  | connects connected p =>
    have hstop : s.stop = true := by simpa [Event.isConnect] using hends
    simp only [step, Option.ite_none_right_eq_some, Option.some.injEq] at hs
    obtain ⟨-, rfl⟩ := hs
    exact ⟨nofun, fun hphase => absurd hphase (connects_phase_stopped hstop connected p)⟩
  | cycleRaises =>
    simp only [step, Option.ite_none_right_eq_some, Option.some.injEq] at hs
    obtain ⟨hphase, rfl⟩ := hs
    exact ⟨fun _ => ⟨hphase, by simp⟩, fun _ => hphase⟩
  | cycleDone connected p =>
    simp only [step, Option.ite_none_right_eq_some, Option.some.injEq] at hs
    obtain ⟨hphase, rfl⟩ := hs
    exact ⟨fun _ => ⟨hphase, report_phase connected _ p⟩, fun _ => hphase⟩
  | pollReturns =>
    simp only [step, Option.ite_none_right_eq_some, Option.some.injEq] at hs
    obtain ⟨-, rfl⟩ := hs
    exact ⟨nofun, by simp⟩
  | pollElapses =>
    simp only [step, Option.ite_none_right_eq_some, Option.some.injEq] at hs
    obtain ⟨⟨-, hgoes, hconnected⟩, -⟩ := hs
    simp [hgoes, hconnected] at hends
  | probeWakes now connected hint ok p =>
    simp only [step, Option.ite_none_right_eq_some, Option.some.injEq] at hs
    obtain ⟨-, rfl⟩ := hs
    exact ⟨nofun, by simp⟩
  | probeReconnected ok p =>
    simp only [step] at hs
    split at hs
    · obtain rfl := Option.some.inj hs
      exact ⟨nofun, by simp⟩
    · cases hs
  | probeStops =>
    simp only [step, Option.ite_none_right_eq_some, Option.some.injEq] at hs
    obtain ⟨-, rfl⟩ := hs
    exact ⟨nofun, id⟩
  | sessionOver p =>
    simp only [step] at hs
    split at hs
    · next e _ =>
      obtain rfl := Option.some.inj hs
      exact ⟨nofun, fun hphase => absurd hphase (sessionOver_phase e p)⟩
    · cases hs
  | finishes p =>
    simp only [step, Option.ite_none_right_eq_some, Option.some.injEq] at hs
    obtain ⟨-, rfl⟩ := hs
    exact ⟨nofun, fun hphase => absurd hphase (finishes_phase p)⟩
  | cancel =>
    simp only [step, Ingestor.cancel] at hs
    refine ⟨nofun, ?_⟩
    split at hs
    all_goals first
      | obtain rfl := Option.some.inj hs
        simp
      | cases hs

theorem stop_step (inv : Invariant s) (hs : Step st s e s') (hstop : s.stop = true) :
    s'.stop = true ∧ s'.reconnects = s.reconnects := by
  cases step_cases inv.probe hs with
  | inSession hstays => exact ⟨hstays.stop.trans hstop, hstays.reconnects⟩
  | requestStop => exact ⟨rfl, rfl⟩
  | message | begins | waitEnds | crashes => exact ⟨hstop, rfl⟩
  | sessionOver =>
    unfold Ingestor.sessionOver
    dsimp only
    split <;> exact ⟨hstop, rfl⟩
  | finishes =>
    unfold Ingestor.finishes
    simp [hstop]

/-- What the probe saw stays until the next session has connected. -/
theorem disconnected_step (hs : Step st s e s') (hconnect : e.isConnect = false)
    (hflag : s.sessionDisconnected = true) : s'.sessionDisconnected = true := by
  unfold Step ofStep at hs
  cases e with
  | requestStop | message =>
    obtain rfl := Option.some.inj hs
    exact hflag
  | begins | connectRaises | cycleRaises | pollReturns | pollElapses | waitEnds | probeStops =>
    simp only [step, Option.ite_none_right_eq_some, Option.some.injEq] at hs
    obtain ⟨-, rfl⟩ := hs
    exact hflag
  | connects => cases hconnect
  | cycleDone | finishes =>
    simp only [step, Option.ite_none_right_eq_some, Option.some.injEq] at hs
    obtain ⟨-, rfl⟩ := hs
    simpa [Ingestor.report, Ingestor.finishes] using hflag
  | probeWakes now connected hint ok p =>
    simp only [step, Option.ite_none_right_eq_some, Option.some.injEq] at hs
    obtain ⟨-, rfl⟩ := hs
    unfold Ingestor.probeWakes
    dsimp only
    split <;> simp [Ingestor.probeChecks, Ingestor.probed, hflag]
  | probeReconnected =>
    simp only [step] at hs
    split at hs
    · obtain rfl := Option.some.inj hs
      simp [Ingestor.probeChecks, Ingestor.probed, hflag]
    · cases hs
  | sessionOver =>
    simp only [step] at hs
    split at hs
    · obtain rfl := Option.some.inj hs
      unfold Ingestor.sessionOver
      dsimp only
      repeat' split
      all_goals simpa using hflag
    · cases hs
  | cancel =>
    simp only [step, Ingestor.cancel] at hs
    split at hs
    all_goals first
      | obtain rfl := Option.some.inj hs
        exact hflag
      | cases hs

/-- Poll cycles that end, well or not. -/
def cycles (es : List Event) : ℕ := es.countP Event.isCycle

/-- The induction: what makes the session end stays, so only the current cycle goes on. -/
theorem cycles_le {P : Ingestor → Prop} {ok : Event → Prop}
    (hkeeps : ∀ s e s', P s → ok e → Step st s e s' → P s')
    (hends : ∀ s e, P s → ok e →
      s.stop = true ∨ s.sessionDisconnected = true ∧ e.isConnect = false)
    (hr : Run (Step st) s es s') (hP : P s) (hok : ∀ e ∈ es, ok e) :
    cycles es ≤ if s.phase = .cycling then 1 else 0 := by
  induction hr with
  | nil s => exact Nat.zero_le _
  | @cons s t u e es head tail ih =>
    have hoke := hok e List.mem_cons_self
    have hrest := ih (hkeeps _ _ _ hP hoke head) fun x hx => hok x (List.mem_cons_of_mem e hx)
    obtain ⟨hcycle, hcycling⟩ := cycling_step head (hends _ _ hP hoke)
    cases hc : e.isCycle with
    | true =>
      obtain ⟨hs, ht⟩ := hcycle hc
      rw [if_neg ht] at hrest
      rw [if_pos hs, cycles, List.countP_cons_of_pos hc]
      exact Nat.succ_le_succ hrest
    | false =>
      rw [cycles, List.countP_cons_of_neg (by simp [hc])]
      refine hrest.trans ?_
      by_cases ht : t.phase = .cycling
      · rw [if_pos ht, if_pos (hcycling ht)]
      · rw [if_neg ht]
        exact Nat.zero_le _

/-- Once a stop is requested, no restart is counted and at most the current poll cycle goes on;
the same holds of the cycles of a session from where its probe has found the client down. -/
theorem last_cycle (h : Reachable (fun s => ∃ now, s = initialIngestor st now) (Step st) s)
    (hr : Run (Step st) s es s') :
    (s.stop = true → s'.reconnects = s.reconnects ∧ cycles es ≤ 1) ∧
    (s.sessionDisconnected = true → (∀ e ∈ es, e.isConnect = false) → cycles es ≤ 1) := by
  have hone : (if s.phase = .cycling then 1 else 0) ≤ 1 := by split <;> simp
  refine ⟨fun hstop => ⟨?_, ?_⟩, fun hflag hconnect => ?_⟩
  · have hkept := hr.preserves (P := fun t => Invariant t ∧ t.stop = true ∧
      t.reconnects = s.reconnects) (fun t e t' ht hs => ?_)
      ⟨invariant_reachable h, hstop, rfl⟩
    · exact hkept.2.2
    · obtain ⟨hstop', hreconnects⟩ := stop_step ht.1 hs ht.2.1
      exact ⟨invariant_step ht.1 hs, hstop', hreconnects.trans ht.2.2⟩
  · have hle := @cycles_le st s s' es (fun t => Invariant t ∧ t.stop = true) (fun _ => True)
      (fun _ _ _ ht _ hs => ⟨invariant_step ht.1 hs, (stop_step ht.1 hs ht.2).1⟩)
      (fun _ _ ht _ => .inl ht.2) hr ⟨invariant_reachable h, hstop⟩ fun _ _ => trivial
    exact hle.trans hone
  · exact (cycles_le (fun _ _ _ hP hok hs => disconnected_step hs hok hP)
      (fun _ _ hP hok => .inr ⟨hP, hok⟩) hr hflag hconnect).trans hone

end LastCycles

section Instances

def gatewaySettings : Settings where
  clientId := 150
  probeIntervalSec := 5
  serviceHeartbeatIntervalSec := 30

def startedIngestor : Ingestor := initialIngestor gatewaySettings 100

/-- A session whose probe finds the client down, announces a reconnect and loses it, while the
poll loop publishes the client as connected. -/
def droppedSession : List Event :=
  [.begins, .connects true ⟨101, .returns⟩, .message 102, .cycleDone true ⟨103, .returns⟩,
    .probeWakes 131 false ⟨131, .returns⟩ false ⟨131, .returns⟩, .pollElapses,
    .cycleDone true ⟨163, .returns⟩, .probeReconnected false ⟨164, .failsAfterHash⟩,
    .pollReturns, .sessionOver ⟨165, .returns⟩]

theorem published_between_sessions_dropped :
    ∃ s, Run (Step gatewaySettings) startedIngestor droppedSession s ∧
      Reported s .sessionEnded := by
  obtain ⟨s, hrun, hwaiting⟩ := Run.ofFold_satisfies (step gatewaySettings) startedIngestor
    droppedSession (fun s => s.phase = .waiting) (by decide +kernel)
  exact ⟨s, hrun, (published_between_sessions ⟨_, _, ⟨100, rfl⟩, hrun⟩).2.1 hwaiting⟩

/-- After a wait, a session that cannot connect. -/
def failedSession (now : ℚ) : List Event :=
  [.waitEnds, .begins, .connectRaises, .sessionOver ⟨now, .returns⟩]

/-- Two sessions that cannot connect after one that was dropped: the third wait backs off for
the second time. -/
theorem backoff_counts_failed_sessions_two :
    ∃ s, Run (Step gatewaySettings) startedIngestor
        (droppedSession ++ failedSession 170 ++ failedSession 180) s ∧
      s.reconnects = 3 ∧ s.attempt = 2 := by
  obtain ⟨s, hrun, hwaiting, hended⟩ := Run.ofFold_satisfies (step gatewaySettings) startedIngestor
    (droppedSession ++ failedSession 170 ++ failedSession 180) (fun s => s.phase = .waiting ∧
      s.ended = [⟨true, true, false⟩, ⟨true, true, false⟩, ⟨false, true, false⟩])
    (by decide +kernel)
  obtain ⟨hattempt, hreconnects, -⟩ := backoff_counts_failed_sessions ⟨_, _, ⟨100, rfl⟩, hrun⟩
  refine ⟨s, hrun, ?_, ?_⟩
  · rw [hreconnects (by simp [hwaiting, Phase.Over]), hended]
    rfl
  · rw [hattempt, hended]
    rfl

theorem last_cycle_stop :
    ∃ s s', Run (Step gatewaySettings) startedIngestor
        [.begins, .connects true ⟨101, .returns⟩, .requestStop] s ∧
      Run (Step gatewaySettings) s [.cycleDone true ⟨103, .returns⟩, .pollReturns,
        .sessionOver ⟨104, .returns⟩, .finishes ⟨104, .returns⟩] s' ∧
      s'.phase = .stopped ∧ s'.reconnects = s.reconnects := by
  obtain ⟨s, hrun, hs⟩ := Run.ofFold_satisfies (step gatewaySettings) startedIngestor
    [.begins, .connects true ⟨101, .returns⟩, .requestStop] (fun s => s.stop = true ∧
      (([.cycleDone true ⟨103, .returns⟩, .pollReturns, .sessionOver ⟨104, .returns⟩,
        .finishes ⟨104, .returns⟩] : List Event).foldlM (step gatewaySettings) s).any
          (fun t => decide (t.phase = .stopped)) = true) (by decide +kernel)
  obtain ⟨s', hrun', hstopped⟩ := Run.ofFold_satisfies (step gatewaySettings) s _
    (fun t => t.phase = .stopped) hs.2
  exact ⟨s, s', hrun, hrun', hstopped, ((last_cycle ⟨_, _, ⟨100, rfl⟩, hrun⟩ hrun').1 hs.1).1⟩

end Instances

end BifrostSocket.IngestorProcess
