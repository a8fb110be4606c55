import BifrostSocket.TransitionRuns
import BifrostSocket.HeartbeatSchedules
import BifrostSocket.AccountFills

/-!
# The account agent's process

A session starts its probe task before it subscribes, and only the loop behind that ends the task.
A session that is left in between leaves its task running, next to those of later sessions; such
a stray task shares the clock, the events and the health hash with them.
-/

namespace BifrostSocket.AgentProcess
open TransitionRuns HeartbeatReconnects HeartbeatSchedules

section Health

structure Settings where
  hostCid : ℕ
  secCid : Option ℕ
  probeIntervalSec : ℚ
  serviceHeartbeatIntervalSec : ℚ

inductive Reason where
  | sessionEnded
  deriving DecidableEq

/-- The arguments of `write_health`. -/
structure Health where
  hostClientId : ℕ
  hostConnected : Bool
  lastMsgTs : ℚ
  reconnects : ℕ
  msgCount : ℕ
  secondaryConnected : Option Bool
  secondaryClientId : Option ℕ
  hostAlive : Bool
  hostProbeAt : ℚ
  hostProbeOk : Bool
  hostProbeIntervalSec : ℚ
  secondaryProbeAt : ℚ
  secondaryProbeOk : Bool
  secondaryProbeIntervalSec : ℚ
  serviceHeartbeat : RedisFields
  deriving DecidableEq

/-- The tracker's update for one slot. -/
structure SlotUpdate where
  connected : Bool
  clientId : Option ℕ
  occurredAt : ℚ
  reason : Option Reason
  deriving DecidableEq

/-- What the health writer and the tracker got last, and the service-stopped messages. -/
structure Published where
  health : Option Health := none
  host : Option SlotUpdate := none
  secondary : Option SlotUpdate := none
  stopped : List (Slot × ℕ) := []
  deriving DecidableEq

/-- How a call of `_push_health` goes. The health writer logs its errors; the tracker may raise,
after some of its updates. -/
inductive Outcome where
  | returns
  | raises (updates : ℕ) (connectionError : Bool)
  deriving DecidableEq

structure Push where
  now : ℚ
  outcome : Outcome
  deriving DecidableEq

/-- The arguments of `_push_health` that its callers choose, and their defaults. -/
structure PushArgs where
  hostConnected : Bool
  lastMsgTs : ℚ
  secondaryConnected : Option Bool
  hostAlive : Bool := true
  hostProbeAt : ℚ := 0
  hostProbeOk : Bool := false
  hostProbeIntervalSec : ℚ := 0
  secondaryProbeAt : ℚ := 0
  secondaryProbeOk : Bool := false
  secondaryProbeIntervalSec : ℚ := 0
  reconnectInProgress : String := ""
  reason : Option Reason := none
  publishMessages : Bool := true

end Health

section Process

/-- How a session is left. -/
inductive Ending where
  | returned | raised | cancelled
  deriving DecidableEq

/-- Where `run` is: before its first health write; in a session up to the start of its probe task,
up to its loop, at the head of the loop, in an iteration, after one, in its `finally`; past the
session; before the last health write; and left by an exception. -/
inductive Phase where
  | starting
  | checking
  | connecting
  | preparing
  | polling
  | snapshotting (hostOk secOk : Bool)
  | pausing
  | ending (e : Ending)
  | left (e : Ending)
  | waiting
  | finishing
  | stopped
  | crashed
  deriving DecidableEq

/-- A probe task. A heartbeat's reconnects began at `now`. -/
inductive Probe where
  | sleeping
  | reconnecting (now : ℚ)
  | done
  | died
  deriving DecidableEq

structure Agent where
  phase : Phase
  probe : Option Probe
  /-- The tasks of sessions that were left before their loop. -/
  strays : List Probe
  stop : Bool
  sessionDisconnected : Bool
  attempt : ℕ
  hostFailStreak : ℕ
  reconnects : ℕ
  msgCount : ℕ
  lastMsgTs : ℚ
  hostProbeAt : ℚ
  hostProbeOk : Bool
  secProbeAt : ℚ
  secProbeOk : Bool
  hbClock : ServiceHeartbeatClock
  published : Published
  /-- When heartbeats reconnected, the last one first. -/
  heartbeats : List ℚ
  deriving DecidableEq

variable (st : Settings)

def Agent.healthOf (s : Agent) (now : ℚ) (args : PushArgs) : Health where
  hostClientId := st.hostCid
  hostConnected := args.hostConnected
  lastMsgTs := args.lastMsgTs
  reconnects := s.reconnects
  msgCount := s.msgCount
  secondaryConnected := args.secondaryConnected
  secondaryClientId := st.secCid
  hostAlive := args.hostAlive
  hostProbeAt := args.hostProbeAt
  hostProbeOk := args.hostProbeOk
  hostProbeIntervalSec := args.hostProbeIntervalSec
  secondaryProbeAt := args.secondaryProbeAt
  secondaryProbeOk := args.secondaryProbeOk
  secondaryProbeIntervalSec := args.secondaryProbeIntervalSec
  serviceHeartbeat := redisFields s.hbClock now args.reconnectInProgress

def slotOf (args : PushArgs) (connected : Bool) (clientId : Option ℕ) : SlotUpdate where
  connected
  clientId
  occurredAt := args.lastMsgTs
  reason := args.reason

def hostSlot (args : PushArgs) : SlotUpdate :=
  slotOf args args.hostConnected (if st.hostCid = 0 then none else some st.hostCid)

/-- `publish_account_agent_slots`, up to its first `updates` updates. -/
def Published.slots (p : Published) (args : PushArgs) (updates : ℕ) : Published :=
  let p := if 0 < updates then { p with host := some (hostSlot st args) } else p
  match args.secondaryConnected with
  | none => p
  | some connected =>
    if 1 < updates then { p with secondary := some (slotOf args connected st.secCid) } else p

/-- What `_push_health` leaves, and whether it raises a `ConnectionError` or something else. -/
def Agent.pushed (s : Agent) (args : PushArgs) (p : Push) : Published × Option Bool :=
  let written := { s.published with health := some (s.healthOf st p.now args) }
  if args.publishMessages then
    match p.outcome with
    | .returns => (written.slots st args 2, none)
    | .raises updates connectionError => (written.slots st args updates, some connectionError)
  else (written, none)

/-- A health write that goes on as `next` tells from what it raised. -/
def Agent.push (s : Agent) (args : PushArgs) (p : Push) (next : Option Bool → Phase) : Agent :=
  { s with published := (s.pushed st args p).1, phase := next (s.pushed st args p).2 }

/-- `self._last_msg_ts or time.time()`. -/
def Agent.msgTs (s : Agent) (now : ℚ) : ℚ := if s.lastMsgTs = 0 then now else s.lastMsgTs

/-- An argument that is `None` without a secondary client. -/
def ifSecondary (ok : Bool) : Option Bool := st.secCid.map fun _ => ok

/-- The secondary's state as the code reads it. -/
def secondaryOk (ok : Bool) : Bool := st.secCid.isSome && ok

def startArgs (now : ℚ) : PushArgs where
  hostConnected := false
  lastMsgTs := now
  secondaryConnected := ifSecondary st false

def sessionEndedArgs (s : Agent) (now : ℚ) : PushArgs where
  hostConnected := false
  lastMsgTs := s.msgTs now
  secondaryConnected := ifSecondary st false
  reason := some .sessionEnded

def stoppedArgs (s : Agent) (now : ℚ) : PushArgs where
  hostConnected := false
  lastMsgTs := s.msgTs now
  secondaryConnected := ifSecondary st false
  hostAlive := false
  publishMessages := false

def settledArgs (now : ℚ) (hostOk secOk : Bool) : PushArgs where
  hostConnected := hostOk
  lastMsgTs := now
  secondaryConnected := ifSecondary st secOk
  hostProbeAt := now
  hostProbeOk := hostOk
  secondaryProbeAt := if st.secCid.isSome then now else 0
  secondaryProbeOk := secondaryOk st secOk

def iterationArgs (s : Agent) (now : ℚ) (hostOk secOk : Bool) : PushArgs where
  hostConnected := hostOk
  lastMsgTs := s.msgTs now
  secondaryConnected := ifSecondary st secOk
  hostProbeAt := s.hostProbeAt
  hostProbeOk := s.hostProbeOk
  secondaryProbeAt := s.secProbeAt
  secondaryProbeOk := s.secProbeOk

def reconnectArgs (s : Agent) (now : ℚ) (hostOk secOk : Bool) (hint : String) : PushArgs :=
  { iterationArgs st s now hostOk secOk with
    hostProbeIntervalSec := st.probeIntervalSec
    secondaryProbeIntervalSec := st.probeIntervalSec
    reconnectInProgress := hint }

def probeArgs (s : Agent) (now : ℚ) (hostOk secOk : Bool) : PushArgs :=
  { settledArgs st now hostOk secOk with
    lastMsgTs := s.msgTs now
    hostProbeIntervalSec := st.probeIntervalSec
    secondaryProbeIntervalSec := st.probeIntervalSec }

/-- The probe fields of the agent, as the session and its probe task set them. -/
def Agent.probed (s : Agent) (now : ℚ) (hostOk secOk : Bool) : Agent :=
  { s with
    hostProbeAt := now
    hostProbeOk := hostOk
    secProbeAt := if st.secCid.isSome then now else s.secProbeAt
    secProbeOk := if st.secCid.isSome then secOk else s.secProbeOk }

/-- After `ensure_connected` on both clients. The probe task starts where the write returns. -/
def Agent.settles (s : Agent) (hostOk secOk : Bool) (p : Push) : Agent :=
  let s' := (s.probed st p.now hostOk secOk).push st (settledArgs st p.now hostOk secOk) p
    fun raised => if raised.isSome then .left .raised else .preparing
  { s' with probe := if s'.phase = .preparing then some .sleeping else none }

/-- The session is left before its loop, and nothing ends its probe task. -/
def Agent.abandons (s : Agent) (e : Ending) : Agent :=
  { s with phase := .left e, strays := s.strays ++ s.probe.toList, probe := none }

/-- The head of the loop, up to the snapshot of an iteration. -/
def Agent.polls (s : Agent) (hostOk secOk : Bool) : Agent :=
  if s.stop then { s with phase := .ending .returned }
  else if s.sessionDisconnected then { s with phase := .ending .raised }
  else if hostOk then { s with hostFailStreak := 0, phase := .snapshotting hostOk secOk }
  else
    { s with
      hostFailStreak := s.hostFailStreak + 1
      phase := if AccountFills.hostFailIterationsBeforeSessionReset ≤ s.hostFailStreak + 1 then
          .ending .raised
        else .snapshotting hostOk secOk }

/-- What an exception in an iteration does. -/
def afterIteration : Option Bool → Phase
  | some true => .ending .raised
  | _ => .pausing

/-- The `finally`: a probe task that died raises its exception where it is awaited. -/
def Agent.ends (s : Agent) (e : Ending) : Agent :=
  { s with
    phase := .left (if s.probe = some .died then .raised else e)
    probe := none }

/-- The rest of a round of `run`. -/
def Agent.sessionOver (s : Agent) (e : Ending) (p : Push) : Agent :=
  if e = .cancelled then { s with phase := .finishing }
  else
    let s := { s with attempt := if e = Ending.raised then s.attempt + 1 else 0 }
    if s.stop then { s with phase := .finishing }
    else
      let s := { s with reconnects := s.reconnects + 1 }
      s.push st (sessionEndedArgs st s p.now) p fun raised =>
        if raised.isSome then .crashed else .waiting

/-- The slots of `_publish_service_stopped_messages`. -/
def stopSlots : List (Slot × ℕ) :=
  (if 0 < st.hostCid then [(.host, st.hostCid)] else []) ++
    (st.secCid.filter (0 < ·)).toList.map fun cid => (.secondary, cid)

/-- After the loop of `run`; a message may raise, after some of them were published. -/
def Agent.finishes (s : Agent) (p : Push) (raisesAfter : Option ℕ) : Agent :=
  match raisesAfter with
  | some k =>
    { s with
      phase := .crashed
      published := { s.published with stopped := (stopSlots st).take k } }
  | none =>
    let s := { s with published := { s.published with stopped := stopSlots st } }
    s.push st (stoppedArgs st s p.now) p fun _ => .stopped

/-- Which probe task: that of the session, or a stray one. -/
inductive Which where
  | own
  | stray (i : ℕ)
  deriving DecidableEq

def Agent.task (s : Agent) : Which → Option Probe
  | .own => s.probe
  | .stray i => s.strays[i]?

def Agent.setTask (s : Agent) (t : Probe) : Which → Agent
  | .own => { s with probe := some t }
  | .stray i => { s with strays := s.strays.set i t }

/-- The end of a probe iteration; a failing write is only logged. -/
def Agent.probeChecks (s : Agent) (w : Which) (now : ℚ) (hostOk secOk : Bool) (p : Push) : Agent :=
  let s := s.probed st now hostOk secOk
  let s := { s with published := (s.pushed st (probeArgs st s now hostOk secOk) p).1 }
  s.setTask .sleeping w

def observed (now : ℚ) (hostOk secOk : Bool) : Observation where
  now
  host := ⟨hostOk, st.hostCid⟩
  secondary := st.secCid.map fun cid => ⟨secOk, cid⟩

/-- A probe iteration. At a heartbeat that finds a slot down it announces the reconnects first, and
that write ends the task if it raises. -/
def Agent.probeWakes (s : Agent) (w : Which) (now : ℚ) (hostOk secOk : Bool) (p : Push) : Agent :=
  let clock := s.hbClock
  let r := (probeIteration clock (observed st now hostOk secOk)).1
  let s := { s with
    sessionDisconnected := s.sessionDisconnected || !hostOk
    hbClock := (clock.tick now).2 }
  if r.targets = [] then s.probeChecks st w now hostOk secOk p
  else
    let pushed := s.pushed st (reconnectArgs st s now hostOk secOk r.inProgress) p
    { s with published := pushed.1, heartbeats := now :: s.heartbeats }.setTask
      (if pushed.2.isSome then .died else .reconnecting now) w

/-- `hostOk` and `secOk` are the clients' states as the code reads them. -/
inductive Event where
  | requestStop
  | starts (p : Push)
  | begins
  | connectRaises
  | settles (hostOk secOk : Bool) (p : Push)
  | prepared
  | prepareRaises
  | polls (hostOk secOk : Bool)
  | iterationRaises (connectionError : Bool)
  | snapshotted (p : Push)
  | pauseEnds
  | ends
  | sessionOver (p : Push)
  | waitEnds
  | finishes (p : Push) (raisesAfter : Option ℕ)
  | cancel
  | message (now : ℚ)
  | probeWakes (w : Which) (now : ℚ) (hostOk secOk : Bool) (p : Push)
  | probeReconnected (w : Which) (hostOk secOk : Bool) (p : Push)
  | probeStops (w : Which)

/-- In its `finally` a session takes a cancellation where it disconnects its clients. -/
def Agent.cancel (s : Agent) : Option Agent :=
  match s.phase with
  | .connecting => some { s with phase := .left .cancelled }
  | .preparing => some (s.abandons .cancelled)
  | .snapshotting _ _ | .pausing => some { s with phase := .ending .cancelled }
  | .ending _ => some (s.ends .cancelled)
  | .waiting => some { s with phase := .crashed }
  | .starting | .checking | .polling | .left _ | .finishing | .stopped | .crashed => none

def step (s : Agent) : Event → Option Agent
  | .requestStop => some { s with stop := true }
  | .starts p =>
    if s.phase = .starting then
      some (s.push st (startArgs st p.now) p fun raised =>
        if raised.isSome then .crashed else .checking)
    else none
  | .begins =>
    if s.phase = .checking then
      if s.stop then some { s with phase := .finishing }
      else some { s with phase := .connecting, reconnects := 0, sessionDisconnected := false }
    else none
  | .connectRaises =>
    if s.phase = .connecting then some { s with phase := .left .raised } else none
  | .settles hostOk secOk p =>
    if s.phase = .connecting then some (s.settles st hostOk secOk p) else none
  | .prepared =>
    if s.phase = .preparing then some { s with phase := .polling, hostFailStreak := 0 } else none
  | .prepareRaises => if s.phase = .preparing then some (s.abandons .raised) else none
  | .polls hostOk secOk => if s.phase = .polling then some (s.polls hostOk secOk) else none
  | .iterationRaises connectionError => match s.phase with
    | .snapshotting _ _ => some { s with phase := afterIteration (some connectionError) }
    | _ => none
  | .snapshotted p => match s.phase with
    | .snapshotting hostOk secOk =>
      some (s.push st (iterationArgs st s p.now hostOk secOk) p afterIteration)
    | _ => none
  | .pauseEnds => if s.phase = .pausing then some { s with phase := .polling } else none
  | .ends => match s.phase with
    | .ending e => some (s.ends e)
    | _ => none
  | .sessionOver p => match s.phase with
    | .left e => some (s.sessionOver st e p)
    | _ => none
  | .waitEnds => if s.phase = .waiting then some { s with phase := .checking } else none
  | .finishes p raisesAfter =>
    if s.phase = .finishing then some (s.finishes st p raisesAfter) else none
  | .cancel => s.cancel
  | .message now => some { s with lastMsgTs := now, msgCount := s.msgCount + 1 }
  | .probeWakes w now hostOk secOk p =>
    if s.task w = some .sleeping then some (s.probeWakes st w now hostOk secOk p) else none
  | .probeReconnected w hostOk secOk p => match s.task w with
    | some (.reconnecting now) => some (s.probeChecks st w now hostOk secOk p)
    | _ => none
  | .probeStops w =>
    if s.task w = some .sleeping ∧ s.stop = true then some (s.setTask .done w) else none

def Step : Agent → Event → Agent → Prop := ofStep (step st)

/-- A process that starts at `now`. -/
def initialAgent (now : ℚ) : Agent where
  phase := .starting
  probe := none
  strays := []
  stop := false
  sessionDisconnected := false
  attempt := 0
  hostFailStreak := 0
  reconnects := 0
  msgCount := 0
  lastMsgTs := 0
  hostProbeAt := 0
  hostProbeOk := false
  secProbeAt := 0
  secProbeOk := false
  hbClock := ⟨st.serviceHeartbeatIntervalSec, now⟩
  published := {}
  heartbeats := []

def Initial (s : Agent) : Prop := ∃ now, 0 < now ∧ s = initialAgent st now

end Process

section Writes

variable {st : Settings} {s : Agent} {args : PushArgs} {p : Push}

@[simp] theorem stopped_slots (q : Published) (updates : ℕ) :
    (q.slots st args updates).stopped = q.stopped := by
  unfold Published.slots
  cases args.secondaryConnected <;> dsimp only <;> split_ifs <;> rfl

@[simp] theorem stopped_pushed : (s.pushed st args p).1.stopped = s.published.stopped := by
  unfold Agent.pushed
  split
  · cases p.outcome with
    | returns => exact stopped_slots _ 2
    | raises updates connectionError => exact stopped_slots _ updates
  · rfl

/-- The write was handed over whatever came of it. -/
theorem health_pushed : (s.pushed st args p).1.health = some (s.healthOf st p.now args) := by
  have hslots : ∀ q : Published, ∀ updates, (q.slots st args updates).health = q.health := by
    intro q updates
    unfold Published.slots
    cases args.secondaryConnected <;> dsimp only <;> split_ifs <;> rfl
  unfold Agent.pushed
  split
  · cases p.outcome with
    | returns => exact hslots _ 2
    | raises updates connectionError => exact hslots _ updates
  · rfl

/-- The clients are down and no reconnect is under way. -/
structure Health.Down (st : Settings) (h : Health) : Prop where
  host : h.hostConnected = false
  secondary : h.secondaryConnected = ifSecondary st false
  hostProbe : h.hostProbeOk = false
  secondaryProbe : h.secondaryProbeOk = false
  reconnect : h.serviceHeartbeat.serviceHeartbeatReconnectInProgress = none

/-- The health writer and the tracker heard last that the service is alive and its clients are down,
for this reason. -/
structure Reported (st : Settings) (q : Published) (reason : Option Reason) : Prop where
  health : ∃ h, q.health = some h ∧ h.hostAlive = true ∧ h.Down st
  host : ∃ u, q.host = some u ∧ u.connected = false ∧ u.reason = reason
  secondary : st.secCid ≠ none → ∃ u, q.secondary = some u ∧ u.connected = false ∧ u.reason = reason

/-- The last health, and a message for each slot that has a client id. -/
structure Final (st : Settings) (q : Published) : Prop where
  health : ∃ h, q.health = some h ∧ h.hostAlive = false ∧ h.Down st
  stopped : q.stopped = stopSlots st

/-- The arguments of a write that reports the clients down. -/
structure PushArgs.Down (st : Settings) (args : PushArgs) : Prop where
  host : args.hostConnected = false
  secondary : args.secondaryConnected = ifSecondary st false
  hostProbe : args.hostProbeOk = false
  secondaryProbe : args.secondaryProbeOk = false
  reconnect : args.reconnectInProgress = ""

theorem down_healthOf (h : args.Down st) (now : ℚ) : (s.healthOf st now args).Down st where
  host := h.host
  secondary := h.secondary
  hostProbe := h.hostProbe
  secondaryProbe := h.secondaryProbe
  reconnect := by simp [Agent.healthOf, redisFields, h.reconnect]

theorem host_slots (q : Published) : (q.slots st args 2).host = some (hostSlot st args) := by
  unfold Published.slots
  cases args.secondaryConnected <;> rfl

theorem secondary_slots (q : Published) (h : args.secondaryConnected = ifSecondary st false)
    (hsec : st.secCid ≠ none) :
    (q.slots st args 2).secondary = some (slotOf args false st.secCid) := by
  obtain ⟨cid, hcid⟩ := Option.ne_none_iff_exists'.mp hsec
  have hconnected : args.secondaryConnected = some false := by rw [h, ifSecondary, hcid]; rfl
  simp [Published.slots, hconnected]

/-- A write that returns has reported what its arguments say. -/
theorem reported_of_push (h : args.Down st) (halive : args.hostAlive = true)
    (hpublish : args.publishMessages = true) (hreturns : (s.pushed st args p).2 = none) :
    Reported st (s.pushed st args p).1 args.reason := by
  have hslots : ∃ q : Published, (s.pushed st args p).1 = q.slots st args 2 := by
    unfold Agent.pushed at hreturns ⊢
    rw [if_pos hpublish] at hreturns ⊢
    cases houtcome : p.outcome with
    | raises updates connectionError => simp [houtcome] at hreturns
    | returns => exact ⟨_, rfl⟩
  obtain ⟨q, hq⟩ := hslots
  refine ⟨⟨_, health_pushed, halive, down_healthOf h p.now⟩, ?_, fun hsec => ?_⟩
  · exact ⟨_, hq ▸ host_slots q, h.host, rfl⟩
  · exact ⟨_, hq ▸ secondary_slots q h.secondary hsec, rfl, rfl⟩

end Writes

section Steps

variable {st : Settings} {s s' : Agent} {e : Event} {w : Which}

/-- Between the start of its probe task and the end of its `finally`, a session is on. -/
def Phase.InSession : Phase → Prop
  | .preparing | .polling | .snapshotting .. | .pausing | .ending _ => True
  | _ => False

/-- A step of a probe task: it is that of the session or a stray one, and touches no phase. -/
structure ProbeStep (s s' : Agent) : Prop where
  task : s.probe ≠ none ∨ s.strays ≠ []
  phase : s'.phase = s.phase
  probe : s'.probe ≠ none → s.probe ≠ none
  strays : s'.strays.length = s.strays.length
  stopped : s'.published.stopped = s.published.stopped

theorem task_ne_none (h : s.task w ≠ none) : s.probe ≠ none ∨ s.strays ≠ [] := by
  cases w with
  | own => exact .inl h
  | stray i =>
    refine .inr fun hnil => h ?_
    rw [Agent.task, hnil]
    rfl

theorem probeStep_setTask {t : Probe} (h : s.task w ≠ none) : ProbeStep s (s.setTask t w) := by
  cases w with
  | own => exact ⟨task_ne_none h, rfl, fun _ => h, rfl, rfl⟩
  | stray i => exact ⟨task_ne_none h, rfl, id, List.length_set, rfl⟩

/-- What the iteration does before concerns the same tasks and the same session. -/
theorem ProbeStep.of_same {s₁ : Agent} (h : ProbeStep s₁ s') (hprobe : s₁.probe = s.probe)
    (hstrays : s₁.strays = s.strays) (hphase : s₁.phase = s.phase)
    (hstopped : s₁.published.stopped = s.published.stopped) : ProbeStep s s' where
  task := hprobe ▸ hstrays ▸ h.task
  phase := h.phase.trans hphase
  probe := hprobe ▸ h.probe
  strays := hstrays ▸ h.strays
  stopped := h.stopped.trans hstopped

theorem task_congr {s₁ : Agent} (hprobe : s₁.probe = s.probe) (hstrays : s₁.strays = s.strays) :
    s₁.task w = s.task w := by
  cases w with
  | own => exact hprobe
  | stray i => rw [Agent.task, Agent.task, hstrays]

theorem probeStep_checks (h : s.task w ≠ none) (now : ℚ) (hostOk secOk : Bool) (p : Push) :
    ProbeStep s (s.probeChecks st w now hostOk secOk p) := by
  refine (probeStep_setTask ?_).of_same rfl rfl rfl ?_
  · rwa [task_congr rfl rfl]
  · exact stopped_pushed

theorem probeStep_wakes (h : s.task w ≠ none) (now : ℚ) (hostOk secOk : Bool) (p : Push) :
    ProbeStep s (s.probeWakes st w now hostOk secOk p) := by
  unfold Agent.probeWakes
  dsimp only
  split
  · refine (probeStep_checks ?_ now hostOk secOk p).of_same rfl rfl rfl rfl
    rwa [task_congr rfl rfl]
  · refine (probeStep_setTask ?_).of_same rfl rfl rfl ?_
    · rwa [task_congr rfl rfl]
    · exact stopped_pushed

theorem Phase.InSession.ne {p q : Phase} (h : p.InSession) (hq : ¬ q.InSession) : p ≠ q := by
  rintro rfl
  exact hq h

end Steps

section Invariants

variable {st : Settings} {s s' : Agent} {e : Event}

/-- No session is on, and `run` goes on. -/
def Phase.Between : Phase → Prop
  | .checking | .connecting | .waiting => True
  | _ => False

structure Invariant (st : Settings) (s : Agent) : Prop where
  probe : s.probe ≠ none → s.phase.InSession
  between : s.strays = [] → s.phase.Between → ∃ reason, Reported st s.published reason
  waiting : s.strays = [] → s.phase = .waiting → Reported st s.published (some .sessionEnded)
  messages : s.phase ≠ .stopped → s.phase ≠ .crashed → s.published.stopped = []
  stopped : s.strays = [] → s.phase = .stopped → Final st s.published

theorem invariant_initial (h : Initial st s) : Invariant st s := by
  obtain ⟨now, -, rfl⟩ := h
  constructor
  all_goals simp [initialAgent, Phase.Between]

theorem Phase.InSession.not_between {p : Phase} (h : p.InSession) : ¬ p.Between := by
  cases p with
  | preparing | polling | snapshotting | pausing | ending => exact id
  | _ => exact h.elim

/-- Inside a session, what is published is of no account. -/
theorem Invariant.of_inSession (hphase : s.phase.InSession)
    (hmessages : s.published.stopped = []) : Invariant st s where
  probe _ := hphase
  between _ h := absurd h hphase.not_between
  waiting _ h := absurd h (hphase.ne id)
  messages _ _ := hmessages
  stopped _ h := absurd h (hphase.ne id)

/-- Neither between sessions nor returned. -/
theorem Invariant.of_aside (hprobe : s.probe = none) (hphase : ¬ s.phase.Between)
    (hstopped : s.phase ≠ .stopped)
    (hmessages : s.phase ≠ .crashed → s.published.stopped = []) : Invariant st s where
  probe h := absurd hprobe h
  between _ h := absurd h hphase
  waiting _ h := absurd (by rw [h]; trivial) hphase
  messages _ h := hmessages h
  stopped _ h := absurd h hstopped

/-- A probe task that is no stray is that of a session, which is on. -/
theorem Invariant.probeStep (h : Invariant st s) (hs : ProbeStep s s') : Invariant st s' := by
  have hsession : s'.strays = [] → s'.phase.InSession := by
    intro hnil
    have hlength := hs.strays
    rw [hnil, List.length_nil] at hlength
    have hnil' : s.strays = [] := List.eq_nil_of_length_eq_zero hlength.symm
    rw [hs.phase]
    exact h.probe (hs.task.resolve_right fun hne => hne hnil')
  refine ⟨fun hp => ?_, fun hnil hp => ?_, fun hnil hp => ?_, fun hp hc => ?_, fun hnil hp => ?_⟩
  · rw [hs.phase]
    exact h.probe (hs.probe hp)
  · exact absurd hp (hsession hnil).not_between
  · exact absurd hp ((hsession hnil).ne id)
  · rw [hs.stopped]
    exact h.messages (hs.phase ▸ hp) (hs.phase ▸ hc)
  · exact absurd hp ((hsession hnil).ne id)

theorem Invariant.no_probe (h : Invariant st s) (hphase : ¬ s.phase.InSession) :
    s.probe = none := by
  by_contra hsome
  exact hphase (h.probe hsome)

theorem down_startArgs (now : ℚ) : (startArgs st now).Down st := ⟨rfl, rfl, rfl, rfl, rfl⟩

theorem down_sessionEndedArgs (now : ℚ) : (sessionEndedArgs st s now).Down st :=
  ⟨rfl, rfl, rfl, rfl, rfl⟩

theorem down_stoppedArgs (now : ℚ) : (stoppedArgs st s now).Down st := ⟨rfl, rfl, rfl, rfl, rfl⟩

theorem Invariant.starts (h : Invariant st s) (hphase : s.phase = .starting) (p : Push) :
    Invariant st (s.push st (startArgs st p.now) p fun raised =>
      if raised.isSome then .crashed else .checking) := by
  have hprobe := h.no_probe (by rw [hphase]; exact id)
  have hmessages := h.messages (by simp [hphase]) (by simp [hphase])
  have hreported := @reported_of_push st s (startArgs st p.now) p (down_startArgs p.now) rfl rfl
  unfold Agent.push
  cases hraised : (s.pushed st (startArgs st p.now) p).2 with
  | none =>
    exact ⟨fun hne => absurd hprobe hne, fun _ _ => ⟨_, hreported hraised⟩, by simp,
      fun _ _ => stopped_pushed.trans hmessages, by simp⟩
  | some _ => exact .of_aside hprobe id (by simp) (by simp)

theorem Invariant.sessionOver (h : Invariant st s) {e : Ending} (hphase : s.phase = .left e)
    (p : Push) : Invariant st (s.sessionOver st e p) := by
  have hprobe := h.no_probe (by rw [hphase]; exact id)
  have hmessages := h.messages (by simp [hphase]) (by simp [hphase])
  unfold Agent.sessionOver
  split
  · exact .of_aside hprobe id (by simp) fun _ => hmessages
  · dsimp only
    split
    · exact .of_aside hprobe id (by simp) fun _ => hmessages
    · generalize hs : ({ s with
        attempt := if e = Ending.raised then s.attempt + 1 else 0
        reconnects := s.reconnects + 1 } : Agent) = s₁
      have hprobe₁ : s₁.probe = none := hs ▸ hprobe
      have hmessages₁ : s₁.published.stopped = [] := hs ▸ hmessages
      have hreported := @reported_of_push st s₁ (sessionEndedArgs st s₁ p.now) p
        (down_sessionEndedArgs p.now) rfl rfl
      unfold Agent.push
      cases hraised : (s₁.pushed st (sessionEndedArgs st s₁ p.now) p).2 with
      | none =>
        exact ⟨fun hne => absurd hprobe₁ hne, fun _ _ => ⟨_, hreported hraised⟩,
          fun _ _ => hreported hraised, fun _ _ => stopped_pushed.trans hmessages₁, by simp⟩
      | some _ => exact .of_aside hprobe₁ id (by simp) (by simp)

theorem Invariant.finishes (h : Invariant st s) (hphase : s.phase = .finishing) (p : Push)
    (raisesAfter : Option ℕ) : Invariant st (s.finishes st p raisesAfter) := by
  have hprobe := h.no_probe (by rw [hphase]; exact id)
  unfold Agent.finishes
  cases raisesAfter with
  | some k => exact .of_aside hprobe id (by simp) (by simp)
  | none =>
    refine ⟨fun hne => absurd hprobe hne, fun _ hp => hp.elim, by simp [Agent.push],
      fun hp => absurd rfl hp, fun _ _ => ?_⟩
    exact ⟨⟨_, health_pushed, rfl, down_healthOf (down_stoppedArgs p.now) p.now⟩, stopped_pushed⟩

theorem inSession_afterIteration (raised : Option Bool) : (afterIteration raised).InSession := by
  cases raised with
  | none => trivial
  | some connectionError => cases connectionError <;> trivial

/-- The probe task is there where the write returned. -/
theorem Invariant.settles (h : Invariant st s) (hphase : s.phase = .connecting)
    (hostOk secOk : Bool) (p : Push) : Invariant st (s.settles st hostOk secOk p) := by
  have hmessages := h.messages (by simp [hphase]) (by simp [hphase])
  have hstopped : (s.settles st hostOk secOk p).published.stopped = [] :=
    stopped_pushed.trans hmessages
  cases hraised : ((s.probed st p.now hostOk secOk).pushed st
    (settledArgs st p.now hostOk secOk) p).2 with
  | none =>
    have hpreparing : (s.settles st hostOk secOk p).phase = .preparing := by
      simp [Agent.settles, Agent.push, hraised]
    exact .of_inSession (by rw [hpreparing]; trivial) hstopped
  | some connectionError =>
    have hleft : (s.settles st hostOk secOk p).phase = .left .raised := by
      simp [Agent.settles, Agent.push, hraised]
    refine .of_aside ?_ (by rw [hleft]; exact id) (by simp [hleft]) fun _ => hstopped
    simp [Agent.settles, Agent.push, hraised]

theorem polls_stays (s : Agent) (hostOk secOk : Bool) :
    (s.polls hostOk secOk).phase.InSession ∧ (s.polls hostOk secOk).published = s.published := by
  unfold Agent.polls
  split
  · exact ⟨trivial, rfl⟩
  · split
    · exact ⟨trivial, rfl⟩
    · split
      · exact ⟨trivial, rfl⟩
      · refine ⟨?_, rfl⟩
        dsimp only
        split <;> trivial

theorem Invariant.cancel (h : Invariant st s) (hs : s.cancel = some s') : Invariant st s' := by
  unfold Agent.cancel at hs
  split at hs
  · next hphase =>
    obtain rfl := Option.some.inj hs
    exact .of_aside (h.no_probe (by rw [hphase]; exact id)) id (by simp) fun _ =>
      h.messages (by simp [hphase]) (by simp [hphase])
  · next hphase =>
    obtain rfl := Option.some.inj hs
    exact .of_aside rfl id (by simp [Agent.abandons]) fun _ =>
      h.messages (by simp [hphase]) (by simp [hphase])
  · next hphase =>
    obtain rfl := Option.some.inj hs
    exact .of_inSession trivial (h.messages (by simp [hphase]) (by simp [hphase]))
  · next hphase =>
    obtain rfl := Option.some.inj hs
    exact .of_inSession trivial (h.messages (by simp [hphase]) (by simp [hphase]))
  · next hphase =>
    obtain rfl := Option.some.inj hs
    exact .of_aside rfl id (by simp [Agent.ends]) fun _ =>
      h.messages (by simp [hphase]) (by simp [hphase])
  · next hphase =>
    obtain rfl := Option.some.inj hs
    exact .of_aside (h.no_probe (by rw [hphase]; exact id)) id (by simp) fun hc => absurd rfl hc
  all_goals cases hs

theorem invariant_step (h : Invariant st s) (hs : Step st s e s') : Invariant st s' := by
  unfold Step ofStep at hs
  cases e with
  | requestStop | message _ =>
    obtain rfl := Option.some.inj hs
    exact ⟨h.probe, h.between, h.waiting, h.messages, h.stopped⟩
  | starts p =>
    simp only [step, Option.ite_none_right_eq_some, Option.some.injEq] at hs
    obtain ⟨hphase, rfl⟩ := hs
    exact h.starts hphase p
  | begins =>
    simp only [step, Option.ite_none_right_eq_some] at hs
    obtain ⟨hphase, hs⟩ := hs
    have hprobe := h.no_probe (by rw [hphase]; exact id)
    have hmessages := h.messages (by simp [hphase]) (by simp [hphase])
    split at hs
    · obtain rfl := Option.some.inj hs
      exact .of_aside hprobe id (by simp) fun _ => hmessages
    · obtain rfl := Option.some.inj hs
      exact ⟨fun hne => absurd hprobe hne, fun hnil _ => h.between hnil (by rw [hphase]; trivial),
        by simp, fun _ _ => hmessages, by simp⟩
  | connectRaises =>
    simp only [step, Option.ite_none_right_eq_some, Option.some.injEq] at hs
    obtain ⟨hphase, rfl⟩ := hs
    exact .of_aside (h.no_probe (by rw [hphase]; exact id)) id (by simp) fun _ =>
      h.messages (by simp [hphase]) (by simp [hphase])
  | settles hostOk secOk p =>
    simp only [step, Option.ite_none_right_eq_some, Option.some.injEq] at hs
    obtain ⟨hphase, rfl⟩ := hs
    exact h.settles hphase hostOk secOk p
  | prepared =>
    simp only [step, Option.ite_none_right_eq_some, Option.some.injEq] at hs
    obtain ⟨hphase, rfl⟩ := hs
    exact .of_inSession trivial (h.messages (by simp [hphase]) (by simp [hphase]))
  | prepareRaises =>
    simp only [step, Option.ite_none_right_eq_some, Option.some.injEq] at hs
    obtain ⟨hphase, rfl⟩ := hs
    exact .of_aside rfl id (by simp [Agent.abandons]) fun _ =>
      h.messages (by simp [hphase]) (by simp [hphase])
  | polls hostOk secOk =>
    simp only [step, Option.ite_none_right_eq_some, Option.some.injEq] at hs
    obtain ⟨hphase, rfl⟩ := hs
    obtain ⟨hin, hpublished⟩ := polls_stays s hostOk secOk
    exact .of_inSession hin (hpublished ▸ h.messages (by simp [hphase]) (by simp [hphase]))
  | iterationRaises connectionError =>
    simp only [step] at hs
    split at hs
    · next hphase =>
      obtain rfl := Option.some.inj hs
      exact .of_inSession (inSession_afterIteration _)
        (h.messages (by simp [hphase]) (by simp [hphase]))
    · cases hs
  | snapshotted p =>
    simp only [step] at hs
    split at hs
    · next hostOk secOk hphase =>
      obtain rfl := Option.some.inj hs
      refine .of_inSession (inSession_afterIteration _) ?_
      exact stopped_pushed.trans (h.messages (by simp [hphase]) (by simp [hphase]))
    · cases hs
  | pauseEnds =>
    simp only [step, Option.ite_none_right_eq_some, Option.some.injEq] at hs
    obtain ⟨hphase, rfl⟩ := hs
    exact .of_inSession trivial (h.messages (by simp [hphase]) (by simp [hphase]))
  | ends =>
    simp only [step] at hs
    split at hs
    · next e hphase =>
      obtain rfl := Option.some.inj hs
      exact .of_aside rfl id (by simp [Agent.ends]) fun _ =>
        h.messages (by simp [hphase]) (by simp [hphase])
    · cases hs
  | sessionOver p =>
    simp only [step] at hs
    split at hs
    · next e hphase =>
      obtain rfl := Option.some.inj hs
      exact h.sessionOver hphase p
    · cases hs
  | waitEnds =>
    simp only [step, Option.ite_none_right_eq_some, Option.some.injEq] at hs
    obtain ⟨hphase, rfl⟩ := hs
    have hprobe := h.no_probe (by rw [hphase]; exact id)
    exact ⟨fun hne => absurd hprobe hne, fun hnil _ => h.between hnil (by rw [hphase]; trivial),
      by simp, fun _ _ => h.messages (by simp [hphase]) (by simp [hphase]), by simp⟩
  | finishes p raisesAfter =>
    simp only [step, Option.ite_none_right_eq_some, Option.some.injEq] at hs
    obtain ⟨hphase, rfl⟩ := hs
    exact h.finishes hphase p raisesAfter
  | cancel => exact h.cancel hs
  | probeWakes w now hostOk secOk p =>
    simp only [step, Option.ite_none_right_eq_some, Option.some.injEq] at hs
    obtain ⟨htask, rfl⟩ := hs
    exact h.probeStep (probeStep_wakes (by simp [htask]) now hostOk secOk p)
  | probeReconnected w hostOk secOk p =>
    simp only [step] at hs
    split at hs
    · next now htask =>
      obtain rfl := Option.some.inj hs
      exact h.probeStep (probeStep_checks (by simp [htask]) now hostOk secOk p)
    · cases hs
  | probeStops w =>
    simp only [step, Option.ite_none_right_eq_some, Option.some.injEq] at hs
    obtain ⟨⟨htask, -⟩, rfl⟩ := hs
    exact h.probeStep (probeStep_setTask (by simp [htask]))

/-- Where no session was left between the start of its probe task and its loop: between the sessions
of `run`'s loop, the health writer and the tracker heard last that the clients are down, and at the
end the service is reported stopped, with one message for each slot. -/
theorem agent_published_between_sessions (h : Reachable (Initial st) (Step st) s)
    (hstrays : s.strays = []) :
    (s.phase.Between → ∃ reason, Reported st s.published reason) ∧
    (s.phase = .waiting → Reported st s.published (some .sessionEnded)) ∧
    (s.phase ≠ .stopped → s.phase ≠ .crashed → s.published.stopped = []) ∧
    (s.phase = .stopped → Final st s.published) := by
  have hinv : Invariant st s :=
    h.invariant (fun _ hs => invariant_initial hs) fun _ _ _ hok hs => invariant_step hok hs
  exact ⟨hinv.between hstrays, hinv.waiting hstrays, hinv.messages, hinv.stopped hstrays⟩

def twoSlots : Settings := ⟨151, some 152, 5, 30⟩

def undisturbed (now : ℚ) : Push := ⟨now, .returns⟩

/-- One session, told to stop after its first iteration. -/
def oneSession : List Event :=
  [.starts (undisturbed 1), .begins, .settles true true (undisturbed 2), .prepared,
    .polls true true, .snapshotted (undisturbed 3), .pauseEnds, .requestStop, .polls true true,
    .ends, .sessionOver (undisturbed 4), .finishes (undisturbed 5) none]

theorem agent_published_between_sessions_once : ∃ s : Agent,
    s.phase = .stopped ∧ s.strays = [] ∧ Final twoSlots s.published := by
  obtain ⟨s, hr, hphase, hstrays⟩ := Run.ofFold_satisfies (step twoSlots) (initialAgent twoSlots 1)
    oneSession (fun s => s.phase = .stopped ∧ s.strays = []) (by decide +kernel)
  have h := agent_published_between_sessions ⟨_, oneSession, ⟨1, by decide, rfl⟩, hr⟩ hstrays
  exact ⟨s, hphase, hstrays, h.2.2.2 hphase⟩

/-- A stray task publishes its client as connected while `run` waits for the next session. -/
example : (([.starts (undisturbed 1), .begins, .settles true true (undisturbed 2), .prepareRaises,
      .sessionOver (undisturbed 3), .probeWakes (.stray 0) 7 true true (undisturbed 7)] :
        List Event).foldlM (step twoSlots) (initialAgent twoSlots 1)).any (fun s =>
      decide (s.phase = .waiting) && s.published.health.any Health.hostConnected) = true := by
  decide +kernel

end Invariants

section Heartbeats

variable {st : Settings} {s s' : Agent} {e : Event}

/-- The clock and what the heartbeats did stay as they are. -/
def SameBeats (s s' : Agent) : Prop := s'.hbClock = s.hbClock ∧ s'.heartbeats = s.heartbeats

theorem sameBeats_setTask (s : Agent) (t : Probe) (w : Which) : SameBeats s (s.setTask t w) := by
  cases w <;> exact ⟨rfl, rfl⟩

theorem sameBeats_checks (s : Agent) (w : Which) (now : ℚ) (hostOk secOk : Bool) (p : Push) :
    SameBeats s (s.probeChecks st w now hostOk secOk p) := by
  cases w <;> exact ⟨rfl, rfl⟩

theorem sameBeats_cancel (hs : s.cancel = some s') : SameBeats s s' := by
  unfold Agent.cancel at hs
  split at hs <;> first
    | exact Option.some.inj hs ▸ ⟨rfl, rfl⟩
    | cases hs

/-- Only an iteration of a probe task asks the clock. -/
theorem beats_cases (hs : Step st s e s') : SameBeats s s' ∨
    ∃ w now hostOk secOk p, e = .probeWakes w now hostOk secOk p ∧
      s' = s.probeWakes st w now hostOk secOk p := by
  unfold Step ofStep at hs
  cases e with
  | probeWakes w now hostOk secOk p =>
    simp only [step, Option.ite_none_right_eq_some, Option.some.injEq] at hs
    exact .inr ⟨w, now, hostOk, secOk, p, rfl, hs.2.symm⟩
  | cancel => exact .inl (sameBeats_cancel hs)
  | probeReconnected w hostOk secOk p =>
    simp only [step] at hs
    split at hs
    · exact .inl (Option.some.inj hs ▸ sameBeats_checks s w _ hostOk secOk p)
    · cases hs
  | probeStops w =>
    simp only [step, Option.ite_none_right_eq_some, Option.some.injEq] at hs
    exact .inl (hs.2 ▸ sameBeats_setTask s _ w)
  | polls hostOk secOk =>
    simp only [step, Option.ite_none_right_eq_some, Option.some.injEq] at hs
    obtain ⟨-, rfl⟩ := hs
    refine .inl ?_
    unfold Agent.polls
    split_ifs <;> exact ⟨rfl, rfl⟩
  | sessionOver p =>
    simp only [step] at hs
    split at hs
    · obtain rfl := Option.some.inj hs
      refine .inl ?_
      unfold Agent.sessionOver
      split
      · exact ⟨rfl, rfl⟩
      · dsimp only
        split <;> exact ⟨rfl, rfl⟩
    · cases hs
  | finishes p raisesAfter =>
    simp only [step, Option.ite_none_right_eq_some, Option.some.injEq] at hs
    obtain ⟨-, rfl⟩ := hs
    cases raisesAfter <;> exact .inl ⟨rfl, rfl⟩
  | requestStop | message _ => exact .inl (Option.some.inj hs ▸ ⟨rfl, rfl⟩)
  | begins =>
    simp only [step, Option.ite_none_right_eq_some] at hs
    obtain ⟨-, hs⟩ := hs
    split at hs <;> exact .inl (Option.some.inj hs ▸ ⟨rfl, rfl⟩)
  | iterationRaises _ | snapshotted _ | ends =>
    simp only [step] at hs
    split at hs
    · exact .inl (Option.some.inj hs ▸ ⟨rfl, rfl⟩)
    · cases hs
  | starts _ | connectRaises | settles _ _ _ | prepared | prepareRaises | pauseEnds | waitEnds =>
    simp only [step, Option.ite_none_right_eq_some, Option.some.injEq] at hs
    exact .inl (hs.2 ▸ ⟨rfl, rfl⟩)

def Event.iterationTime : Event → Option ℚ
  | .probeWakes _ now _ _ _ => some now
  | _ => none

/-- No iteration reads a time before that of the last heartbeat. -/
def InTime (s : Agent) (e : Event) : Prop :=
  e.iterationTime.all (fun now => decide (s.hbClock.lastAt ≤ now)) = true

instance (s : Agent) (e : Event) : Decidable (InTime s e) := instDecidableEqBool _ _

structure Beats (st : Settings) (s : Agent) : Prop where
  interval : s.hbClock.intervalSec = st.serviceHeartbeatIntervalSec
  pos : 0 < s.hbClock.lastAt
  last : ∀ t ∈ s.heartbeats, t ≤ s.hbClock.lastAt
  apart : s.heartbeats.Pairwise fun later earlier =>
    earlier + st.serviceHeartbeatIntervalSec ≤ later

theorem beats_initial (h : Initial st s) : Beats st s := by
  obtain ⟨now, hpos, rfl⟩ := h
  exact ⟨rfl, hpos, by simp [initialAgent], by simp [initialAgent]⟩

theorem Beats.same (h : Beats st s) (hs : SameBeats s s') : Beats st s' := by
  obtain ⟨hclock, hbeats⟩ := hs
  refine ⟨?_, ?_, ?_, ?_⟩
  · rw [hclock, h.interval]
  · rw [hclock]
    exact h.pos
  · rw [hbeats, hclock]
    exact h.last
  · rw [hbeats]
    exact h.apart

/-- Any task's heartbeat moves the clock that all of them ask. -/
theorem Beats.wakes (h : Beats st s) (w : Which) {now : ℚ} (hnow : s.hbClock.lastAt ≤ now)
    (hostOk secOk : Bool) (p : Push) : Beats st (s.probeWakes st w now hostOk secOk p) := by
  have hinterval : (s.hbClock.tick now).2.intervalSec = st.serviceHeartbeatIntervalSec :=
    tick_intervalSec.trans h.interval
  have hle := le_lastAt_tick hnow
  unfold Agent.probeWakes
  dsimp only
  split
  · refine Beats.same ?_ (sameBeats_checks _ w now hostOk secOk p)
    exact ⟨hinterval, h.pos.trans_le hle, fun t ht => (h.last t ht).trans hle, h.apart⟩
  · next htargets =>
    have hfires : (s.hbClock.tick now).1 = true := by
      by_contra hnot
      apply htargets
      simp [probeIteration, observed, hnot]
    have hlast := lastAt_of_fires hfires
    have hdue := (tick_fires_iff.mp hfires).2
    refine Beats.same ?_ (sameBeats_setTask _ _ w)
    refine ⟨hinterval, h.pos.trans_le hle, List.forall_mem_cons.mpr ⟨hlast.ge, fun t ht => ?_⟩, ?_⟩
    · exact (h.last t ht).trans hle
    · refine List.pairwise_cons.mpr ⟨fun t ht => ?_, h.apart⟩
      rw [h.interval] at hdue
      exact (add_le_add (h.last t ht) le_rfl).trans hdue

/-- However many stray tasks there are, two heartbeats that reconnect are an interval apart. -/
theorem shared_heartbeats_apart
    (h : Reachable (Initial st) (guarded InTime (Step st)) s) :
    s.heartbeats.Pairwise fun later earlier =>
      earlier + st.serviceHeartbeatIntervalSec ≤ later := by
  have hbeats : Beats st s := by
    refine h.invariant (fun _ hs => beats_initial hs) fun s e s' hok hs => ?_
    obtain ⟨htime, hstep⟩ := hs
    rcases beats_cases hstep with hsame | ⟨w, now, hostOk, secOk, p, rfl, rfl⟩
    · exact hok.same hsame
    · exact hok.wakes w (of_decide_eq_true htime) hostOk secOk p
  exact hbeats.apart

/-- A session is left while it subscribes, and its probe task has the first of two heartbeats. -/
def strayHeartbeat : List Event :=
  [.starts (undisturbed 1), .begins, .settles true true (undisturbed 2), .prepareRaises,
    .sessionOver (undisturbed 3), .waitEnds, .begins, .settles true true (undisturbed 4), .prepared,
    .probeWakes (.stray 0) 40 true false (undisturbed 40), .probeWakes .own 45 true false
      (undisturbed 45), .probeWakes .own 75 false false (undisturbed 75)]

theorem shared_heartbeats_apart_stray : ∃ s : Agent, s.heartbeats.length = 2 ∧ s.strays ≠ [] ∧
    s.heartbeats.Pairwise fun later earlier => earlier + 30 ≤ later := by
  obtain ⟨s, hr, hlength, hstrays⟩ := Run.ofGuardedFold_satisfies (step twoSlots) InTime
    (initialAgent twoSlots 1) strayHeartbeat (fun s => s.heartbeats.length = 2 ∧ s.strays ≠ [])
    (by decide +kernel)
  exact ⟨s, hlength, hstrays,
    @shared_heartbeats_apart twoSlots s ⟨_, strayHeartbeat, ⟨1, by decide, rfl⟩, hr⟩⟩

end Heartbeats

end BifrostSocket.AgentProcess
