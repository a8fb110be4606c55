import BifrostSocket.TransitionRuns
import BifrostSocket.SeenLists
import BifrostSocket.OperatorProtocol
import BifrostSocket.HeartbeatSchedules

/-!
# Health writes of the operator's two threads

The main loop and the probe thread publish the operator's health in the same way, interleaved at
each read and each Redis call. What the clients show is read at any time, and so are the clocks.
-/

namespace BifrostSocket.OperatorHealth
open TransitionRuns SeenLists OperatorProtocol HeartbeatReconnects HeartbeatSchedules

section Health

/-- What a slot's client shows. -/
structure ClientView where
  connected : Bool
  clientId : ℤ
  lastError : Option String
  reconnects : ℕ
  deriving DecidableEq

structure Settings where
  probeIntervalSec : ℚ
  serviceHeartbeatIntervalSec : ℚ
  hasSecondary : Bool

/-- The executor's fields under its lock. -/
structure Metrics where
  cmdCount : ℕ := 0
  lastCmdTs : ℚ := 0
  hostIbProbeAt : ℚ := 0
  hostIbProbeOk : Bool := false
  secondaryIbProbeAt : ℚ := 0
  secondaryIbProbeOk : Bool := false
  ibProbeIntervalSec : ℚ := 5
  deriving DecidableEq

structure SlotHealth where
  connected : Bool
  clientId : ℤ
  lastError : Option String
  reconnects : ℕ
  ibProbeAt : ℚ
  ibProbeOk : Bool
  ibProbeIntervalSec : ℚ
  deriving DecidableEq

structure HealthDict where
  host : SlotHealth
  secondary : Option SlotHealth
  serviceAlive : Bool
  cmdCount : ℕ
  lastCmdTs : ℚ
  deriving DecidableEq

/-- What is handed to the health writer. -/
structure Health extends HealthDict where
  updatedAt : ℚ
  serviceHeartbeat : Option RedisFields
  deriving DecidableEq

def Metrics.noteCmdProcessed (m : Metrics) (now : ℚ) : Metrics :=
  { m with cmdCount := m.cmdCount + 1, lastCmdTs := now }

variable (st : Settings)

def Metrics.recordIbProbe (m : Metrics) (now : ℚ) (hostOk secOk : Bool) : Metrics :=
  { m with
    ibProbeIntervalSec := st.probeIntervalSec
    hostIbProbeAt := now
    hostIbProbeOk := hostOk
    secondaryIbProbeAt := if st.hasSecondary then now else 0
    secondaryIbProbeOk := st.hasSecondary && secOk }

def slotHealth (c : ClientView) (probeAt : ℚ) (probeOk : Bool) (probeIv : ℚ) : SlotHealth where
  connected := c.connected
  clientId := c.clientId
  lastError := c.lastError
  reconnects := c.reconnects
  ibProbeAt := probeAt
  ibProbeOk := probeOk
  ibProbeIntervalSec := probeIv

def Metrics.healthDict (m : Metrics) (host secondary : ClientView) : HealthDict where
  host := slotHealth host m.hostIbProbeAt m.hostIbProbeOk m.ibProbeIntervalSec
  secondary :=
    if st.hasSecondary then
      some (slotHealth secondary m.secondaryIbProbeAt m.secondaryIbProbeOk m.ibProbeIntervalSec)
    else none
  serviceAlive := true
  cmdCount := m.cmdCount
  lastCmdTs := m.lastCmdTs

/-- The label of a reconnect under way, if the health names one. -/
def Health.reconnectInProgress (h : Health) : Option String :=
  h.serviceHeartbeat.bind RedisFields.serviceHeartbeatReconnectInProgress

/-- The tracker's update for one slot. -/
structure SlotUpdate where
  slot : Slot
  connected : Bool
  clientId : Option ℤ
  reason : Option String
  occurredAt : ℚ
  deriving DecidableEq

def coerceClientId (raw : ℤ) : Option ℤ := if 0 < raw then some raw else none

def slotReason (lastError : Option String) : Option String :=
  (lastError.map strip).filter (· ≠ "")

def slotUpdate (slot : Slot) (occurredAt : ℚ) (h : SlotHealth) : SlotUpdate where
  slot
  connected := h.connected
  clientId := coerceClientId h.clientId
  reason := slotReason h.lastError
  occurredAt

/-- `publish_operator_slots`, at a time `later` than that of the health. -/
def operatorSlots (h : Health) (later : ℚ) : List SlotUpdate :=
  let occurredAt := if h.updatedAt = 0 then later else h.updatedAt
  slotUpdate .host occurredAt h.host :: (h.secondary.map (slotUpdate .secondary occurredAt)).toList

def SlotHealth.disconnected (h : SlotHealth) : SlotHealth := { h with connected := false }

/-- The last health, as `run_ib_operator_loop` and `write_shutdown` make it. -/
def HealthDict.shutDown (h : HealthDict) (now : ℚ) : Health where
  host := h.host.disconnected
  secondary := h.secondary.map SlotHealth.disconnected
  serviceAlive := false
  cmdCount := h.cmdCount
  lastCmdTs := h.lastCmdTs
  updatedAt := now
  serviceHeartbeat := none

def slotClientId (slot : Slot) (h : SlotHealth) : Option (Slot × ℤ) :=
  if 0 < h.clientId then some (slot, h.clientId) else none

def HealthDict.stopSlots (h : HealthDict) : List (Slot × ℤ) :=
  (slotClientId .host h.host).toList ++ (h.secondary.bind (slotClientId .secondary)).toList

structure StopMessage where
  slot : Slot
  clientId : ℤ
  occurredAt : ℚ
  deriving DecidableEq

/-- `publish_service_stopped_disconnects`; the names of the two slots stay apart when they are
sanitised. -/
def serviceStoppedDisconnects (slotClientIds : List (Slot × ℤ)) (occurredAt later : ℚ) :
    List StopMessage :=
  (firstSeen id [] (slotClientIds.filter fun p => decide (0 < p.2))).map fun p =>
    ⟨p.1, p.2, if occurredAt = 0 then later else occurredAt⟩

end Health

section Threads

inductive Thread where
  | main | probe
  deriving DecidableEq

/-- `IbOperatorHealthWriter.write`: the hash is written, kept as it was, or deleted for its wrong
type and not written then. -/
inductive HashWrite where
  | written | kept | cleared
  deriving DecidableEq

/-- What the operator hands to Redis. -/
inductive Effect where
  | health (thread : Thread) (h : Health) (outcome : HashWrite)
  | slot (thread : Thread) (u : SlotUpdate)
  | serviceStopped (m : StopMessage)
  | shutdown (h : Health) (written : Bool)
  deriving DecidableEq

/-- A health write under way: what it does next, and what it has read. -/
inductive Tick where
  | recording
  | gathering
  | hinting (h : HealthDict)
  | timing (h : HealthDict) (now : ℚ) (hint : String)
  | writing (h : Health)
  | publishing (us : List SlotUpdate)
  deriving DecidableEq

inductive TickEvent where
  | record (now : ℚ) (hostOk secOk : Bool)
  | gather (host secondary : ClientView)
  | readHint (now : ℚ)
  | readClock
  | write (outcome : HashWrite) (later : ℚ)
  | publish
  | raise
  deriving DecidableEq

inductive TickNext where
  | goes (t : Tick)
  | done
  | raised
  deriving DecidableEq

/-- The three places from which the main thread writes health. -/
inductive MainWrite where
  | first | second | refresh
  deriving DecidableEq

/-- Where `run_ib_operator_loop` is. `failed` tells that the loop was left by an exception. -/
inductive Main where
  | ticking (w : MainWrite) (t : Tick)
  | connecting
  | starting
  | looping
  | choosing
  | reconnecting (job : HeartbeatReconnectTarget)
  | serving
  | halting (failed : Bool)
  | joining (failed : Bool)
  | disconnecting (failed : Bool)
  | stopping (h : Health) (todo : List StopMessage)
  | returned
  | raised
  deriving DecidableEq

inductive Probe where
  | unstarted
  | waiting
  | checking
  | ticking (t : Tick)
  | ended
  deriving DecidableEq

structure Operator where
  metrics : Metrics
  hint : String
  hbClock : ServiceHeartbeatClock
  stop : Bool
  main : Main
  probe : Probe
  log : List Effect
  deriving DecidableEq

def Operator.emit (s : Operator) (e : Effect) : Operator := { s with log := s.log ++ [e] }

variable (st : Settings)

/-- One step of `_tick`. Before there is a hint, `_write_health` takes the same steps. -/
def Operator.tick (s : Operator) (thread : Thread) :
    Tick → TickEvent → Option (Operator × TickNext)
  | _, .raise => some (s, .raised)
  | .recording, .record now hostOk secOk =>
    some ({ s with metrics := s.metrics.recordIbProbe st now hostOk secOk }, .goes .gathering)
  | .gathering, .gather host secondary =>
    some (s, .goes (.hinting (s.metrics.healthDict st host secondary)))
  | .hinting h, .readHint now => some (s, .goes (.timing h now s.hint))
  | .timing h now hint, .readClock =>
    some (s, .goes (.writing ⟨h, now, some (redisFields s.hbClock now hint)⟩))
  | .writing h, .write outcome later =>
    some (s.emit (.health thread h outcome), .goes (.publishing (operatorSlots h later)))
  | .publishing (u :: us), .publish =>
    some (s.emit (.slot thread u), if us = [] then .done else .goes (.publishing us))
  | _, _ => none

/-- Where the main thread goes on. `_write_health` goes on where recording raised. -/
def MainWrite.next (w : MainWrite) (t : Tick) : TickNext → Main
  | .goes t' => .ticking w t'
  | .done => match w with
    | .first => .connecting
    | .second => .starting
    | .refresh => .serving
  | .raised => match w, t with
    | .refresh, _ => .halting true
    | _, .recording => .ticking w .gathering
    | _, _ => .raised

def Probe.next : TickNext → Probe
  | .goes t => .ticking t
  | .done | .raised => .waiting

inductive Event where
  | requestStop
  | mainTick (e : TickEvent)
  | connected
  | startProbe
  | iterate (now : ℚ)
  | choose (o : Observation)
  | reconnected
  | fail
  | command (now : ℚ)
  | iterationEnds
  | halt
  | joined
  | disconnected (now later : ℚ) (host secondary : ClientView)
  | serviceStopped (raises : Bool)
  | writeShutdown (written : Bool)
  | probeWakes
  | probeChecks
  | probeTick (e : TickEvent)
  deriving DecidableEq

def Operator.iterate (s : Operator) (now : ℚ) : Operator :=
  if s.stop then { s with main := .halting false }
  else
    { s with
      hbClock := (s.hbClock.tick now).2
      main := if (s.hbClock.tick now).1 then .choosing else .serving }

def Operator.choose (s : Operator) (o : Observation) : Operator :=
  match reconnectJob o with
  | some job => { s with hint := reconnectHint job, main := .reconnecting job }
  | none => { s with hint := "", main := .serving }

/-- Behind the `finally`, a loop that failed passes its exception on. -/
def Operator.disconnected (s : Operator) (failed : Bool) (now later : ℚ)
    (host secondary : ClientView) : Operator :=
  if failed then { s with main := .raised }
  else
    let h := s.metrics.healthDict st host secondary
    let todo := serviceStoppedDisconnects h.stopSlots now later
    { s with main := .stopping (h.shutDown now) todo }

def next (s : Operator) : Event → Option Operator
  | .requestStop => some { s with stop := true }
  | .mainTick e => match s.main with
    | .ticking w t => (s.tick st .main t e).map fun r => { r.1 with main := w.next t r.2 }
    | _ => none
  | .connected =>
    if s.main = .connecting then some { s with main := .ticking .second .recording } else none
  | .startProbe =>
    if s.main = .starting ∧ s.probe = .unstarted then
      some { s with main := .looping, probe := .waiting }
    else none
  | .iterate now => if s.main = .looping then some (s.iterate now) else none
  | .choose o => if s.main = .choosing then some (s.choose o) else none
  | .reconnected => match s.main with
    | .reconnecting _ => some { s with hint := "", main := .ticking .refresh .recording }
    | _ => none
  | .fail => match s.main with
    | .choosing | .reconnecting _ | .serving => some { s with main := .halting true }
    | _ => none
  | .command now =>
    if s.main = .serving then some { s with metrics := s.metrics.noteCmdProcessed now } else none
  | .iterationEnds => if s.main = .serving then some { s with main := .looping } else none
  | .halt => match s.main with
    | .halting failed => some { s with stop := true, main := .joining failed }
    | _ => none
  | .joined => match s.main with
    | .joining failed => some { s with main := .disconnecting failed }
    | _ => none
  | .disconnected now later host secondary => match s.main with
    | .disconnecting failed => some (s.disconnected st failed now later host secondary)
    | _ => none
  | .serviceStopped raises => match s.main with
    | .stopping h (m :: ms) =>
      if raises then some { s with main := .raised }
      else some { (s.emit (.serviceStopped m)) with main := .stopping h ms }
    | _ => none
  | .writeShutdown written => match s.main with
    | .stopping h [] => some { (s.emit (.shutdown h written)) with main := .returned }
    | _ => none
  | .probeWakes =>
    if s.probe = .waiting then some { s with probe := if s.stop then .ended else .checking }
    else none
  | .probeChecks =>
    if s.probe = .checking then
      some { s with probe := if s.stop then .ended else .ticking .recording }
    else none
  | .probeTick e => match s.probe with
    | .ticking t => (s.tick st .probe t e).map fun r => { r.1 with probe := Probe.next r.2 }
    | _ => none

def Step : Operator → Event → Operator → Prop := ofStep (next st)

/-- An operator that starts at `now`; it may have been told to stop already. -/
def initialOperator (now : ℚ) (stop : Bool) : Operator where
  metrics := {}
  hint := ""
  hbClock := ⟨st.serviceHeartbeatIntervalSec, now⟩
  stop := stop
  main := .ticking .first .recording
  probe := .unstarted
  log := []

def Initial (s : Operator) : Prop := ∃ now stop, s = initialOperator st now stop

end Threads

section Ticks

variable {st : Settings} {s s' : Operator} {thread : Thread} {t : Tick} {e : TickEvent}
  {n : TickNext}

/-- Whether the tick still has its health write before it. -/
def Tick.unwritten : Tick → Bool
  | .publishing _ => false
  | _ => true

/-- The label of a reconnect that the tick has read and not yet written. -/
def Tick.label : Tick → Option String
  | .timing _ _ hint => if hint = "" then none else some hint
  | .writing h => h.reconnectInProgress
  | _ => none

def TickNext.unwritten : TickNext → Bool
  | .goes t => t.unwritten
  | .done | .raised => false

def TickNext.label : TickNext → Option String
  | .goes t => t.label
  | .done | .raised => none

/-- A step of a tick that hands nothing to Redis. -/
structure QuietStep (s : Operator) (t : Tick) (s' : Operator) (n : TickNext) : Prop where
  state : ∃ m, s' = { s with metrics := m }
  unwritten : n.unwritten = true → t.unwritten = true
  label : ∀ l, n.label = some l → t.label = some l ∨ s.hint = l ∧ l ≠ ""

theorem tick_cases (h : s.tick st thread t e = some (s', n)) :
    QuietStep s t s' n ∨
    (∃ h' outcome us, t = .writing h' ∧ n = .goes (.publishing us) ∧
      s' = s.emit (.health thread h' outcome)) ∨
    ∃ u us, t = .publishing us ∧ n.unwritten = false ∧ n.label = none ∧
      s' = s.emit (.slot thread u) := by
  have same : ∃ m, s = { s with metrics := m } := ⟨s.metrics, rfl⟩
  unfold Operator.tick at h
  split at h
  · obtain ⟨rfl, rfl⟩ := Prod.mk.inj (Option.some.inj h)
    exact .inl ⟨same, nofun, nofun⟩
  · obtain ⟨rfl, rfl⟩ := Prod.mk.inj (Option.some.inj h)
    exact .inl ⟨⟨_, rfl⟩, fun _ => rfl, nofun⟩
  · obtain ⟨rfl, rfl⟩ := Prod.mk.inj (Option.some.inj h)
    exact .inl ⟨same, fun _ => rfl, nofun⟩
  · obtain ⟨rfl, rfl⟩ := Prod.mk.inj (Option.some.inj h)
    refine .inl ⟨same, fun _ => rfl, fun l hl => .inr ?_⟩
    simp only [TickNext.label, Tick.label] at hl
    split at hl
    · cases hl
    · next hne =>
      obtain rfl := Option.some.inj hl
      exact ⟨rfl, hne⟩
  · obtain ⟨rfl, rfl⟩ := Prod.mk.inj (Option.some.inj h)
    exact .inl ⟨same, fun _ => rfl, fun l hl => .inl hl⟩
  · obtain ⟨rfl, rfl⟩ := Prod.mk.inj (Option.some.inj h)
    exact .inr (.inl ⟨_, _, _, rfl, rfl, rfl⟩)
  · next u us =>
    obtain ⟨rfl, rfl⟩ := Prod.mk.inj (Option.some.inj h)
    refine .inr (.inr ⟨u, _, rfl, ?_, ?_, rfl⟩) <;> split <;> rfl
  · cases h

end Ticks

section Probe

variable {st : Settings} {s s' : Operator} {e : Event}

def Probe.unwritten : Probe → Bool
  | .ticking t => t.unwritten
  | _ => false

def Probe.label : Probe → Option String
  | .ticking t => t.label
  | _ => none

theorem unwritten_next (n : TickNext) : (Probe.next n).unwritten = n.unwritten := by
  cases n <;> rfl

theorem label_next (n : TickNext) : (Probe.next n).label = n.label := by
  cases n <;> rfl

def Event.isProbe : Event → Bool
  | .probeWakes | .probeChecks | .probeTick _ => true
  | _ => false

/-- A step of the probe thread: it hands nothing to Redis, or writes the health of its tick, or
publishes a slot of it. -/
inductive ProbeStep (s : Operator) : Operator → Prop where
  | quiet (m : Metrics) (p : Probe)
      (unwritten : p.unwritten = true → s.probe.unwritten = true ∨ s.stop = false)
      (label : ∀ l, p.label = some l → s.probe.label = some l ∨ s.hint = l ∧ l ≠ "") :
      ProbeStep s { s with metrics := m, probe := p }
  | health (h : Health) (outcome : HashWrite) (us : List SlotUpdate)
      (writing : s.probe = .ticking (.writing h)) :
      ProbeStep s { s.emit (.health .probe h outcome) with probe := .ticking (.publishing us) }
  | slot (u : SlotUpdate) (p : Probe) (unwritten : p.unwritten = false) (label : p.label = none) :
      ProbeStep s { s.emit (.slot .probe u) with probe := p }

theorem probe_cases (he : e.isProbe = true) (h : Step st s e s') : ProbeStep s s' := by
  cases e with
  | probeWakes =>
    simp only [Step, ofStep, next] at h
    split at h
    · obtain rfl := Option.some.inj h
      refine .quiet s.metrics _ (fun hp => ?_) (fun l hl => ?_)
      · split at hp <;> cases hp
      · split at hl <;> cases hl
    · cases h
  | probeChecks =>
    simp only [Step, ofStep, next] at h
    split at h
    · obtain rfl := Option.some.inj h
      refine .quiet s.metrics _ (fun hp => ?_) (fun l hl => ?_)
      · split at hp
        · cases hp
        · next hstop => exact .inr (by simpa using hstop)
      · split at hl <;> cases hl
    · cases h
  | probeTick e =>
    simp only [Step, ofStep, next] at h
    split at h
    · next t hprobe =>
      obtain ⟨⟨s₁, n⟩, hr, rfl⟩ := Option.map_eq_some_iff.mp h
      rcases tick_cases hr with ⟨⟨m, rfl⟩, hunwritten, hlabel⟩ | ⟨h', outcome, us, rfl, rfl, rfl⟩ |
        ⟨u, us, rfl, hunwritten, hlabel, rfl⟩
      · refine .quiet m (Probe.next n) (fun hp => .inl ?_) (fun l hl => ?_)
        · rw [hprobe]
          exact hunwritten (unwritten_next n ▸ hp)
        · rw [hprobe]
          exact hlabel l (label_next n ▸ hl)
      · exact .health h' outcome us hprobe
      · refine .slot u (Probe.next n) ?_ ?_
        · rw [unwritten_next, hunwritten]
        · rw [label_next, hlabel]
    · cases h
  | _ => cases he

end Probe

section Main

variable {st : Settings} {s s' : Operator} {e : Event}

/-- The loop is past its `finally`, or was left before it. -/
def Main.final : Main → Bool
  | .stopping .. | .returned | .raised => true
  | _ => false

/-- The stop event was set by the `finally`. -/
def Main.stopped : Main → Bool
  | .joining _ | .disconnecting _ | .stopping .. | .returned => true
  | _ => false

def Effect.isHealth : Effect → Bool
  | .health .. => true
  | _ => false

def Effect.isShutdown : Effect → Bool
  | .shutdown .. => true
  | _ => false

def Effect.thread : Effect → Thread
  | .health thread .. | .slot thread _ => thread
  | .serviceStopped _ | .shutdown .. => .main

/-- The steps of the main thread that hand nothing to Redis and stay in the loop or in its
`finally`. -/
def Event.isControl : Event → Bool
  | .connected | .startProbe | .iterate _ | .choose _ | .reconnected | .fail | .command _
  | .iterationEnds | .halt | .joined => true
  | _ => false

/-- They keep a stop, and the `finally` is entered by setting it. -/
theorem control_step (he : e.isControl = true) (h : Step st s e s') :
    s'.log = s.log ∧ s.main.final = false ∧ s'.main.final = false ∧
      (s.stop = true → s'.stop = true) ∧
      (s'.main.stopped = true → s.main.stopped = true ∨ e = .halt ∧ s'.stop = true) ∧
      (s'.probe = s.probe ∨ s.probe = .unstarted ∧ s'.probe = .waiting) := by
  cases e with
  | iterate now =>
    simp only [Step, ofStep, next] at h
    split at h
    · next hm =>
      obtain rfl := Option.some.inj h
      unfold Operator.iterate
      split
      · simp [hm, Main.final, Main.stopped]
      · dsimp only
        split <;> simp [hm, Main.final, Main.stopped]
    · cases h
  | choose o =>
    simp only [Step, ofStep, next] at h
    split at h
    · next hm =>
      obtain rfl := Option.some.inj h
      unfold Operator.choose
      split <;> simp [hm, Main.final, Main.stopped]
    · cases h
  | command now =>
    simp only [Step, ofStep, next] at h
    split at h
    · next hm =>
      obtain rfl := Option.some.inj h
      simp [hm, Main.final, Main.stopped]
    · cases h
  | connected | startProbe | reconnected | fail | iterationEnds | halt | joined =>
    simp only [Step, ofStep, next] at h
    split at h <;> first
      | next hm =>
        obtain rfl := Option.some.inj h
        simp [hm, Main.final, Main.stopped]
      | cases h
  | _ => cases he

/-- The main thread hands over at most one thing at a time, and a health only from its own tick. -/
theorem main_appends (he : e.isProbe = false) (h : Step st s e s') :
    (s'.probe = s.probe ∨ s.probe = .unstarted ∧ s'.probe = .waiting) ∧
      ∃ effects, s'.log = s.log ++ effects ∧ effects.length ≤ 1 ∧
        ∀ e ∈ effects, e.thread = .main ∧
          ∀ thread h' outcome, e = .health thread h' outcome →
            ∃ w, s.main = .ticking w (.writing h') := by
  cases e with
  | requestStop =>
    obtain rfl := Option.some.inj h
    exact ⟨.inl rfl, [], (List.append_nil _).symm, by simp, by simp⟩
  | mainTick te =>
    simp only [Step, ofStep, next] at h
    split at h
    · next w t hm =>
      obtain ⟨⟨s₁, n⟩, hr, rfl⟩ := Option.map_eq_some_iff.mp h
      rcases tick_cases hr with ⟨⟨m, rfl⟩, -, -⟩ | ⟨h', outcome, us, rfl, -, rfl⟩ |
        ⟨u, us, -, -, -, rfl⟩
      · exact ⟨.inl rfl, [], (List.append_nil _).symm, by simp, by simp⟩
      · refine ⟨.inl rfl, [.health .main h' outcome], rfl, by simp, fun e he => ?_⟩
        obtain rfl := List.mem_singleton.mp he
        refine ⟨rfl, fun thread h'' outcome' heq => ⟨w, ?_⟩⟩
        obtain ⟨-, rfl, -⟩ := Effect.health.inj heq
        exact hm
      · exact ⟨.inl rfl, [.slot .main u], rfl, by simp, by simp [Effect.thread]⟩
    · cases h
  | disconnected now later host secondary =>
    simp only [Step, ofStep, next] at h
    split at h
    · obtain rfl := Option.some.inj h
      unfold Operator.disconnected
      split <;> exact ⟨.inl rfl, [], (List.append_nil _).symm, by simp, by simp⟩
    · cases h
  | serviceStopped raises =>
    simp only [Step, ofStep, next] at h
    split at h
    · next h' m ms hm =>
      split at h
      · obtain rfl := Option.some.inj h
        exact ⟨.inl rfl, [], (List.append_nil _).symm, by simp, by simp⟩
      · obtain rfl := Option.some.inj h
        exact ⟨.inl rfl, [.serviceStopped m], rfl, by simp, by simp [Effect.thread]⟩
    · cases h
  | writeShutdown written =>
    simp only [Step, ofStep, next] at h
    split at h
    · next h' hm =>
      obtain rfl := Option.some.inj h
      exact ⟨.inl rfl, [.shutdown h' written], rfl, by simp, by simp [Effect.thread]⟩
    · cases h
  | probeWakes | probeChecks | probeTick _ => cases he
  | _ =>
    obtain ⟨hlog, -, -, -, -, hprobe⟩ := control_step rfl h
    exact ⟨hprobe, [], by rw [hlog, List.append_nil], by simp, by simp⟩

end Main

end BifrostSocket.OperatorHealth
