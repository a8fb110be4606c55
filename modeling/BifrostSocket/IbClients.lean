import BifrostSocket.ConnectScans
import BifrostSocket.TransitionRuns
import Mathlib.Data.Rat.Defs

/-!
# A client, its connectors and their sessions

`ensure_connected` and `disconnect` run one at a time under the client's lock;
`ensure_connected` replaces the connector and then waits for one connection attempt after the
other. A connector method called through any reference reconnects its own connector, without
the lock, when it is not connected. A session is open from the handshake on, before the
waiting coroutine goes on.
-/

namespace BifrostSocket.IbClients
open TransitionRuns ConnectScans

/-- A connector and its `IB` object. The handler counts are the registrations on the
object's events. -/
structure IbConnector where
  port : ℤ
  clientId : ℤ
  connected : Bool := false
  disconnectEventRegistered : Bool := false
  commissionRegistered : Bool := false
  ibConnected : Bool := false
  ownHandlers : ℕ := 0
  clientHandlers : ℕ := 0
  commissionHandlers : ℕ := 0
  deriving DecidableEq

def IbConnector.isConnected (c : IbConnector) : Bool := c.connected && c.ibConnected

structure BaseIbClient where
  port : ℤ
  clientId : ℤ
  connector : Option ℕ := none
  connectedState : Bool := false
  lastError : Option String := none
  lastConnectedAt : Option ℚ := none
  lastDisconnectedAt : Option ℚ := none
  reconnects : ℕ := 0
  deriving DecidableEq

/-- A coroutine inside `connect`, waiting for an attempt; `opened` once the handshake of
this attempt went through. -/
structure Attempt where
  ref : ℕ
  scan : ConnectScan
  barsOnly : Bool := false
  opened : Bool := false
  deriving DecidableEq

inductive LockedCall where
  | ensure (maxConnectAttempts : Option ℤ)
  | disconnect
  deriving DecidableEq

/-- All connectors that ever existed, by reference. `holder` is the `ensure_connected` that
is connecting under the lock, `reconnecting` are the methods that reconnect by themselves. -/
structure World where
  heap : ℕ → IbConnector
  fresh : ℕ
  client : BaseIbClient
  holder : Option Attempt
  waiting : List LockedCall
  reconnecting : List Attempt

inductive Event where
  | ensureCall (maxConnectAttempts : Option ℤ)
  | disconnectCall
  | grant (now : ℚ)
  | attemptOpens
  | attemptEnds (outcome : AttemptOutcome) (now : ℚ)
  | methodCall (ref : ℕ) (barsOnly : Bool)
  | reconnectOpens (k : ℕ)
  | reconnectEnds (k : ℕ) (outcome : AttemptOutcome) (now : ℚ)
  | drop (ref : ℕ) (now : ℚ)
  | markDropped (ref : ℕ) (now : ℚ)
  | connectedSnapshot (now : ℚ)

def postConnectGraceSec : ℚ := 10

namespace World

def set (w : World) (i : ℕ) (c : IbConnector) : World :=
  { w with heap := Function.update w.heap i c }

/-- The client's `connected` property. -/
def clientConnected (w : World) : Bool :=
  match w.client.connector with
  | some i => (w.heap i).isConnected
  | none => w.client.connectedState

/-- A session ends, by `ib.disconnect()` or by a socket drop, and `disconnectedEvent` runs
its handlers. Without a session nothing happens. -/
def closeSession (w : World) (i : ℕ) (now : ℚ) : World :=
  let c := w.heap i
  if c.ibConnected then
    { w.set i { c with ibConnected := false, connected := c.connected && c.ownHandlers == 0 } with
      client := if c.clientHandlers = 0 then w.client
        else { w.client with connectedState := false, lastDisconnectedAt := some now } }
  else w

/-- `IBConnector.disconnect`: a connector whose flag is down is left as it is. -/
def connectorDisconnect (w : World) (i : ℕ) (now : ℚ) : World :=
  let c := w.heap i
  if c.connected then
    let unregistered := w.set i { c with
      commissionRegistered := false
      commissionHandlers :=
        if c.commissionRegistered then c.commissionHandlers - 1 else c.commissionHandlers }
    let closed := unregistered.closeSession i now
    closed.set i { closed.heap i with connected := false }
  else w

/-- The connector after a successful attempt. -/
def connectSucceeded (w : World) (a : Attempt) : World :=
  let c := w.heap a.ref
  w.set a.ref { c with
    port := a.scan.tryPort
    clientId := a.scan.tryId
    connected := true
    disconnectEventRegistered := true
    ownHandlers := if c.disconnectEventRegistered then c.ownHandlers else c.ownHandlers + 1
    commissionRegistered := c.commissionRegistered || !a.barsOnly
    commissionHandlers := if a.barsOnly then c.commissionHandlers else c.commissionHandlers + 1 }

/-- `connect` gives up. -/
def connectGivenUp (w : World) (i : ℕ) : World := w.set i { w.heap i with connected := false }

/-- `ensure_connected` once it has the lock. -/
def ensureLocked (w : World) (maxConnectAttempts : Option ℤ) (now : ℚ) : World :=
  if w.clientConnected then w
  else
    let limit : ℤ := match maxConnectAttempts with
      | none => 10
      | some n => max 1 n
    let portSteps : ℤ := if maxConnectAttempts = some 1 then 1 else 5
    let released : World := match w.client.connector with
      | some i =>
        let w := w.connectorDisconnect i now
        { w with client := { w.client with connector := none, connectedState := false } }
      | none => w
    let c : IbConnector := { port := w.client.port, clientId := w.client.clientId }
    { released.set w.fresh c with
      fresh := w.fresh + 1
      client := { released.client with connector := some w.fresh }
      holder := some ⟨w.fresh, .start c.port c.clientId (some limit) portSteps, false, false⟩ }

/-- `disconnect` once it has the lock. -/
def disconnectLocked (w : World) (now : ℚ) : World :=
  match w.client.connector with
  | none => { w with client := { w.client with connectedState := false } }
  | some i =>
    let w := w.connectorDisconnect i now
    { w with client := { w.client with
        connector := none
        connectedState := false
        lastDisconnectedAt := some now } }

/-- The end of an `ensure_connected` whose scan ended. -/
def ensureEnds (w : World) (ref : ℕ) (ok : Bool) (now : ℚ) : World :=
  if ok then
    let c := w.heap ref
    { w.set ref { c with clientHandlers := c.clientHandlers + 1 } with
      client := { w.client with
        clientId := c.clientId
        lastError := none
        reconnects :=
          if w.client.lastDisconnectedAt.isSome then w.client.reconnects + 1
          else w.client.reconnects
        lastConnectedAt := some now
        connectedState := true }
      holder := none }
  else
    { w with
      client := { w.client with
        lastError := some "connect_failed"
        connectedState := false
        connector := none }
      holder := none }

/-- An attempt's outcome at the connector: a failing attempt leaves no session. -/
def attemptOutcome (w : World) (a : Attempt) (outcome : AttemptOutcome) (now : ℚ) : World :=
  match a.scan.next outcome with
  | .again _ => w.closeSession a.ref now
  | .ended true => w.connectSucceeded a
  | .ended false => (w.closeSession a.ref now).connectGivenUp a.ref

/-- `connected_snapshot`, read on the client's loop. -/
def snapshot (w : World) (now : ℚ) : World :=
  match w.client.connector with
  | none => w
  | some i =>
    if (w.heap i).isConnected then w
    else
      let inGrace := w.client.connectedState &&
        w.client.lastConnectedAt.any fun t => decide (now - t < postConnectGraceSec)
      if inGrace then w else { w with client := { w.client with connectedState := false } }

def openSession (w : World) (i : ℕ) : World := w.set i { w.heap i with ibConnected := true }

end World

/-- An attempt may succeed only after its handshake. -/
def mayEnd (a : Attempt) (outcome : AttemptOutcome) : Bool := a.opened || outcome != .success

def step (w : World) : Event → Option World
  | .ensureCall m =>
    some (if w.clientConnected then w else { w with waiting := w.waiting ++ [.ensure m] })
  | .disconnectCall => some { w with waiting := w.waiting ++ [.disconnect] }
  | .grant now =>
    match w.holder, w.waiting with
    | none, .ensure m :: rest => some ({ w with waiting := rest }.ensureLocked m now)
    | none, .disconnect :: rest => some ({ w with waiting := rest }.disconnectLocked now)
    | _, _ => none
  | .attemptOpens => w.holder.map fun a =>
      { w.openSession a.ref with holder := some { a with opened := true } }
  | .attemptEnds outcome now => w.holder.bind fun a =>
      if mayEnd a outcome then
        let w' := w.attemptOutcome a outcome now
        match a.scan.next outcome with
        | .again scan => some { w' with holder := some { a with scan, opened := false } }
        | .ended ok => some (w'.ensureEnds a.ref ok now)
      else none
  | .methodCall ref barsOnly =>
    if ref < w.fresh then
      let c := w.heap ref
      some (if c.isConnected then w
        else { w with reconnecting := w.reconnecting ++
          [⟨ref, .start c.port c.clientId none 1, barsOnly, false⟩] })
    else none
  | .reconnectOpens k => w.reconnecting[k]?.map fun a =>
      { w.openSession a.ref with reconnecting := w.reconnecting.set k { a with opened := true } }
  | .reconnectEnds k outcome now => w.reconnecting[k]?.bind fun a =>
      if mayEnd a outcome then
        let w' := w.attemptOutcome a outcome now
        match a.scan.next outcome with
        | .again scan =>
          some { w' with reconnecting := w.reconnecting.set k { a with scan, opened := false } }
        | .ended _ => some { w' with reconnecting := w.reconnecting.eraseIdx k }
      else none
  | .drop ref now => some (w.closeSession ref now)
  | .markDropped ref now => some ((w.closeSession ref now).connectGivenUp ref)
  | .connectedSnapshot now => some (w.snapshot now)

/-- A client of the given port and id, before any connection. -/
def initialWorld (port clientId : ℤ) : World where
  heap _ := { port, clientId }
  fresh := 0
  client := { port, clientId }
  holder := none
  waiting := []
  reconnecting := []

/-- Only connectors changed, and what the client records of them besides its own id. -/
structure Frame (w w' : World) : Prop where
  holder : w'.holder = w.holder
  waiting : w'.waiting = w.waiting
  reconnecting : w'.reconnecting = w.reconnecting
  fresh : w'.fresh = w.fresh
  connector : w'.client.connector = w.client.connector
  clientId : w'.client.clientId = w.client.clientId
  port : w'.client.port = w.client.port

section Facts

variable {w w' w'' : World} {i j : ℕ} {a : Attempt}

theorem Frame.refl (w : World) : Frame w w := ⟨rfl, rfl, rfl, rfl, rfl, rfl, rfl⟩

theorem Frame.trans (h : Frame w w') (h' : Frame w' w'') : Frame w w'' :=
  ⟨h'.holder.trans h.holder, h'.waiting.trans h.waiting, h'.reconnecting.trans h.reconnecting,
    h'.fresh.trans h.fresh, h'.connector.trans h.connector, h'.clientId.trans h.clientId,
    h'.port.trans h.port⟩

theorem frame_set (w : World) (i : ℕ) (c : IbConnector) : Frame w (w.set i c) :=
  ⟨rfl, rfl, rfl, rfl, rfl, rfl, rfl⟩

@[simp] theorem set_heap_self (c : IbConnector) : (w.set i c).heap i = c := by
  simp [World.set]

theorem set_heap_other (c : IbConnector) (h : j ≠ i) : (w.set i c).heap j = w.heap j := by
  simp [World.set, h]

theorem frame_closeSession (w : World) (i : ℕ) (now : ℚ) : Frame w (w.closeSession i now) := by
  unfold World.closeSession
  dsimp only
  split
  · split
    · exact ⟨rfl, rfl, rfl, rfl, rfl, rfl, rfl⟩
    · exact ⟨rfl, rfl, rfl, rfl, rfl, rfl, rfl⟩
  · exact .refl w

theorem closeSession_closed (w : World) (i : ℕ) (now : ℚ) :
    ((w.closeSession i now).heap i).ibConnected = false := by
  cases hc : (w.heap i).ibConnected with
  | true => simp [World.closeSession, hc]
  | false => simp [World.closeSession, hc]

theorem closeSession_other (now : ℚ) (h : j ≠ i) : (w.closeSession i now).heap j = w.heap j := by
  cases hc : (w.heap i).ibConnected with
  | true => simp [World.closeSession, hc, set_heap_other _ h]
  | false => simp [World.closeSession, hc]

theorem frame_connectorDisconnect (w : World) (i : ℕ) (now : ℚ) :
    Frame w (w.connectorDisconnect i now) := by
  unfold World.connectorDisconnect
  dsimp only
  split
  · exact (frame_set w i _).trans ((frame_closeSession _ i now).trans (frame_set _ i _))
  · exact .refl w

/-- A connector whose flag is up is left without a session. -/
theorem connectorDisconnect_closed (now : ℚ) (h : (w.heap i).connected = true) :
    ((w.connectorDisconnect i now).heap i).ibConnected = false := by
  simp only [World.connectorDisconnect, h, if_true, set_heap_self]
  exact closeSession_closed _ i now

theorem connectorDisconnect_down (now : ℚ) (h : (w.heap i).connected = false) :
    w.connectorDisconnect i now = w := by
  simp [World.connectorDisconnect, h]

theorem connectorDisconnect_other (now : ℚ) (h : j ≠ i) :
    (w.connectorDisconnect i now).heap j = w.heap j := by
  unfold World.connectorDisconnect
  dsimp only
  split
  · rw [set_heap_other _ h, closeSession_other now h, set_heap_other _ h]
  · rfl

theorem frame_attemptOutcome (w : World) (a : Attempt) (o : AttemptOutcome) (now : ℚ) :
    Frame w (w.attemptOutcome a o now) := by
  unfold World.attemptOutcome
  split
  · exact frame_closeSession w a.ref now
  · exact frame_set w a.ref _
  · exact (frame_closeSession w a.ref now).trans (frame_set _ a.ref _)

theorem attemptOutcome_other (a : Attempt) (o : AttemptOutcome) (now : ℚ) (h : j ≠ a.ref) :
    (w.attemptOutcome a o now).heap j = w.heap j := by
  unfold World.attemptOutcome
  split
  · exact closeSession_other now h
  · exact set_heap_other _ h
  · rw [World.connectGivenUp, set_heap_other _ h, closeSession_other now h]

/-- Only a successful attempt leaves a session, and then the flag is up. -/
theorem attemptOutcome_session (a : Attempt) (o : AttemptOutcome) (now : ℚ)
    (h : ((w.attemptOutcome a o now).heap a.ref).ibConnected = true) :
    a.scan.next o = .ended true ∧ ((w.attemptOutcome a o now).heap a.ref).connected = true ∧
      (w.heap a.ref).ibConnected = true := by
  unfold World.attemptOutcome at h ⊢
  split at h
  · simp [closeSession_closed] at h
  · next hn =>
    rw [World.connectSucceeded, set_heap_self] at h
    exact ⟨hn, by simp [World.connectSucceeded], h⟩
  · rw [World.connectGivenUp, set_heap_self] at h
    simp [closeSession_closed] at h

theorem frame_snapshot (w : World) (now : ℚ) : Frame w (w.snapshot now) := by
  unfold World.snapshot
  split
  · exact .refl w
  · split
    · exact .refl w
    · dsimp only
      split
      · exact .refl w
      · exact ⟨rfl, rfl, rfl, rfl, rfl, rfl, rfl⟩

theorem disconnectLocked_connector (w : World) (now : ℚ) :
    (w.disconnectLocked now).client.connector = none ∧
      (w.disconnectLocked now).holder = w.holder ∧
        (w.disconnectLocked now).waiting = w.waiting := by
  unfold World.disconnectLocked
  split
  · next hn => exact ⟨hn, rfl, rfl⟩
  · next i hi =>
    have hf := frame_connectorDisconnect w i now
    exact ⟨rfl, hf.holder, hf.waiting⟩

end Facts

/-- What each event can do. -/
inductive Step (w : World) : Event → World → Prop where
  | ensureConnected {m} (hup : w.clientConnected = true) : Step w (.ensureCall m) w
  | ensureQueued {m} : Step w (.ensureCall m) { w with waiting := w.waiting ++ [.ensure m] }
  | disconnectQueued : Step w .disconnectCall { w with waiting := w.waiting ++ [.disconnect] }
  | grantEnsure {m rest now} (hholder : w.holder = none) (hwait : w.waiting = .ensure m :: rest) :
      Step w (.grant now) ({ w with waiting := rest }.ensureLocked m now)
  | grantDisconnect {rest now} (hholder : w.holder = none)
      (hwait : w.waiting = .disconnect :: rest) :
      Step w (.grant now) ({ w with waiting := rest }.disconnectLocked now)
  | attemptOpens {a} (ha : w.holder = some a) :
      Step w .attemptOpens { w.openSession a.ref with holder := some { a with opened := true } }
  | attemptAgain {a o now scan} (ha : w.holder = some a) (hnext : a.scan.next o = .again scan) :
      Step w (.attemptEnds o now)
        { w.attemptOutcome a o now with holder := some { a with scan, opened := false } }
  | attemptEnded {a o now ok} (ha : w.holder = some a) (hnext : a.scan.next o = .ended ok) :
      Step w (.attemptEnds o now) ((w.attemptOutcome a o now).ensureEnds a.ref ok now)
  | methodConnected {ref barsOnly} (hup : (w.heap ref).isConnected = true) :
      Step w (.methodCall ref barsOnly) w
  | methodReconnects {ref barsOnly} (hdown : (w.heap ref).isConnected = false) :
      Step w (.methodCall ref barsOnly)
        { w with reconnecting := w.reconnecting ++
          [⟨ref, .start (w.heap ref).port (w.heap ref).clientId none 1, barsOnly, false⟩] }
  | reconnectOpens {k a} (ha : w.reconnecting[k]? = some a) :
      Step w (.reconnectOpens k) { w.openSession a.ref with
        reconnecting := w.reconnecting.set k { a with opened := true } }
  | reconnectAgain {k a o now scan} (ha : w.reconnecting[k]? = some a)
      (hnext : a.scan.next o = .again scan) :
      Step w (.reconnectEnds k o now) { w.attemptOutcome a o now with
        reconnecting := w.reconnecting.set k { a with scan, opened := false } }
  | reconnectEnded {k a o now ok} (ha : w.reconnecting[k]? = some a)
      (hnext : a.scan.next o = .ended ok) :
      Step w (.reconnectEnds k o now)
        { w.attemptOutcome a o now with reconnecting := w.reconnecting.eraseIdx k }
  | drop {ref now} : Step w (.drop ref now) (w.closeSession ref now)
  | markDropped {ref now} :
      Step w (.markDropped ref now) ((w.closeSession ref now).connectGivenUp ref)
  | connectedSnapshot {now} : Step w (.connectedSnapshot now) (w.snapshot now)

theorem step_cases {w w' : World} {e : Event} (h : step w e = some w') : Step w e w' := by
  cases e with
  | ensureCall m =>
    obtain rfl := Option.some.inj h
    split
    · next hup => exact .ensureConnected hup
    · exact .ensureQueued
  | disconnectCall =>
    obtain rfl := Option.some.inj h
    exact .disconnectQueued
  | grant now =>
    simp only [step] at h
    split at h
    · next m rest hholder hwait =>
      obtain rfl := Option.some.inj h
      exact .grantEnsure hholder hwait
    · next rest hholder hwait =>
      obtain rfl := Option.some.inj h
      exact .grantDisconnect hholder hwait
    · cases h
  | attemptOpens =>
    obtain ⟨a, ha, rfl⟩ := Option.map_eq_some_iff.mp h
    exact .attemptOpens ha
  | attemptEnds o now =>
    obtain ⟨a, ha, h⟩ := Option.bind_eq_some_iff.mp h
    split at h
    · split at h
      · next scan hnext =>
        obtain rfl := Option.some.inj h
        exact .attemptAgain ha hnext
      · next ok hnext =>
        obtain rfl := Option.some.inj h
        exact .attemptEnded ha hnext
    · cases h
  | methodCall ref barsOnly =>
    simp only [step] at h
    split at h
    · obtain rfl := Option.some.inj h
      split
      · next hup => exact .methodConnected hup
      · next hdown => exact .methodReconnects (Bool.eq_false_iff.mpr hdown)
    · cases h
  | reconnectOpens k =>
    obtain ⟨a, ha, rfl⟩ := Option.map_eq_some_iff.mp h
    exact .reconnectOpens ha
  | reconnectEnds k o now =>
    obtain ⟨a, ha, h⟩ := Option.bind_eq_some_iff.mp h
    split at h
    · split at h
      · next scan hnext =>
        obtain rfl := Option.some.inj h
        exact .reconnectAgain ha hnext
      · next ok hnext =>
        obtain rfl := Option.some.inj h
        exact .reconnectEnded ha hnext
    · cases h
  | drop ref now =>
    obtain rfl := Option.some.inj h
    exact .drop
  | markDropped ref now =>
    obtain rfl := Option.some.inj h
    exact .markDropped
  | connectedSnapshot now =>
    obtain rfl := Option.some.inj h
    exact .connectedSnapshot

end BifrostSocket.IbClients
