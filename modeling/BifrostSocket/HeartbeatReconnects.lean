import Mathlib.Data.Rat.Defs
import Mathlib.Algebra.Order.Ring.Rat
import Mathlib.Data.List.TakeDrop
import Mathlib.Tactic.Common

/-!
# Heartbeat reconnects of the operator and of the account agent

The operator's main loop chooses one reconnect job at a heartbeat, the agent's probe loop builds
a list of targets; both ask the same clock whether a heartbeat fires. An iteration reads the
time and the connectivity of the slots, and its result is what it reconnects.
-/

namespace BifrostSocket.HeartbeatReconnects

def maxConnectAttemptsPerHeartbeat : ℕ := 1

structure ServiceHeartbeatClock where
  intervalSec : ℚ
  lastAt : ℚ
  deriving DecidableEq

namespace ServiceHeartbeatClock

/-- Whether a service heartbeat fires, and the clock after it. -/
def tick (c : ServiceHeartbeatClock) (now : ℚ) : Bool × ServiceHeartbeatClock :=
  if c.lastAt ≤ 0 then (false, { c with lastAt := now })
  else if now - c.lastAt ≥ c.intervalSec then (true, { c with lastAt := now })
  else (false, c)

def reconnectHintPart (slotLabel : String) (clientId : ℤ) : String :=
  s!"{slotLabel} (client {clientId})"

def reconnectHintJoin (parts : List String) : String :=
  ", ".intercalate (parts.filter (· ≠ ""))

end ServiceHeartbeatClock

section Iterations

inductive Slot where
  | host | secondary
  deriving DecidableEq

def Slot.label : Slot → String
  | .host => "Host"
  | .secondary => "Secondary"

/-- `_connected_state` and the client id of a slot's client. -/
structure SlotState where
  connected : Bool
  clientId : ℤ
  deriving DecidableEq

/-- What an iteration reads. There is no secondary slot if none is configured. -/
structure Observation where
  now : ℚ
  host : SlotState
  secondary : Option SlotState
  deriving DecidableEq

/-- A call of `ensure_connected` on the slot's client, capped by the connect timeout. -/
structure HeartbeatReconnectTarget where
  slot : Slot
  clientId : ℤ
  maxConnectAttempts : ℕ
  deriving DecidableEq

def reconnectTarget (slot : Slot) (s : SlotState) : HeartbeatReconnectTarget :=
  ⟨slot, s.clientId, maxConnectAttemptsPerHeartbeat⟩

/-- What an iteration reconnects, and the hint in the health hash while it does. -/
structure Reconnects where
  targets : List HeartbeatReconnectTarget := []
  inProgress : String := ""
  deriving DecidableEq

def slotsConnectedSnapshot (o : Observation) : Bool × Option Bool :=
  (o.host.connected, o.secondary.map SlotState.connected)

def reconnectHint (t : HeartbeatReconnectTarget) : String :=
  ServiceHeartbeatClock.reconnectHintPart t.slot.label t.clientId

/-- The reconnect job of `run_ib_operator_loop` at a heartbeat. -/
def reconnectJob (o : Observation) : Option HeartbeatReconnectTarget :=
  let (hostOk, secOk) := slotsConnectedSnapshot o
  if !hostOk then some (reconnectTarget .host o.host)
  else if secOk.isSome && !secOk.getD false then o.secondary.map (reconnectTarget .secondary)
  else none

def operatorIteration (c : ServiceHeartbeatClock) (o : Observation) :
    Reconnects × ServiceHeartbeatClock :=
  (if (c.tick o.now).1 then
    match reconnectJob o with
    | some job => { targets := [job], inProgress := reconnectHint job }
    | none => {}
  else {}, (c.tick o.now).2)

/-- The targets of `_probe_loop` at a heartbeat. -/
def hbTargets (o : Observation) : List HeartbeatReconnectTarget :=
  let hostOk := o.host.connected
  let secOk := (o.secondary.map SlotState.connected).getD false
  (if !hostOk then [reconnectTarget .host o.host] else []) ++
    if o.secondary.isSome && !secOk then
      (o.secondary.map (reconnectTarget .secondary)).toList
    else []

def probeIteration (c : ServiceHeartbeatClock) (o : Observation) :
    Reconnects × ServiceHeartbeatClock :=
  (if (c.tick o.now).1 then
    { targets := hbTargets o
      inProgress := ServiceHeartbeatClock.reconnectHintJoin ((hbTargets o).map reconnectHint) }
  else {}, (c.tick o.now).2)

end Iterations

section Loops

variable (iteration : ServiceHeartbeatClock → Observation → Reconnects × ServiceHeartbeatClock)

/-- What the iterations of a loop reconnect, in order. -/
def loop : ServiceHeartbeatClock → List Observation → List Reconnects
  | _, [] => []
  | c, o :: os => (iteration c o).1 :: loop (iteration c o).2 os

abbrev operatorLoop := loop operatorIteration

abbrev probeLoop := loop probeIteration

/-- The clock as each iteration finds it. -/
def clocked : ServiceHeartbeatClock → List Observation → List (ServiceHeartbeatClock × Observation)
  | _, [] => []
  | c, o :: os => (c, o) :: clocked (c.tick o.now).2 os

/-- The observations at which a heartbeat fires. -/
def heartbeats (c : ServiceHeartbeatClock) (os : List Observation) : List Observation :=
  ((clocked c os).filter fun p => (p.1.tick p.2.now).1).map Prod.snd

variable {iteration} {c : ServiceHeartbeatClock} {o : Observation} {os : List Observation}

theorem mem_heartbeats : o ∈ heartbeats c os ↔
    ∃ c', (c', o) ∈ clocked c os ∧ (c'.tick o.now).1 = true := by
  simp [heartbeats]

theorem forall_heartbeats {P : Observation → Prop} : (∀ o ∈ heartbeats c os, P o) ↔
    ∀ p ∈ clocked c os, (p.1.tick p.2.now).1 = true → P p.2 := by
  constructor
  · rintro h ⟨c', o⟩ hp hfires
    exact h o (mem_heartbeats.mpr ⟨c', hp, hfires⟩)
  · intro h o ho
    obtain ⟨c', hp, hfires⟩ := mem_heartbeats.mp ho
    exact h _ hp hfires

theorem clocked_observation {p : ServiceHeartbeatClock × Observation} (h : p ∈ clocked c os) :
    p.2 ∈ os := by
  induction os generalizing c with
  | nil => cases h
  | cons o os ih =>
    rcases List.mem_cons.mp h with rfl | h
    · exact List.mem_cons_self
    · exact List.mem_cons_of_mem _ (ih h)

/-- A loop that leaves its clock to `tick` does at each iteration what that iteration does there. -/
theorem loop_eq_map (htick : ∀ c o, (iteration c o).2 = (c.tick o.now).2) :
    loop iteration c os = (clocked c os).map fun p => (iteration p.1 p.2).1 := by
  induction os generalizing c with
  | nil => rfl
  | cons o os ih => rw [loop, clocked, List.map_cons, htick, ih]

end Loops

section Promise

/-- The slot is configured and is observed disconnected. -/
def Observation.down (o : Observation) : Slot → Bool
  | .host => !o.host.connected
  | .secondary => o.secondary.any fun s => !s.connected

/-- The reconnects of a slot, each with the number of its connect attempts. -/
def Reconnects.attempts (r : Reconnects) (slot : Slot) : List ℕ :=
  (r.targets.filter fun t => t.slot = slot).map HeartbeatReconnectTarget.maxConnectAttempts

/-- What the lifecycle module promises of an iteration: at a heartbeat, one attempt for each slot
that is down, and otherwise none. -/
def promised (c : ServiceHeartbeatClock) (o : Observation) (slot : Slot) : List ℕ :=
  if (c.tick o.now).1 && o.down slot then [1] else []

/-- The promise for a whole run of iterations. -/
def promisedLoop (c : ServiceHeartbeatClock) (os : List Observation) : List (Slot → List ℕ) :=
  (clocked c os).map fun p => promised p.1 p.2

variable {c : ServiceHeartbeatClock} {o : Observation} {os : List Observation}

theorem probeIteration_attempts : (probeIteration c o).1.attempts = promised c o := by
  obtain ⟨now, ⟨hostOk, hostId⟩, secondary⟩ := o
  funext slot
  unfold probeIteration promised
  cases (c.tick now).1 with
  | false => rfl
  | true => cases slot <;> cases hostOk <;> rcases secondary with _ | ⟨_ | _, _⟩ <;> rfl

/-- The operator has one job, so that it leaves the secondary out while the host is down. -/
theorem operatorIteration_targets :
    (operatorIteration c o).1.targets = (probeIteration c o).1.targets.take 1 := by
  obtain ⟨now, ⟨hostOk, hostId⟩, secondary⟩ := o
  unfold operatorIteration probeIteration
  cases (c.tick now).1 with
  | false => rfl
  | true => cases hostOk <;> rcases secondary with _ | ⟨_ | _, _⟩ <;> rfl

theorem hbTargets_slots :
    (hbTargets o).map HeartbeatReconnectTarget.slot =
      [Slot.host, Slot.secondary].filter o.down := by
  obtain ⟨now, ⟨hostOk, hostId⟩, secondary⟩ := o
  cases hostOk <;> rcases secondary with _ | ⟨_ | _, _⟩ <;> rfl

/-- At a heartbeat the operator does what the account agent does unless both slots are down. -/
theorem operatorIteration_targets_iff :
    (operatorIteration c o).1.targets = (probeIteration c o).1.targets ↔
      ((c.tick o.now).1 = true → ¬ (o.down .host ∧ o.down .secondary)) := by
  rw [operatorIteration_targets, List.take_eq_self_iff]
  unfold probeIteration
  cases (c.tick o.now).1 with
  | false => simp
  | true =>
    rw [if_pos rfl, ← List.length_map HeartbeatReconnectTarget.slot, hbTargets_slots]
    cases hhost : o.down .host <;> cases hsecondary : o.down .secondary <;>
      simp [List.filter, hhost, hsecondary]

theorem operatorIteration_secondary (h : o.down .host = true) :
    (operatorIteration c o).1.attempts .secondary = [] := by
  obtain ⟨now, ⟨hostOk, hostId⟩, secondary⟩ := o
  unfold operatorIteration
  cases (c.tick now).1 with
  | false => rfl
  | true =>
    cases hostOk with
    | false => rfl
    | true => cases h

theorem operatorIteration_attempts_iff : (operatorIteration c o).1.attempts = promised c o ↔
    ((c.tick o.now).1 = true → ¬ (o.down .host ∧ o.down .secondary)) := by
  constructor
  · rintro h hfires ⟨hhost, hsecondary⟩
    have hone : promised c o .secondary = [1] := by simp [promised, hfires, hsecondary]
    rw [← h, operatorIteration_secondary hhost] at hone
    cases hone
  · intro h
    rw [← probeIteration_attempts]
    funext slot
    rw [Reconnects.attempts, operatorIteration_targets_iff.mpr h]
    rfl

theorem operatorLoop_secondary (h : ∀ o ∈ os, o.down .host = true) :
    ∀ r ∈ operatorLoop c os, r.attempts .secondary = [] := by
  rw [operatorLoop, loop_eq_map fun _ _ => rfl, List.forall_mem_map]
  intro p hp
  exact operatorIteration_secondary (h _ (clocked_observation hp))

/-- In every run of iterations, both loops reconnect each slot that is down at a heartbeat once,
with one attempt, and make the same reconnects, if and only if at no heartbeat both slots are
down. -/
theorem heartbeat_reconnects_alike_iff (c : ServiceHeartbeatClock) (os : List Observation) :
    ((operatorLoop c os).map Reconnects.attempts = promisedLoop c os ∧
      (probeLoop c os).map Reconnects.attempts = promisedLoop c os ∧
      (operatorLoop c os).map Reconnects.targets = (probeLoop c os).map Reconnects.targets) ↔
      ∀ o ∈ heartbeats c os, ¬ (o.down .host ∧ o.down .secondary) := by
  rw [operatorLoop, probeLoop, loop_eq_map fun _ _ => rfl, loop_eq_map fun _ _ => rfl,
    forall_heartbeats]
  simp only [promisedLoop, List.map_map, List.map_inj_left, Function.comp_apply,
    operatorIteration_attempts_iff, probeIteration_attempts, operatorIteration_targets_iff]
  simp

/-- Both slots stay down for two heartbeats, and the operator never tries the secondary. -/
theorem secondary_starved :
    let c : ServiceHeartbeatClock := ⟨30, 100⟩
    let os : List Observation :=
      [⟨130, ⟨false, 100⟩, some ⟨false, 102⟩⟩, ⟨160, ⟨false, 100⟩, some ⟨false, 102⟩⟩]
    (os.map Observation.now).IsChain (· ≤ ·) ∧
      ¬ ((operatorLoop c os).map Reconnects.attempts = promisedLoop c os ∧
        (probeLoop c os).map Reconnects.attempts = promisedLoop c os ∧
        (operatorLoop c os).map Reconnects.targets = (probeLoop c os).map Reconnects.targets) := by
  refine ⟨by decide, fun h => ?_⟩
  have hfirst := congrFun (List.cons.inj h.1).1 .secondary
  revert hfirst
  decide +kernel

end Promise

end BifrostSocket.HeartbeatReconnects
