import BifrostSocket.ConnectAttempts
import BifrostSocket.TransitionRuns

/-!
# The commission handler over a connector's sessions

A successful `connect` registers `_on_commission_report`, and `disconnect` removes it where the
connection flag is still up. A drop takes the flag down and leaves the registration behind.
-/

namespace BifrostSocket.CommissionRegistrations
open ConnectScans IbClients ConnectAttempts TransitionRuns

section Operations

def IbConnector.onIbDisconnected (c : IbConnector) : IbConnector := { c with connected := false }

/-- `ib.disconnect()`: where a session ends, `disconnectedEvent` runs its handlers. -/
def IbConnector.ibDisconnect (c : IbConnector) (fault : CallFault) : IbConnector :=
  if fault = .before ∨ c.ibConnected = false then c
  else
    let ended := { c with ibConnected := false }
    if c.ownHandlers = 0 then ended else IbConnector.onIbDisconnected ended

/-- The socket is gone, and `disconnectedEvent` fires. -/
def IbConnector.socketDrop (c : IbConnector) : IbConnector :=
  IbConnector.onIbDisconnected { c with ibConnected := false }

def IbConnector.markConnectionDropped (c : IbConnector) (fault : CallFault) : IbConnector :=
  let closed := if c.ibConnected then IbConnector.ibDisconnect c fault else c
  { closed with connected := false }

def IbConnector.disconnect (c : IbConnector) (fault : CallFault) : IbConnector :=
  if c.connected then
    let unregistered :=
      if c.commissionRegistered then
        { c with commissionHandlers := c.commissionHandlers - 1, commissionRegistered := false }
      else c
    { IbConnector.ibDisconnect unregistered fault with connected := false }
  else c

/-- What may happen to a connector. `results` are the results of a call's attempts, and `fault`
is how `ib.disconnect()` raises. -/
inductive Operation where
  | connect (maxAttempts : Option ℤ) (barsOnly : Bool) (maxPortSteps : ℤ)
      (results : ℕ → AttemptResult)
  | disconnect (fault : CallFault)
  | drop
  | markConnectionDropped (fault : CallFault)

def operate (lower : String → String) (c : IbConnector) : Operation → IbConnector
  | .connect maxAttempts barsOnly maxPortSteps results =>
    (ConnectAttempts.connect lower c maxAttempts barsOnly maxPortSteps results).connector
  | .disconnect fault => IbConnector.disconnect c fault
  | .drop => IbConnector.socketDrop c
  | .markConnectionDropped fault => IbConnector.markConnectionDropped c fault

def Step (lower : String → String) (c : IbConnector) (op : Operation) (c' : IbConnector) : Prop :=
  operate lower c op = c'

theorem world_closeSession_heap_eq (w : World) (i : ℕ) (now : ℚ) :
    (w.closeSession i now).heap i = IbConnector.ibDisconnect (w.heap i) .none := by
  unfold World.closeSession IbConnector.ibDisconnect
  dsimp only
  by_cases hib : (w.heap i).ibConnected = true
  · have hcloses : ¬ (CallFault.none = .before ∨ (w.heap i).ibConnected = false) := by
      simp [hib]
    rw [if_pos hib, if_neg hcloses]
    rcases Nat.eq_zero_or_pos (w.heap i).ownHandlers with hown | hown
    · simp [World.set, hown]
    · simp [World.set, hown.ne', IbConnector.onIbDisconnected]
  · rw [if_neg hib, if_pos (.inr (Bool.eq_false_iff.mpr hib))]

theorem world_connectorDisconnect_heap (w : World) (i : ℕ) (now : ℚ) :
    (w.connectorDisconnect i now).heap i = IbConnector.disconnect (w.heap i) .none := by
  have hunregistered : ∀ c : IbConnector,
      { c with
        commissionRegistered := false
        commissionHandlers :=
          if c.commissionRegistered then c.commissionHandlers - 1 else c.commissionHandlers } =
      if c.commissionRegistered then
        { c with commissionHandlers := c.commissionHandlers - 1, commissionRegistered := false }
      else c := by
    intro c
    cases hreg : c.commissionRegistered with
    | true => rfl
    | false =>
      obtain ⟨⟩ := c
      simpa using hreg.symm
  unfold World.connectorDisconnect IbConnector.disconnect
  dsimp only
  split
  · rw [set_heap_self, world_closeSession_heap_eq, set_heap_self, hunregistered]
  · rfl

end Operations

section Effects

variable {lower : String → String} {results : ℕ → AttemptResult} {sc : ConnectScan} {k : ℕ}
  {l l' : List Attempted} {ok ok' barsOnly : Bool} {c : IbConnector} {maxAttempts : Option ℤ}
  {maxPortSteps : ℤ}

/-- The call makes attempts, and one of them succeeds. -/
def Connects (lower : String → String) (c : IbConnector) (maxAttempts : Option ℤ)
    (maxPortSteps : ℤ) (results : ℕ → AttemptResult) : Prop :=
  c.isConnected = false ∧ 1 ≤ maxAttempts.getD 10 ∧
    ∃ l, Scans lower results (.start c.port c.clientId maxAttempts maxPortSteps) 0 l true

theorem Scans.ok_unique (h : Scans lower results sc k l ok) (h' : Scans lower results sc k l' ok') :
    ok = ok' := by
  induction h generalizing l' with
  | ended hnext =>
    cases h' with
    | ended hnext' =>
      rw [hnext] at hnext'
      exact Next.ended.inj hnext'
    | again hnext' _ =>
      rw [hnext] at hnext'
      cases hnext'
  | again hnext _ ih =>
    cases h' with
    | ended hnext' =>
      rw [hnext] at hnext'
      cases hnext'
    | again hnext' htail' =>
      rw [hnext] at hnext'
      cases hnext'
      exact ih htail'

theorem portLoop_no_attempts {basePort baseId : ℤ} {steps rounds : ℕ} :
    portLoop lower basePort baseId 0 steps results rounds k = ([], false) := by
  induction rounds with
  | zero => rfl
  | succ rounds ih => simp [portLoop, attemptLoop, ih]

/-- What the attempts of a scan do to the registration: the successful one adds one, unless it
is for bars only. -/
theorem Scans.foldl_registration (h : Scans lower results sc k l ok) (c : IbConnector) :
    let c' := l.foldl (IbConnector.afterAttempt barsOnly) c
    c'.commissionHandlers = (if ok && !barsOnly then c.commissionHandlers + 1
      else c.commissionHandlers) ∧
    c'.commissionRegistered = (c.commissionRegistered || (ok && !barsOnly)) := by
  induction h generalizing c with
  | @ended sc k ok hnext =>
    have hok := (Scans.ended hnext).ok_iff
    simp only [List.mem_singleton, exists_eq_left, attemptAt] at hok
    cases hres : results k with
    | connected =>
      obtain rfl := hok.mpr hres
      cases barsOnly with
      | false => simp [attemptAt, IbConnector.afterAttempt, hres, IbConnector.connectSucceeded]
      | true => simp [attemptAt, IbConnector.afterAttempt, hres, IbConnector.connectSucceeded]
    | raised e =>
      have hfalse : ok = false := by
        rw [← Bool.not_eq_true, hok, hres]
        simp
      simp [attemptAt, IbConnector.afterAttempt, hres, IbConnector.attemptRaised, hfalse]
  | @again sc sc' k l ok hnext _ ih =>
    have hraised := ne_connected_of_again hnext
    rw [List.foldl_cons]
    cases hres : results k with
    | connected => exact absurd hres hraised
    | raised e =>
      have hih := ih (IbConnector.afterAttempt barsOnly c (attemptAt results sc k))
      simpa [attemptAt, IbConnector.afterAttempt, hres, IbConnector.attemptRaised] using hih

/-- A call in which an attempt succeeds adds a registration, unless it is for bars only. -/
theorem connect_registers (h : Connects lower c maxAttempts maxPortSteps results) :
    let c' := (connect lower c maxAttempts barsOnly maxPortSteps results).connector
    c'.commissionHandlers =
      (if barsOnly then c.commissionHandlers else c.commissionHandlers + 1) ∧
    c'.commissionRegistered = (c.commissionRegistered || !barsOnly) := by
  obtain ⟨hc, hlimit, l, hsuccess⟩ := h
  have hscan := @connect_scans lower results barsOnly c maxAttempts maxPortSteps hc hlimit
  have hok := Scans.ok_unique hscan hsuccess
  have hfold := @Scans.foldl_registration _ _ _ _ _ _ barsOnly hscan c
  simp only [connect, hc, Bool.false_eq_true, if_false] at hok hfold ⊢
  rw [hok] at hfold
  simp only [hok, if_true]
  cases barsOnly with
  | false => simpa using hfold
  | true => simpa using hfold

theorem connect_keeps (h : ¬ Connects lower c maxAttempts maxPortSteps results) :
    let c' := (connect lower c maxAttempts barsOnly maxPortSteps results).connector
    c'.commissionHandlers = c.commissionHandlers ∧
      c'.commissionRegistered = c.commissionRegistered := by
  cases hc : c.isConnected with
  | true => simp [connect, hc]
  | false =>
    by_cases hlimit : 1 ≤ maxAttempts.getD 10
    · have hscan := @connect_scans lower results barsOnly c maxAttempts maxPortSteps hc hlimit
      have hfold := @Scans.foldl_registration _ _ _ _ _ _ barsOnly hscan c
      have hok : (connect lower c maxAttempts barsOnly maxPortSteps results).ok = false := by
        rw [← Bool.not_eq_true]
        intro htrue
        dsimp only at hscan
        rw [htrue] at hscan
        exact h ⟨hc, hlimit, _, hscan⟩
      simp only [connect, hc, Bool.false_eq_true, if_false] at hok hfold ⊢
      simpa [hok] using hfold
    · have hzero : (maxAttempts.getD 10).toNat = 0 := by omega
      simp [connect, hc, hzero, portLoop_no_attempts]

end Effects

section Runs

variable {lower : String → String} {c c' : IbConnector} {op : Operation}

/-- The handler is registered at most once, and not after `disconnect`. -/
def HandledOnce (op : Operation) (c' : IbConnector) : Prop :=
  c'.commissionHandlers ≤ 1 ∧ ∀ fault, op = .disconnect fault → c'.commissionHandlers = 0

/-- A connect that registers, and a disconnect of a connector whose flag is down, find nothing
registered. -/
def FindsUnregistered (lower : String → String) (c : IbConnector) : Operation → Prop
  | .connect maxAttempts barsOnly maxPortSteps results =>
    Connects lower c maxAttempts maxPortSteps results → barsOnly = false →
      c.commissionRegistered = false
  | .disconnect _ => c.connected = false → c.commissionRegistered = false
  | .drop | .markConnectionDropped _ => True

/-- The flag counts the registrations. -/
def Counted (c : IbConnector) : Prop :=
  c.commissionHandlers = if c.commissionRegistered then 1 else 0

theorem Counted.le_one (h : Counted c) : c.commissionHandlers ≤ 1 := by
  rw [h]
  split
  · exact le_rfl
  · exact Nat.zero_le _

theorem Counted.eq_zero_iff (h : Counted c) :
    c.commissionHandlers = 0 ↔ c.commissionRegistered = false := by
  rw [h]
  cases c.commissionRegistered with
  | true => simp
  | false => simp

theorem ibDisconnect_registration (c : IbConnector) (fault : CallFault) :
    (IbConnector.ibDisconnect c fault).commissionHandlers = c.commissionHandlers ∧
      (IbConnector.ibDisconnect c fault).commissionRegistered = c.commissionRegistered := by
  unfold IbConnector.ibDisconnect
  split
  · exact ⟨rfl, rfl⟩
  · dsimp only
    split
    · exact ⟨rfl, rfl⟩
    · exact ⟨rfl, rfl⟩

theorem markConnectionDropped_registration (c : IbConnector) (fault : CallFault) :
    (IbConnector.markConnectionDropped c fault).commissionHandlers = c.commissionHandlers ∧
      (IbConnector.markConnectionDropped c fault).commissionRegistered =
        c.commissionRegistered := by
  unfold IbConnector.markConnectionDropped
  cases c.ibConnected with
  | true => exact ibDisconnect_registration c fault
  | false => exact ⟨rfl, rfl⟩

theorem disconnect_registration (h : Counted c) (fault : CallFault) :
    (c.connected = true → (IbConnector.disconnect c fault).commissionHandlers = 0 ∧
      (IbConnector.disconnect c fault).commissionRegistered = false) ∧
    (c.connected = false → IbConnector.disconnect c fault = c) := by
  constructor
  · intro hup
    rw [IbConnector.disconnect, if_pos hup]
    dsimp only
    rw [(ibDisconnect_registration _ fault).1, (ibDisconnect_registration _ fault).2]
    cases hreg : c.commissionRegistered with
    | true =>
      rw [Counted, hreg] at h
      simp [h]
    | false =>
      rw [Counted, hreg] at h
      simpa [hreg] using h
  · intro hdown
    rw [IbConnector.disconnect, if_neg (by simp [hdown])]

/-- Where the flag counts the registrations, an operation keeps the handler registered at most
once exactly when it finds nothing registered that it must not find. -/
theorem handledOnce_iff (h : Counted c) (hs : Step lower c op c') :
    HandledOnce op c' ↔ FindsUnregistered lower c op := by
  obtain rfl := hs
  have hle := h.le_one
  cases op with
  | connect maxAttempts barsOnly maxPortSteps results =>
    by_cases hconn : Connects lower c maxAttempts maxPortSteps results
    · have hreg := (@connect_registers lower results barsOnly c maxAttempts maxPortSteps hconn).1
      simp only [HandledOnce, FindsUnregistered, operate, hreg, hconn, true_imp_iff]
      cases barsOnly with
      | true => simpa using hle
      | false => simpa using h.eq_zero_iff
    · have hkeep := (@connect_keeps lower results barsOnly c maxAttempts maxPortSteps hconn).1
      simpa [HandledOnce, FindsUnregistered, operate, hkeep, hconn] using hle
  | disconnect fault =>
    obtain ⟨hup, hdown⟩ := disconnect_registration h fault
    cases hconn : c.connected with
    | true => simp [HandledOnce, FindsUnregistered, operate, hup hconn, hconn]
    | false =>
      simp [HandledOnce, FindsUnregistered, operate, hdown hconn, hconn, hle, h.eq_zero_iff]
  | drop => exact ⟨fun _ => trivial, fun _ => ⟨hle, fun _ heq => by cases heq⟩⟩
  | markConnectionDropped fault =>
    have hkeep := (markConnectionDropped_registration c fault).1
    simpa [HandledOnce, FindsUnregistered, operate, hkeep] using hle

theorem counted_step (h : Counted c) (hs : Step lower c op c') (honce : HandledOnce op c') :
    Counted c' := by
  have hfinds := (handledOnce_iff h hs).mp honce
  obtain rfl := hs
  cases op with
  | connect maxAttempts barsOnly maxPortSteps results =>
    by_cases hconn : Connects lower c maxAttempts maxPortSteps results
    · have hreg := @connect_registers lower results barsOnly c maxAttempts maxPortSteps hconn
      rw [Counted, operate, hreg.1, hreg.2]
      cases barsOnly with
      | true => simpa [Counted] using h
      | false =>
        have hzero := h.eq_zero_iff.mpr (hfinds hconn rfl)
        simp [hzero]
    · have hkeep := @connect_keeps lower results barsOnly c maxAttempts maxPortSteps hconn
      rw [Counted, operate, hkeep.1, hkeep.2]
      exact h
  | disconnect fault =>
    obtain ⟨hup, hdown⟩ := disconnect_registration h fault
    cases hconn : c.connected with
    | true =>
      rw [Counted, operate, (hup hconn).1, (hup hconn).2]
      rfl
    | false =>
      rw [operate, hdown hconn]
      exact h
  | drop => exact h
  | markConnectionDropped fault =>
    have hkeep := markConnectionDropped_registration c fault
    rw [Counted, operate, hkeep.1, hkeep.2]
    exact h

/-- Over all operations on a connector, the commission handler is registered at most once and
not after `disconnect`, if and only if no connect registers it again and no disconnect comes
after a drop that left it behind. -/
theorem commission_handled_once_iff (lower : String → String) (port clientId : ℤ)
    (ops : List Operation) (c : IbConnector) :
    Run (fun c op c' => Step lower c op c' ∧ HandledOnce op c') { port, clientId } ops c ↔
      Run (guarded (FindsUnregistered lower) (Step lower)) { port, clientId } ops c := by
  refine Run.congr (P := Counted) (fun c op c' h hs => counted_step h hs.1 hs.2)
    (fun c op c' h => ?_) rfl
  constructor
  · rintro ⟨hs, honce⟩
    exact ⟨(handledOnce_iff h hs).mp honce, hs⟩
  · rintro ⟨hfinds, hs⟩
    exact ⟨hs, (handledOnce_iff h hs).mpr hfinds⟩

end Runs

section Instances

/-- A call of `connect` whose first attempt succeeds. -/
def connects : Operation := .connect none false 1 fun _ => .connected

/-- After a drop, a reconnect registers the handler a second time, and a disconnect leaves it
registered. -/
theorem reconnect_registers_again :
    ¬ (∀ ops c, Run (Step id) { port := 4001, clientId := 5 } ops c →
      c.commissionHandlers ≤ 1) ∧
    ¬ (∀ ops fault c, Run (Step id) { port := 4001, clientId := 5 } (ops ++ [.disconnect fault]) c →
      c.commissionHandlers = 0) := by
  constructor
  · intro hall
    have hrun := hall [connects, .drop, connects] _ (.cons rfl (.cons rfl (.cons rfl (.nil _))))
    revert hrun
    decide
  · intro hall
    have hrun := hall [connects, .drop] .none _ (.cons rfl (.cons rfl (.cons rfl (.nil _))))
    revert hrun
    decide

end Instances

end BifrostSocket.CommissionRegistrations
