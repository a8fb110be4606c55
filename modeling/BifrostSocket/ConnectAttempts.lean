import BifrostSocket.IbClients
import Mathlib.Data.List.Infix
import Mathlib.Data.List.Nodup
import Mathlib.Tactic.Ring

/-!
# The attempts of one `connect`

The double loop of `connect` makes the attempts of the connect scan, one after the other. From
the scan follow the order of the attempts, where they end, and what is left in the connector.
`lower` stands for `str.lower`.
-/

namespace BifrostSocket.ConnectAttempts
open ConnectScans IbClients

section Loops

/-- An exception of an attempt, and whether the `IB` object is connected when it is caught. -/
structure AttemptError where
  errno : Option ℤ
  message : Option String
  text : String
  leftConnected : Bool
  deriving DecidableEq

inductive AttemptResult where
  | connected
  | raised (e : AttemptError)
  deriving DecidableEq

structure Attempted where
  port : ℤ
  clientId : ℤ
  result : AttemptResult
  deriving DecidableEq

/-- `needle in text`. -/
def inText (needle text : String) : Bool := decide (needle.toList <:+: text.toList)

def isConnectionRefused (lower : String → String) (e : AttemptError) : Bool :=
  if e.errno.any fun en => decide (en ∈ [111, 61, 10061]) then true
  else
    let msg := lower (match e.message with
      | none => e.text
      | some m => if m = "" then e.text else m)
    inText "refus" msg || inText "connection refused" msg

/-- How a loop is left: by `break`, by `return`, or after its last round. -/
inductive LoopEnd where
  | broke
  | returned (ok : Bool)
  | exhausted
  deriving DecidableEq

variable (lower : String → String) (basePort baseId : ℤ) (limit steps : ℕ)
  (results : ℕ → AttemptResult)

/-- The loop over the client ids of a port, for the rounds that are left and the number of
attempts that were made before. -/
def attemptLoop (portStep : ℕ) : ℕ → ℕ → List Attempted × LoopEnd
  | 0, _ => ([], .exhausted)
  | rounds + 1, k =>
    let attempt := limit - (rounds + 1)
    let made : Attempted := ⟨basePort + portStep, baseId + attempt, results k⟩
    match results k with
    | .connected => ([made], .returned true)
    | .raised e =>
      if isConnectionRefused lower e then
        if portStep < steps - 1 then ([made], .broke) else ([made], .returned false)
      else if attempt < limit - 1 then
        let r := attemptLoop portStep rounds (k + 1)
        (made :: r.1, r.2)
      else if portStep < steps - 1 && isConnectionRefused lower e then ([made], .broke)
      else ([made], .returned false)

/-- The loop over the ports. -/
def portLoop : ℕ → ℕ → List Attempted × Bool
  | 0, _ => ([], false)
  | rounds + 1, k =>
    let r := attemptLoop lower basePort baseId limit steps results (steps - (rounds + 1)) limit k
    match r.2 with
    | .returned ok => (r.1, ok)
    | .broke | .exhausted =>
      let r' := portLoop rounds (k + r.1.length)
      (r.1 ++ r'.1, r'.2)

end Loops

section Connectors

/-- The connector after a successful attempt. -/
def IbConnector.connectSucceeded (c : IbConnector) (port clientId : ℤ) (barsOnly : Bool) :
    IbConnector :=
  { c with
    port
    clientId
    connected := true
    ibConnected := true
    disconnectEventRegistered := true
    ownHandlers := if c.disconnectEventRegistered then c.ownHandlers else c.ownHandlers + 1
    commissionRegistered := c.commissionRegistered || !barsOnly
    commissionHandlers := if barsOnly then c.commissionHandlers else c.commissionHandlers + 1 }

/-- The connector after an attempt that raised: a session that it left is ended, which
`disconnectedEvent` reports to a registered handler. -/
def IbConnector.attemptRaised (c : IbConnector) (e : AttemptError) : IbConnector :=
  { c with
    ibConnected := false
    connected := c.connected && !(e.leftConnected && c.ownHandlers != 0) }

def IbConnector.afterAttempt (barsOnly : Bool) (c : IbConnector) (a : Attempted) : IbConnector :=
  match a.result with
  | .connected => IbConnector.connectSucceeded c a.port a.clientId barsOnly
  | .raised e => IbConnector.attemptRaised c e

/-- What a call of `connect` does. -/
structure ConnectCall where
  attempts : List Attempted
  ok : Bool
  connector : IbConnector

def clampedSteps (maxPortSteps : ℤ) : ℕ := (max 1 (min 20 maxPortSteps)).toNat

def connect (lower : String → String) (c : IbConnector) (maxAttempts : Option ℤ)
    (barsOnly : Bool) (maxPortSteps : ℤ) (results : ℕ → AttemptResult) : ConnectCall :=
  if c.isConnected then ⟨[], true, c⟩
  else
    let limit := (maxAttempts.getD 10).toNat
    let steps := clampedSteps maxPortSteps
    let r := portLoop lower c.port c.clientId limit steps results steps 0
    let c' := r.1.foldl (IbConnector.afterAttempt barsOnly) c
    ⟨r.1, r.2, if r.2 then c' else { c' with connected := false }⟩

theorem world_connectSucceeded {w : World} {a : Attempt} (h : (w.heap a.ref).ibConnected = true) :
    w.connectSucceeded a = w.set a.ref
      (IbConnector.connectSucceeded (w.heap a.ref) a.scan.tryPort a.scan.tryId a.barsOnly) := by
  simp [World.connectSucceeded, IbConnector.connectSucceeded, h]

theorem world_closeSession_heap {w : World} {i : ℕ} {now : ℚ} {e : AttemptError}
    (h : e.leftConnected = (w.heap i).ibConnected) :
    (w.closeSession i now).heap i = IbConnector.attemptRaised (w.heap i) e := by
  obtain ⟨errno, message, text, leftConnected⟩ := e
  dsimp only at h
  unfold World.closeSession
  generalize hc : w.heap i = c at h ⊢
  cases c with
  | mk port clientId connected registered commission ibConnected own client handlers =>
    cases ibConnected with
    | false => simp_all [IbConnector.attemptRaised]
    | true => simp_all [World.set, IbConnector.attemptRaised, bne]

end Connectors

section Refinement

/-- The outcome of an attempt, as the scan distinguishes it. -/
def AttemptResult.outcome (lower : String → String) : AttemptResult → AttemptOutcome
  | .connected => .success
  | .raised e => if isConnectionRefused lower e then .refused else .failed

/-- The attempt that the scan makes next, when `k` were made before. -/
def attemptAt (results : ℕ → AttemptResult) (sc : ConnectScan) (k : ℕ) : Attempted :=
  ⟨sc.tryPort, sc.tryId, results k⟩

/-- The attempts of a scan and how it ends. -/
inductive Scans (lower : String → String) (results : ℕ → AttemptResult) :
    ConnectScan → ℕ → List Attempted → Bool → Prop where
  | ended {sc k ok} (h : sc.next ((results k).outcome lower) = .ended ok) :
      Scans lower results sc k [attemptAt results sc k] ok
  | again {sc sc' k l ok} (h : sc.next ((results k).outcome lower) = .again sc')
      (tail : Scans lower results sc' (k + 1) l ok) :
      Scans lower results sc k (attemptAt results sc k :: l) ok

variable {lower : String → String} {results : ℕ → AttemptResult} {sc : ConnectScan} {k : ℕ}

/-- The loop over the ids goes on with the scan until it ends or goes to the next port. The
second test for a refused connection is never reached by one. -/
theorem attemptLoop_scans {rounds : ℕ} (hv : sc.Valid) (hrounds : sc.attempt + rounds = sc.limit) :
    let r := attemptLoop lower sc.basePort sc.baseId sc.limit sc.steps results sc.portStep rounds k
    (∃ ok, r.2 = .returned ok ∧ Scans lower results sc k r.1 ok) ∨
      r.2 = .broke ∧ sc.portStep + 1 < sc.steps ∧
        ∀ l ok, Scans lower results { sc with portStep := sc.portStep + 1, attempt := 0 }
          (k + r.1.length) l ok → Scans lower results sc k (r.1 ++ l) ok := by
  induction rounds generalizing sc k with
  | zero =>
    have hattempt := hv.attempt
    omega
  | succ rounds ih =>
    have hattempt : sc.limit - (rounds + 1) = sc.attempt := by omega
    have hport := hv.portStep
    unfold attemptLoop
    rw [hattempt]
    cases hres : results k with
    | connected =>
      have hnext : sc.next ((results k).outcome lower) = .ended true := by
        rw [hres]
        rfl
      refine .inl ⟨true, rfl, ?_⟩
      simpa only [attemptAt, hres, ConnectScan.tryPort, ConnectScan.tryId] using Scans.ended hnext
    | raised e =>
      dsimp only
      have hmade : attemptAt results sc k =
          ⟨sc.basePort + sc.portStep, sc.baseId + sc.attempt, .raised e⟩ := by
        simp only [attemptAt, hres, ConnectScan.tryPort, ConnectScan.tryId]
      rw [← hmade]
      by_cases href : isConnectionRefused lower e = true
      · have hout : (results k).outcome lower = .refused := by
          simp only [hres, AttemptResult.outcome, href, if_true]
        rw [if_pos href]
        by_cases hlast : sc.portStep + 1 < sc.steps
        · rw [if_pos (by omega)]
          refine .inr ⟨rfl, hlast, fun l ok htail => .again ?_ htail⟩
          rw [hout, ConnectScan.next, if_pos hlast]
        · rw [if_neg (by omega)]
          refine .inl ⟨false, rfl, .ended ?_⟩
          rw [hout, ConnectScan.next, if_neg hlast]
      · have hout : (results k).outcome lower = .failed := by
          simp only [hres, AttemptResult.outcome, href, if_false, Bool.false_eq_true]
        rw [if_neg href]
        by_cases hmore : sc.attempt + 1 < sc.limit
        · have hagain : sc.next ((results k).outcome lower) =
              .again { sc with attempt := sc.attempt + 1 } := by
            rw [hout, ConnectScan.next, if_pos hmore]
          rw [if_pos (by omega)]
          have hleft : sc.attempt + 1 + rounds = sc.limit := by omega
          rcases ih (k := k + 1) (hv.next hagain) hleft with ⟨ok, hok, hscan⟩ | ⟨hbroke, hlt, hscan⟩
          · exact .inl ⟨ok, hok, .again hagain hscan⟩
          · refine .inr ⟨hbroke, hlt, fun l ok htail => .again hagain (hscan l ok ?_)⟩
            have hk : ∀ n, k + (n + 1) = k + 1 + n := fun n => by omega
            rw [List.length_cons, hk] at htail
            exact htail
        · rw [if_neg (by omega), if_neg (by simp [href])]
          refine .inl ⟨false, rfl, .ended ?_⟩
          rw [hout, ConnectScan.next, if_neg hmore]

theorem portLoop_scans {rounds : ℕ} (hv : sc.Valid) (hattempt : sc.attempt = 0)
    (hrounds : sc.portStep + rounds = sc.steps) :
    let r := portLoop lower sc.basePort sc.baseId sc.limit sc.steps results rounds k
    Scans lower results sc k r.1 r.2 := by
  induction rounds generalizing sc k with
  | zero =>
    have hport := hv.portStep
    omega
  | succ rounds ih =>
    have hstep : sc.steps - (rounds + 1) = sc.portStep := by omega
    unfold portLoop
    rw [hstep]
    dsimp only
    have hleft : sc.attempt + sc.limit = sc.limit := by omega
    rcases @attemptLoop_scans lower results sc k _ hv hleft with
      ⟨ok, hok, hscan⟩ | ⟨hbroke, hlt, hscan⟩
    · rw [hok]
      exact hscan
    · rw [hbroke]
      apply hscan
      have hv' : { sc with portStep := sc.portStep + 1, attempt := 0 : ConnectScan }.Valid :=
        ⟨(Nat.zero_le _).trans_lt hv.attempt, hlt⟩
      refine ih hv' rfl ?_
      dsimp only
      omega

end Refinement

section Spec

/-- How many of the attempts on this port failed without being refused. -/
def failuresOn (lower : String → String) (port : ℤ) (l : List Attempted) : ℕ :=
  l.countP fun a => decide (a.port = port ∧ a.result.outcome lower = .failed)

/-- What comes after an attempt: nothing after a success; the next port, with the base id,
after a refused one; the next id after another failure, until there were `limit` on the port.
`fails` are the failures on its port so far, and `result` is how the next attempt ends. -/
def specifiedNext (lower : String → String) (basePort baseId : ℤ) (limit steps fails : ℕ)
    (result : AttemptResult) (a : Attempted) : Option Attempted :=
  match a.result.outcome lower with
  | .success => none
  | .refused =>
    if a.port + 1 < basePort + steps then some ⟨a.port + 1, baseId, result⟩ else none
  | .failed => if fails < limit then some ⟨a.port, a.clientId + 1, result⟩ else none

/-- A call scans ports and ids in this order, and leaves the connector as the last attempt
says. -/
structure ScansInOrder (lower : String → String) (c : IbConnector) (limit steps : ℕ)
    (results : ℕ → AttemptResult) (call : ConnectCall) : Prop where
  first : call.attempts[0]? = some ⟨c.port, c.clientId, results 0⟩
  next : ∀ k a, call.attempts[k]? = some a → call.attempts[k + 1]? =
    specifiedNext lower c.port c.clientId limit steps
      (failuresOn lower a.port (call.attempts.take (k + 1))) (results (k + 1)) a
  distinct : (call.attempts.map fun a => (a.port, a.clientId)).Nodup
  bound : call.attempts.length ≤ limit * steps
  ok_iff : call.ok = true ↔ ∃ a ∈ call.attempts, a.result = .connected
  succeeded : ∀ a ∈ call.attempts, a.result = .connected →
    call.connector.port = a.port ∧ call.connector.clientId = a.clientId ∧
      call.connector.connected = true
  failed : call.ok = false → call.connector.port = c.port ∧
    call.connector.clientId = c.clientId ∧ call.connector.connected = false

end Spec

section Attempts

variable {lower : String → String} {results : ℕ → AttemptResult} {sc : ConnectScan} {k : ℕ}
  {l : List Attempted} {ok : Bool}

theorem Scans.head (h : Scans lower results sc k l ok) :
    l[0]? = some (attemptAt results sc k) := by
  cases h with
  | ended => rfl
  | again => rfl

theorem next_behind {o : AttemptOutcome} {sc' : ConnectScan} (h : sc.next o = .again sc') :
    (sc'.tryPort = sc.tryPort ∧ sc'.tryId = sc.tryId + 1 ∧ o = .failed ∧
        sc'.attempt = sc.attempt + 1) ∨
      sc'.tryPort = sc.tryPort + 1 ∧ sc'.tryId = sc.baseId ∧ o = .refused ∧ sc'.attempt = 0 := by
  cases o with
  | success => cases h
  | refused =>
    simp only [ConnectScan.next] at h
    split at h
    · obtain rfl := Next.again.inj h
      refine .inr ⟨?_, ?_, rfl, rfl⟩
      · simp only [ConnectScan.tryPort]
        push_cast
        ring
      · simp [ConnectScan.tryId]
    · cases h
  | failed =>
    simp only [ConnectScan.next] at h
    split at h
    · obtain rfl := Next.again.inj h
      refine .inl ⟨rfl, ?_, rfl, rfl⟩
      simp only [ConnectScan.tryId]
      push_cast
      ring
    · cases h

theorem Scans.behind (h : Scans lower results sc k l ok) :
    ∀ a ∈ l, a.port = sc.tryPort ∧ sc.tryId ≤ a.clientId ∨ sc.tryPort < a.port := by
  induction h with
  | @ended sc k ok _ =>
    intro a ha
    obtain rfl := List.mem_singleton.mp ha
    exact .inl ⟨rfl, le_rfl⟩
  | @again sc sc' k l ok hnext _ ih =>
    intro a ha
    rcases List.mem_cons.mp ha with rfl | ha
    · exact .inl ⟨rfl, le_rfl⟩
    · rcases next_behind hnext with ⟨hport, hid, -⟩ | ⟨hport, -⟩
      · rcases ih a ha with ⟨hap, hai⟩ | hap
        · exact .inl ⟨hap.trans hport, by omega⟩
        · exact .inr (by omega)
      · rcases ih a ha with ⟨hap, -⟩ | hap
        · exact .inr (by omega)
        · exact .inr (by omega)

theorem Scans.nodup (h : Scans lower results sc k l ok) :
    (l.map fun a => (a.port, a.clientId)).Nodup := by
  induction h with
  | ended _ => exact List.nodup_singleton _
  | @again sc sc' k l ok hnext htail ih =>
    rw [List.map_cons, List.nodup_cons]
    refine ⟨fun hmem => ?_, ih⟩
    obtain ⟨a, ha, heq⟩ := List.mem_map.mp hmem
    obtain ⟨hport, hid⟩ := Prod.mk.inj heq
    simp only [attemptAt] at hport hid
    rcases next_behind hnext with ⟨hport', hid', -⟩ | ⟨hport', -⟩
    · rcases htail.behind a ha with ⟨-, hai⟩ | hap
      · omega
      · omega
    · rcases htail.behind a ha with ⟨hap, -⟩ | hap
      · omega
      · omega

/-- The attempts that are left are those on this port and all on the ports behind it. -/
theorem Scans.length_le (h : Scans lower results sc k l ok) (hv : sc.Valid) :
    l.length + sc.attempt ≤ (sc.steps - sc.portStep) * sc.limit := by
  induction h with
  | @ended sc k ok _ =>
    have hattempt := hv.attempt
    have hport := hv.portStep
    have hone : 1 * sc.limit ≤ (sc.steps - sc.portStep) * sc.limit :=
      Nat.mul_le_mul_right _ (by omega)
    rw [List.length_singleton]
    omega
  | @again sc sc' k l ok hnext _ ih =>
    have ih := ih (hv.next hnext)
    obtain ⟨-, -, hlimit, hsteps⟩ := ConnectScan.next_again hnext
    have hattempt := hv.attempt
    have hport := hv.portStep
    rw [List.length_cons]
    cases ho : (results k).outcome lower with
    | success =>
      rw [ho] at hnext
      cases hnext
    | failed =>
      rw [ho, ConnectScan.next] at hnext
      split at hnext
      · obtain rfl := Next.again.inj hnext
        dsimp only at ih
        omega
      · cases hnext
    | refused =>
      rw [ho, ConnectScan.next] at hnext
      split at hnext
      · obtain rfl := Next.again.inj hnext
        dsimp only at ih
        obtain ⟨m, hm⟩ : ∃ m, sc.steps - sc.portStep = m + 1 :=
          ⟨sc.steps - sc.portStep - 1, by omega⟩
        have hm' : sc.steps - (sc.portStep + 1) = m := by omega
        rw [hm'] at ih
        rw [hm, Nat.succ_mul]
        omega
      · cases hnext

theorem outcome_success_iff {r : AttemptResult} :
    r.outcome lower = .success ↔ r = .connected := by
  cases r with
  | connected => simp [AttemptResult.outcome]
  | raised e =>
    cases href : isConnectionRefused lower e
    · simp [AttemptResult.outcome, href]
    · simp [AttemptResult.outcome, href]

theorem failuresOn_cons {port : ℤ} {a : Attempted} :
    failuresOn lower port (a :: l) =
      failuresOn lower port l +
        (if a.port = port ∧ a.result.outcome lower = .failed then 1 else 0) := by
  simp [failuresOn, List.countP_cons]

theorem specifiedNext_of_ended (h : sc.next ((results k).outcome lower) = .ended ok)
    (result : AttemptResult) :
    specifiedNext lower sc.basePort sc.baseId sc.limit sc.steps
      (sc.attempt + failuresOn lower sc.tryPort [attemptAt results sc k]) result
      (attemptAt results sc k) = none := by
  cases ho : (results k).outcome lower with
  | success => simp [specifiedNext, attemptAt, ho]
  | refused =>
    rw [ho, ConnectScan.next] at h
    split at h
    · cases h
    · next hlast =>
      have hport : ¬ sc.tryPort + 1 < sc.basePort + sc.steps := by
        rw [ConnectScan.tryPort]
        omega
      simp [specifiedNext, attemptAt, ho, hport]
  | failed =>
    rw [ho, ConnectScan.next] at h
    split at h
    · cases h
    · next hlast => simp [specifiedNext, attemptAt, ho, failuresOn, hlast]

theorem specifiedNext_of_again {sc' : ConnectScan} (hv : sc.Valid)
    (h : sc.next ((results k).outcome lower) = .again sc') (result : AttemptResult) :
    specifiedNext lower sc.basePort sc.baseId sc.limit sc.steps
      (sc.attempt + failuresOn lower sc.tryPort [attemptAt results sc k]) result
      (attemptAt results sc k) = some ⟨sc'.tryPort, sc'.tryId, result⟩ := by
  obtain ⟨hbase, -, hlimit, hsteps⟩ := ConnectScan.next_again h
  have hv' := hv.next h
  rcases next_behind h with ⟨hport, hid, ho, hattempt⟩ | ⟨hport, hid, ho, hattempt⟩
  · have hmore : sc.attempt + 1 < sc.limit := by
      have := hv'.attempt
      omega
    simp [specifiedNext, attemptAt, ho, hport, hid, failuresOn, hmore]
  · have hlast : sc.tryPort + 1 < sc.basePort + sc.steps := by
      have := hv'.portStep
      rw [ConnectScan.tryPort] at hport
      omega
    simp [specifiedNext, attemptAt, ho, hport, hid, hlast]

/-- After each attempt comes the specified one; on the scan's port, `sc.attempt` attempts
failed before. -/
theorem Scans.next_eq (h : Scans lower results sc k l ok) (hv : sc.Valid) (i : ℕ) (a : Attempted)
    (ha : l[i]? = some a) :
    l[i + 1]? = specifiedNext lower sc.basePort sc.baseId sc.limit sc.steps
      ((if a.port = sc.tryPort then sc.attempt else 0) + failuresOn lower a.port (l.take (i + 1)))
      (results (k + (i + 1))) a := by
  induction h generalizing i a with
  | @ended sc k ok hnext =>
    cases i with
    | succ i => cases ha
    | zero =>
      obtain rfl := Option.some.inj ha
      have hport : (attemptAt results sc k).port = sc.tryPort := rfl
      rw [hport, if_pos rfl]
      exact (specifiedNext_of_ended hnext _).symm
  | @again sc sc' k l ok hnext htail ih =>
    cases i with
    | zero =>
      obtain rfl := Option.some.inj ha
      have hport : (attemptAt results sc k).port = sc.tryPort := rfl
      rw [hport, if_pos rfl, List.getElem?_cons_succ, htail.head]
      exact (specifiedNext_of_again hv hnext _).symm
    | succ i =>
      obtain ⟨hbase, hid, hlimit, hsteps⟩ := ConnectScan.next_again hnext
      rw [List.getElem?_cons_succ] at ha
      have hk : k + 1 + (i + 1) = k + (i + 1 + 1) := by ring
      rw [List.getElem?_cons_succ, ih (hv.next hnext) i a ha, hbase, hid, hlimit, hsteps, hk,
        List.take_succ_cons, failuresOn_cons]
      congr 1
      -- the head counts where the scan stays on its port, and no later attempt is there else
      rcases next_behind hnext with ⟨hport, -, ho, hattempt⟩ | ⟨hport, -, ho, hattempt⟩
      · rw [hport, hattempt]
        by_cases hap : a.port = sc.tryPort
        · simp [attemptAt, ho, hap]
          ring
        · simp [attemptAt, ho, hap, Ne.symm hap]
      · have hap : a.port ≠ sc.tryPort := by
          rcases htail.behind a (List.mem_of_getElem? ha) with ⟨ha', -⟩ | ha'
          · omega
          · omega
        simp [attemptAt, ho, hattempt, hap]

theorem ne_connected_of_again {sc' : ConnectScan}
    (h : sc.next ((results k).outcome lower) = .again sc') : results k ≠ .connected := by
  intro hres
  rw [hres] at h
  cases h

theorem Scans.ok_iff (h : Scans lower results sc k l ok) :
    ok = true ↔ ∃ a ∈ l, a.result = .connected := by
  induction h with
  | @ended sc k ok hnext =>
    simp only [List.mem_singleton, exists_eq_left, attemptAt]
    rw [← @outcome_success_iff lower]
    cases ho : (results k).outcome lower with
    | success =>
      rw [ho] at hnext
      cases hnext
      simp
    | refused =>
      rw [ho, ConnectScan.next] at hnext
      split at hnext
      · cases hnext
      · cases hnext
        simp
    | failed =>
      rw [ho, ConnectScan.next] at hnext
      split at hnext
      · cases hnext
      · cases hnext
        simp
  | @again sc sc' k l ok hnext _ ih =>
    simp only [List.mem_cons, exists_eq_or_imp, attemptAt, ne_connected_of_again hnext, false_or]
    exact ih

end Attempts

section Calls

variable {lower : String → String} {results : ℕ → AttemptResult} {sc : ConnectScan} {k : ℕ}
  {l : List Attempted} {ok barsOnly : Bool} {c : IbConnector}

theorem foldl_afterAttempt_of_raised (h : ∀ a ∈ l, a.result ≠ .connected) :
    (l.foldl (IbConnector.afterAttempt barsOnly) c).port = c.port ∧
      (l.foldl (IbConnector.afterAttempt barsOnly) c).clientId = c.clientId := by
  induction l generalizing c with
  | nil => exact ⟨rfl, rfl⟩
  | cons a l ih =>
    rw [List.foldl_cons]
    obtain ⟨hport, hid⟩ := ih (c := IbConnector.afterAttempt barsOnly c a)
      fun b hb => h b (List.mem_cons_of_mem _ hb)
    have hkeep : (IbConnector.afterAttempt barsOnly c a).port = c.port ∧
        (IbConnector.afterAttempt barsOnly c a).clientId = c.clientId := by
      cases hres : a.result with
      | connected => exact absurd hres (h a List.mem_cons_self)
      | raised e => simp [IbConnector.afterAttempt, hres, IbConnector.attemptRaised]
    exact ⟨hport.trans hkeep.1, hid.trans hkeep.2⟩

/-- A successful attempt is the last one, and the connector is as it leaves it. -/
theorem Scans.foldl_of_connected (h : Scans lower results sc k l ok) (a : Attempted) (ha : a ∈ l)
    (hres : a.result = .connected) :
    (l.foldl (IbConnector.afterAttempt barsOnly) c).port = a.port ∧
      (l.foldl (IbConnector.afterAttempt barsOnly) c).clientId = a.clientId ∧
      (l.foldl (IbConnector.afterAttempt barsOnly) c).connected = true := by
  induction h generalizing c with
  | @ended sc k ok _ =>
    obtain rfl := List.mem_singleton.mp ha
    simp [IbConnector.afterAttempt, hres, IbConnector.connectSucceeded]
  | @again sc sc' k l ok hnext _ ih =>
    rw [List.foldl_cons]
    rcases List.mem_cons.mp ha with rfl | ha
    · exact absurd hres (ne_connected_of_again hnext)
    · exact ih ha

/-- The attempts of a call on a connector that is not connected are the scan from its port and
client id. -/
theorem connect_scans {maxAttempts : Option ℤ} {maxPortSteps : ℤ} (hc : c.isConnected = false)
    (hlimit : 1 ≤ maxAttempts.getD 10) :
    let call := connect lower c maxAttempts barsOnly maxPortSteps results
    Scans lower results (.start c.port c.clientId maxAttempts maxPortSteps) 0 call.attempts
      call.ok := by
  simp only [connect, hc, Bool.false_eq_true, if_false]
  apply portLoop_scans (ConnectScan.valid_start hlimit) rfl
  exact Nat.zero_add _

/-- `connect` scans the ports and the client ids in the specified order, whatever the attempts
do. -/
theorem connect_scans_in_order (lower : String → String) (c : IbConnector)
    (maxAttempts : Option ℤ) (barsOnly : Bool) (maxPortSteps : ℤ) (results : ℕ → AttemptResult)
    (hc : c.isConnected = false) (hlimit : 1 ≤ maxAttempts.getD 10) :
    ScansInOrder lower c (maxAttempts.getD 10).toNat (clampedSteps maxPortSteps) results
      (connect lower c maxAttempts barsOnly maxPortSteps results) := by
  have hscan := @connect_scans lower results barsOnly c maxAttempts maxPortSteps hc hlimit
  have hv : (ConnectScan.start c.port c.clientId maxAttempts maxPortSteps).Valid :=
    ConnectScan.valid_start hlimit
  have hcall : (connect lower c maxAttempts barsOnly maxPortSteps results).connector =
      let call := connect lower c maxAttempts barsOnly maxPortSteps results
      let c' := call.attempts.foldl (IbConnector.afterAttempt barsOnly) c
      if call.ok then c' else { c' with connected := false } := by
    simp only [connect, hc, Bool.false_eq_true, if_false]
  constructor
  · simpa [attemptAt, ConnectScan.tryPort, ConnectScan.tryId, ConnectScan.start] using hscan.head
  · intro k a ha
    have hnext := hscan.next_eq hv k a ha
    have hattempt :
        (ConnectScan.start c.port c.clientId maxAttempts maxPortSteps).attempt = 0 := rfl
    rw [hattempt, ite_self, Nat.zero_add, Nat.zero_add] at hnext
    exact hnext
  · exact hscan.nodup
  · have hlength := hscan.length_le hv
    simp only [ConnectScan.start, Nat.add_zero, Nat.sub_zero] at hlength
    rw [Nat.mul_comm]
    exact hlength
  · exact hscan.ok_iff
  · intro a ha hres
    have hok := hscan.ok_iff.mpr ⟨a, ha, hres⟩
    rw [hcall]
    simp only [hok, if_true]
    exact hscan.foldl_of_connected a ha hres
  · intro hok
    have hraised : ∀ a ∈ (connect lower c maxAttempts barsOnly maxPortSteps results).attempts,
        a.result ≠ .connected := by
      intro a ha hres
      rw [hscan.ok_iff.mpr ⟨a, ha, hres⟩] at hok
      cases hok
    obtain ⟨hport, hid⟩ := @foldl_afterAttempt_of_raised _ barsOnly c hraised
    rw [hcall]
    simp only [hok, Bool.false_eq_true, if_false]
    exact ⟨hport, hid, trivial⟩

theorem connect_scans_in_order_second_port :
    let inUse : AttemptResult := .raised ⟨none, none, "client id already in use", false⟩
    let refused : AttemptResult := .raised ⟨some 111, none, "Connect call failed", false⟩
    let results : ℕ → AttemptResult := fun k => [inUse, refused, .connected].getD k refused
    let c : IbConnector := { port := 4001, clientId := 5 }
    let call := connect id c (some 3) false 2 results
    ScansInOrder id c 3 2 results call ∧ call.attempts =
      [⟨4001, 5, inUse⟩, ⟨4001, 6, refused⟩, ⟨4002, 5, .connected⟩] :=
  ⟨connect_scans_in_order id _ (some 3) false 2 _ rfl (by decide), by decide⟩

end Calls

end BifrostSocket.ConnectAttempts
