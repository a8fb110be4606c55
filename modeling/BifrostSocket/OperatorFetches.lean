import BifrostSocket.ConnectAttempts
import BifrostSocket.ExecutionFetches
import BifrostSocket.TracedCalls
import BifrostSocket.HistoricalBars

/-!
# The fetch methods of the operator's clients

Each method connects, makes its calls to IB one after the other, and turns what it gets into
rows; connector and client each have handlers of their own. A call is answered, raises, or is
not made because the connection was found lost. `lower`, `upper` and `floatStr` stand for
`str.lower`, `str.upper` and what an f-string makes of a strike.
-/

namespace BifrostSocket.OperatorFetches
open OperatorProtocol IngestorWatchlists ContractKeys ExecutionRows CommissionMerges
open AccountSnapshots ExecutionFetches HistoricalBars ConnectAttempts
open TracedCalls

section Errors

/-- An exception: its `str`, and what `_is_connection_dropped` looks at. -/
structure PyError where
  text : String
  message : Option String := none
  errno : Option ℤ := none
  isConnectionError : Bool := false
  deriving DecidableEq

def connectionDroppedTokens : List String :=
  ["socket disconnect", "connection reset by peer", "peer closed connection", "not connected",
    "connection closed", "disconnected"]

def isConnectionDropped (lower : String → String) (e : PyError) : Bool :=
  if e.isConnectionError then true
  else if e.errno.any fun en => decide (en ∈ [54, 104]) then true
  else
    let msg := lower (orDefault e.message e.text)
    connectionDroppedTokens.any fun token => inText token msg

/-- `IBConnectionDroppedError(str(e))`. -/
def connectionDroppedError (e : PyError) : PyError := { text := e.text, isConnectionError := true }

end Errors

section Calls

inductive IbRequest where
  | managedAccounts | accountSummary | positions | executions | qualifyContracts
  | historicalData | secDefOptParams
  deriving DecidableEq

inductive CallEnd where
  | answered
  | raised (e : PyError)
  | lost
  deriving DecidableEq

structure FetchCall where
  request : IbRequest
  ended : CallEnd
  deriving DecidableEq

def FetchCall.Failed (call : FetchCall) : Prop := call.ended ≠ .answered

instance (call : FetchCall) : Decidable call.Failed := inferInstanceAs (Decidable (_ ≠ _))

abbrev Fetch := Traced PyError FetchCall

def CallEnd.of {α : Type} : Except PyError α → CallEnd
  | .ok _ => .answered
  | .error e => .raised e

def request {α : Type} (r : IbRequest) (answer : Except PyError α) : Fetch α :=
  ⟨answer, [⟨r, .of answer⟩]⟩

/-- The connection is found lost, and the method returns without the call. -/
def lost {α : Type} (r : IbRequest) (default : α) : Fetch α := ⟨.ok default, [⟨r, .lost⟩]⟩

/-- An entry of `reqSecDefOptParams`. -/
structure OptionChain where
  expirations : List String
  strikes : List ℚ

/-- What a client meets in one fetch: how connecting ends, and how each of its calls would end,
those of one kind by their number. The connector reconnects before a request that finds the
connection lost; how that went shows in how the request ends. -/
structure IbAnswers where
  ensureConnected : Except PyError Unit
  accountsConnected : Bool
  managedAccounts : Except PyError RawAccounts
  positions : Except PyError (List Position)
  summaryConnected : ℕ → Bool
  accountSummary : ℕ → Except PyError (List AccountValue)
  /-- The start of the days that are asked for, as the text of a filter. -/
  startTime : ℕ → ℤ → Except PyError String
  executions : ℕ → Option String → String → Except PyError (List Fill)
  events : ℕ → List CommissionEvent
  session : ℕ → List Fill
  qualify : String → Except PyError ℤ
  recentBars : String → BarSetting → String → Except PyError (List IbBar)
  historicalData : ℕ → BarRequest → Except PyError (List IbBar)
  secDefOptParams : String → ℤ → Except PyError (List OptionChain)
  now : ℚ
  timestampError : PyFloat → PyError

end Calls

section Connector

variable (lower upper : String → String) (floatStr : PyFloat → String) (ib : IbAnswers)

/-- The stripped texts that are account ids. -/
def accountIds (raw : RawAccounts) : List String :=
  (raw.parts.map strip).filter fun s => decide (s ≠ "") && isIbAccountId s

def getManagedAccounts : Fetch (List String) :=
  if !ib.accountsConnected then lost .managedAccounts []
  else
    (do
      let raw ← request .managedAccounts ib.managedAccounts
      return accountIds raw).handle fun _ => pure []

def getAccountSummary (k : ℕ) : Fetch (List AccountValue) :=
  if !ib.summaryConnected k then lost .accountSummary []
  else (request .accountSummary (ib.accountSummary k)).handle fun _ => pure []

def getPositions : Fetch (List Position) := request .positions ib.positions

/-- The request after `k` others. -/
def getExecutionsAsync (k : ℕ) (account : Option String) (sinceDays : ℤ) :
    Fetch (List ExecutionRow) :=
  (do
    let timeStr ← Traced.ofExcept (if sinceDays > 0 then ib.startTime k sinceDays else .ok "")
    let fills ← request .executions (ib.executions k account timeStr)
    return getExecutions upper floatStr
      { account, response := some fills, events := ib.events k, session := ib.session k }).handle
    fun _ => pure []

def getHistoricalBarsAsync (symbol period durationStr : String) : Fetch (List BarEntry) :=
  if strip symbol = "" then pure []
  else
    (do
      let _ ← request .qualifyContracts (ib.qualify (strip symbol))
      let bars ← request .historicalData (ib.recentBars (strip symbol) (barSetting lower period)
        (orDefault (some durationStr) "30 D"))
      return convertIbBars bars).handle fun _ => pure []

def floatLt : PyFloat → PyFloat → Bool
  | .nan, _ | _, .nan => false
  | .finite a, .finite b => decide (a < b)
  | .infinity negative, .finite _ => negative
  | .finite _, .infinity negative => !negative
  | .infinity negative, .infinity negative' => negative && !negative'

def floatLe (a b : PyFloat) : Bool := floatLt a b || decide (a = b ∧ a ≠ .nan)

def floatMax (a b : PyFloat) : PyFloat := if floatLt a b then b else a

def floatSub : PyFloat → ℤ → PyFloat
  | .finite a, n => .finite (a - n)
  | x, _ => x

/-- The request that ends at this time, where `datetime` has it. -/
def requestAt (setting : BarSetting) (curEnd : PyFloat) : Except PyError BarRequest :=
  match curEnd with
  | .finite q =>
    match fromTimestamp q with
    | some _ => .ok (barRequest setting q)
    | none => .error (ib.timestampError curEnd)
  | _ => .error (ib.timestampError curEnd)

/-- A request of `get_historical_bars_range`: a dropped connection is raised on, and any other
error only ends the method. -/
def requestOrEnd {α : Type} (r : IbRequest) (answer : Except PyError α) : Fetch (Option α) :=
  (do
    let a ← request r answer
    return some a).handle fun e =>
      if isConnectionDropped lower e then .raise (connectionDroppedError e) else pure none

/-- The loop of `get_historical_bars_range`, for the loops that are left, the number of requests
made and the end of the next chunk. -/
def barsLoop (setting : BarSetting) (start : Option PyFloat) :
    ℕ → ℕ → PyFloat → List BarEntry → Fetch (List BarEntry)
  | 0, _, _, allOut => pure allOut
  | loops + 1, k, curEnd, allOut =>
    if start.any fun s => floatLe curEnd s then pure allOut
    else do
      let segStart := match start with
        | some s => floatMax s (floatSub curEnd setting.chunkSeconds)
        | none => floatSub curEnd setting.chunkSeconds
      let req ← Traced.ofExcept (requestAt ib setting curEnd)
      match ← requestOrEnd lower .historicalData (ib.historicalData k req) with
      | none => pure allOut
      | some bars =>
        let chunkOut := convertIbBars bars
        if chunkOut.isEmpty then pure allOut
        else if start.isNone then pure (allOut ++ chunkOut)
        else barsLoop setting start loops (k + 1) segStart (allOut ++ chunkOut)

def getHistoricalBarsRange (symbol period : String) (startTs endTs : Option PyFloat) :
    Fetch (List BarEntry) :=
  if strip symbol = "" then pure []
  else do
    match ← requestOrEnd lower .qualifyContracts (ib.qualify (strip symbol)) with
    | none => pure []
    | some _ =>
      barsLoop lower ib (barSetting lower period) startTs maxLoops 0
        (endTs.getD (.finite ib.now)) []

/-- The expirations and the strikes of all chains, each once and in order. -/
def getSecDefOptParamsAsync (underlyingSymbol : String) : Fetch (List String × List ℚ) := do
  let sym := strip underlyingSymbol
  let conId ← (request .qualifyContracts (ib.qualify sym)).handle fun _ => pure 0
  let chains ← request .secDefOptParams (ib.secDefOptParams sym conId)
  let expirations := (chains.flatMap OptionChain.expirations).map strip
  let strikes := chains.flatMap OptionChain.strikes
  return (expirations.dedup.mergeSort fun a b => decide (a ≤ b),
    strikes.dedup.mergeSort fun a b => decide (a ≤ b))

end Connector

section Client

variable (lower upper : String → String) (floatStr : PyFloat → String) (ib : IbAnswers)

def executionsOf (sinceDays : ℤ) : ℕ → List String → Fetch (List ExecutionRow)
  | _, [] => pure []
  | k, acc :: accountIds => do
    let execList ← getExecutionsAsync upper floatStr ib k (if acc = "" then none else some acc)
      sinceDays
    let rest ← executionsOf sinceDays (k + 1) accountIds
    return execList ++ rest

def fetchExecutions (days : ℤ) : Fetch (List ExecutionRow) := do
  Traced.ofExcept ib.ensureConnected
  (do
    let ids ← getManagedAccounts ib
    executionsOf upper floatStr ib days 0 (if ids.isEmpty then [""] else ids)).handle
    fun _ => pure []

def accountsOf (allPositions : List Position) : ℕ → List String → Fetch (List AccountEntry)
  | _, [] => pure []
  | k, aid :: accountIds => do
    let values ← getAccountSummary ib k
    let entry : AccountEntry :=
      { accountId := aid
        summary := summaryDict values aid
        positions := (allPositions.filter fun p => decide (p.account = some aid)).map
          positionToDict }
    let rest ← accountsOf allPositions (k + 1) accountIds
    return entry :: rest

def fetchAccountsSnapshot : Fetch (List AccountEntry) := do
  Traced.ofExcept ib.ensureConnected
  (do
    let ids ← getManagedAccounts ib
    if ids.isEmpty then return []
    else
      let allPositions ← getPositions ib
      accountsOf ib allPositions 0 ids).handle fun _ => pure []

def fetchBars (symbol period duration : String) : Fetch (List BarEntry) := do
  Traced.ofExcept ib.ensureConnected
  (getHistoricalBarsAsync lower ib symbol period duration).handle fun _ => pure []

/-- The handlers of this method raise again. -/
def fetchBarsRange (symbol period : String) (startTs endTs : Option PyFloat) :
    Fetch (List BarEntry) := do
  Traced.ofExcept ib.ensureConnected
  (getHistoricalBarsRange lower ib symbol period startTs endTs).handle fun e => .raise e

structure OptionParams where
  expirations : List String := []
  strikes : List ℚ := []
  error : Option String := none

def fetchOptionExpirations (symbol : String) : Fetch OptionParams := do
  Traced.ofExcept ib.ensureConnected
  (do
    let p ← getSecDefOptParamsAsync ib (strip symbol)
    return { expirations := p.1, strikes := p.2 : OptionParams }).handle fun e =>
      pure { error := some e.text }

end Client

section Connectors

variable {ib : IbAnswers} {c : AccountConnector}

/-- The account ids are those that the snapshots see of this connector. -/
theorem getManagedAccounts_result (hconnected : ib.accountsConnected = c.isConnected)
    (haccounts : ib.managedAccounts.toOption = c.managedAccounts) :
    (getManagedAccounts ib).result = .ok c.getManagedAccounts := by
  unfold getManagedAccounts AccountConnector.getManagedAccounts
  rw [hconnected, ← haccounts]
  cases c.isConnected with
  | false => rfl
  | true => cases ib.managedAccounts with
    | ok raw => rfl
    | error e => rfl

end Connectors

section Requests

variable {lower : String → String} {α : Type} {r : IbRequest} {a : α} {e : PyError}

theorem requestOrEnd_answered :
    requestOrEnd lower r (.ok a) = ⟨.ok (some a), [⟨r, .answered⟩]⟩ := rfl

theorem requestOrEnd_dropped (h : isConnectionDropped lower e = true) :
    requestOrEnd lower r (.error e : Except PyError α) =
      ⟨.error (connectionDroppedError e), [⟨r, .raised e⟩]⟩ := by
  rw [requestOrEnd, Traced.handle_of_error rfl, if_pos h]
  rfl

theorem requestOrEnd_failed (h : isConnectionDropped lower e = false) :
    requestOrEnd lower r (.error e : Except PyError α) = ⟨.ok none, [⟨r, .raised e⟩]⟩ := by
  rw [requestOrEnd, Traced.handle_of_error rfl, if_neg (by simp [h])]
  rfl

end Requests

section Walks

variable {lower : String → String} {ib : IbAnswers} {setting : BarSetting} {srv : BarServer}
  {requests : ℕ → IbCall} {a b : ℚ}

theorem floatLe_finite : floatLe (.finite a) (.finite b) = decide (a ≤ b) := by
  simp [floatLe, floatLt, le_iff_lt_or_eq]

theorem floatMax_finite : floatMax (.finite a) (.finite b) = .finite (max a b) := by
  by_cases h : a < b
  · rw [floatMax, if_pos (by simpa [floatLt] using h), max_eq_right h.le]
  · rw [floatMax, if_neg (by simpa [floatLt] using h), max_eq_left (not_lt.mp h)]

/-- The client's requests end like those of a walk over this server. -/
def AnswersLike (lower : String → String) (ib : IbAnswers) (srv : BarServer)
    (requests : ℕ → IbCall) : Prop :=
  ∀ k req, match requests k with
    | .answered => ib.historicalData k req = .ok (srv.answer req)
    | .failed => ∃ e, ib.historicalData k req = .error e ∧ isConnectionDropped lower e = false
    | .dropped => ∃ e, ib.historicalData k req = .error e ∧ isConnectionDropped lower e = true

theorem requestAt_finite (h : (fromTimestamp a).isSome) :
    requestAt ib setting (.finite a) = .ok (barRequest setting a) := by
  obtain ⟨us, hus⟩ := Option.isSome_iff_exists.mp h
  rw [requestAt, hus]

/-- Where `datetime` has every chunk end, the loop returns what the walk does. -/
theorem barsLoop_walk (hib : AnswersLike lower ib srv requests) {start : ℚ} {loops k : ℕ}
    {curEnd : ℚ} {allOut : List BarEntry}
    (hrange : ∀ q, start < q → q ≤ curEnd → (fromTimestamp q).isSome) :
    (barsLoop lower ib setting (some (.finite start)) loops k (.finite curEnd)
        allOut).result.toOption =
      (walk srv setting (some start) requests loops k curEnd allOut).toOption := by
  induction loops generalizing k curEnd allOut with
  | zero => rfl
  | succ loops ih =>
    unfold barsLoop walk
    simp only [Option.any_some, floatLe_finite, decide_eq_true_eq]
    by_cases hend : curEnd ≤ start
    · rw [if_pos hend, if_pos hend]
      rfl
    · rw [if_neg hend, if_neg hend, requestAt_finite (hrange curEnd (not_le.mp hend) le_rfl),
        Traced.bind_of_ok rfl]
      have hanswer := hib k (barRequest setting curEnd)
      cases hk : requests k with
      | answered =>
        simp only [hk] at hanswer
        rw [hanswer, requestOrEnd_answered, Traced.bind_of_ok rfl]
        dsimp only
        by_cases hempty : (convertIbBars (srv.answer (barRequest setting curEnd))).isEmpty = true
        · rw [if_pos hempty, if_pos hempty]
          rfl
        · rw [if_neg hempty, if_neg hempty, if_neg (by simp), if_neg (by simp)]
          have hstep : floatMax (.finite start) (floatSub (.finite curEnd) setting.chunkSeconds) =
              .finite (max start (curEnd - setting.chunkSeconds)) := floatMax_finite
          rw [hstep]
          have hchunk : (0 : ℚ) ≤ setting.chunkSeconds :=
            Int.cast_nonneg (by cases setting <;> decide)
          have hback : max start (curEnd - setting.chunkSeconds) ≤ curEnd :=
            max_le (not_le.mp hend).le (sub_le_self _ hchunk)
          exact ih fun q hq hle => hrange q hq (hle.trans hback)
      | failed =>
        simp only [hk] at hanswer
        obtain ⟨e, he, hkept⟩ := hanswer
        rw [he, requestOrEnd_failed hkept]
        rfl
      | dropped =>
        simp only [hk] at hanswer
        obtain ⟨e, he, hdropped⟩ := hanswer
        rw [he, requestOrEnd_dropped hdropped]
        rfl

end Walks

section Failures

variable {lower upper : String → String} {floatStr : PyFloat → String} {ib : IbAnswers}

/-- A call of `get_historical_bars_range` that is raised on. -/
def RaisedOn (lower : String → String) (call : FetchCall) : Prop :=
  ∃ e, call.ended = .raised e ∧ isConnectionDropped lower e = true

theorem surfaces_fetchExecutions (days : ℤ) :
    (fetchExecutions upper floatStr ib days).Surfaces FetchCall.Failed fun _ => False :=
  Traced.surfaces_ofExcept_bind fun _ => Traced.surfaces_handle fun _ => ⟨[], rfl⟩

theorem surfaces_fetchAccountsSnapshot :
    (fetchAccountsSnapshot ib).Surfaces FetchCall.Failed fun _ => False :=
  Traced.surfaces_ofExcept_bind fun _ => Traced.surfaces_handle fun _ => ⟨[], rfl⟩

theorem surfaces_fetchBars (symbol period duration : String) :
    (fetchBars lower ib symbol period duration).Surfaces FetchCall.Failed fun _ => False :=
  Traced.surfaces_ofExcept_bind fun _ => Traced.surfaces_handle fun _ => ⟨[], rfl⟩

theorem surfaces_requestOrEnd {α β : Type} {r : IbRequest} {answer : Except PyError α}
    {f : Option α → Fetch β} {b : β} (hend : f none = pure b)
    (hgo : ∀ a, (f (some a)).Surfaces FetchCall.Failed (RaisedOn lower)) :
    (requestOrEnd lower r answer >>= f).Surfaces FetchCall.Failed (RaisedOn lower) := by
  cases answer with
  | ok a =>
    rw [requestOrEnd_answered, Traced.bind_of_ok rfl]
    intro call hcall hfailed
    rcases List.mem_cons.mp hcall with rfl | hcall
    · exact absurd rfl hfailed
    · exact hgo a call hcall hfailed
  | error e =>
    cases hdropped : isConnectionDropped lower e with
    | true =>
      rw [requestOrEnd_dropped hdropped, Traced.bind_of_error rfl]
      intro call hcall _
      obtain rfl := List.mem_singleton.mp hcall
      exact ⟨fun _ => ⟨_, rfl⟩, fun _ => ⟨e, rfl, hdropped⟩⟩
    | false =>
      rw [requestOrEnd_failed hdropped, Traced.bind_of_ok rfl, hend]
      intro call hcall _
      obtain rfl := List.mem_singleton.mp hcall
      constructor
      · rintro ⟨e', he, hdropped'⟩
        cases he
        rw [hdropped] at hdropped'
        cases hdropped'
      · rintro ⟨e', he⟩
        cases he

/-- Every loop ends the walk, raises on, or goes on after an answered request. -/
theorem surfaces_barsLoop {setting : BarSetting} {start : Option PyFloat} {loops k : ℕ}
    {curEnd : PyFloat} {allOut : List BarEntry} :
    (barsLoop lower ib setting start loops k curEnd allOut).Surfaces FetchCall.Failed
      (RaisedOn lower) := by
  induction loops generalizing k curEnd allOut with
  | zero => exact Traced.surfaces_pure
  | succ loops ih =>
    unfold barsLoop
    split
    · exact Traced.surfaces_pure
    · refine Traced.surfaces_ofExcept_bind fun req => surfaces_requestOrEnd rfl fun bars => ?_
      dsimp only
      split
      · exact Traced.surfaces_pure
      split
      · exact Traced.surfaces_pure
      · exact ih

theorem surfaces_fetchBarsRange (symbol period : String) (startTs endTs : Option PyFloat) :
    (fetchBarsRange lower ib symbol period startTs endTs).Surfaces FetchCall.Failed
      (RaisedOn lower) := by
  refine Traced.surfaces_ofExcept_bind fun _ => ?_
  show ((getHistoricalBarsRange lower ib symbol period startTs endTs).handle Traced.raise).Surfaces
    _ _
  rw [Traced.handle_raise, getHistoricalBarsRange]
  split
  · exact Traced.surfaces_pure
  · exact surfaces_requestOrEnd rfl fun _ => surfaces_barsLoop

theorem getSecDefOptParamsAsync_calls (symbol : String) :
    ∃ (qualified : CallEnd) (answer : Except PyError (List OptionChain)),
      (getSecDefOptParamsAsync ib symbol).calls =
          [⟨.qualifyContracts, qualified⟩, ⟨.secDefOptParams, .of answer⟩] ∧
        ∀ e, (getSecDefOptParamsAsync ib symbol).result = .error e ↔ answer = .error e := by
  -- the contract id is zero where the first call raises
  have hstep : ∃ conId qualified, (request .qualifyContracts (ib.qualify (strip symbol))).handle
      (fun _ => pure 0) = ⟨.ok conId, [⟨.qualifyContracts, qualified⟩]⟩ := by
    cases ib.qualify (strip symbol) with
    | ok conId => exact ⟨conId, .answered, rfl⟩
    | error e => exact ⟨0, .raised e, rfl⟩
  obtain ⟨conId, qualified, hstep⟩ := hstep
  refine ⟨qualified, ib.secDefOptParams (strip symbol) conId, ?_⟩
  unfold getSecDefOptParamsAsync
  dsimp only
  rw [hstep, Traced.bind_of_ok rfl]
  cases ib.secDefOptParams (strip symbol) conId with
  | ok chains =>
    refine ⟨rfl, fun e => ⟨fun h => ?_, fun h => ?_⟩⟩
    · cases h
    · cases h
  | error e' =>
    refine ⟨rfl, fun e => ⟨fun h => ?_, fun h => ?_⟩⟩
    · cases h
      rfl
    · cases h
      rfl

/-- Once connected, `fetch_option_expirations` makes two calls and reports the error of the
second one. -/
theorem fetchOptionExpirations_calls (symbol : String) :
    (fetchOptionExpirations ib symbol).calls = [] ∨
      ∃ (qualified : CallEnd) (answer : Except PyError (List OptionChain)) (out : OptionParams),
        (fetchOptionExpirations ib symbol).calls =
            [⟨.qualifyContracts, qualified⟩, ⟨.secDefOptParams, .of answer⟩] ∧
          (fetchOptionExpirations ib symbol).result = .ok out ∧
          ∀ text, out.error = some text ↔ ∃ e, answer = .error e ∧ e.text = text := by
  unfold fetchOptionExpirations
  cases ib.ensureConnected with
  | error e => exact .inl rfl
  | ok _ =>
    obtain ⟨qualified, answer, hcalls, herror⟩ := @getSecDefOptParamsAsync_calls ib (strip symbol)
    right
    rw [Traced.bind_of_ok rfl]
    cases hr : (getSecDefOptParamsAsync ib (strip symbol)).result with
    | ok p =>
      rw [Traced.bind_of_ok hr, Traced.handle_of_ok rfl]
      refine ⟨qualified, answer, _, ?_, rfl, fun text => ⟨fun h => ?_, ?_⟩⟩
      · simp [hcalls]
      · cases h
      · rintro ⟨e, he, -⟩
        rw [(herror e).mpr he] at hr
        cases hr
    | error e =>
      rw [Traced.bind_of_error hr, Traced.handle_of_error rfl]
      refine ⟨qualified, answer, _, ?_, rfl, fun text => ?_⟩
      · simp [hcalls]
      · rw [(herror e).mp hr]
        simp

end Failures

end BifrostSocket.OperatorFetches
