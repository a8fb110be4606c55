import BifrostSocket.OperatorFetches

/-!
# Envelopes of the operator's fetch ops

The executor reads a payload, calls a method of a client and puts the rows into an envelope; the
message handler makes an error envelope of what is raised. Python's conversions of payload values
are parameters.
-/

namespace BifrostSocket.FetchEnvelopes
open OperatorProtocol IngestorWatchlists ExecutionRows AccountSnapshots HistoricalBars
open OperatorFetches TracedCalls

section Payloads

abbrev Payload := List (String × Json)

/-- What Python makes of a value of a payload. -/
structure PyConversions where
  isZero : String → Bool
  str : Json → String
  int : Json → Except PyError ℤ
  float : Json → Except PyError PyFloat
  /-- The `AttributeError` of `strip` on a value that is no string. -/
  noStrip : Json → PyError

variable (py : PyConversions) (lower : String → String)

def PyConversions.isTrue : Json → Bool
  | .null => false
  | .bool b => b
  | .number literal => !py.isZero literal
  | .string s => decide (s ≠ "")
  | .array items => !items.isEmpty
  | .object members => !members.isEmpty

/-- `payload.get(key)`, if it is true. -/
def truePayload (payload : Payload) (key : String) : Option Json :=
  (payload.lookup key).filter py.isTrue

/-- `str(payload.get(key) or default).strip()`. -/
def payloadText (payload : Payload) (key default : String) : String :=
  strip (match truePayload py payload key with
    | some j => py.str j
    | none => default)

/-- `float` of a value that is not `None`. -/
def payloadFloat (payload : Payload) (key : String) : Except PyError (Option PyFloat) :=
  match payload.lookup key with
  | none | some .null => .ok none
  | some j => (py.float j).map some

def payloadDays (payload : Payload) : Except PyError ℤ :=
  match truePayload py payload "days" with
  | some j => py.int j
  | none => .ok 7

end Payloads

section Executor

structure IbOperatorExecutor where
  primary : IbAnswers
  accountSecondary : Option IbAnswers

variable (py : PyConversions) (lower upper : String → String) (floatStr : PyFloat → String)

def IbOperatorExecutor.accountForSlot (x : IbOperatorExecutor) (payload : Payload) :
    Except PyError IbAnswers :=
  let pick (slot : String) : IbAnswers :=
    if lower (strip slot) = "secondary" then x.accountSecondary.getD x.primary else x.primary
  match truePayload py payload "account_slot" with
  | none => .ok (pick "primary")
  | some (.string slot) => .ok (pick slot)
  | some j => .error (py.noStrip j)

inductive FetchOp where
  | fetchExecutions | fetchAccountsSnapshot | fetchBars | fetchBarsRange | fetchOptionExpirations
  deriving DecidableEq

inductive FetchData where
  | executions (rows : List ExecutionRow)
  | accounts (rows : List AccountEntry)
  | bars (bars : List BarEntry)
  | optionParams (out : OptionParams)

/-- An envelope with `ok` true and its data, or with `ok` false and its error. -/
inductive Envelope where
  | ok (data : FetchData)
  | error (text : String)

def execute (x : IbOperatorExecutor) (op : FetchOp) (payload : Payload) : Fetch Envelope :=
  match op with
  | .fetchExecutions => do
    let days ← Traced.ofExcept (payloadDays py payload)
    let acc ← Traced.ofExcept (x.accountForSlot py lower payload)
    let rows ← fetchExecutions upper floatStr acc days
    return .ok (.executions rows)
  | .fetchAccountsSnapshot => do
    let acc ← Traced.ofExcept (x.accountForSlot py lower payload)
    let rows ← fetchAccountsSnapshot acc
    return .ok (.accounts rows)
  | .fetchBars => do
    let symbol := payloadText py payload "symbol" ""
    let period := payloadText py payload "period" "1 day"
    let duration := payloadText py payload "duration" "1 D"
    if symbol = "" then return .error "missing_symbol"
    else
      let bars ← fetchBars lower x.primary symbol period duration
      return .ok (.bars bars)
  | .fetchBarsRange => do
    let symbol := payloadText py payload "symbol" ""
    let period := payloadText py payload "period" "1 D"
    if symbol = "" then return .error "missing_symbol"
    else
      let st ← Traced.ofExcept (payloadFloat py payload "start_ts")
      let et ← Traced.ofExcept (payloadFloat py payload "end_ts")
      -- the interval only paces the requests
      let _ ← Traced.ofExcept (payloadFloat py payload "interval_sec")
      let bars ← fetchBarsRange lower x.primary symbol period st et
      return .ok (.bars bars)
  | .fetchOptionExpirations => do
    let symbol := payloadText py payload "symbol" ""
    if symbol = "" then return .error "missing_symbol"
    else
      let out ← fetchOptionExpirations x.primary symbol
      return .ok (.optionParams out)

def handleMessage (x : IbOperatorExecutor) (op : FetchOp) (payload : Payload) : Fetch Envelope :=
  (execute py lower upper floatStr x op payload).handle fun e => pure (.error e.text)

end Executor

section Failures

variable {py : PyConversions} {lower upper : String → String} {floatStr : PyFloat → String}
  {x : IbOperatorExecutor} {op : FetchOp} {payload : Payload}

def FetchData.error : FetchData → Option String
  | .optionParams out => out.error
  | .executions _ | .accounts _ | .bars _ => none

/-- `ok` is true, and the data carries no error or an empty one. -/
def Envelope.PresentsSuccess : Envelope → Prop
  | .ok data => data.error.getD "" = ""
  | .error _ => False

/-- No envelope presents a success after a call that failed. -/
def ShowsFailures (t : Fetch Envelope) : Prop :=
  (∃ call ∈ t.calls, call.Failed) → ∀ env, t.result = .ok env → ¬ env.PresentsSuccess

/-- The failed calls that an op reports: a dropped connection in `fetch_bars_range`, and in
`fetch_option_expirations` an error with a text of the request for the parameters. -/
def Reported (lower : String → String) (op : FetchOp) (call : FetchCall) : Prop :=
  match op with
  | .fetchBarsRange => RaisedOn lower call
  | .fetchOptionExpirations =>
    call.request = .secDefOptParams ∧ ∃ e, call.ended = .raised e ∧ e.text ≠ ""
  | .fetchExecutions | .fetchAccountsSnapshot | .fetchBars => False

theorem Reported.failed {call : FetchCall} (h : Reported lower op call) : call.Failed := by
  have hraised : ∀ e, call.ended = .raised e → call.Failed := by
    intro e he hanswered
    rw [he] at hanswered
    cases hanswered
  cases op with
  | fetchBarsRange =>
    obtain ⟨e, he, -⟩ := h
    exact hraised e he
  | fetchOptionExpirations =>
    obtain ⟨-, e, he, -⟩ := h
    exact hraised e he
  | fetchExecutions | fetchAccountsSnapshot | fetchBars => exact h.elim

theorem handleMessage_calls : (handleMessage py lower upper floatStr x op payload).calls =
    (execute py lower upper floatStr x op payload).calls := by
  unfold handleMessage
  cases hr : (execute py lower upper floatStr x op payload).result with
  | ok env => rw [Traced.handle_of_ok hr]
  | error e =>
    rw [Traced.handle_of_error hr]
    exact List.append_nil _

/-- Where a method raises exactly what its op reports, and its rows present a success. -/
theorem showsFailures_of_surfaces
    (hs : (execute py lower upper floatStr x op payload).Surfaces FetchCall.Failed
      (Reported lower op))
    (hr : (execute py lower upper floatStr x op payload).ReturnsOnly Envelope.PresentsSuccess) :
    ShowsFailures (handleMessage py lower upper floatStr x op payload) ↔
      (∀ call ∈ (execute py lower upper floatStr x op payload).calls, ¬ call.Failed) ∨
        ∃ call ∈ (execute py lower upper floatStr x op payload).calls, Reported lower op call := by
  unfold ShowsFailures
  rw [handleMessage_calls]
  generalize ht : execute py lower upper floatStr x op payload = t at hs hr ⊢
  rw [handleMessage, ht]
  constructor
  · intro hshown
    by_cases hany : ∃ call ∈ t.calls, call.Failed
    · obtain ⟨call, hcall, hfailed⟩ := hany
      refine .inr ⟨call, hcall, (hs call hcall hfailed).mpr ?_⟩
      cases hres : t.result with
      | ok env =>
        have hsuccess := hr (List.ne_nil_of_mem hcall) env hres
        have hfails := hshown ⟨call, hcall, hfailed⟩ env (by rw [Traced.handle_of_ok hres, hres])
        exact absurd hsuccess hfails
      | error e => exact ⟨e, rfl⟩
    · exact .inl fun call hcall hfailed => hany ⟨call, hcall, hfailed⟩
  · rintro (hnone | ⟨call, hcall, hrep⟩) ⟨call', hcall', hfailed⟩ env henv
    · exact absurd hfailed (hnone call' hcall')
    · obtain ⟨e, he⟩ := (hs call hcall hrep.failed).mp hrep
      rw [Traced.handle_of_error he] at henv
      cases henv
      exact id

theorem returnsOnly_execute (h : op ≠ .fetchOptionExpirations) :
    (execute py lower upper floatStr x op payload).ReturnsOnly Envelope.PresentsSuccess := by
  cases op with
  | fetchExecutions =>
    exact Traced.returnsOnly_ofExcept_bind fun _ => Traced.returnsOnly_ofExcept_bind fun _ =>
      Traced.returnsOnly_bind_pure fun _ => rfl
  | fetchAccountsSnapshot =>
    exact Traced.returnsOnly_ofExcept_bind fun _ => Traced.returnsOnly_bind_pure fun _ => rfl
  | fetchBars =>
    unfold execute
    dsimp only
    split
    · exact Traced.returnsOnly_pure
    · exact Traced.returnsOnly_bind_pure fun _ => rfl
  | fetchBarsRange =>
    unfold execute
    dsimp only
    split
    · exact Traced.returnsOnly_pure
    · exact Traced.returnsOnly_ofExcept_bind fun _ => Traced.returnsOnly_ofExcept_bind fun _ =>
        Traced.returnsOnly_ofExcept_bind fun _ => Traced.returnsOnly_bind_pure fun _ => rfl
  | fetchOptionExpirations => exact absurd rfl h

theorem surfaces_execute (h : op ≠ .fetchOptionExpirations) :
    (execute py lower upper floatStr x op payload).Surfaces FetchCall.Failed
      (Reported lower op) := by
  cases op with
  | fetchExecutions =>
    exact Traced.surfaces_ofExcept_bind fun _ => Traced.surfaces_ofExcept_bind fun _ =>
      (surfaces_fetchExecutions _).bind_pure
  | fetchAccountsSnapshot =>
    exact Traced.surfaces_ofExcept_bind fun _ => surfaces_fetchAccountsSnapshot.bind_pure
  | fetchBars =>
    unfold execute
    dsimp only
    split
    · exact Traced.surfaces_pure
    · exact (surfaces_fetchBars _ _ _).bind_pure
  | fetchBarsRange =>
    unfold execute
    dsimp only
    split
    · exact Traced.surfaces_pure
    · exact Traced.surfaces_ofExcept_bind fun _ => Traced.surfaces_ofExcept_bind fun _ =>
        Traced.surfaces_ofExcept_bind fun _ => (surfaces_fetchBarsRange _ _ _ _).bind_pure
  | fetchOptionExpirations => exact absurd rfl h

theorem showsFailures_optionParams {t : Fetch Envelope} {qualified : CallEnd}
    {answer : Except PyError (List OptionChain)} {out : OptionParams}
    (hcalls : t.calls = [⟨.qualifyContracts, qualified⟩, ⟨.secDefOptParams, .of answer⟩])
    (hresult : t.result = .ok (.ok (.optionParams out)))
    (herror : ∀ text, out.error = some text ↔ ∃ e, answer = .error e ∧ e.text = text) :
    ShowsFailures t ↔ (∀ call ∈ t.calls, ¬ call.Failed) ∨
      ∃ call ∈ t.calls, Reported lower .fetchOptionExpirations call := by
  constructor
  · intro hshown
    by_cases hany : ∃ call ∈ t.calls, call.Failed
    · have hfails : out.error.getD "" ≠ "" := hshown hany _ hresult
      cases htext : out.error with
      | none =>
        rw [htext] at hfails
        exact absurd rfl hfails
      | some text =>
        obtain ⟨e, rfl, rfl⟩ := (herror text).mp htext
        rw [htext] at hfails
        have hcall : ⟨.secDefOptParams, .raised e⟩ ∈ t.calls := by simp [hcalls, CallEnd.of]
        exact .inr ⟨_, hcall, rfl, e, rfl, hfails⟩
    · exact .inl fun call hcall hfailed => hany ⟨call, hcall, hfailed⟩
  · rintro (hnone | ⟨call, hcall, hrequest, e, he, htext⟩) ⟨call', hcall', hfailed⟩ env henv
    · exact absurd hfailed (hnone call' hcall')
    · rw [hresult] at henv
      cases henv
      rw [hcalls] at hcall
      have hanswer : answer = .error e := by
        rcases List.mem_cons.mp hcall with rfl | hcall
        · cases hrequest
        · obtain rfl := List.mem_singleton.mp hcall
          cases answer with
          | ok _ => cases he
          | error e' =>
            cases he
            rfl
      have hout := (herror e.text).mpr ⟨e, hanswer, rfl⟩
      show out.error.getD "" ≠ ""
      rw [hout]
      exact htext

theorem showsFailures_of_no_calls {t : Fetch Envelope} (h : t.calls = []) :
    ShowsFailures t ↔
      (∀ call ∈ t.calls, ¬ call.Failed) ∨ ∃ call ∈ t.calls, Reported lower op call := by
  rw [ShowsFailures, h]
  simp

theorem showsFailures_fetchOptionExpirations :
    ShowsFailures (handleMessage py lower upper floatStr x .fetchOptionExpirations payload) ↔
      (∀ call ∈ (execute py lower upper floatStr x .fetchOptionExpirations payload).calls,
        ¬ call.Failed) ∨
      ∃ call ∈ (execute py lower upper floatStr x .fetchOptionExpirations payload).calls,
        Reported lower .fetchOptionExpirations call := by
  rw [← handleMessage_calls]
  by_cases hsymbol : payloadText py payload "symbol" "" = ""
  · apply showsFailures_of_no_calls
    rw [handleMessage_calls, execute, if_pos hsymbol]
    rfl
  · have hexec : execute py lower upper floatStr x .fetchOptionExpirations payload =
        fetchOptionExpirations x.primary (payloadText py payload "symbol" "") >>= fun out =>
          pure (.ok (.optionParams out)) := by
      rw [execute, if_neg hsymbol]
    have hcalls : (handleMessage py lower upper floatStr x .fetchOptionExpirations payload).calls =
        (fetchOptionExpirations x.primary (payloadText py payload "symbol" "")).calls := by
      rw [handleMessage_calls, hexec, Traced.calls_bind_pure]
    rcases fetchOptionExpirations_calls (payloadText py payload "symbol" "") with
      hnil | ⟨qualified, answer, out, htwo, hresult, herror⟩
    · exact showsFailures_of_no_calls (hcalls.trans hnil)
    · refine showsFailures_optionParams (hcalls.trans htwo) ?_ herror
      rw [handleMessage, hexec, Traced.bind_of_ok hresult, Traced.handle_of_ok rfl]
      rfl

end Failures

section Reports
variable (py : PyConversions) (lower upper : String → String) (floatStr : PyFloat → String)
  (x : IbOperatorExecutor) (op : FetchOp) (payload : Payload)

/-- No fetch op presents a success after a failed call, if and only if no call that it makes fails
or one that fails is of the kind that the op reports. -/
theorem failures_shown_iff :
    ShowsFailures (handleMessage py lower upper floatStr x op payload) ↔
      (∀ call ∈ (execute py lower upper floatStr x op payload).calls, ¬ call.Failed) ∨
        ∃ call ∈ (execute py lower upper floatStr x op payload).calls, Reported lower op call := by
  by_cases hop : op = .fetchOptionExpirations
  · subst hop
    exact showsFailures_fetchOptionExpirations
  · exact showsFailures_of_surfaces (surfaces_execute hop) (returnsOnly_execute hop)

/-- A client whose calls are answered with nothing. -/
def emptyAnswers : IbAnswers where
  ensureConnected := .ok ()
  accountsConnected := true
  managedAccounts := .ok (.names [])
  positions := .ok []
  summaryConnected _ := true
  accountSummary _ := .ok []
  startTime _ _ := .ok ""
  executions _ _ _ := .ok []
  events _ := []
  session _ := []
  qualify _ := .ok 0
  recentBars _ _ _ := .ok []
  historicalData _ _ := .ok []
  secDefOptParams _ _ := .ok []
  now := 0
  timestampError _ := { text := "year is out of range" }

/-- Conversions that know texts only. -/
def textConversions : PyConversions where
  isZero literal := decide (literal = "0")
  str
    | .string s => s
    | _ => ""
  int _ := .error { text := "invalid literal for int" }
  float _ := .error { text := "could not convert to float" }
  noStrip _ := { text := "object has no attribute 'strip'" }

/-- The connection drops during the request for bars, and the envelope holds an empty list of
bars. -/
theorem dropped_bars_request_presents_success :
    let e : PyError := { text := "Socket disconnect", isConnectionError := true }
    let x : IbOperatorExecutor :=
      { primary := { emptyAnswers with recentBars := fun _ _ _ => .error e }
        accountSecondary := none }
    let payload : Payload := [("symbol", .string "SPY"), ("duration", .string "5 D")]
    ¬ ShowsFailures (handleMessage textConversions id id (fun _ => "") x .fetchBars payload) := by
  intro e x payload h
  have hsymbol : payloadText textConversions payload "symbol" "" = "SPY" := by decide
  have hrun : handleMessage textConversions id id (fun _ => "") x .fetchBars payload =
      ⟨.ok (.ok (.bars [])), [⟨.qualifyContracts, .answered⟩, ⟨.historicalData, .raised e⟩]⟩ := by
    rw [handleMessage, execute, hsymbol, if_neg (by decide)]
    unfold fetchBars getHistoricalBarsAsync
    rw [if_neg (by decide)]
    rfl
  rw [hrun] at h
  exact h ⟨_, List.mem_cons_of_mem _ List.mem_cons_self, by decide⟩ _ rfl rfl

end Reports

end BifrostSocket.FetchEnvelopes
