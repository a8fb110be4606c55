import BifrostSocket.FetchEnvelopes
import BifrostSocket.MidPrices

/-!
# Option snapshots

The operator's `fetch_option_snapshot` chooses strikes and asks for a call and a put quote of each.
The underlying price is asked for only without strikes, so that it never takes part in the choice.
-/

namespace BifrostSocket.OptionSnapshots
open OperatorProtocol IngestorWatchlists OptionQuotes MidPrices HistoricalBars
open OperatorFetches FetchEnvelopes TracedCalls

section Selection

/-- A positive factor. -/
def floatScale (k : ℚ) : PyFloat → PyFloat
  | .finite q => .finite (q * k)
  | x => x

/-- `abs(a - b)`. -/
def floatDistance : PyFloat → PyFloat → PyFloat
  | .nan, _ | _, .nan => .nan
  | .finite a, .finite b => .finite |a - b|
  | .infinity s, .infinity t => if s = t then .nan else .infinity false
  | .infinity _, .finite _ | .finite _, .infinity _ => .infinity false

/-- The strikes in a wide range around the underlying, or else those from 5 on. -/
def inRange (underlyingPrice : Option PyFloat) (strikes : List PyFloat) : List PyFloat :=
  match underlyingPrice.filter isPositive with
  | some price =>
    let minS := floatMax (.finite (1 / 2)) (floatScale (1 / 100) price)
    let maxS := floatScale (5 / 2) price
    strikes.filter fun s => floatLe minS s && floatLe s maxS
  | none => strikes.filter fun s => floatLe (.finite 5) s

def selectStrikes (underlyingPrice : Option PyFloat) (strikes : List PyFloat)
    (maxContracts : ℤ) : List PyFloat :=
  let strikes := inRange underlyingPrice strikes
  let maxStrikes := if strikes.isEmpty then 0 else min (maxContracts / 2) strikes.length
  if maxStrikes ≤ 0 then []
  else match underlyingPrice with
    | some price =>
      let nearer (a b : PyFloat) : Bool := !floatLt (floatDistance b price) (floatDistance a price)
      (strikes.mergeSort nearer).take maxStrikes.toNat
    | none => strikes.take maxStrikes.toNat

end Selection

section Quotes

/-- What one call of `fetch_option_quote` meets. -/
structure ContractAnswers where
  ensureConnected : Except PyError Unit
  hasConnector : Bool
  calls : QuoteCalls

/-- What a snapshot meets; the contracts are counted in the order in which they are asked for. -/
structure SnapshotAnswers where
  ensureConnected : Except PyError Unit
  underlyingPrice : Except PyError (Option PyFloat)
  contract : ℕ → ContractAnswers

abbrev Quoting := Traced PyError Action

structure SnapshotRow where
  strike : PyFloat
  right : String
  quote : Quote := {}
  deriving DecidableEq

variable (upper : String → String)

def quoteArgs (symbol expiry : String) (strike : PyFloat) (right : String) : QuoteArgs where
  symbol := some (strip symbol)
  expiry := some (strip expiry)
  strike := .number strike
  right := some (upper (if right = "" then "C" else right))

def fetchOptionQuote (symbol expiry : String) (strike : PyFloat) (right : String)
    (ib : ContractAnswers) : Quoting (Option Quote) := do
  Traced.ofExcept ib.ensureConnected
  if !ib.hasConnector then return none
  else
    let call :=
      getOptionQuoteOneShot upper mean (quoteArgs upper symbol expiry strike right) ib.calls
    match call.outcome with
    | .returned q => ⟨.ok q, call.actions⟩
    | .raised => ⟨.ok none, call.actions⟩

/-- The body of the inner loop; what is raised makes a row without prices. -/
def snapshotRow (symbol expiration : String) (strike : PyFloat) (right : String)
    (ib : ContractAnswers) : Quoting SnapshotRow :=
  (do
    let quote ← fetchOptionQuote upper symbol expiration strike right ib
    return { strike, right, quote := quote.getD {} : SnapshotRow }).handle
    fun _ => pure { strike, right }

/-- The rows of the strikes, after `k` contracts. -/
def snapshotRows (symbol expiration : String) (contract : ℕ → ContractAnswers) :
    ℕ → List PyFloat → Quoting (List SnapshotRow)
  | _, [] => pure []
  | k, strike :: strikes => do
    let c ← snapshotRow upper symbol expiration strike "C" (contract k)
    let p ← snapshotRow upper symbol expiration strike "P" (contract (k + 1))
    let rows ← snapshotRows symbol expiration contract (k + 2) strikes
    return c :: p :: rows

structure OptionSnapshot where
  rows : List SnapshotRow
  underlyingPrice : Option PyFloat

def fetchOptionSnapshot (symbol expiration : String) (strikes : List PyFloat) (maxContracts : ℤ)
    (ib : SnapshotAnswers) : Quoting OptionSnapshot := do
  Traced.ofExcept ib.ensureConnected
  let underlyingPrice :=
    if strikes.isEmpty then (ib.underlyingPrice.toOption).getD none else none
  let selected := selectStrikes underlyingPrice strikes maxContracts
  let rows ← snapshotRows upper symbol expiration ib.contract 0 selected
  return { rows, underlyingPrice }

end Quotes

section Executor

-- `refused` tells the `TypeError` and the `ValueError` of a conversion
variable (py : PyConversions) (refused : PyError → Bool) (upper : String → String)

/-- The items that `float` does not refuse. -/
def floatItems : List Json → Except PyError (List PyFloat)
  | [] => .ok []
  | j :: items => match py.float j with
    | .ok x => (floatItems items).map (x :: ·)
    | .error e => if refused e then floatItems items else .error e

def payloadStrikes (payload : Payload) : Except PyError (List PyFloat) :=
  match truePayload py payload "strikes" with
  | some (.array items) => floatItems py refused items
  | _ => .ok []

def payloadMaxContracts (payload : Payload) : Except PyError ℤ :=
  match truePayload py payload "max_contracts" with
  | some j => py.int j
  | none => .ok 20

def payloadPacingSec (payload : Payload) : Except PyError PyFloat :=
  match truePayload py payload "pacing_sec" with
  | some j => py.float j
  | none => .ok (.finite (7 / 20))

/-- The op `fetch_option_snapshot`: its data, or the error of the envelope. -/
def executeOptionSnapshot (payload : Payload) (ib : SnapshotAnswers) :
    Quoting (Except String OptionSnapshot) := do
  let symbol := payloadText py payload "symbol" ""
  let expiration := payloadText py payload "expiration" ""
  let strikes ← Traced.ofExcept (payloadStrikes py refused payload)
  let maxContracts ← Traced.ofExcept (payloadMaxContracts py payload)
  -- the pacing only sleeps between the contracts
  let _ ← Traced.ofExcept (payloadPacingSec py payload)
  if symbol = "" ∨ expiration = "" then return .error "missing_symbol_or_expiration"
  else
    let out ← fetchOptionSnapshot upper symbol expiration strikes maxContracts ib
    return .ok out

end Executor

section Choice

variable {strikes : List PyFloat} {maxContracts : ℤ}

@[simp] theorem selectStrikes_nil (underlyingPrice : Option PyFloat) :
    selectStrikes underlyingPrice [] maxContracts = [] := by
  have hrange : inRange underlyingPrice [] = [] := by
    unfold inRange
    split <;> rfl
  simp [selectStrikes, hrange]

theorem take_min_toNat {α : Type} (as : List α) (n : ℤ) :
    as.take (min n as.length).toNat = as.take n.toNat := by
  rw [List.take_eq_take_iff]
  omega

/-- Without a price they are the first ones from 5 on. -/
theorem selectStrikes_none :
    selectStrikes none strikes maxContracts =
      (strikes.filter fun s => floatLe (.finite 5) s).take (maxContracts / 2).toNat := by
  have hrange : inRange none strikes = strikes.filter fun s => floatLe (.finite 5) s := rfl
  unfold selectStrikes
  rw [hrange]
  generalize strikes.filter (fun s => floatLe (.finite 5) s) = chosen
  cases chosen with
  | nil => simp
  | cons strike rest =>
    simp only [List.isEmpty_cons, Bool.false_eq_true, if_false]
    split
    · next hle =>
      have hzero : (maxContracts / 2).toNat = 0 := by
        rw [List.length_cons] at hle
        omega
      rw [hzero, List.take_zero]
    · exact take_min_toNat _ _

end Choice

section Prices

variable {upper : String → String}

/-- Every price of the quote is a positive number. -/
def Priced (q : Quote) : Prop :=
  ∀ price ∈ [q.bid, q.ask, q.last, q.mid], ∀ x ∈ price, isPositive x = true

theorem priced_empty : Priced {} := by
  simp [Priced]

theorem isPositive_of_pick {a : Attribute} {price : Option PyFloat} (h : pick a = .took price) :
    ∀ x ∈ price, isPositive x = true := by
  intro x hx
  unfold pick at h
  split at h
  · cases h
  · obtain rfl := Picked.took.inj h
    cases hx
  · cases h
  · cases h
  · next y =>
    obtain rfl := Picked.took.inj h
    split at hx
    · next hpositive =>
      obtain rfl := Option.some.inj hx
      exact hpositive
    · cases hx

theorem priced_quoteOf {bid ask last : Option PyFloat} (hbid : ∀ x ∈ bid, isPositive x = true)
    (hask : ∀ x ∈ ask, isPositive x = true) (hlast : ∀ x ∈ last, isPositive x = true) :
    Priced (quoteOf mean bid ask last) := by
  intro price hprice
  simp only [List.mem_cons, List.not_mem_nil, or_false] at hprice
  rcases hprice with rfl | rfl | rfl | rfl
  · exact hbid
  · exact hask
  · exact hlast
  · exact isPositive_mid hbid hask hlast

theorem priced_readRound {v : TickerView} {q : Quote} (h : readRound mean v = some q) :
    Priced q := by
  have hnone : ∀ x ∈ (none : Option PyFloat), isPositive x = true := nofun
  unfold readRound at h
  split at h
  · cases h
  · split at h
    · cases h
    · exact Option.some.inj h ▸ priced_quoteOf hnone hnone hnone
    · next bid hbid =>
      split at h
      · cases h
      · exact Option.some.inj h ▸ priced_quoteOf (isPositive_of_pick hbid) hnone hnone
      · next ask hask =>
        split at h
        · cases h
        · exact Option.some.inj h ▸
            priced_quoteOf (isPositive_of_pick hbid) (isPositive_of_pick hask) hnone
        · next last hlast =>
          exact Option.some.inj h ▸ priced_quoteOf (isPositive_of_pick hbid)
            (isPositive_of_pick hask) (isPositive_of_pick hlast)

theorem priced_readLoop {seen : ℕ → TickerView} {rounds i : ℕ} {q : Quote}
    (h : readLoop mean seen rounds i = some q) : Priced q := by
  induction rounds generalizing i with
  | zero => exact Option.some.inj h ▸ priced_empty
  | succ rounds ih =>
    rw [readLoop] at h
    split at h
    · cases h
    · next q' hround =>
      split at h
      · exact Option.some.inj h ▸ priced_readRound hround
      · exact ih h

theorem priced_firstAttempt {calls : QuoteCalls} {q : Quote}
    (h : (firstAttempt mean calls).2 = some q) : Priced q := by
  unfold firstAttempt at h
  split at h
  · cases h
  · split at h
    · cases h
    · next q' hread =>
      split at h
      · exact Option.some.inj h ▸ priced_readLoop hread
      · cases h

theorem priced_secondAttempt {calls : QuoteCalls} {q : Quote}
    (h : (secondAttempt mean calls).2 = some q) : Priced q := by
  unfold secondAttempt at h
  split at h
  · split at h
    · cases h
    · split at h
      · cases h
      · next q' hread =>
        dsimp only at h
        split at h
        · exact Option.some.inj h ▸ priced_readLoop hread
        · cases h
  · cases h

theorem priced_getOptionQuoteOneShot {args : QuoteArgs} {calls : QuoteCalls} {q : Quote}
    (h : (getOptionQuoteOneShot upper mean args calls).outcome = .returned (some q)) :
    Priced q := by
  unfold getOptionQuoteOneShot at h
  dsimp only at h
  split at h
  · cases h
  · split at h
    · cases h
    · cases h
    · split at h
      · next first hfirst =>
        obtain rfl : first = q := Option.some.inj (Outcome.returned.inj h)
        exact priced_firstAttempt hfirst
      · exact priced_secondAttempt (Outcome.returned.inj h)

end Prices

section Rows

variable {upper : String → String} {symbol expiration : String}

theorem priced_fetchOptionQuote {strike : PyFloat} {right : String} {ib : ContractAnswers}
    {quote : Option Quote}
    (h : (fetchOptionQuote upper symbol expiration strike right ib).result = .ok quote) :
    Priced (quote.getD {}) := by
  unfold fetchOptionQuote at h
  cases hconnected : ib.ensureConnected with
  | error e =>
    rw [Traced.bind_of_error (by rw [hconnected]; rfl)] at h
    cases h
  | ok _ =>
    rw [Traced.bind_of_ok (by rw [hconnected]; rfl)] at h
    dsimp only at h
    split at h
    · obtain rfl : none = quote := Except.ok.inj h
      exact priced_empty
    · split at h
      · next q hq =>
        obtain rfl : q = quote := Except.ok.inj h
        cases q with
        | none => exact priced_empty
        | some q => exact priced_getOptionQuoteOneShot hq
      · obtain rfl : none = quote := Except.ok.inj h
        exact priced_empty

/-- Every contract has its row, whatever happens. -/
theorem snapshotRow_result (strike : PyFloat) (right : String) (ib : ContractAnswers) :
    ∃ quote, (snapshotRow upper symbol expiration strike right ib).result =
      .ok ⟨strike, right, quote⟩ ∧ Priced quote := by
  unfold snapshotRow
  cases hquote : (fetchOptionQuote upper symbol expiration strike right ib).result with
  | error e =>
    rw [Traced.handle_of_error (by rw [Traced.bind_of_error hquote])]
    exact ⟨{}, rfl, priced_empty⟩
  | ok quote =>
    rw [Traced.handle_of_ok (by rw [Traced.bind_of_ok hquote]; rfl), Traced.bind_of_ok hquote]
    exact ⟨quote.getD {}, rfl, priced_fetchOptionQuote hquote⟩

theorem snapshotRows_result (contract : ℕ → ContractAnswers) (k : ℕ) (strikes : List PyFloat) :
    ∃ rows, (snapshotRows upper symbol expiration contract k strikes).result = .ok rows ∧
      rows.map (fun row => (row.strike, row.right)) =
        strikes.flatMap (fun strike => [(strike, "C"), (strike, "P")]) ∧
      ∀ row ∈ rows, Priced row.quote := by
  induction strikes generalizing k with
  | nil => exact ⟨[], rfl, rfl, fun row hrow => absurd hrow List.not_mem_nil⟩
  | cons strike strikes ih =>
    obtain ⟨call, hcall, hcallPriced⟩ :=
      @snapshotRow_result upper symbol expiration strike "C" (contract k)
    obtain ⟨put, hput, hputPriced⟩ :=
      @snapshotRow_result upper symbol expiration strike "P" (contract (k + 1))
    obtain ⟨rows, hrows, hkeys, hpriced⟩ := ih (k + 2)
    refine ⟨⟨strike, "C", call⟩ :: ⟨strike, "P", put⟩ :: rows, ?_, ?_, ?_⟩
    · rw [snapshotRows, Traced.bind_of_ok hcall, Traced.bind_of_ok hput, Traced.bind_of_ok hrows]
      rfl
    · rw [List.map_cons, List.map_cons, hkeys]
      rfl
    · intro row hrow
      rcases List.mem_cons.mp hrow with rfl | hrow
      · exact hcallPriced
      · rcases List.mem_cons.mp hrow with rfl | hrow
        · exact hputPriced
        · exact hpriced row hrow

/-- What a snapshot that does not raise holds. -/
structure SoundSnapshot (strikes : List PyFloat) (maxContracts : ℤ) (out : OptionSnapshot) :
    Prop where
  contracts : out.rows.map (fun row => (row.strike, row.right)) =
    ((strikes.filter fun s => floatLe (.finite 5) s).take (maxContracts / 2).toNat).flatMap
      fun strike => [(strike, "C"), (strike, "P")]
  unpriced : strikes ≠ [] → out.underlyingPrice = none
  priced : ∀ row ∈ out.rows, Priced row.quote

theorem soundSnapshot {strikes : List PyFloat} {maxContracts : ℤ} {ib : SnapshotAnswers}
    {out : OptionSnapshot}
    (h : (fetchOptionSnapshot upper symbol expiration strikes maxContracts ib).result = .ok out) :
    SoundSnapshot strikes maxContracts out := by
  unfold fetchOptionSnapshot at h
  cases hconnected : ib.ensureConnected with
  | error e =>
    rw [Traced.bind_of_error (by rw [hconnected]; rfl)] at h
    cases h
  | ok _ =>
    rw [Traced.bind_of_ok (by rw [hconnected]; rfl)] at h
    dsimp only at h
    generalize hprice : (if strikes.isEmpty then ib.underlyingPrice.toOption.getD none
      else none) = price at h
    have hnone : strikes ≠ [] → price = none := by
      intro hne
      rw [← hprice, if_neg (by simp [hne])]
    have hselected : selectStrikes price strikes maxContracts =
        (strikes.filter fun s => floatLe (.finite 5) s).take (maxContracts / 2).toNat := by
      by_cases hempty : strikes = []
      · rw [hempty, selectStrikes_nil, List.filter_nil, List.take_nil]
      · rw [hnone hempty, selectStrikes_none]
    obtain ⟨rows, hrows, hkeys, hpriced⟩ := @snapshotRows_result upper symbol expiration
      ib.contract 0 (selectStrikes price strikes maxContracts)
    rw [Traced.bind_of_ok hrows] at h
    obtain rfl := Except.ok.inj h
    exact ⟨by rw [← hselected, hkeys], hnone, hpriced⟩

end Rows

section Envelopes

variable {py : PyConversions} {refused : PyError → Bool} {upper : String → String}
  {payload : Payload} {ib : SnapshotAnswers} {out : OptionSnapshot}

theorem of_bind_ofExcept {α β : Type} {r : Except PyError α} {f : α → Quoting β} {b : β}
    (h : (Traced.ofExcept r >>= f).result = .ok b) : ∃ a, r = .ok a ∧ (f a).result = .ok b := by
  cases r with
  | ok a =>
    rw [Traced.bind_of_ok rfl] at h
    exact ⟨a, rfl, h⟩
  | error e =>
    rw [Traced.bind_of_error rfl] at h
    cases h

theorem length_eq_of_contracts {rows : List SnapshotRow} {strikes : List PyFloat}
    (h : rows.map (fun row => (row.strike, row.right)) =
      strikes.flatMap fun strike => [(strike, "C"), (strike, "P")]) :
    rows.length = 2 * strikes.length := by
  have hlength := congrArg List.length h
  rw [List.length_map, List.length_flatMap] at hlength
  simpa [mul_comm] using hlength

/-- Whatever the payload asks for and however IB answers, a snapshot holds a call and a put row for
each of the first strikes from 5 on, no more rows than contracts were allowed, and positive prices
only; the underlying price is there only without rows. -/
theorem option_snapshot_sound
    (h : (executeOptionSnapshot py refused upper payload ib).result = .ok (.ok out)) :
    ∃ strikes maxContracts, payloadStrikes py refused payload = .ok strikes ∧
      payloadMaxContracts py payload = .ok maxContracts ∧
      SoundSnapshot strikes maxContracts out ∧ out.rows.length ≤ maxContracts.toNat ∧
      (out.rows ≠ [] → out.underlyingPrice = none) := by
  unfold executeOptionSnapshot at h
  obtain ⟨strikes, hstrikes, h⟩ := of_bind_ofExcept h
  obtain ⟨maxContracts, hmax, h⟩ := of_bind_ofExcept h
  obtain ⟨-, -, h⟩ := of_bind_ofExcept h
  split at h
  · cases h
  · cases hfetch : (fetchOptionSnapshot upper (payloadText py payload "symbol" "")
      (payloadText py payload "expiration" "") strikes maxContracts ib).result with
    | error e =>
      rw [Traced.bind_of_error hfetch] at h
      cases h
    | ok snapshot =>
      rw [Traced.bind_of_ok hfetch] at h
      obtain rfl : snapshot = out := Except.ok.inj (Except.ok.inj h)
      have hsound := soundSnapshot hfetch
      have hlength := length_eq_of_contracts hsound.contracts
      rw [List.length_take] at hlength
      refine ⟨strikes, maxContracts, hstrikes, hmax, hsound, ?_, fun hrows => ?_⟩
      · omega
      · refine hsound.unpriced ?_
        rintro rfl
        apply hrows
        rw [List.filter_nil, List.length_nil] at hlength
        exact List.eq_nil_of_length_eq_zero (by omega)

/-- Number literals as they are used below. -/
def literalConversions : PyConversions where
  isZero _ := false
  str
    | .string s => s
    | _ => ""
  int _ := .ok 4
  float
    | .number "3" => .ok (.finite 3)
    | .number "100" => .ok (.finite 100)
    | .number "105" => .ok (.finite 105)
    | .number "110" => .ok (.finite 110)
    | _ => .error { text := "could not convert string to float" }
  noStrip _ := { text := "no attribute 'strip'" }

def fourContracts : Payload :=
  [("symbol", .string "SPY"), ("expiration", .string "20260116"), ("max_contracts", .number "4"),
    ("strikes", .array [.number "3", .number "100", .string "near", .number "105", .number "110"])]

/-- The connection is lost after the first contract. -/
def quotesOnce : SnapshotAnswers where
  ensureConnected := .ok ()
  underlyingPrice := .ok none
  contract k :=
    { ensureConnected := if k = 0 then .ok () else .error { text := "not connected" }
      hasConnector := true
      calls :=
        { isConnected := true
          firstRequest := some 1
          firstSeen := fun _ =>
            ⟨.value (.number (.finite 2)), .value (.number (.finite 4)), .absent⟩
          firstCancelRaises := false
          qualifies := true
          secondRequest := none
          secondSeen := fun _ => ⟨.absent, .absent, .absent⟩
          secondCancelRaises := false } }

/-- The strike 3 is left out, and so is the one beyond the four contracts. -/
theorem option_snapshot_sound_four :
    ∃ out, (executeOptionSnapshot literalConversions (fun _ => true) id fourContracts
        quotesOnce).result = .ok (.ok out) ∧ out.rows.length = 4 ∧
      (out.rows ≠ [] → out.underlyingPrice = none) := by
  refine ⟨_, rfl, rfl, ?_⟩
  obtain ⟨-, -, -, -, -, -, hunpriced⟩ := @option_snapshot_sound literalConversions (fun _ => true)
    id fourContracts quotesOnce _ rfl
  exact hunpriced

end Envelopes

end BifrostSocket.OptionSnapshots
