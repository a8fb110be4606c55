import BifrostSocket.ContractKeys
import BifrostSocket.OptionQuotes
import Mathlib.Tactic.Linarith

/-!
# Mid prices

`_quote_payload` builds the quote that the ingestor publishes of a ticker. It keeps every number;
the reader of one-shot quotes keeps positive numbers only.
-/

namespace BifrostSocket.MidPrices
open IngestorWatchlists OptionQuotes ContractKeys

section Payloads

/-- `_float_or_none` of an attribute, without a result where it raises. -/
def floatOrNone : Attribute → Option (Option PyFloat)
  | .raised => none
  | .absent => some none
  | .value .raised => none
  | .value .refused => some none
  | .value (.number x) => some (if x = .nan then none else some x)

/-- `(bid + ask) / 2.0`. -/
def mean : PyFloat → PyFloat → PyFloat
  | .finite b, .finite a => .finite ((b + a) / 2)
  | .nan, _ | _, .nan => .nan
  | .infinity s, .infinity t => if s = t then .infinity s else .nan
  | .infinity s, .finite _ | .finite _, .infinity s => .infinity s

/-- The entries of the published dictionary; the quote is its `bid`, `ask`, `last` and `mid`. -/
structure QuotePayload where
  quote : Quote
  ts : ℚ
  contractKey : String
  symbol : String
  secType : String

/-- `now` is `time.time()`. -/
def quotePayload (contractKey secType : String) (now : ℚ) (t : TickerView) :
    Option QuotePayload := do
  let bid ← floatOrNone t.bid
  let ask ← floatOrNone t.ask
  let last ← floatOrNone t.last
  let symbol :=
    if '|' ∈ contractKey.toList then (splitBars contractKey).headD "" else contractKey
  return { quote := quoteOf mean bid ask last, ts := now, contractKey, symbol, secType }

end Payloads

section Tickers

/-- What a field of a ticker shows; zero and negative prices are IB's markers for no quote. -/
inductive TickerField where
  | missing
  | nan
  | price (q : ℚ)
  deriving DecidableEq

structure Ticker where
  bid : TickerField
  ask : TickerField
  last : TickerField
  deriving DecidableEq

def TickerField.attribute : TickerField → Attribute
  | .missing => .absent
  | .nan => .value (.number .nan)
  | .price q => .value (.number (.finite q))

def Ticker.view (t : Ticker) : TickerView where
  bid := t.bid.attribute
  ask := t.ask.attribute
  last := t.last.attribute

def TickerField.number : TickerField → Option PyFloat
  | .missing | .nan => none
  | .price q => some (.finite q)

@[simp] theorem floatOrNone_attribute (f : TickerField) :
    floatOrNone f.attribute = some f.number := by
  cases f <;> rfl

@[simp] theorem pick_attribute (f : TickerField) :
    pick f.attribute = .took (f.number.filter isPositive) := by
  cases f with
  | missing => rfl
  | nan => rfl
  | price q => simp [pick, TickerField.attribute, TickerField.number, Option.filter]

theorem attribute_ne_raised (f : TickerField) : f.attribute ≠ .raised := by
  cases f <;> nofun

end Tickers

section Readers

variable {t : Ticker}

/-- Without a price a quote is the empty one. -/
theorem eq_empty_of_hasData {q : Quote} (h : q.hasData = false) : q = {} := by
  obtain ⟨bid, ask, last, mid⟩ := q
  simp only [Quote.hasData, Bool.or_eq_false_iff, Option.isSome_eq_false_iff,
    Option.isNone_iff_eq_none] at h
  obtain ⟨⟨⟨rfl, rfl⟩, rfl⟩, rfl⟩ := h
  rfl

/-- Of an unchanging ticker every further round reads what the first one does. -/
theorem readLoop_unchanging (v : TickerView) (rounds i : ℕ) :
    readLoop mean (fun _ => v) (rounds + 1) i = readRound mean v := by
  induction rounds generalizing i with
  | zero =>
    rw [readLoop]
    cases readRound mean v with
    | none => rfl
    | some q =>
      cases hdata : q.hasData with
      | true => simp [hdata]
      | false => simp [readLoop, eq_empty_of_hasData hdata]
  | succ rounds ih =>
    rw [readLoop, ih]
    cases readRound mean v with
    | none => rfl
    | some q => cases hdata : q.hasData <;> simp [hdata]

theorem quotePayload_view (contractKey secType : String) (now : ℚ) (t : Ticker) :
    (quotePayload contractKey secType now t.view).map QuotePayload.quote =
      some (quoteOf mean t.bid.number t.ask.number t.last.number) := by
  simp [quotePayload, Ticker.view]

theorem readTicker_view (t : Ticker) :
    readTicker mean (fun _ => t.view) = some (quoteOf mean (t.bid.number.filter isPositive)
      (t.ask.number.filter isPositive) (t.last.number.filter isPositive)) := by
  rw [readTicker, readLoop_unchanging]
  simp [readRound, Ticker.view, attribute_ne_raised]

theorem isPositive_mean {b a : PyFloat} (hb : isPositive b = true) (ha : isPositive a = true) :
    isPositive (mean b a) = true := by
  cases b with
  | nan => cases hb
  | infinity s => cases a with
    | nan => cases ha
    | finite q => exact hb
    | infinity s' =>
      obtain rfl : s = false := by simpa [isPositive] using hb
      obtain rfl : s' = false := by simpa [isPositive] using ha
      rfl
  | finite p => cases a with
    | nan => cases ha
    | infinity s => exact ha
    | finite q =>
      simp only [isPositive, mean, decide_eq_true_eq] at hb ha ⊢
      linarith

/-- A mid that is made of positive prices is positive. -/
theorem isPositive_mid {bid ask last : Option PyFloat} (hbid : ∀ x ∈ bid, isPositive x = true)
    (hask : ∀ x ∈ ask, isPositive x = true) (hlast : ∀ x ∈ last, isPositive x = true) :
    ∀ m ∈ (quoteOf mean bid ask last).mid, isPositive m = true := by
  intro m hm
  cases bid with
  | none => exact hlast m hm
  | some b => cases ask with
    | none => exact hlast m hm
    | some a =>
      obtain rfl : mean b a = m := Option.some.inj hm
      exact isPositive_mean (hbid b rfl) (hask a rfl)

theorem isPositive_of_mem_filter (x : Option PyFloat) :
    ∀ m ∈ x.filter isPositive, isPositive m = true := by
  intro m hm
  rw [Option.mem_filter_iff] at hm
  exact hm.2

end Readers

section Agreement

/-- The payload of the ticker and the reader of one-shot quotes give the same mid, and it is
positive. -/
def MidsAgree (contractKey secType : String) (now : ℚ) (t : Ticker) : Prop :=
  ∃ payload oneShot, quotePayload contractKey secType now t.view = some payload ∧
    readTicker mean (fun _ => t.view) = some oneShot ∧
    payload.quote.mid = oneShot.mid ∧ ∀ m ∈ payload.quote.mid, isPositive m = true

/-- No marker for a missing quote reaches the mid: two numbers as bid and ask are both positive,
or their mean is the positive last price; otherwise a last price is positive. -/
def MarkerFree (t : Ticker) : Prop :=
  match t.bid, t.ask with
  | .price b, .price a =>
    0 < b ∧ 0 < a ∨ 0 < (b + a) / 2 ∧ t.last = .price ((b + a) / 2)
  | _, _ => ∀ q, t.last = .price q → 0 < q

theorem number_eq_filter_iff (f : TickerField) :
    f.number = f.number.filter isPositive ↔ ∀ q, f = .price q → 0 < q := by
  cases f with
  | missing => simp [TickerField.number]
  | nan => simp [TickerField.number]
  | price q => simp [TickerField.number, Option.filter, isPositive]

theorem filter_eq_price_iff (f : TickerField) (q : ℚ) :
    f.number.filter isPositive = some (.finite q) ↔ 0 < q ∧ f = .price q := by
  rw [Option.filter_eq_some_iff]
  cases f with
  | missing => simp [TickerField.number]
  | nan => simp [TickerField.number]
  | price p => simp [TickerField.number, isPositive, and_comm]

theorem filter_price (q : ℚ) :
    (TickerField.price q).number.filter isPositive = if 0 < q then some (.finite q) else none := by
  simp [TickerField.number, Option.filter, isPositive]

@[simp] theorem quoteOf_mid_bid_none (ask last : Option PyFloat) :
    (quoteOf mean none ask last).mid = last := rfl

@[simp] theorem quoteOf_mid_ask_none (bid last : Option PyFloat) :
    (quoteOf mean bid none last).mid = last := by
  cases bid <;> rfl

/-- The mid of the two paths, from what each keeps of the ticker. -/
theorem mid_eq_iff (t : Ticker) :
    (quoteOf mean t.bid.number t.ask.number t.last.number).mid =
      (quoteOf mean (t.bid.number.filter isPositive) (t.ask.number.filter isPositive)
        (t.last.number.filter isPositive)).mid ↔ MarkerFree t := by
  obtain ⟨bid, ask, last⟩ := t
  cases bid with
  | missing => exact number_eq_filter_iff last
  | nan => exact number_eq_filter_iff last
  | price b => cases ask with
    | missing => simpa [TickerField.number, MarkerFree] using number_eq_filter_iff last
    | nan => simpa [TickerField.number, MarkerFree] using number_eq_filter_iff last
    | price a =>
      have hmarker : MarkerFree ⟨.price b, .price a, last⟩ ↔
          0 < b ∧ 0 < a ∨ last.number.filter isPositive = some (.finite ((b + a) / 2)) := by
        rw [filter_eq_price_iff]
        rfl
      rw [hmarker, filter_price, filter_price]
      by_cases hb : 0 < b
      · by_cases ha : 0 < a
        · simp [hb, ha, TickerField.number, quoteOf]
        · simp [hb, ha, TickerField.number, quoteOf, mean, eq_comm]
      · simp [hb, TickerField.number, quoteOf, mean, eq_comm]

/-- The streamed mid is the one-shot mid, and positive, exactly for tickers free of markers. -/
theorem midsAgree_iff (contractKey secType : String) (now : ℚ) (t : Ticker) :
    MidsAgree contractKey secType now t ↔ MarkerFree t := by
  rw [← mid_eq_iff]
  have hpayload := quotePayload_view contractKey secType now t
  rw [Option.map_eq_some_iff] at hpayload
  obtain ⟨payload, hpayload, hquote⟩ := hpayload
  constructor
  · rintro ⟨payload', oneShot, hpayload', honeShot, hmid, -⟩
    obtain rfl : payload = payload' := Option.some.inj (hpayload.symm.trans hpayload')
    rw [readTicker_view] at honeShot
    rw [← hquote, hmid, ← Option.some.inj honeShot]
  · intro hmid
    refine ⟨payload, _, hpayload, readTicker_view t, by rw [hquote, hmid], ?_⟩
    rw [hquote, hmid]
    exact isPositive_mid (isPositive_of_mem_filter _) (isPositive_of_mem_filter _)
      (isPositive_of_mem_filter _)

/-- With -1 for both quotes and a last price of 5, the mid is published as -1. -/
theorem marker_published_as_mid :
    let t : Ticker := ⟨.price (-1), .price (-1), .price 5⟩
    (quotePayload "AAPL|STK|||" "STK" 0 t.view).map (fun p => p.quote.mid) =
        some (some (.finite (-1))) ∧
      (readTicker mean (fun _ => t.view)).map Quote.mid = some (some (.finite 5)) ∧
      ¬ MidsAgree "AAPL|STK|||" "STK" 0 t := by
  intro t
  have hmean : mean (.finite (-1)) (.finite (-1)) = .finite (-1) := by norm_num [mean]
  have hpayload : (quotePayload "AAPL|STK|||" "STK" 0 t.view).map (fun p => p.quote.mid) =
      some (some (.finite (-1))) := by
    have h := congrArg (Option.map Quote.mid) (quotePayload_view "AAPL|STK|||" "STK" 0 t)
    rw [Option.map_map] at h
    exact h.trans (congrArg (fun m => some (some m)) hmean)
  have honeShot : (readTicker mean (fun _ => t.view)).map Quote.mid =
      some (some (.finite 5)) := by
    rw [readTicker_view]
    norm_num [t, filter_price, quoteOf]
  refine ⟨hpayload, honeShot, ?_⟩
  rintro ⟨payload, oneShot, hp, -, -, hpositive⟩
  rw [hp] at hpayload
  have hneg := hpositive (.finite (-1)) (Option.some.inj hpayload)
  norm_num [isPositive] at hneg

end Agreement

end BifrostSocket.MidPrices
