import BifrostSocket.IngestorWatchlists

/-!
# One-shot option quotes

`get_option_quote_one_shot` requests a ticker and reads it a few times; without a price it
qualifies the contract and tries once more. `upper` stands for `str.upper`, and `mean` for
`(bid + ask) / 2.0`.
-/

namespace BifrostSocket.OptionQuotes
open OperatorProtocol IngestorWatchlists

section Readings

/-- A call of `float`: what it returns, that it refuses its argument (`TypeError` or
`ValueError`), or that it raises something else. -/
inductive FloatCall where
  | number (x : PyFloat)
  | refused
  | raised
  deriving DecidableEq

/-- `getattr(ticker, name, None)`. -/
inductive Attribute where
  | raised
  | absent
  | value (f : FloatCall)
  deriving DecidableEq

/-- What a ticker shows in one round. -/
structure TickerView where
  bid : Attribute
  ask : Attribute
  last : Attribute
  deriving DecidableEq

structure Quote where
  bid : Option PyFloat := none
  ask : Option PyFloat := none
  last : Option PyFloat := none
  mid : Option PyFloat := none
  deriving DecidableEq

def Quote.hasData (q : Quote) : Bool :=
  q.bid.isSome || q.ask.isSome || q.last.isSome || q.mid.isSome

def isPositive : PyFloat → Bool
  | .finite q => decide (0 < q)
  | .nan => false
  | .infinity negative => !negative

/-- How a round goes on after one of the three values; a refused value ends its conversions. -/
inductive Picked where
  | raised
  | stopped
  | took (price : Option PyFloat)
  deriving DecidableEq

def pick : Attribute → Picked
  | .raised => .raised
  | .absent => .took none
  | .value .raised => .raised
  | .value .refused => .stopped
  | .value (.number x) => .took (if isPositive x then some x else none)

variable (mean : PyFloat → PyFloat → PyFloat)

def quoteOf (bid ask last : Option PyFloat) : Quote where
  bid
  ask
  last
  mid := match bid, ask with
    | some b, some a => some (mean b a)
    | _, _ => last

/-- One round: all attributes are read before the first conversion. -/
def readRound (v : TickerView) : Option Quote :=
  if v.bid = .raised ∨ v.ask = .raised ∨ v.last = .raised then none
  else match pick v.bid with
    | .raised => none
    | .stopped => some (quoteOf mean none none none)
    | .took bid => match pick v.ask with
      | .raised => none
      | .stopped => some (quoteOf mean bid none none)
      | .took ask => match pick v.last with
        | .raised => none
        | .stopped => some (quoteOf mean bid ask none)
        | .took last => some (quoteOf mean bid ask last)

/-- The rounds that are left, from round `i` on. -/
def readLoop (seen : ℕ → TickerView) : ℕ → ℕ → Option Quote
  | 0, _ => some {}
  | rounds + 1, i =>
    match readRound mean (seen i) with
    | none => none
    | some q => if q.hasData then some q else readLoop seen rounds (i + 1)

/-- `_read_ticker`; without a result it raised. -/
def readTicker (seen : ℕ → TickerView) : Option Quote := readLoop mean seen 4 0

/-- The round gives no price and does not raise. -/
def Quiet (v : TickerView) : Prop := ∃ q, readRound mean v = some q ∧ q.hasData = false

def ReadsNothing (seen : ℕ → TickerView) : Prop := ∀ i < 4, Quiet mean (seen i)

def ReadRaises (seen : ℕ → TickerView) : Prop :=
  ∃ i < 4, readRound mean (seen i) = none ∧ ∀ j < i, Quiet mean (seen j)

variable {mean} {seen : ℕ → TickerView} {rounds i : ℕ}

theorem readLoop_eq_none_iff :
    readLoop mean seen rounds i = none ↔
      ∃ j < rounds, readRound mean (seen (i + j)) = none ∧ ∀ k < j, Quiet mean (seen (i + k)) := by
  induction rounds generalizing i with
  | zero => simp [readLoop]
  | succ rounds ih =>
    rw [readLoop, Nat.exists_lt_succ_left]
    simp only [Nat.forall_lt_succ_left, Nat.add_zero]
    cases hround : readRound mean (seen i) with
    | none => simp
    | some q =>
      dsimp only
      cases hdata : q.hasData with
      | true => simp [Quiet, hround, hdata]
      | false =>
        have hfirst : Quiet mean (seen i) := ⟨q, hround, hdata⟩
        have hshift : ∀ j, i + 1 + j = i + (j + 1) := fun j => by omega
        rw [if_neg Bool.false_ne_true, ih]
        simp [hfirst, hshift]

theorem readLoop_quiet_iff :
    (∃ q, readLoop mean seen rounds i = some q ∧ q.hasData = false) ↔
      ∀ j < rounds, Quiet mean (seen (i + j)) := by
  induction rounds generalizing i with
  | zero => simp [readLoop, Quote.hasData]
  | succ rounds ih =>
    rw [readLoop, Nat.forall_lt_succ_left]
    simp only [Nat.add_zero]
    cases hround : readRound mean (seen i) with
    | none => simp [Quiet, hround]
    | some q =>
      dsimp only
      cases hdata : q.hasData with
      | true => simp [Quiet, hround, hdata]
      | false =>
        have hfirst : Quiet mean (seen i) := ⟨q, hround, hdata⟩
        have hshift : ∀ j, i + 1 + j = i + (j + 1) := fun j => by omega
        rw [if_neg Bool.false_ne_true, ih]
        simp only [hfirst, true_and, hshift]

theorem readTicker_raises_iff : readTicker mean seen = none ↔ ReadRaises mean seen := by
  have h := @readLoop_eq_none_iff mean seen 4 0
  simp only [Nat.zero_add] at h
  exact h

theorem readTicker_nothing_iff :
    (∃ q, readTicker mean seen = some q ∧ q.hasData = false) ↔ ReadsNothing mean seen := by
  have h := @readLoop_quiet_iff mean seen 4 0
  simp only [Nat.zero_add] at h
  exact h

end Readings

section Calls

/-- The arguments that the code looks at; `strike` is what `float` makes of it. -/
structure QuoteArgs where
  symbol : Option String
  expiry : Option String
  strike : FloatCall
  right : Option String

/-- How IB answers. A request without a ticker raised; tickers are known by their identity. -/
structure QuoteCalls where
  isConnected : Bool
  firstRequest : Option ℕ
  firstSeen : ℕ → TickerView
  firstCancelRaises : Bool
  qualifies : Bool
  secondRequest : Option ℕ
  secondSeen : ℕ → TickerView
  secondCancelRaises : Bool

inductive Action where
  | connect
  | reqMktData (ticker : Option ℕ)
  | qualifyContracts (ok : Bool)
  | cancelMktData (ticker : ℕ) (raised : Bool)
  deriving DecidableEq

inductive Outcome where
  | returned (q : Option Quote)
  | raised
  deriving DecidableEq

structure QuoteCall where
  actions : List Action
  outcome : Outcome
  deriving DecidableEq

variable (upper : String → String) (mean : PyFloat → PyFloat → PyFloat)

/-- The first `try`, and the quote if it returns one. -/
def firstAttempt (calls : QuoteCalls) : List Action × Option Quote :=
  match calls.firstRequest with
  | none => ([.reqMktData none], none)
  | some ticker =>
    let cancel := Action.cancelMktData ticker calls.firstCancelRaises
    match readTicker mean calls.firstSeen with
    | none => ([.reqMktData (some ticker), cancel], none)
    | some q =>
      if q.hasData then ([.reqMktData (some ticker), cancel], some q)
      else ([.reqMktData (some ticker)], none)

/-- The second `try`. -/
def secondAttempt (calls : QuoteCalls) : List Action × Option Quote :=
  if calls.qualifies then
    match calls.secondRequest with
    | none => ([.qualifyContracts true, .reqMktData none], none)
    | some ticker =>
      match readTicker mean calls.secondSeen with
      | none => ([.qualifyContracts true, .reqMktData (some ticker)], none)
      | some q =>
        ([.qualifyContracts true, .reqMktData (some ticker),
            .cancelMktData ticker calls.secondCancelRaises],
          if q.hasData then some q else none)
  else ([.qualifyContracts false], none)

/-- The arguments for which a contract is built. -/
def QuoteArgs.Accepted (args : QuoteArgs) : Prop :=
  args.symbol.getD "" ≠ "" ∧ strip (args.expiry.getD "") ≠ "" ∧
    upper (args.right.getD "") ∈ ["C", "P"] ∧ ∃ x, args.strike = .number x

def getOptionQuoteOneShot (args : QuoteArgs) (calls : QuoteCalls) : QuoteCall :=
  let connects : List Action := if calls.isConnected then [] else [.connect]
  let exp := strip (args.expiry.getD "")
  let rt := upper (args.right.getD "")
  if args.symbol.getD "" = "" ∨ exp = "" ∨ rt ∉ ["C", "P"] then ⟨connects, .returned none⟩
  else match args.strike with
    | .refused | .raised => ⟨connects, .raised⟩
    | .number _ =>
      let first := firstAttempt mean calls
      match first.2 with
      | some q => ⟨connects ++ first.1, .returned (some q)⟩
      | none =>
        let second := secondAttempt mean calls
        ⟨connects ++ first.1 ++ second.1, .returned second.2⟩

end Calls

section Lines

variable {upper : String → String} {mean : PyFloat → PyFloat → PyFloat} {args : QuoteArgs}
  {calls : QuoteCalls}

/-- Every ticker that was obtained has been passed to `cancelMktData`: each request has a
later cancel of its own, also where the same ticker is obtained twice. -/
inductive AllCancelled : List Action → Prop where
  | nil : AllCancelled []
  | other {a : Action} {rest : List Action} (hno : ∀ ticker, a ≠ .reqMktData (some ticker))
      (hrest : AllCancelled rest) : AllCancelled (a :: rest)
  | cancelled {ticker : ℕ} {raised : Bool} {between rest : List Action}
      (hrest : AllCancelled (between ++ rest)) :
      AllCancelled (.reqMktData (some ticker) :: (between ++ .cancelMktData ticker raised :: rest))

def Action.obtains (ticker : ℕ) (a : Action) : Bool := decide (a = .reqMktData (some ticker))

def Action.releases (ticker : ℕ) : Action → Bool
  | .cancelMktData t _ => decide (t = ticker)
  | .connect | .reqMktData _ | .qualifyContracts _ => false

/-- A ticker is cancelled at least as often as it is obtained. -/
theorem AllCancelled.countP_le {actions : List Action} (h : AllCancelled actions) (ticker : ℕ) :
    actions.countP (Action.obtains ticker) ≤ actions.countP (Action.releases ticker) := by
  induction h with
  | nil => exact le_rfl
  | @other a rest hno _ ih =>
    have hnot : a.obtains ticker = false := by simpa [Action.obtains] using hno ticker
    rw [List.countP_cons_of_neg (by simp [hnot])]
    exact ih.trans (List.sublist_cons_self a rest).countP_le
  | @cancelled t raised between rest _ ih =>
    rw [List.countP_append, List.countP_append] at ih
    by_cases ht : t = ticker
    · simp [Action.obtains, Action.releases, ht] at ih ⊢
      omega
    · simp [Action.obtains, Action.releases, ht] at ih ⊢
      omega

theorem AllCancelled.append {l l' : List Action} (h : AllCancelled l) (h' : AllCancelled l') :
    AllCancelled (l ++ l') := by
  induction h with
  | nil => exact h'
  | other hno _ ih => exact .other hno ih
  | @cancelled t raised between rest _ ih =>
    rw [List.append_assoc] at ih
    rw [List.cons_append, List.append_assoc, List.cons_append]
    exact .cancelled ih

theorem allCancelled_pair (ticker : ℕ) (raised : Bool) :
    AllCancelled [.reqMktData (some ticker), .cancelMktData ticker raised] :=
  @AllCancelled.cancelled ticker raised [] [] .nil

/-- The first attempt obtains a ticker that shows no price. -/
def FirstLeaves (mean : PyFloat → PyFloat → PyFloat) (calls : QuoteCalls) : Prop :=
  calls.firstRequest.isSome ∧ ReadsNothing mean calls.firstSeen

/-- The first attempt raises: there is no ticker, or reading it raises. -/
def FirstRaises (mean : PyFloat → PyFloat → PyFloat) (calls : QuoteCalls) : Prop :=
  ∀ ticker, calls.firstRequest = some ticker → ReadRaises mean calls.firstSeen

/-- The second attempt obtains a ticker and its reading raises. -/
def SecondLeaves (mean : PyFloat → PyFloat → PyFloat) (calls : QuoteCalls) : Prop :=
  calls.qualifies = true ∧ calls.secondRequest.isSome ∧ ReadRaises mean calls.secondSeen

/-- A first ticker shows a price or its reading raises; and where the first attempt raises, the
second one obtains no ticker or reads it without raising. -/
def ReleasesLines (upper : String → String) (mean : PyFloat → PyFloat → PyFloat) (args : QuoteArgs)
    (calls : QuoteCalls) : Prop :=
  args.Accepted upper →
    ¬ FirstLeaves mean calls ∧ (FirstRaises mean calls → ¬ SecondLeaves mean calls)

/-- How the first attempt ends: it raises and leaves no line, it leaves one, or it returns. -/
theorem firstAttempt_cases :
    (FirstRaises mean calls ∧ ¬ FirstLeaves mean calls ∧ (firstAttempt mean calls).2 = none ∧
      AllCancelled (firstAttempt mean calls).1) ∨
    (FirstLeaves mean calls ∧ (firstAttempt mean calls).2 = none ∧
      ∃ ticker, (firstAttempt mean calls).1 = [.reqMktData (some ticker)]) ∨
    (¬ FirstRaises mean calls ∧ ¬ FirstLeaves mean calls ∧ (firstAttempt mean calls).2 ≠ none ∧
      AllCancelled (firstAttempt mean calls).1) := by
  rw [FirstRaises, FirstLeaves, ← readTicker_nothing_iff, ← readTicker_raises_iff]
  unfold firstAttempt
  cases calls.firstRequest with
  | none =>
    refine .inl ⟨by simp, by simp, rfl, ?_⟩
    exact .other (by simp) .nil
  | some t => cases readTicker mean calls.firstSeen with
    | none => exact .inl ⟨by simp, by simp, rfl, allCancelled_pair t _⟩
    | some q => cases hdata : q.hasData with
      | false => exact .inr (.inl ⟨by simp [hdata], by simp [hdata], t, by simp [hdata]⟩)
      | true =>
        refine .inr (.inr ⟨by simp, by simp [hdata], by simp [hdata], ?_⟩)
        simpa [hdata] using allCancelled_pair t calls.firstCancelRaises

theorem secondAttempt_cases :
    (SecondLeaves mean calls ∧ ∃ ticker, (secondAttempt mean calls).1 =
      [.qualifyContracts true, .reqMktData (some ticker)]) ∨
    (¬ SecondLeaves mean calls ∧ AllCancelled (secondAttempt mean calls).1) := by
  rw [SecondLeaves, ← readTicker_raises_iff]
  unfold secondAttempt
  cases calls.qualifies with
  | false => exact .inr ⟨by simp, .other (by simp) .nil⟩
  | true => cases calls.secondRequest with
    | none => exact .inr ⟨by simp, .other (by simp) (.other (by simp) .nil)⟩
    | some t => cases readTicker mean calls.secondSeen with
      | none => exact .inl ⟨by simp, t, rfl⟩
      | some q => exact .inr ⟨by simp, .other (by simp) (allCancelled_pair t _)⟩

theorem firstAttempt_countP_le (ticker : ℕ) :
    (firstAttempt mean calls).1.countP (Action.releases ticker) ≤
      (firstAttempt mean calls).1.countP (Action.obtains ticker) := by
  unfold firstAttempt
  cases calls.firstRequest with
  | none => simp [Action.releases]
  | some t => cases readTicker mean calls.firstSeen with
    | none => simp [Action.releases, Action.obtains, List.countP_cons]
    | some q => cases hdata : q.hasData with
      | true => simp [hdata, Action.releases, Action.obtains, List.countP_cons]
      | false => simp [hdata, Action.releases]

theorem secondAttempt_countP_le (ticker : ℕ) :
    (secondAttempt mean calls).1.countP (Action.releases ticker) ≤
      (secondAttempt mean calls).1.countP (Action.obtains ticker) := by
  unfold secondAttempt
  cases calls.qualifies with
  | false => simp [Action.releases]
  | true => cases calls.secondRequest with
    | none => simp [Action.releases]
    | some t => cases readTicker mean calls.secondSeen with
      | none => simp [Action.releases]
      | some q => simp [Action.releases, Action.obtains, List.countP_cons]

/-- An attempt cancels only the ticker that it obtained, so that a line which one of them
leaves open stays open. -/
theorem allCancelled_both_iff (h : (firstAttempt mean calls).2 = none) :
    AllCancelled ((firstAttempt mean calls).1 ++ (secondAttempt mean calls).1) ↔
      ¬ FirstLeaves mean calls ∧ (FirstRaises mean calls → ¬ SecondLeaves mean calls) := by
  rcases @firstAttempt_cases mean calls with
    ⟨hraises, hleaves, -, hfirst⟩ | ⟨hleaves, -, t, hone⟩ | ⟨-, -, hreturns, -⟩
  · rcases @secondAttempt_cases mean calls with
      ⟨hsecond, t, htwo⟩ | ⟨hsecond, hall⟩
    · refine iff_of_false (fun hall => ?_) fun hboth => hboth.2 hraises hsecond
      have hle := hall.countP_le t
      have hfirst := @firstAttempt_countP_le mean calls t
      simp [htwo, Action.releases, Action.obtains] at hle hfirst
      omega
    · exact iff_of_true (hfirst.append hall) ⟨hleaves, fun _ => hsecond⟩
  · refine iff_of_false (fun hall => ?_) fun hboth => hboth.1 hleaves
    have hle := hall.countP_le t
    have hsecond := @secondAttempt_countP_le mean calls t
    simp [hone, Action.releases, Action.obtains] at hle hsecond
    omega
  · exact absurd h hreturns

theorem allCancelled_connect {b : Bool} {actions : List Action} :
    AllCancelled ((if b then [] else [.connect]) ++ actions) ↔ AllCancelled actions := by
  cases b with
  | true => rfl
  | false =>
    constructor
    · intro h
      cases h with
      | other _ hrest => exact hrest
    · exact fun h => .other (by simp) h

theorem allCancelled_of_not_accepted (h : ¬ args.Accepted upper) :
    AllCancelled (getOptionQuoteOneShot upper mean args calls).actions := by
  have hconnect := (@allCancelled_connect calls.isConnected []).mpr .nil
  rw [List.append_nil] at hconnect
  unfold getOptionQuoteOneShot
  dsimp only
  split
  · exact hconnect
  · next hargs =>
    simp only [not_or, not_not] at hargs
    cases hstrike : args.strike with
    | refused => exact hconnect
    | raised => exact hconnect
    | number x => exact absurd ⟨hargs.1, hargs.2.1, hargs.2.2, x, hstrike⟩ h

/-- For accepted arguments the second attempt follows unless the first one returns. -/
theorem oneShot_accepted (h : args.Accepted upper) :
    let call := getOptionQuoteOneShot upper mean args calls
    (∃ q, call.outcome = .returned q) ∧ call.actions =
      (if calls.isConnected then [] else [.connect]) ++
        if (firstAttempt mean calls).2 = none then
          (firstAttempt mean calls).1 ++ (secondAttempt mean calls).1
        else (firstAttempt mean calls).1 := by
  obtain ⟨hsymbol, hexp, hright, x, hstrike⟩ := h
  have hargs : ¬ (args.symbol.getD "" = "" ∨ strip (args.expiry.getD "") = "" ∨
      upper (args.right.getD "") ∉ ["C", "P"]) := by
    simp only [not_or, not_not]
    exact ⟨hsymbol, hexp, hright⟩
  unfold getOptionQuoteOneShot
  dsimp only
  rw [if_neg hargs, hstrike]
  cases hfirst : (firstAttempt mean calls).2 with
  | none => simp
  | some q => simp

/-- When a call returns, every ticker that it obtained has been passed to a `cancelMktData` of
its own, if and only if the first ticker shows a price or its reading raises, and the second
attempt does not raise while reading its ticker. -/
theorem option_quote_released_iff (upper : String → String) (mean : PyFloat → PyFloat → PyFloat)
    (args : QuoteArgs) (calls : QuoteCalls) :
    (∀ q, (getOptionQuoteOneShot upper mean args calls).outcome = .returned q →
      AllCancelled (getOptionQuoteOneShot upper mean args calls).actions) ↔
      ReleasesLines upper mean args calls := by
  by_cases hacc : args.Accepted upper
  · obtain ⟨⟨q, hq⟩, hactions⟩ := @oneShot_accepted upper mean args calls hacc
    have hreturns : (∀ q, (getOptionQuoteOneShot upper mean args calls).outcome = .returned q →
        AllCancelled (getOptionQuoteOneShot upper mean args calls).actions) ↔
        AllCancelled (getOptionQuoteOneShot upper mean args calls).actions :=
      ⟨fun hall => hall q hq, fun hcancelled _ _ => hcancelled⟩
    rw [hreturns, hactions, allCancelled_connect, ReleasesLines, imp_iff_right hacc]
    by_cases hfirst : (firstAttempt mean calls).2 = none
    · rw [if_pos hfirst, allCancelled_both_iff hfirst]
    · rw [if_neg hfirst]
      rcases @firstAttempt_cases mean calls with
        ⟨-, -, hnone, -⟩ | ⟨-, hnone, -⟩ | ⟨hraises, hleaves, -, hcancelled⟩
      · exact absurd hnone hfirst
      · exact absurd hnone hfirst
      · exact iff_of_true hcancelled ⟨hleaves, fun h => absurd h hraises⟩
  · exact iff_of_true (fun _ _ => allCancelled_of_not_accepted hacc) fun h => absurd h hacc

end Lines

section Instances

/-- `(bid + ask) / 2.0` on positive numbers, without rounding. -/
def halfSum : PyFloat → PyFloat → PyFloat
  | .finite b, .finite a => .finite ((b + a) / 2)
  | .finite _, a => a
  | b, _ => b

def withoutData : TickerView := ⟨.absent, .value (.number .nan), .value (.number (.finite (-1)))⟩

def callArgs : QuoteArgs := ⟨some "AAPL", some "20260116", .number (.finite 150), some "C"⟩

/-- The first ticker shows no price and the contract cannot be qualified, and the ticker is not
cancelled. -/
theorem ticker_without_data_stays_open :
    ¬ (∀ args calls q, (getOptionQuoteOneShot id halfSum args calls).outcome = .returned q →
      AllCancelled (getOptionQuoteOneShot id halfSum args calls).actions) := by
  intro hall
  have hcancelled := hall callArgs
    { isConnected := true
      firstRequest := some 7
      firstSeen := fun _ => withoutData
      firstCancelRaises := false
      qualifies := false
      secondRequest := none
      secondSeen := fun _ => withoutData
      secondCancelRaises := false } none (by decide +kernel)
  exact absurd (hcancelled.countP_le 7) (by decide +kernel)

end Instances

end BifrostSocket.OptionQuotes
