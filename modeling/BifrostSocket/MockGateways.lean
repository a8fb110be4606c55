import BifrostSocket.TransitionRuns
import BifrostSocket.KubernetesLeases
import Mathlib.Algebra.Order.Group.MinMax
import Mathlib.Algebra.Order.Ring.Abs

/-!
# Quotes of the mock gateway

In the mode `mock` the ingestor walks one price a symbol at random and publishes a quote around it
at every refresh. Prices are exact decimal fractions here, and rounding to cents gives some nearest
cent: the source rounds doubles, which lie on either side of a tie. A failing Redis call ends a
refresh where it stands; the next one goes on from the prices of the last.
-/

namespace BifrostSocket.MockGateways
open TransitionRuns
open HistoricalBars (roundHalfEven)

section Rounding

/-- `round(q, digits)`. -/
def roundTo (digits : ℕ) (q : ℚ) : ℚ := (roundHalfEven (q * 10 ^ digits) : ℚ) / 10 ^ digits

/-- A whole number of cents. -/
def IsCents (q : ℚ) : Prop := ∃ n : ℤ, q = n / 100

variable {p q : ℚ}

theorem isCents_roundTo (q : ℚ) : IsCents (roundTo 2 q) :=
  ⟨roundHalfEven (q * 10 ^ 2), by norm_num [roundTo]⟩

theorem IsCents.add (hp : IsCents p) (hq : IsCents q) : IsCents (p + q) := by
  obtain ⟨m, rfl⟩ := hp
  obtain ⟨n, rfl⟩ := hq
  exact ⟨m + n, by push_cast; ring⟩

theorem IsCents.sub (hp : IsCents p) (hq : IsCents q) : IsCents (p - q) := by
  obtain ⟨m, rfl⟩ := hp
  obtain ⟨n, rfl⟩ := hq
  exact ⟨m - n, by push_cast; ring⟩

theorem IsCents.max (hp : IsCents p) (hq : IsCents q) : IsCents (max p q) := by
  rcases max_choice p q with h | h <;> rw [h] <;> assumption

theorem roundTo_four (hq : IsCents q) : roundTo 4 q = q := by
  obtain ⟨n, rfl⟩ := hq
  have hscaled : ((n : ℚ) / 100) * 10 ^ 4 = ((100 * n : ℤ) : ℚ) := by
    push_cast
    ring
  rw [roundTo, hscaled, KubernetesLeases.roundHalfEven_intCast]
  push_cast
  ring

theorem roundTo_near (q : ℚ) : |roundTo 2 q - q| ≤ 1 / 200 := by
  obtain ⟨hlow, hhigh⟩ := KubernetesLeases.roundHalfEven_near (q * 10 ^ 2)
  rw [abs_le, roundTo]
  constructor
  · rw [le_sub_iff_add_le, le_div_iff₀ (by norm_num)]
    linarith
  · rw [sub_le_iff_le_add, div_le_iff₀ (by norm_num)]
    linarith

/-- `round(q, 2)`: a nearest whole cent, on either side of a tie. -/
structure CentRounding where
  round : ℚ → ℚ
  cents : ∀ q, IsCents (round q)
  near : ∀ q, |round q - q| ≤ 1 / 200

/-- Whole cents stay what they are. -/
theorem CentRounding.round_cents (ρ : CentRounding) (hq : IsCents q) : ρ.round q = q := by
  obtain ⟨m, hm⟩ := ρ.cents q
  obtain ⟨hlow, hhigh⟩ := abs_le.mp (ρ.near q)
  obtain ⟨n, rfl⟩ := hq
  rw [hm] at hlow hhigh ⊢
  have hlt : (m : ℚ) < n + 1 := by linarith
  have hgt : (n : ℚ) < m + 1 := by linarith
  have hmn : m = n := by
    have hlt' : m < n + 1 := by exact_mod_cast hlt
    have hgt' : n < m + 1 := by exact_mod_cast hgt
    omega
  rw [hmn]

/-- Ties go to the even cent. -/
def halfEvenCents : CentRounding := ⟨roundTo 2, isCents_roundTo, roundTo_near⟩

end Rounding

section Quotes

structure Quote where
  bid : ℚ
  ask : ℚ
  last : ℚ
  mid : ℚ
  ts : ℚ
  contractKey : String
  symbol : String
  secType : String
  deriving DecidableEq

def spread (ρ : CentRounding) (price : ℚ) : ℚ := max (1 / 100) (ρ.round (price * (5 / 10000)))

def mockQuotePayload (ρ : CentRounding) (symbol : String) (price ts : ℚ) : Quote :=
  let bid := ρ.round (price - spread ρ price)
  let ask := ρ.round (price + spread ρ price)
  { bid := bid
    ask := ask
    last := ρ.round price
    mid := roundTo 4 ((bid + ask) / 2)
    ts := ts
    contractKey := symbol
    symbol := symbol
    secType := "STK" }

def seedPrice : List (String × ℚ) :=
  [("NVDA", 130), ("AAPL", 220), ("SPY", 560), ("QQQ", 480), ("TSLA", 250)]

/-- `random.uniform(-0.002, 0.002)`. -/
abbrev Draw := { u : ℚ // |u| ≤ 2 / 1000 }

def walk (ρ : CentRounding) (cur : ℚ) (u : Draw) : ℚ := max 1 (ρ.round (cur + cur * u.1))

end Quotes

section Gateway

/-- The fields of the health hash that the mock writes with fixed values or counts itself. -/
structure Health where
  clientId : ℕ
  connected : Bool
  msgCount : ℕ
  mode : Option String
  deriving DecidableEq

structure MockGateway where
  prices : List (String × ℚ)
  ticks : List (String × Quote)
  subscriptions : Option (List String)
  health : Option Health
  deriving DecidableEq

/-- `d[k] = v`. -/
def setItem {α : Type} (d : List (String × α)) (k : String) (v : α) : List (String × α) :=
  (k, v) :: d.filter fun p => decide (p.1 ≠ k)

/-- The price that a symbol's walk goes on from. -/
def MockGateway.current (w : MockGateway) (symbol : String) : ℚ :=
  ((w.prices.lookup symbol).orElse fun _ => seedPrice.lookup symbol).getD 100

/-- What one symbol of a refresh draws, rounds and reads, and how its two calls go. -/
structure SymbolCalls where
  draw : Draw
  rounding : CentRounding
  now : ℚ
  set : CallFault
  publishes : Bool

/-- `_next_price` and `write_quote`: whether the loop goes on, and the gateway after. -/
def MockGateway.publishQuote (w : MockGateway) (symbol : String) (c : SymbolCalls) :
    Bool × MockGateway :=
  let price := walk c.rounding (w.current symbol) c.draw
  let w := { w with prices := setItem w.prices symbol price }
  let payload := mockQuotePayload c.rounding symbol price c.now
  let written := { w with ticks := setItem w.ticks symbol payload }
  match c.set with
  | .none => (c.publishes, written)
  | .before => (false, w)
  | .after => (false, written)

def MockGateway.publishQuotes (calls : String → SymbolCalls) :
    MockGateway → List String → Bool × MockGateway
  | w, [] => (true, w)
  | w, symbol :: rest =>
    match w.publishQuote symbol (calls symbol) with
    | (true, w') => publishQuotes calls w' rest
    | (false, w') => (false, w')

/-- How the calls of one refresh go. -/
structure RefreshCalls where
  health : CallFault
  marker : CallFault
  symbol : String → SymbolCalls
  subscriptions : CallFault

/-- The real writer's hash, which keeps the fields it does not write. -/
def MockGateway.writeHealth (w : MockGateway) (c : RefreshCalls) : Bool × MockGateway :=
  let written := { w with
    health := some ⟨0, true, w.prices.length, w.health.bind Health.mode⟩ }
  let marked := { w with health := some ⟨0, true, w.prices.length, some "mock"⟩ }
  match c.health, c.marker with
  | .before, _ => (false, w)
  | .after, _ | .none, .before => (false, written)
  | .none, .after => (false, marked)
  | .none, .none => (true, marked)

/-- One round of `run` for the ingestor's role. -/
def MockGateway.refresh (symbols : List String) (w : MockGateway) (c : RefreshCalls) :
    MockGateway :=
  match w.writeHealth c with
  | (false, w') => w'
  | (true, w') =>
    match publishQuotes c.symbol w' symbols with
    | (false, w'') => w''
    | (true, w'') =>
      if c.subscriptions = .before then w'' else { w'' with subscriptions := some symbols }

def Step (symbols : List String) (w : MockGateway) (c : RefreshCalls) (w' : MockGateway) : Prop :=
  w.refresh symbols c = w'

def startedGateway (health : Option Health) : MockGateway := ⟨[], [], none, health⟩

end Gateway

section Arithmetic

variable {ρ : CentRounding} {p q : ℚ}

structure PriceOk (p : ℚ) : Prop where
  cents : IsCents p
  pos : 1 ≤ p

/-- The walk never leaves the whole cents from one on, and takes small steps. -/
theorem walk_ok (hp : 1 ≤ p) (u : Draw) :
    PriceOk (walk ρ p u) ∧ |walk ρ p u - p| ≤ p / 500 + 1 / 200 := by
  have hone : IsCents 1 := ⟨100, by norm_num⟩
  refine ⟨⟨hone.max (ρ.cents _), le_max_left _ _⟩, ?_⟩
  have hround := ρ.near (p + p * u.1)
  have hdrift : |p * u.1| ≤ p / 500 := by
    rw [abs_mul, abs_of_nonneg (by linarith)]
    have hbound := mul_le_mul_of_nonneg_left u.2 (show (0 : ℚ) ≤ p by linarith)
    linarith
  have hclamp : |walk ρ p u - p| ≤ |ρ.round (p + p * u.1) - p| := by
    have hmax := abs_max_sub_max_le_abs (ρ.round (p + p * u.1)) p 1
    rwa [max_eq_left hp, max_comm] at hmax
  have hstep : ρ.round (p + p * u.1) - p =
      (ρ.round (p + p * u.1) - (p + p * u.1)) + p * u.1 := by ring
  rw [hstep] at hclamp
  have htriangle := abs_add_le (ρ.round (p + p * u.1) - (p + p * u.1)) (p * u.1)
  linarith

theorem spread_ok (hp : PriceOk p) :
    IsCents (spread ρ p) ∧ 0 < spread ρ p ∧ spread ρ p < p := by
  have hcent : IsCents (1 / 100) := ⟨1, by norm_num⟩
  have hround := (abs_le.mp (ρ.near (p * (5 / 10000)))).2
  have hone := hp.pos
  refine ⟨hcent.max (ρ.cents _), lt_max_of_lt_left (by norm_num), max_lt ?_ ?_⟩
  · linarith
  · linarith

/-- A quote around its price: bid and ask on either side of it, equally far and positive. -/
structure QuoteOk (key : String) (q : Quote) : Prop where
  contractKey : q.contractKey = key
  symbol : q.symbol = key
  price : PriceOk q.last
  bid : 0 < q.bid
  below : q.bid < q.last
  above : q.ask - q.last = q.last - q.bid
  mid : q.mid = q.last

theorem quoteOk_payload (hp : PriceOk p) (key : String) (ts : ℚ) :
    QuoteOk key (mockQuotePayload ρ key p ts) ∧ (mockQuotePayload ρ key p ts).last = p := by
  obtain ⟨hcents, hpos, hlt⟩ := @spread_ok ρ p hp
  have hlast : ρ.round p = p := ρ.round_cents hp.cents
  have hbid : ρ.round (p - spread ρ p) = p - spread ρ p := ρ.round_cents (hp.cents.sub hcents)
  have hask : ρ.round (p + spread ρ p) = p + spread ρ p := ρ.round_cents (hp.cents.add hcents)
  have hmid : (p - spread ρ p + (p + spread ρ p)) / 2 = p := by ring
  refine ⟨⟨rfl, rfl, ?_, ?_, ?_, ?_, ?_⟩, hlast⟩
  · simpa only [mockQuotePayload, hlast] using hp
  · simp only [mockQuotePayload, hbid]
    linarith
  · simp only [mockQuotePayload, hbid, hlast]
    linarith
  · simp only [mockQuotePayload, hbid, hask, hlast]
    ring
  · simp only [mockQuotePayload, hbid, hask, hlast, hmid]
    exact roundTo_four hp.cents

end Arithmetic

section Runs

variable {symbols : List String} {w w' : MockGateway}

theorem lookup_setItem {α : Type} (d : List (String × α)) (k : String) (v : α) (k' : String) :
    (setItem d k v).lookup k' = if k' = k then some v else d.lookup k' := by
  by_cases h : k' = k
  · subst h
    simp [setItem]
  · rw [if_neg h, setItem, List.lookup_cons, beq_eq_false_iff_ne.mpr h]
    induction d with
    | nil => rfl
    | cons p d ih =>
      by_cases hp : p.1 = k
      · rw [List.filter_cons_of_neg (by simpa using hp), List.lookup_cons]
        have hne : (k' == p.1) = false := beq_eq_false_iff_ne.mpr (hp ▸ h)
        rw [hne]
        exact ih
      · rw [List.filter_cons_of_pos (by simpa using hp), List.lookup_cons, List.lookup_cons]
        cases k' == p.1 with
        | true => rfl
        | false => exact ih

/-- Prices are sound, and every stored quote is sound and belongs to one of the symbols. -/
structure Invariant (symbols : List String) (w : MockGateway) : Prop where
  prices : ∀ key p, w.prices.lookup key = some p → PriceOk p
  ticks : ∀ key q, w.ticks.lookup key = some q → key ∈ symbols ∧ QuoteOk key q
  subscriptions : ∀ keys ∈ w.subscriptions, keys = symbols

theorem invariant_started (health : Option Health) : Invariant symbols (startedGateway health) := by
  constructor
  all_goals simp [startedGateway]

theorem seedPrice_ok {key : String} {p : ℚ} (h : seedPrice.lookup key = some p) : 1 ≤ p := by
  have hall : ∀ s ∈ seedPrice, 1 ≤ s.2 := by decide +kernel
  obtain ⟨pre, post, heq, -⟩ := List.lookup_eq_some_iff.mp h
  exact hall (key, p) (by simp [heq])

theorem Invariant.current (h : Invariant symbols w) (symbol : String) : 1 ≤ w.current symbol := by
  unfold MockGateway.current
  cases hp : w.prices.lookup symbol with
  | some p => exact (h.prices symbol p hp).pos
  | none =>
    cases hs : seedPrice.lookup symbol with
    | some p => exact seedPrice_ok hs
    | none => norm_num

theorem Invariant.publishQuote (h : Invariant symbols w) {symbol : String}
    (hsymbol : symbol ∈ symbols) (c : SymbolCalls) :
    Invariant symbols (w.publishQuote symbol c).2 := by
  obtain ⟨hok, -⟩ := @walk_ok c.rounding _ (h.current symbol) c.draw
  have hprices : ∀ key p,
      (setItem w.prices symbol (walk c.rounding (w.current symbol) c.draw)).lookup key = some p →
        PriceOk p := by
    intro key p hp
    rw [lookup_setItem] at hp
    split at hp
    · obtain rfl := Option.some.inj hp
      exact hok
    · exact h.prices key p hp
  have hticks : ∀ key q, (setItem w.ticks symbol (mockQuotePayload c.rounding symbol
      (walk c.rounding (w.current symbol) c.draw) c.now)).lookup key = some q →
      key ∈ symbols ∧ QuoteOk key q := by
    intro key q hq
    rw [lookup_setItem] at hq
    split at hq
    · next hkey =>
      obtain rfl := Option.some.inj hq
      subst hkey
      exact ⟨hsymbol, (quoteOk_payload hok key c.now).1⟩
    · exact h.ticks key q hq
  unfold MockGateway.publishQuote
  cases c.set with
  | none | after => exact ⟨hprices, hticks, h.subscriptions⟩
  | before => exact ⟨hprices, h.ticks, h.subscriptions⟩

theorem Invariant.publishQuotes (h : Invariant symbols w) (calls : String → SymbolCalls)
    {rest : List String} (hrest : ∀ s ∈ rest, s ∈ symbols) :
    Invariant symbols (w.publishQuotes calls rest).2 := by
  induction rest generalizing w with
  | nil => exact h
  | cons symbol rest ih =>
    have hnext := h.publishQuote (hrest symbol List.mem_cons_self) (calls symbol)
    rw [MockGateway.publishQuotes]
    split
    · next w' heq =>
      rw [heq] at hnext
      exact ih hnext fun s hs => hrest s (List.mem_cons_of_mem symbol hs)
    · next w' heq =>
      rw [heq] at hnext
      exact hnext

theorem writeHealth_frame (w : MockGateway) (c : RefreshCalls) :
    ∃ health, (w.writeHealth c).2 = { w with health := health } := by
  unfold MockGateway.writeHealth
  dsimp only
  split
  · exact ⟨w.health, rfl⟩
  all_goals exact ⟨_, rfl⟩

theorem invariant_step {c : RefreshCalls} (h : Invariant symbols w) (hs : Step symbols w c w') :
    Invariant symbols w' := by
  obtain rfl := hs
  obtain ⟨health, hhealth⟩ := writeHealth_frame w c
  have hwritten : Invariant symbols (w.writeHealth c).2 := by
    rw [hhealth]
    exact ⟨h.prices, h.ticks, h.subscriptions⟩
  unfold MockGateway.refresh
  split
  · next w₁ heq =>
    rw [heq] at hwritten
    exact hwritten
  · next w₁ heq =>
    rw [heq] at hwritten
    have hpublished := hwritten.publishQuotes c.symbol (fun s (hs : s ∈ symbols) => hs)
    split
    · next w₂ heq₂ =>
      rw [heq₂] at hpublished
      exact hpublished
    · next w₂ heq₂ =>
      rw [heq₂] at hpublished
      split
      · exact hpublished
      · exact ⟨hpublished.prices, hpublished.ticks, by simp⟩

/-- A refresh without failures. -/
structure RefreshCalls.Undisturbed (c : RefreshCalls) : Prop where
  health : c.health = .none
  marker : c.marker = .none
  set : ∀ s, (c.symbol s).set = .none
  publishes : ∀ s, (c.symbol s).publishes = true
  subscriptions : c.subscriptions = .none

/-- A quote that one step of the walk led to. -/
def FreshQuote (w w' : MockGateway) (symbol : String) : Prop :=
  ∃ q, w'.ticks.lookup symbol = some q ∧
    |q.last - w.current symbol| ≤ w.current symbol / 500 + 1 / 200

theorem publishQuote_done {symbol : String} {c : SymbolCalls} (hset : c.set = .none)
    (hpublishes : c.publishes = true) :
    w.publishQuote symbol c = (true, { w with
      prices := setItem w.prices symbol (walk c.rounding (w.current symbol) c.draw)
      ticks := setItem w.ticks symbol (mockQuotePayload c.rounding symbol
        (walk c.rounding (w.current symbol) c.draw) c.now) }) := by
  rw [MockGateway.publishQuote, hset, hpublishes]

theorem publishQuotes_done {calls : String → SymbolCalls} {rest : List String}
    (h : Invariant symbols w) (hset : ∀ s, (calls s).set = .none)
    (hpublishes : ∀ s, (calls s).publishes = true) (hrest : ∀ s ∈ rest, s ∈ symbols)
    (hnodup : rest.Nodup) :
    (w.publishQuotes calls rest).1 = true ∧
      (w.publishQuotes calls rest).2.health = w.health ∧
      (∀ s, s ∉ rest → (w.publishQuotes calls rest).2.ticks.lookup s = w.ticks.lookup s) ∧
      ∀ s ∈ rest, FreshQuote w (w.publishQuotes calls rest).2 s := by
  induction rest generalizing w with
  | nil => exact ⟨rfl, rfl, fun _ _ => rfl, by simp⟩
  | cons symbol rest ih =>
    obtain ⟨hnew, hnodup⟩ := List.nodup_cons.mp hnodup
    have hdone := @publishQuote_done w symbol _ (hset symbol) (hpublishes symbol)
    have hinv := h.publishQuote (hrest symbol List.mem_cons_self) (calls symbol)
    rw [hdone] at hinv
    obtain ⟨htrue, hhealth, hothers, hfresh⟩ :=
      ih hinv (fun s hs => hrest s (List.mem_cons_of_mem symbol hs)) hnodup
    rw [MockGateway.publishQuotes, hdone]
    dsimp only
    refine ⟨htrue, hhealth, fun s hs => ?_, fun s hs => ?_⟩
    · obtain ⟨hne, hs⟩ := not_or.mp (List.mem_cons.not.mp hs)
      rw [hothers s hs, lookup_setItem, if_neg hne]
    · rcases List.mem_cons.mp hs with rfl | hs
      · obtain ⟨hok, hstep⟩ := @walk_ok (calls s).rounding _ (h.current s) (calls s).draw
        refine ⟨_, (hothers s hnew).trans ((lookup_setItem ..).trans (if_pos rfl)), ?_⟩
        rw [(quoteOk_payload hok s _).2]
        exact hstep
      · have hne : s ≠ symbol := fun heq => hnew (heq ▸ hs)
        obtain ⟨q, hq, hstep⟩ := hfresh s hs
        refine ⟨q, hq, ?_⟩
        have hcurrent : ∀ prices ticks, MockGateway.current { w with
            prices := setItem w.prices symbol prices
            ticks := ticks } s = w.current s := by
          intro price ticks
          simp only [MockGateway.current, lookup_setItem, if_neg hne]
        rwa [hcurrent] at hstep

/-- Every quote that is ever stored belongs to one of the symbols and lies around its price;
each refresh without failures stores a fresh one for each symbol, marks the hash as a mock's
without a client id, and publishes the symbols as the subscriptions. -/
theorem mock_quotes (hnodup : symbols.Nodup)
    (h : Reachable (fun w => ∃ health, w = startedGateway health) (Step symbols) w) :
    (∀ key q, w.ticks.lookup key = some q → key ∈ symbols ∧ QuoteOk key q) ∧
    ∀ c : RefreshCalls, c.Undisturbed →
      (∀ s ∈ symbols, FreshQuote w (w.refresh symbols c) s) ∧
      (w.refresh symbols c).health = some ⟨0, true, w.prices.length, some "mock"⟩ ∧
      (w.refresh symbols c).subscriptions = some symbols := by
  have inv : Invariant symbols w := by
    refine h.invariant ?_ fun _ _ _ hI hs => invariant_step hI hs
    rintro _ ⟨health, rfl⟩
    exact invariant_started health
  refine ⟨inv.ticks, fun c hc => ?_⟩
  have hwritten : w.writeHealth c =
      (true, { w with health := some ⟨0, true, w.prices.length, some "mock"⟩ }) := by
    rw [MockGateway.writeHealth, hc.health, hc.marker]
  have hinv : Invariant symbols
      { w with health := some ⟨0, true, w.prices.length, some "mock"⟩ } :=
    ⟨inv.prices, inv.ticks, inv.subscriptions⟩
  obtain ⟨htrue, hhealth, -, hfresh⟩ :=
    publishQuotes_done hinv hc.set hc.publishes (fun s hs => hs) hnodup
  have hrefresh : w.refresh symbols c = { (MockGateway.publishQuotes c.symbol { w with
      health := some ⟨0, true, w.prices.length, some "mock"⟩ } symbols).2 with
      subscriptions := some symbols } := by
    rw [MockGateway.refresh, hwritten]
    dsimp only
    generalize MockGateway.publishQuotes c.symbol { w with
      health := some ⟨0, true, w.prices.length, some "mock"⟩ } symbols = r at htrue
    obtain ⟨ok, w'⟩ := r
    obtain rfl := htrue
    simp [hc.subscriptions]
  rw [hrefresh]
  exact ⟨hfresh, hhealth, rfl⟩

end Runs

section Instances

def upward (set : CallFault) : SymbolCalls :=
  ⟨⟨1 / 1000, by decide +kernel⟩, halfEvenCents, 100, set, true⟩

/-- The second symbol's quote is not stored. -/
def disturbedRefresh : RefreshCalls :=
  ⟨.none, .none, fun s => upward (if s = "ZZZ" then .before else .none), .none⟩

def plainRefresh : RefreshCalls := ⟨.none, .none, fun _ => upward .none, .none⟩

theorem undisturbed_plainRefresh : plainRefresh.Undisturbed :=
  ⟨rfl, rfl, fun _ => rfl, fun _ => rfl, rfl⟩

/-- After a refresh that failed halfway, the next one stores quotes for both symbols. -/
theorem mock_quotes_after_failure :
    ∃ w, Reachable (fun w => ∃ health, w = startedGateway health) (Step ["NVDA", "ZZZ"]) w ∧
      w.ticks.lookup "ZZZ" = none ∧
        FreshQuote w (w.refresh ["NVDA", "ZZZ"] plainRefresh) "ZZZ" := by
  let w := (startedGateway none).refresh ["NVDA", "ZZZ"] disturbedRefresh
  have hreach : Reachable (fun w => ∃ health, w = startedGateway health)
      (Step ["NVDA", "ZZZ"]) w :=
    (Reachable.start ⟨none, rfl⟩).snoc rfl
  have hfresh := ((mock_quotes (by decide) hreach).2 plainRefresh undisturbed_plainRefresh).1
  exact ⟨w, hreach, by decide +kernel, hfresh "ZZZ" (by simp)⟩

end Instances

end BifrostSocket.MockGateways
