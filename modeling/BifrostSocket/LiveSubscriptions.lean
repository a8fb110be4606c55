import BifrostSocket.IngestorSessions

/-!
# What a poll cycle publishes and what it holds

A cycle publishes the keys it asked for, while the connector keeps a ticker only for the
calls that succeed, and a cycle that finds nothing to ask for leaves the connector as it is.
-/

namespace BifrostSocket.LiveSubscriptions
open TransitionRuns OperatorProtocol SeenLists IngestorWatchlists IngestorSessions

section Dictionaries

def keys (d : Tickers) : List String := d.map Prod.fst

variable {d : Tickers} {k x : String}

theorem mem_keys_pop : x ∈ keys (d.pop k) ↔ x ∈ keys d ∧ x ≠ k := by
  simp only [keys, Tickers.pop, List.mem_map, List.mem_filter, decide_eq_true_eq]
  constructor
  · rintro ⟨p, ⟨hp, hne⟩, rfl⟩
    exact ⟨⟨p, hp, rfl⟩, hne⟩
  · rintro ⟨⟨p, hp, rfl⟩, hne⟩
    exact ⟨p, ⟨hp, hne⟩, rfl⟩

theorem mem_keys_setItem {v : ℕ} : x ∈ keys (d.setItem k v) ↔ x ∈ keys d ∨ x = k := by
  unfold Tickers.setItem
  split
  · next hany =>
    obtain ⟨p, hp, hk⟩ := List.any_eq_true.mp hany
    have hkeys : keys (d.map fun p => if p.1 = k then (k, v) else p) = keys d := by
      rw [keys, keys, List.map_map]
      apply List.map_congr_left
      intro q hq
      dsimp only [Function.comp_apply]
      split
      · next heq => exact heq.symm
      · rfl
    rw [hkeys]
    constructor
    · exact .inl
    · rintro (hx | rfl)
      · exact hx
      · exact List.mem_map.mpr ⟨p, hp, of_decide_eq_true hk⟩
  · simp [keys]

theorem mem_keys_record {o : Option ℕ} :
    x ∈ keys (d.record k o) ↔ x ∈ keys d ∨ x = k ∧ o.isSome = true := by
  cases o with
  | none => simp [Tickers.record]
  | some v => simp [Tickers.record, mem_keys_setItem]

/-- Unsubscribing under a key as the dictionaries hold them takes this key away. -/
theorem mem_keys_unsubscribe {ib : IbMarket} {call : CallFault} (hstrip : strip k = k)
    (hne : k ≠ "") : x ∈ keys (unsubscribe d ib k call).1 ↔ x ∈ keys d ∧ x ≠ k := by
  unfold unsubscribe
  rw [hstrip]
  split
  · next hnone =>
    have hnot : k ∉ keys d := by
      intro hk
      obtain ⟨p, hp, rfl⟩ := List.mem_map.mp hk
      have hno := List.lookup_eq_none_iff.mp hnone p hp
      simp at hno
    constructor
    · intro hx
      exact ⟨hx, fun heq => hnot (heq ▸ hx)⟩
    · exact And.left
  · rw [if_neg hne]
    exact mem_keys_pop

theorem eq_nil_of_keys (h : ∀ x, x ∉ keys d) : d = [] :=
  List.map_eq_nil_iff.mp (List.eq_nil_iff_forall_not_mem.mpr h)

end Dictionaries

section Held

/-- The keys in the dictionaries are stripped and not blank. -/
def Clean (c : Connector) : Prop :=
  ∀ k, k ∈ keys c.tickers ∨ k ∈ keys c.optionTickers → strip k = k ∧ k ≠ ""

/-- The contract keys that the connector holds a ticker for. -/
def heldKeys (c : Connector) : Finset String :=
  (keys c.optionTickers).toFinset ∪ ((keys c.tickers).map stkKey).toFinset

theorem mem_heldKeys {c : Connector} {k : String} :
    k ∈ heldKeys c ↔ k ∈ keys c.optionTickers ∨ ∃ s ∈ keys c.tickers, stkKey s = k := by
  simp [heldKeys]

theorem heldKeys_eq_empty {c : Connector} :
    heldKeys c = ∅ ↔ c.tickers = [] ∧ c.optionTickers = [] := by
  simp [heldKeys, keys, and_comm]

/-- Unsubscribing under some keys takes these keys out of the dictionary concerned. -/
theorem mem_keys_foldl {f : Connector → String → Connector} {d : Connector → Tickers}
    {ks : List String} (hf : ∀ c, ∀ k ∈ ks, ∀ x, x ∈ keys (d (f c k)) ↔ x ∈ keys (d c) ∧ x ≠ k)
    (c : Connector) (x : String) : x ∈ keys (d (ks.foldl f c)) ↔ x ∈ keys (d c) ∧ x ∉ ks := by
  induction ks generalizing c with
  | nil => simp
  | cons k ks ih =>
    rw [List.foldl_cons, ih (fun c k' hk' => hf c k' (List.mem_cons_of_mem k hk')),
      hf c k List.mem_cons_self, List.mem_cons, not_or, and_assoc]

/-- What the body of a loop does not touch, the loop does not touch. -/
theorem foldl_unchanged {α β : Type} {f : Connector → α → Connector} {g : Connector → β}
    (hf : ∀ c a, g (f c a) = g c) (as : List α) (c : Connector) : g (as.foldl f c) = g c := by
  induction as generalizing c with
  | nil => rfl
  | cons a as ih => rw [List.foldl_cons, ih, hf]

theorem optionTickers_unsubscribeTickers (calls : Calls) (ks : List String) (c : Connector) :
    (ks.foldl (fun c sym => c.unsubscribeTicker sym (calls.cancelStk sym)) c).optionTickers =
      c.optionTickers :=
  foldl_unchanged (f := fun c sym => Connector.unsubscribeTicker c sym (calls.cancelStk sym))
    (g := Connector.optionTickers) (fun _ _ => rfl) ks c

theorem tickers_unsubscribeOptions (calls : Calls) (ks : List String) (c : Connector) :
    (ks.foldl (fun c ck => c.unsubscribeOptionTicker ck (calls.cancelOpt ck)) c).tickers =
      c.tickers :=
  foldl_unchanged (f := fun c ck => Connector.unsubscribeOptionTicker c ck (calls.cancelOpt ck))
    (g := Connector.tickers) (fun _ _ => rfl) ks c

theorem unsubscribeAll_empty {c : Connector} (h : Clean c) (calls : Calls) :
    (c.unsubscribeAll calls).tickers = [] ∧ (c.unsubscribeAll calls).optionTickers = [] := by
  unfold Connector.unsubscribeAll
  dsimp only
  constructor
  · rw [tickers_unsubscribeOptions]
    apply eq_nil_of_keys
    intro x hx
    rw [mem_keys_foldl (d := Connector.tickers)] at hx
    · exact hx.2 hx.1
    · intro c' k hk x
      obtain ⟨hstrip, hne⟩ := h k (.inl hk)
      exact mem_keys_unsubscribe hstrip hne
  · apply eq_nil_of_keys
    intro x hx
    rw [mem_keys_foldl (d := Connector.optionTickers)] at hx
    · exact hx.2 hx.1
    · intro c' k hk x
      rw [optionTickers_unsubscribeTickers] at hk
      obtain ⟨hstrip, hne⟩ := h k (.inr hk)
      exact mem_keys_unsubscribe hstrip hne

/-- The calls for a stock, and those for an option, leave a ticker. -/
def stkSucceeds (calls : StkCalls) : Bool := calls.qualifies && decide (calls.request = .none)

def optSucceeds (calls : OptCalls) : Bool :=
  calls.connected &&
    (decide (calls.first = .none) || calls.qualifies && decide (calls.second = .none))

theorem reqMktData_isSome (m : IbMarket) (contract : ℕ) (call : CallFault) :
    (m.reqMktData contract call).2.isSome = decide (call = .none) := by
  cases call <;> rfl

theorem requestOption_isSome (m : IbMarket) (contract : ℕ) (calls : OptCalls) :
    (requestOption m contract calls).2.isSome =
      (decide (calls.first = .none) || calls.qualifies && decide (calls.second = .none)) := by
  have hfirst := reqMktData_isSome m contract calls.first
  unfold requestOption
  split
  · next ib ticker heq =>
    rw [heq] at hfirst
    simp [← hfirst]
  · next ib heq =>
    rw [heq] at hfirst
    rw [← hfirst]
    cases calls.qualifies with
    | false => rfl
    | true => simpa using reqMktData_isSome ib contract calls.second

theorem keys_subscribeTicker (c : Connector) (s : String) (calls : StkCalls) (x : String) :
    x ∈ keys (c.subscribeTicker s calls).tickers ↔
      x ∈ keys c.tickers ∨ x = s ∧ stkSucceeds calls = true := by
  unfold Connector.subscribeTicker stkSucceeds
  dsimp only
  split
  · next hq =>
    rw [mem_keys_record, reqMktData_isSome, hq, Bool.true_and]
    rfl
  · next hq => simp [hq, Connector.newContract]

theorem keys_subscribed {α : Type} {f : Connector → α → Connector} {d : Connector → Tickers}
    {k : α → String} {s : α → Prop}
    (hf : ∀ c a x, x ∈ keys (d (f c a)) ↔ x ∈ keys (d c) ∨ x = k a ∧ s a) (as : List α)
    (c : Connector) (x : String) :
    x ∈ keys (d (as.foldl f c)) ↔ x ∈ keys (d c) ∨ ∃ a ∈ as, x = k a ∧ s a := by
  induction as generalizing c with
  | nil => simp
  | cons a as ih =>
    rw [List.foldl_cons, ih, hf, or_assoc]
    simp only [List.mem_cons, or_and_right, exists_or, exists_eq_left]

/-- The symbols and the rows that the two loops work on. -/
def newSymbols (symbols : List String) : List String :=
  firstSeen id [] ((symbols.map strip).filter fun s => decide (s ≠ ""))

def newRows (rows : List OptRow) : List OptRow :=
  firstSeen (fun r => strip r.contractKey) []
    (rows.filter fun r => decide (strip r.contractKey ≠ ""))

def SymbolSubscribes (calls : Calls) (s : String) : Prop :=
  calls.stkConnected = true ∧ stkSucceeds (calls.stk s) = true

theorem keys_subscribeTickers (c : Connector) (symbols : List String) (calls : Calls) (x : String) :
    x ∈ keys (c.subscribeTickers symbols calls).tickers ↔
      x ∈ keys c.tickers ∨ ∃ s ∈ newSymbols symbols, x = s ∧ SymbolSubscribes calls s := by
  unfold Connector.subscribeTickers SymbolSubscribes
  split
  · next hconn =>
    rw [hconn]
    simp only [true_and]
    exact keys_subscribed (d := Connector.tickers) (k := id)
      (s := fun s => stkSucceeds (calls.stk s) = true)
      (fun c s x => keys_subscribeTicker c s (calls.stk s) x) _ c x
  · next hconn => simp [hconn]

theorem optionTickers_subscribeTickers (c : Connector) (symbols : List String) (calls : Calls) :
    (c.subscribeTickers symbols calls).optionTickers = c.optionTickers := by
  unfold Connector.subscribeTickers
  split
  · refine foldl_unchanged (g := Connector.optionTickers) (fun c s => ?_) _ c
    unfold Connector.subscribeTicker
    dsimp only
    split
    · rfl
    · rfl
  · rfl

variable (upper : String → String)

/-- Whether a call for a row with a new key leaves a ticker. -/
def RowSubscribes (calls : Calls) (row : OptRow) : Prop :=
  calls.optConnected = true ∧ strip row.symbol ≠ "" ∧ strip row.expiry ≠ "" ∧
    upper (orDefault (some (optionRight upper (some row.optionRight))) "C") ∈ ["C", "P"] ∧
    optSucceeds (calls.opt (strip row.contractKey)) = true

theorem keys_subscribeOptionRow (c : Connector) (row : OptRow) (calls : Calls)
    (hconn : calls.optConnected = true) (x : String) :
    x ∈ keys (c.subscribeOptionRow upper row calls).optionTickers ↔
      x ∈ keys c.optionTickers ∨
        x = strip row.contractKey ∧ RowSubscribes upper calls row := by
  unfold Connector.subscribeOptionRow Connector.subscribeOptionTicker RowSubscribes optSucceeds
  dsimp only
  split
  · next hblank =>
    refine (or_iff_left ?_).symm
    rintro ⟨-, -, hsym, hexp, -⟩
    rcases hblank with hblank | hblank
    · exact hsym hblank
    · exact hexp hblank
  split
  · next hdown =>
    refine (or_iff_left ?_).symm
    rintro ⟨-, -, -, -, -, hup⟩
    rw [Bool.and_eq_true] at hup
    simp [hup.1] at hdown
  split
  · next hright =>
    refine (or_iff_left ?_).symm
    rintro ⟨-, -, -, -, hmem, -⟩
    rcases List.mem_pair.mp hmem with heq | heq
    · exact hright.1 heq
    · exact hright.2 heq
  split
  · next hfirst _ _ hblank =>
    rw [strip_strip] at hblank
    exact absurd hblank hfirst
  · next hblank hdown hright _ =>
    have hup : (calls.opt (strip row.contractKey)).connected = true := by simpa using hdown
    obtain ⟨hsym, hexp⟩ := not_or.mp hblank
    have hmem : upper (orDefault (some (optionRight upper (some row.optionRight))) "C") ∈
        ["C", "P"] := by
      rw [List.mem_pair]
      by_contra hno
      exact hright (not_or.mp hno)
    have hkeys : keys c.newContract.2.optionTickers = keys c.optionTickers := rfl
    rw [mem_keys_record, requestOption_isSome, hkeys, hup, Bool.true_and]
    simp only [hconn, hsym, hexp, hmem, ne_eq, not_false_eq_true, true_and]

theorem keys_subscribeOptionTickers (c : Connector) (rows : List OptRow) (calls : Calls)
    (x : String) : x ∈ keys (c.subscribeOptionTickers upper rows calls).optionTickers ↔
      x ∈ keys c.optionTickers ∨
        ∃ row ∈ newRows rows, x = strip row.contractKey ∧ RowSubscribes upper calls row := by
  unfold Connector.subscribeOptionTickers
  split
  · next hconn =>
    have hbody : ∀ (c : Connector) (row : OptRow) (x : String),
        x ∈ keys (c.subscribeOptionRow upper row calls).optionTickers ↔
          x ∈ keys c.optionTickers ∨
            x = strip row.contractKey ∧ RowSubscribes upper calls row :=
      fun c row x => keys_subscribeOptionRow upper c row calls hconn x
    have hloop := keys_subscribed (f := fun c row => c.subscribeOptionRow upper row calls)
      (d := Connector.optionTickers) (k := fun r => strip r.contractKey)
      (s := RowSubscribes upper calls) hbody (newRows rows) c x
    exact hloop
  · next hconn => simp [RowSubscribes, hconn]

theorem tickers_subscribeOptionTickers (c : Connector) (rows : List OptRow) (calls : Calls) :
    (c.subscribeOptionTickers upper rows calls).tickers = c.tickers := by
  unfold Connector.subscribeOptionTickers
  split
  · refine foldl_unchanged (g := Connector.tickers) (fun c row => ?_) _ c
    unfold Connector.subscribeOptionRow Connector.subscribeOptionTicker
    dsimp only
    repeat' split
    all_goals rfl
  · rfl

/-- After a cycle the connector holds what its own calls left. -/
theorem keys_applySubs {c : Connector} (h : Clean c) (opts : List OptRow) (stks : List String)
    (calls : Calls) (x : String) :
    (x ∈ keys (c.applySubs upper opts stks calls).optionTickers ↔
      ∃ row ∈ newRows opts, x = strip row.contractKey ∧ RowSubscribes upper calls row) ∧
    (x ∈ keys (c.applySubs upper opts stks calls).tickers ↔
      x ∈ newSymbols stks ∧ SymbolSubscribes calls x) := by
  have hbegin : Clean c.beginCycle := h
  obtain ⟨hstk, hopt⟩ := unsubscribeAll_empty hbegin calls
  generalize hfrom : c.beginCycle.unsubscribeAll calls = c₀ at hstk hopt
  have hrows : ∀ x, x ∈ keys (if opts.isEmpty then c₀
      else c₀.subscribeOptionTickers upper opts calls).optionTickers ↔
        ∃ row ∈ newRows opts, x = strip row.contractKey ∧ RowSubscribes upper calls row := by
    intro x
    cases opts with
    | nil => simp [hopt, keys, newRows, firstSeen]
    | cons row rows =>
      simp only [List.isEmpty_cons, Bool.false_eq_true, if_false]
      rw [keys_subscribeOptionTickers, hopt]
      simp [keys]
  have hnone : (if opts.isEmpty then c₀
      else c₀.subscribeOptionTickers upper opts calls).tickers = [] := by
    split
    · exact hstk
    · rw [tickers_subscribeOptionTickers, hstk]
  unfold Connector.applySubs
  dsimp only
  rw [hfrom]
  generalize (if opts.isEmpty then c₀
    else c₀.subscribeOptionTickers upper opts calls) = c₁ at hrows hnone ⊢
  cases stks with
  | nil =>
    refine ⟨hrows x, ?_⟩
    simp [hnone, keys, newSymbols, firstSeen]
  | cons s stks =>
    simp only [List.isEmpty_cons, Bool.false_eq_true, if_false]
    rw [optionTickers_subscribeTickers, keys_subscribeTickers, hnone]
    refine ⟨hrows x, ?_⟩
    simp [keys]

theorem mem_newSymbols {symbols : List String} {s : String} (h : s ∈ newSymbols symbols) :
    strip s = s ∧ s ≠ "" := by
  have hmem : s ∈ (symbols.map strip).filter fun s => decide (s ≠ "") := by
    have hiff := mem_seen_or_firstSeen id [] ((symbols.map strip).filter fun s => decide (s ≠ "")) s
    simp only [List.not_mem_nil, false_or, List.map_id] at hiff
    exact hiff.mp h
  obtain ⟨hmap, hne⟩ := List.mem_filter.mp hmem
  obtain ⟨t, -, rfl⟩ := List.mem_map.mp hmap
  exact ⟨strip_strip t, of_decide_eq_true hne⟩

/-- A key of a row that the loop works on is the key of a row of the list. -/
theorem mem_newRows {rows : List OptRow} {row : OptRow} (h : row ∈ newRows rows) :
    strip row.contractKey ≠ "" ∧ ∃ r ∈ rows, strip r.contractKey = strip row.contractKey := by
  have hiff := mem_seen_or_firstSeen (fun r : OptRow => strip r.contractKey) []
    (rows.filter fun r => decide (strip r.contractKey ≠ "")) (strip row.contractKey)
  simp only [List.not_mem_nil, false_or] at hiff
  obtain ⟨r, hr, heq⟩ := List.mem_map.mp (hiff.mp (List.mem_map.mpr ⟨row, h, rfl⟩))
  obtain ⟨hmem, hne⟩ := List.mem_filter.mp hr
  rw [← heq]
  exact ⟨of_decide_eq_true hne, r, hmem, rfl⟩

theorem clean_applySubs {c : Connector} (h : Clean c) (opts : List OptRow) (stks : List String)
    (calls : Calls) : Clean (c.applySubs upper opts stks calls) := by
  intro k hk
  obtain ⟨hopt, hstk⟩ := keys_applySubs upper h opts stks calls k
  rcases hk with hk | hk
  · exact mem_newSymbols (hstk.mp hk).1
  · obtain ⟨row, hrow, rfl, -⟩ := hopt.mp hk
    exact ⟨strip_strip _, (mem_newRows hrow).1⟩

end Held

section Cycles

variable (upper : String → String)

theorem mem_of_mapM {α β : Type} {f : α → Option β} {as : List α} {bs : List β}
    (h : as.mapM f = some bs) {b : β} (hb : b ∈ bs) : ∃ a ∈ as, f a = some b := by
  induction as generalizing bs with
  | nil =>
    obtain rfl : [] = bs := by simpa using h
    cases hb
  | cons a as ih =>
    simp only [List.mapM_cons, Option.bind_eq_bind, Option.bind_eq_some_iff] at h
    obtain ⟨b', hb', bs', hbs', heq⟩ := h
    obtain rfl := Option.some.inj heq
    rcases List.mem_cons.mp hb with rfl | hb
    · exact ⟨a, List.mem_cons_self, hb'⟩
    · obtain ⟨a', ha', hfa'⟩ := ih hbs' hb
      exact ⟨a', List.mem_cons_of_mem a ha', hfa'⟩

/-- The query strips the keys of its rows. -/
theorem optRow_contractKey {r : QueryRow} {row : OptRow} (h : optRow upper r = some row) :
    strip row.contractKey = row.contractKey := by
  obtain ⟨strike, -, rfl⟩ := Option.map_eq_some_iff.mp h
  exact strip_strip _

theorem optRows_contractKey {p : Poll} {row : OptRow} (h : row ∈ p.optRows upper) :
    strip row.contractKey = row.contractKey := by
  unfold Poll.optRows Poll.fetched fetchWatchlistSync at h
  split at h
  · cases h
  · next opts stks hrows =>
    have hmem : row ∈ opts := List.mem_of_mem_take h
    obtain ⟨results, -, hresults⟩ := Option.bind_eq_some_iff.mp hrows
    obtain ⟨opts', hopts, heq⟩ := Option.map_eq_some_iff.mp hresults
    obtain rfl : opts' = opts := (Prod.ext_iff.mp heq).1
    split at hopts
    · obtain ⟨watched, hwatched, hrest⟩ := Option.bind_eq_some_iff.mp hopts
      obtain ⟨positions, hpositions, rfl⟩ := Option.map_eq_some_iff.mp hrest
      rcases List.mem_append.mp hmem with hmem | hmem
      · obtain ⟨r, -, hr⟩ := mem_of_mapM hwatched hmem
        exact optRow_contractKey upper hr
      · obtain ⟨r, -, hr⟩ := mem_of_mapM hpositions hmem
        exact optRow_contractKey upper hr
    · obtain rfl := Option.some.inj hopts
      cases hmem

/-- What a cycle leaves published is what the connector holds, and the gauge counts it. -/
def Matches (w : Session) : Prop :=
  w.published = heldKeys w.connector ∧ w.activeDataLines = w.published.card

/-- Every requested key belongs to a row or a symbol whose calls succeed, and no symbol
succeeds under another key than the one that is requested for it. -/
def AllSubscribe (p : Poll) : Prop :=
  (∀ k ∈ p.requestedKeys upper,
    (∃ row ∈ newRows (p.optRows upper),
      k = strip row.contractKey ∧ RowSubscribes upper p.calls row) ∨
    ∃ s ∈ newSymbols (p.stkSyms upper), SymbolSubscribes p.calls s ∧ stkKey s = k) ∧
  ∀ s ∈ newSymbols (p.stkSyms upper),
    SymbolSubscribes p.calls s → stkKey s ∈ p.requestedKeys upper

/-- A cycle without rows and symbols finds nothing subscribed, and in another cycle all
calls succeed. -/
def Covers (w : Session) : Event → Prop
  | .poll p =>
    if p.isEmpty upper then w.connector.tickers = [] ∧ w.connector.optionTickers = []
    else AllSubscribe upper p
  | .dropped | .reconnected => True

/-- Steps after whose poll cycles what is published is what is held. -/
def MatchedStep (w : Session) (e : Event) (w' : Session) : Prop :=
  Step upper w e w' ∧ ∀ p, e = .poll p → Matches w'

theorem mem_heldKeys_applySubs {c : Connector} (h : Clean c) (p : Poll) (k : String) :
    k ∈ heldKeys (c.applySubs upper (p.optRows upper) (p.stkSyms upper) p.calls) ↔
      (∃ row ∈ newRows (p.optRows upper),
        k = strip row.contractKey ∧ RowSubscribes upper p.calls row) ∨
      ∃ s ∈ newSymbols (p.stkSyms upper), SymbolSubscribes p.calls s ∧ stkKey s = k := by
  have hkeys := keys_applySubs upper h (p.optRows upper) (p.stkSyms upper) p.calls
  rw [mem_heldKeys, (hkeys k).1]
  simp only [(hkeys _).2, and_assoc]

theorem requested_of_newRows {p : Poll} {row : OptRow} (h : row ∈ newRows (p.optRows upper)) :
    strip row.contractKey ∈ p.requestedKeys upper := by
  obtain ⟨-, r, hr, heq⟩ := mem_newRows h
  rw [← heq, optRows_contractKey upper hr]
  apply Finset.mem_union_left
  rw [List.mem_toFinset]
  exact List.mem_map.mpr ⟨r, hr, rfl⟩

/-- One cycle from a connector whose dictionaries are as the session keeps them. -/
theorem poll_matches_iff {w : Session} (h : Clean w.connector) (p : Poll) :
    Matches (w.poll upper p) ↔ Covers upper w (.poll p) := by
  have hlines : (w.poll upper p).activeDataLines = (w.poll upper p).published.card := by
    unfold Session.poll
    split
    · rfl
    · rfl
  rw [Matches, and_iff_left hlines, poll_published, Covers]
  cases hempty : p.isEmpty upper with
  | true =>
    have hnone := poll_published upper w p
    rw [Session.poll, if_pos hempty] at hnone ⊢
    rw [if_pos rfl, ← heldKeys_eq_empty, ← hnone]
    exact eq_comm
  | false =>
    rw [if_neg (by simp), poll_connector upper hempty]
    constructor
    · intro heq
      refine ⟨fun k hk => ?_, fun s hs hsub => ?_⟩
      · rw [heq] at hk
        exact (mem_heldKeys_applySubs upper h p k).mp hk
      · rw [heq]
        exact (mem_heldKeys_applySubs upper h p _).mpr (.inr ⟨s, hs, hsub, rfl⟩)
    · rintro ⟨hall, hkey⟩
      ext k
      rw [mem_heldKeys_applySubs upper h p k]
      refine ⟨hall k, ?_⟩
      rintro (⟨row, hrow, rfl, -⟩ | ⟨s, hs, hsub, rfl⟩)
      · exact requested_of_newRows upper hrow
      · exact hkey s hs hsub

theorem clean_step {w w' : Session} {e : Event} (h : Clean w.connector) (hs : Step upper w e w') :
    Clean w'.connector := by
  cases hs
  cases e with
  | poll p =>
    cases hempty : p.isEmpty upper with
    | true => simpa [step, Session.poll, hempty] using h
    | false =>
      rw [step, poll_connector upper hempty]
      exact clean_applySubs upper h _ _ _
  | dropped => exact h
  | reconnected =>
    intro k hk
    simp [step, keys] at hk

/-- In a session every poll cycle leaves published what is held if and only if no cycle
without rows and symbols finds something subscribed, and all calls of the others succeed. -/
theorem published_held_iff (es : List Event) (w : Session) :
    Run (MatchedStep upper) initialSession es w ↔
      Run (guarded (Covers upper) (Step upper)) initialSession es w := by
  have hinit : Clean initialSession.connector := by
    intro k hk
    simp [initialSession, keys] at hk
  refine Run.congr (P := fun w => Clean w.connector) (fun w e w' h hs => clean_step upper h hs.1)
    (fun w e w' h => ?_) hinit
  constructor
  · rintro ⟨hs, hmatch⟩
    refine ⟨?_, hs⟩
    cases e with
    | poll p =>
      have hpoll := hmatch p rfl
      rw [← show w.poll upper p = w' from hs] at hpoll
      exact (poll_matches_iff upper h p).mp hpoll
    | dropped | reconnected => trivial
  · rintro ⟨hcov, hs⟩
    refine ⟨hs, ?_⟩
    rintro p rfl
    rw [← show w.poll upper p = w' from hs]
    exact (poll_matches_iff upper h p).mpr hcov

end Cycles

section Instances

/-- A cycle of the default configuration whose calls all succeed. -/
def pollOf (db : Option QueryResults) : Poll where
  settings :=
    { budget := { gatewayMaxSubscriptions := 200, mounted := false }
      maxSubscriptions := none
      includeStk := true
      includeOpt := true }
  db
  onDemand := none
  calls := allSucceed

/-- The second cycle's query fails while `AAPL` is subscribed. -/
theorem failed_query_keeps_subscriptions : ¬ ∀ (es : List Event) (w : Session),
    Run (Step asciiUpper) initialSession es w →
      Run (MatchedStep asciiUpper) initialSession es w := by
  intro hall
  have hrun : Run (Step asciiUpper) initialSession
      [.poll (pollOf (some ⟨[], [], [some "AAPL"]⟩)), .poll (pollOf none)]
      ((initialSession.poll asciiUpper (pollOf (some ⟨[], [], [some "AAPL"]⟩))).poll asciiUpper
        (pollOf none)) :=
    .cons rfl (.cons rfl (.nil _))
  cases hall _ _ hrun with
  | cons head tail =>
    cases tail with
    | cons head' tail' =>
      cases tail'
      have hmatch := (head'.2 _ rfl).1
      revert hmatch
      decide +kernel

end Instances

end BifrostSocket.LiveSubscriptions
