import BifrostSocket.IngestorSessions

/-!
# The lines that poll cycles leave open

A ticker is never the contract object of a line, so no call of `cancelMktData` closes one. A
cycle only adds lines, and those it finds open stay open beside the ones it requests.
-/

namespace BifrostSocket.MarketDataLines
open TransitionRuns SeenLists IngestorWatchlists IngestorSessions

/-- Lines belong to objects that exist, and no ticker in the dictionaries is one of them. -/
structure Sound (c : Connector) : Prop where
  lines : ∀ x ∈ c.ib.lines, x < c.ib.nextObject
  tickers : ∀ p ∈ c.tickers ++ c.optionTickers, p.2 < c.ib.nextObject ∧ p.2 ∉ c.ib.lines

/-- From `c` to `c'` the lines `new`, of new contract objects, were opened and none closed. -/
structure Adds (c c' : Connector) (new : List ℕ) : Prop where
  sound : Sound c'
  lines : c'.ib.lines = c.ib.lines ++ new
  opened : c'.ib.opened = c.ib.opened ++ new
  fresh : ∀ x ∈ new, c.ib.nextObject ≤ x
  objects : c.ib.nextObject ≤ c'.ib.nextObject

section Requests

/-- What one or two requests for one contract object do: any number of lines, all of that
object, and a ticker that is a new one. -/
structure Requested (m : IbMarket) (contract : ℕ) (r : IbMarket × Option ℕ) : Prop where
  lines : ∃ n, r.1.lines = m.lines ++ List.replicate n contract ∧
    r.1.opened = m.opened ++ List.replicate n contract
  objects : m.nextObject ≤ r.1.nextObject
  ticker : ∀ t, r.2 = some t → m.nextObject ≤ t ∧ t < r.1.nextObject

theorem requested_none (m : IbMarket) (contract : ℕ) : Requested m contract (m, none) where
  lines := ⟨0, by simp⟩
  objects := le_rfl
  ticker := by simp

theorem requested_reqMktData (m : IbMarket) (contract : ℕ) (call : CallFault) :
    Requested m contract (m.reqMktData contract call) := by
  cases call with
  | none =>
    refine ⟨⟨1, rfl, rfl⟩, Nat.le_succ _, fun t ht => ?_⟩
    obtain rfl := Option.some.inj ht
    exact ⟨le_rfl, Nat.lt_succ_self _⟩
  | before => exact requested_none m contract
  | after => exact ⟨⟨1, rfl, rfl⟩, le_rfl, by simp [IbMarket.reqMktData]⟩

theorem Requested.trans {m : IbMarket} {contract : ℕ} {r r' : IbMarket × Option ℕ}
    (h : Requested m contract r) (h' : Requested r.1 contract r') : Requested m contract r' := by
  obtain ⟨n, hl, ho⟩ := h.lines
  obtain ⟨n', hl', ho'⟩ := h'.lines
  refine ⟨⟨n + n', ?_, ?_⟩, h.objects.trans h'.objects, fun t ht => ?_⟩
  · rw [hl', hl, List.append_assoc, List.replicate_append_replicate]
  · rw [ho', ho, List.append_assoc, List.replicate_append_replicate]
  · obtain ⟨hle, hlt⟩ := h'.ticker t ht
    exact ⟨h.objects.trans hle, hlt⟩

theorem requested_requestOption (m : IbMarket) (contract : ℕ) (calls : OptCalls) :
    Requested m contract (requestOption m contract calls) := by
  have hfirst := requested_reqMktData m contract calls.first
  unfold requestOption
  split
  · next ib ticker h =>
    rw [h] at hfirst
    exact hfirst
  · next ib h =>
    rw [h] at hfirst
    split
    · exact hfirst.trans (requested_reqMktData ib contract calls.second)
    · exact hfirst

end Requests

section Steps

variable {c c' c'' : Connector}

theorem Adds.refl (h : Sound c) : Adds c c [] where
  sound := h
  lines := (List.append_nil _).symm
  opened := (List.append_nil _).symm
  fresh x hx := by cases hx
  objects := le_rfl

theorem Adds.trans {new new' : List ℕ} (h : Adds c c' new) (h' : Adds c' c'' new') :
    Adds c c'' (new ++ new') where
  sound := h'.sound
  lines := by rw [h'.lines, h.lines, List.append_assoc]
  opened := by rw [h'.opened, h.opened, List.append_assoc]
  fresh x hx := by
    rcases List.mem_append.mp hx with hx | hx
    · exact h.fresh x hx
    · exact h.objects.trans (h'.fresh x hx)
  objects := h.objects.trans h'.objects

/-- A loop whose body only adds lines only adds lines. -/
theorem adds_foldl {α : Type} {f : Connector → α → Connector}
    (hf : ∀ c a, Sound c → ∃ new, Adds c (f c a) new) (as : List α) (h : Sound c) :
    ∃ new, Adds c (as.foldl f c) new := by
  induction as generalizing c with
  | nil => exact ⟨[], .refl h⟩
  | cons a as ih =>
    obtain ⟨new, hhead⟩ := hf c a h
    obtain ⟨new', htail⟩ := ih hhead.sound
    exact ⟨new ++ new', hhead.trans htail⟩

theorem lines_cancelMktData {m : IbMarket} {object : ℕ} (h : object ∉ m.lines)
    (call : CallFault) : m.cancelMktData object call = m := by
  have hfilter : (m.lines.filter fun x => decide (x ≠ object)) = m.lines := by
    apply List.filter_eq_self.mpr
    intro x hx
    exact decide_eq_true fun heq => h (heq ▸ hx)
  cases call with
  | before => rfl
  | none => simp only [IbMarket.cancelMktData, hfilter]
  | after => simp only [IbMarket.cancelMktData, hfilter]

/-- Unsubscribing takes the ticker out of the dictionary and leaves its line open. -/
theorem unsubscribe_spec {d : Tickers} {ib : IbMarket} (h : ∀ p ∈ d, p.2 ∉ ib.lines)
    (key : String) (call : CallFault) :
    (unsubscribe d ib key call).1 ⊆ d ∧ (unsubscribe d ib key call).2 = ib := by
  unfold unsubscribe
  split
  · exact ⟨List.Subset.refl d, rfl⟩
  · next ticker hticker =>
    obtain ⟨p, hp, hpt⟩ : ∃ p ∈ d, p.2 = ticker := by
      obtain ⟨before, rest, rfl, -⟩ := List.lookup_eq_some_iff.mp hticker
      exact ⟨_, List.mem_append_right _ List.mem_cons_self, rfl⟩
    split
    · exact ⟨List.Subset.refl d, rfl⟩
    · exact ⟨List.filter_subset_self _, lines_cancelMktData (hpt ▸ h p hp) call⟩

theorem Adds.of_same_ib (h : Sound c) (hib : c'.ib = c.ib)
    (hsub : c'.tickers ++ c'.optionTickers ⊆ c.tickers ++ c.optionTickers) : Adds c c' [] where
  sound := by
    refine ⟨?_, fun p hp => ?_⟩
    · rw [hib]
      exact h.lines
    · rw [hib]
      exact h.tickers p (hsub hp)
  lines := by rw [hib, List.append_nil]
  opened := by rw [hib, List.append_nil]
  fresh x hx := by cases hx
  objects := by rw [hib]

theorem adds_unsubscribeTicker (h : Sound c) (sym : String) (call : CallFault) :
    Adds c (c.unsubscribeTicker sym call) [] := by
  obtain ⟨hsub, hib⟩ := unsubscribe_spec
    (fun p hp => (h.tickers p (List.mem_append_left _ hp)).2) sym call
  refine .of_same_ib h hib ?_
  exact List.append_subset.mpr
    ⟨List.subset_append_of_subset_left _ hsub, List.subset_append_right _ _⟩

theorem adds_unsubscribeOptionTicker (h : Sound c) (ck : String) (call : CallFault) :
    Adds c (c.unsubscribeOptionTicker ck call) [] := by
  obtain ⟨hsub, hib⟩ := unsubscribe_spec
    (fun p hp => (h.tickers p (List.mem_append_right _ hp)).2) ck call
  refine .of_same_ib h hib ?_
  exact List.append_subset.mpr
    ⟨List.subset_append_left _ _, List.subset_append_of_subset_right _ hsub⟩

/-- Requests for a new contract object open lines of that object only. Its ticker is a later
object, so it is not the object of a line either. -/
theorem adds_requested (h : Sound c) {r : IbMarket × Option ℕ}
    (hr : Requested c.newContract.2.ib c.newContract.1 r) (hib : c'.ib = r.1)
    (hsub : ∀ p ∈ c'.tickers ++ c'.optionTickers,
      p ∈ c.tickers ++ c.optionTickers ∨ r.2 = some p.2) : ∃ new, Adds c c' new := by
  obtain ⟨n, hlines, hopened⟩ := hr.lines
  have hobjects : c.ib.nextObject + 1 ≤ r.1.nextObject := hr.objects
  have hmem : ∀ x ∈ r.1.lines, x ∈ c.ib.lines ∨ x = c.ib.nextObject := by
    intro x hx
    rw [hlines] at hx
    rcases List.mem_append.mp hx with hx | hx
    · exact .inl hx
    · exact .inr (List.eq_of_mem_replicate hx)
  refine ⟨List.replicate n c.ib.nextObject, ⟨fun x hx => ?_, fun p hp => ?_⟩, ?_, ?_, ?_, ?_⟩
  · rw [hib] at hx ⊢
    rcases hmem x hx with hx | rfl
    · have hlt := h.lines x hx
      omega
    · omega
  · rw [hib]
    rcases hsub p hp with hp | ht
    · obtain ⟨hlt, hnot⟩ := h.tickers p hp
      refine ⟨by omega, fun hline => ?_⟩
      rcases hmem p.2 hline with hline | heq
      · exact hnot hline
      · omega
    · obtain ⟨hle, hlt⟩ := hr.ticker p.2 ht
      have hle : c.ib.nextObject + 1 ≤ p.2 := hle
      refine ⟨hlt, fun hline => ?_⟩
      rcases hmem p.2 hline with hline | heq
      · have hold := h.lines p.2 hline
        omega
      · omega
  · rw [hib]
    exact hlines
  · rw [hib]
    exact hopened
  · intro x hx
    exact (List.eq_of_mem_replicate hx).ge
  · rw [hib]
    omega

theorem adds_newContract (h : Sound c) : Adds c c.newContract.2 [] where
  sound :=
    ⟨fun x hx => Nat.lt_succ_of_lt (h.lines x hx), fun p hp =>
      ⟨Nat.lt_succ_of_lt (h.tickers p hp).1, (h.tickers p hp).2⟩⟩
  lines := (List.append_nil _).symm
  opened := (List.append_nil _).symm
  fresh x hx := by cases hx
  objects := Nat.le_succ _

theorem adds_subscribeTicker (h : Sound c) (sym : String) (calls : StkCalls) :
    ∃ new, Adds c (c.subscribeTicker sym calls) new := by
  unfold Connector.subscribeTicker
  dsimp only
  split
  · refine adds_requested h (requested_reqMktData _ _ calls.request) rfl fun p hp => ?_
    rcases List.mem_append.mp hp with hp | hp
    · rcases Tickers.mem_record hp with hp | ht
      · exact .inl (List.mem_append_left _ hp)
      · exact .inr ht
    · exact .inl (List.mem_append_right _ hp)
  · exact ⟨[], adds_newContract h⟩

theorem adds_subscribeTickers (h : Sound c) (symbols : List String) (calls : Calls) :
    ∃ new, Adds c (c.subscribeTickers symbols calls) new := by
  unfold Connector.subscribeTickers
  split
  · exact adds_foldl (fun c s hc => adds_subscribeTicker hc s (calls.stk s)) _ h
  · exact ⟨[], .refl h⟩

variable (upper : String → String)

theorem adds_subscribeOptionTicker (h : Sound c) (ck symbol expiry right : String)
    (calls : OptCalls) :
    ∃ new, Adds c (c.subscribeOptionTicker upper ck symbol expiry right calls) new := by
  unfold Connector.subscribeOptionTicker
  dsimp only
  split
  · exact ⟨[], .refl h⟩
  split
  · exact ⟨[], .refl h⟩
  split
  · exact ⟨[], .refl h⟩
  refine adds_requested h (requested_requestOption _ _ calls) rfl fun p hp => ?_
  rcases List.mem_append.mp hp with hp | hp
  · exact .inl (List.mem_append_left _ hp)
  · rcases Tickers.mem_record hp with hp | ht
    · exact .inl (List.mem_append_right _ hp)
    · exact .inr ht

theorem adds_subscribeOptionRow (h : Sound c) (row : OptRow) (calls : Calls) :
    ∃ new, Adds c (c.subscribeOptionRow upper row calls) new := by
  unfold Connector.subscribeOptionRow
  dsimp only
  split
  · exact ⟨[], .refl h⟩
  · exact adds_subscribeOptionTicker upper h _ _ _ _ _

theorem adds_subscribeOptionTickers (h : Sound c) (rows : List OptRow) (calls : Calls) :
    ∃ new, Adds c (c.subscribeOptionTickers upper rows calls) new := by
  unfold Connector.subscribeOptionTickers
  split
  · exact adds_foldl (fun c row hc => adds_subscribeOptionRow upper hc row calls) _ h
  · exact ⟨[], .refl h⟩

theorem adds_unsubscribeAll (h : Sound c) (calls : Calls) :
    ∃ new, Adds c (c.unsubscribeAll calls) new := by
  unfold Connector.unsubscribeAll
  dsimp only
  obtain ⟨new, hstk⟩ := adds_foldl
    (fun c sym hc => ⟨[], adds_unsubscribeTicker hc sym (calls.cancelStk sym)⟩)
    (c.tickers.map Prod.fst) h
  obtain ⟨new', hopt⟩ := adds_foldl
    (fun c ck hc => ⟨[], adds_unsubscribeOptionTicker hc ck (calls.cancelOpt ck)⟩) _ hstk.sound
  exact ⟨new ++ new', hstk.trans hopt⟩

theorem sound_beginCycle (h : Sound c) : Sound c.beginCycle := ⟨h.lines, h.tickers⟩

/-- A cycle closes nothing: the lines after it are those before it and those it opened. -/
theorem adds_applySubs (h : Sound c) (opts : List OptRow) (stks : List String)
    (calls : Calls) : ∃ new, Adds c.beginCycle (c.applySubs upper opts stks calls) new := by
  obtain ⟨new, hdropped⟩ := adds_unsubscribeAll (sound_beginCycle h) calls
  unfold Connector.applySubs
  dsimp only
  have hopts : ∃ new, Adds (c.beginCycle.unsubscribeAll calls)
      (if opts.isEmpty then c.beginCycle.unsubscribeAll calls
      else (c.beginCycle.unsubscribeAll calls).subscribeOptionTickers upper opts calls) new := by
    split
    · exact ⟨[], .refl hdropped.sound⟩
    · exact adds_subscribeOptionTickers upper hdropped.sound opts calls
  obtain ⟨new', hopts⟩ := hopts
  split
  · exact ⟨new ++ new', hdropped.trans hopts⟩
  · obtain ⟨new'', hstks⟩ := adds_subscribeTickers hopts.sound stks calls
    exact ⟨new ++ new' ++ new'', (hdropped.trans hopts).trans hstks⟩

end Steps

section Runs

variable (upper : String → String)

theorem sound_step {w w' : Session} {e : Event} (h : Sound w.connector)
    (hs : Step upper w e w') : Sound w'.connector := by
  cases hs
  cases e with
  | poll p =>
    cases hp : p.isEmpty upper with
    | true => simpa [step, Session.poll, hp] using h
    | false =>
      obtain ⟨new, hadds⟩ := adds_applySubs upper h (p.optRows upper) (p.stkSyms upper) p.calls
      rw [step, poll_connector upper hp]
      exact hadds.sound
  | dropped =>
    refine ⟨fun _ hx => (List.not_mem_nil hx).elim, fun p hp => ?_⟩
    exact ⟨(h.tickers p hp).1, List.not_mem_nil⟩
  | reconnected =>
    exact ⟨fun _ hx => (List.not_mem_nil hx).elim, fun _ hp => (List.not_mem_nil hp).elim⟩

theorem sound_initial : Sound initialSession.connector :=
  ⟨fun _ hx => (List.not_mem_nil hx).elim, fun _ hp => (List.not_mem_nil hp).elim⟩

theorem sound_run {es : List Event} {w : Session} (h : Run (Step upper) initialSession es w) :
    Sound w.connector :=
  h.preserves (P := fun w => Sound w.connector) (fun _ _ _ hi hs => sound_step upper hi hs)
    sound_initial

/-- In every run, the lines open at the end of a cycle are those it opened exactly when no
line was open at its beginning. -/
theorem only_own_lines_iff {es : List Event} {w w' : Session} {p : Poll}
    (h : Run (Step upper) initialSession es w) (hs : Step upper w (.poll p) w')
    (hp : p.isEmpty upper = false) :
    (∀ x, x ∈ w'.connector.ib.lines ↔ x ∈ w'.connector.ib.opened) ↔
      w.connector.ib.lines = [] := by
  have hsound := sound_run upper h
  obtain ⟨new, hadds⟩ := adds_applySubs upper hsound (p.optRows upper) (p.stkSyms upper) p.calls
  cases hs
  rw [step, poll_connector upper hp, hadds.lines, hadds.opened]
  change (∀ x, x ∈ w.connector.ib.lines ++ new ↔ x ∈ [] ++ new) ↔ _
  constructor
  · intro hown
    apply List.eq_nil_iff_forall_not_mem.mpr
    intro x hx
    -- a line that was open before belongs to an older object than those of this cycle
    have hnew : x ∈ new := (hown x).mp (List.mem_append_left _ hx)
    have hold := hsound.lines x hx
    have hfresh : w.connector.ib.nextObject ≤ x := hadds.fresh x hnew
    omega
  · intro hnone x
    rw [hnone]

end Runs

/-- One stock on the watchlist. -/
def watchAapl (calls : Calls) : Poll where
  settings :=
    { budget := { gatewayMaxSubscriptions := 200, mounted := false }
      maxSubscriptions := none
      includeStk := true
      includeOpt := true }
  db := some { watchlistOpt := [], positionOpt := [], watchlistStk := [some "AAPL"] }
  onDemand := some []
  calls

/-- The session after a cycle whose request raises. -/
def afterFailure : Session :=
  step asciiUpper initialSession
    (.poll (watchAapl { allSucceed with stk := fun _ => ⟨true, .before⟩ }))

/-- The session after another cycle with the same watchlist. -/
def afterCycle (w : Session) : Session := step asciiUpper w (.poll (watchAapl allSucceed))

/-- The second cycle is the first whose request succeeds. -/
theorem only_own_lines_second_request :
    (afterCycle afterFailure).connector.ib.lines = [1] ∧
      ∀ x, x ∈ (afterCycle afterFailure).connector.ib.lines ↔
        x ∈ (afterCycle afterFailure).connector.ib.opened := by
  refine ⟨by decide +kernel, ?_⟩
  have hrun : Run (Step asciiUpper) initialSession _ afterFailure := .single rfl
  have hcycle : Step asciiUpper afterFailure (.poll (watchAapl allSucceed))
    (afterCycle afterFailure) := rfl
  exact (only_own_lines_iff asciiUpper hrun hcycle (by decide +kernel)).mpr (by decide +kernel)

/-- Two cycles with the same watchlist and no failure: the line of the first stays open. -/
theorem first_line_stays_open :
    Run (Step asciiUpper) initialSession [.poll (watchAapl allSucceed)]
        (afterCycle initialSession) ∧
      Step asciiUpper (afterCycle initialSession) (.poll (watchAapl allSucceed))
        (afterCycle (afterCycle initialSession)) ∧
      (watchAapl allSucceed).isEmpty asciiUpper = false ∧
      (afterCycle (afterCycle initialSession)).connector.ib.lines = [0, 2] ∧
      ¬ ∀ x, x ∈ (afterCycle (afterCycle initialSession)).connector.ib.lines ↔
        x ∈ (afterCycle (afterCycle initialSession)).connector.ib.opened := by
  have hlines : (afterCycle (afterCycle initialSession)).connector.ib.lines = [0, 2] := by
    decide +kernel
  have hopened : (afterCycle (afterCycle initialSession)).connector.ib.opened = [2] := by
    decide +kernel
  refine ⟨.single rfl, rfl, by decide +kernel, hlines, fun hown => ?_⟩
  have hzero := (hown 0).mp (by simp [hlines])
  simp [hopened] at hzero

end BifrostSocket.MarketDataLines
