import BifrostSocket.AccountSnapshots

/-!
# Accounts of the host and the secondary slot

Each loop of the snapshot appends one entry an account, and the list of entries also tells
the second loop which accounts are there already. The result is the host's accounts and the
secondary's remaining ones, each with the positions of its own connection.
-/

namespace BifrostSocket.AccountMerges
open OperatorProtocol AccountSnapshots
open ContractKeys (Contract)

section Spec

/-- The row shows what the position and its contract hold. -/
structure RowOf (p : Position) (d : PositionDict) : Prop where
  account : d.account = p.account
  symbol : d.symbol = (p.contract.bind Contract.symbol).getD ""
  secType : d.secType = (p.contract.bind Contract.secType).getD ""
  exchange : d.exchange = (p.contract.bind Contract.exchange).getD ""
  currency : d.currency = (p.contract.bind Contract.currency).getD ""
  position : d.position = p.position
  avgCost : d.avgCost = p.avgCost
  option : d.option = if d.secType = "OPT" then
      some ⟨(p.contract.bind Contract.lastTradeDateOrContractMonth).getD "",
        p.contract.bind Contract.strike, (p.contract.bind Contract.right).getD "", p.multiplier⟩
    else none

/-- The value under this tag. -/
def valueUnder (tag : String) (v : AccountValue) : Option String :=
  if v.tag = some tag then v.value else none

/-- The entry has the data of this connection: the last value of every tag, and a row for each
position of the account, none of another one. -/
structure FromConnection (c : AccountConnector) (allPositions : List Position)
    (e : AccountEntry) : Prop where
  tags : ∀ tag, tag ≠ "" → tag ≠ "account" → e.summary.get tag =
    ((c.getAccountSummary e.accountId).filterMap (valueUnder tag)).getLast?
  untagged : e.summary.get "" = none
  account : e.summary.get "account" = some e.accountId
  positions : List.Forall₂ RowOf
    (allPositions.filter fun p => decide (p.account = some e.accountId)) e.positions
  unmixed : ∀ d ∈ e.positions, d.account = some e.accountId

/-- One entry an account, the host's accounts first, each with the data of the connection
that it is taken from. -/
structure Exact (hc : AccountConnector) (allP : List Position) (sc : AccountConnector)
    (allP2 : List Position) (out : List AccountEntry) : Prop where
  ids : out.map AccountEntry.accountId = hc.getManagedAccounts ++
    sc.getManagedAccounts.filter fun aid => decide (aid ∉ hc.getManagedAccounts)
  once : (out.map AccountEntry.accountId).Nodup
  host : ∀ e ∈ out, e.accountId ∈ hc.getManagedAccounts → FromConnection hc allP e
  secondary : ∀ e ∈ out, e.accountId ∉ hc.getManagedAccounts → FromConnection sc allP2 e

end Spec

section Loops

variable {c : AccountConnector} {allPositions : List Position}

theorem orDefault_empty (text : Option String) : orDefault text "" = text.getD "" := by
  cases text with
  | none => rfl
  | some s => simp [orDefault, eq_comm]

theorem rowOf_positionToDict (p : Position) : RowOf p (positionToDict p) := by
  constructor
  all_goals simp only [positionToDict, orDefault_empty]

/-- One value of the summary changes what its own tag shows. -/
theorem get_summaryStep (fd : Fields) (v : AccountValue) (tag : String) (htag : tag ≠ "") :
    (summaryStep fd v).get tag = (valueUnder tag v).or (fd.get tag) := by
  unfold summaryStep valueUnder
  cases hv : v.value with
  | none => cases v.tag <;> simp
  | some x => cases v.tag with
    | none => simp
    | some t =>
      by_cases ht : t = ""
      · simp [ht, Ne.symm htag]
      · by_cases heq : t = tag
        · simp [heq, Fields.get_setItem, htag]
        · simp [ht, heq, Fields.get_setItem, Ne.symm heq]

theorem get_summaryLoop (values : List AccountValue) (fd : Fields) (tag : String)
    (htag : tag ≠ "") :
    (values.foldl summaryStep fd).get tag =
      (values.filterMap (valueUnder tag)).getLast?.or (fd.get tag) := by
  induction values generalizing fd with
  | nil => rfl
  | cons v values ih =>
    rw [List.foldl_cons, ih, get_summaryStep fd v tag htag, List.filterMap_cons]
    cases valueUnder tag v with
    | none => rfl
    | some x => cases hlast : (values.filterMap (valueUnder tag)).getLast? with
      | none => simp [List.getLast?_cons, hlast]
      | some y => simp [List.getLast?_cons, hlast]

theorem get_summaryLoop_empty (values : List AccountValue) (fd : Fields) :
    (values.foldl summaryStep fd).get "" = fd.get "" := by
  induction values generalizing fd with
  | nil => rfl
  | cons v values ih =>
    rw [List.foldl_cons, ih]
    unfold summaryStep
    split
    · split
      · next h => rw [Fields.get_setItem, if_neg (Ne.symm h)]
      · rfl
    · rfl

theorem managedAccount_ne {aid : String} (h : aid ∈ c.getManagedAccounts) : aid ≠ "" := by
  unfold AccountConnector.getManagedAccounts at h
  split at h
  · cases h
  · split at h
    · cases h
    · have hfilter := (List.mem_filter.mp h).2
      rw [Bool.and_eq_true] at hfilter
      exact of_decide_eq_true hfilter.1

theorem fromConnection_entry {aid : String} (h : aid ∈ c.getManagedAccounts) :
    FromConnection c allPositions (accountEntry c allPositions aid) := by
  have hne := managedAccount_ne h
  constructor
  · intro tag htag haccount
    simp only [accountEntry, summaryDict, if_pos hne, Fields.get_setItem, if_neg haccount]
    rw [get_summaryLoop _ _ _ htag]
    exact Option.or_none
  · simp only [accountEntry, summaryDict, if_pos hne, Fields.get_setItem]
    rw [if_neg (by decide), get_summaryLoop_empty]
    rfl
  · simp only [accountEntry, summaryDict, if_pos hne, Fields.get_setItem, if_true]
  · rw [accountEntry, List.forall₂_map_right_iff, List.forall₂_same]
    exact fun p _ => rowOf_positionToDict p
  · intro d hd
    obtain ⟨p, hp, rfl⟩ := List.mem_map.mp hd
    exact of_decide_eq_true (List.mem_filter.mp hp).2

theorem foldl_hostEntries (ids : List String) (out : List AccountEntry) :
    ids.foldl (fun out aid => out ++ [accountEntry c allPositions aid]) out =
      out ++ ids.map (accountEntry c allPositions) := by
  induction ids generalizing out with
  | nil => simp
  | cons aid ids ih => rw [List.foldl_cons, ih, List.append_assoc, List.map_cons]; rfl

theorem any_accountId (out : List AccountEntry) (aid : String) :
    (out.any fun a => decide (a.accountId = aid)) = true ↔
      aid ∈ out.map AccountEntry.accountId := by
  simp [List.any_eq_true]

/-- Without repeated ids, the entries of the second loop itself stop none of its accounts. -/
theorem foldl_secondaryEntries {ids : List String} (hids : ids.Nodup) (out : List AccountEntry) :
    ids.foldl (fun out aid =>
        if out.any fun a => decide (a.accountId = aid) then out
        else out ++ [accountEntry c allPositions aid]) out =
      out ++ (ids.filter fun aid => decide (aid ∉ out.map AccountEntry.accountId)).map
        (accountEntry c allPositions) := by
  induction ids generalizing out with
  | nil => simp
  | cons aid ids ih =>
    obtain ⟨hnew, hids⟩ := List.nodup_cons.mp hids
    rw [List.foldl_cons]
    by_cases hmem : aid ∈ out.map AccountEntry.accountId
    · rw [if_pos ((any_accountId out aid).mpr hmem), ih hids,
        List.filter_cons_of_neg (by simpa using hmem)]
    · rw [if_neg (fun h => hmem ((any_accountId out aid).mp h)), ih hids,
        List.filter_cons_of_pos (by simpa using hmem), List.map_cons, List.append_assoc]
      have hrest : ∀ x ∈ ids,
          decide (x ∉ (out ++ [accountEntry c allPositions aid]).map AccountEntry.accountId) =
            decide (x ∉ out.map AccountEntry.accountId) := by
        intro x hx
        have hne : x ≠ aid := fun heq => hnew (heq ▸ hx)
        rw [decide_eq_decide, List.map_append, List.mem_append, not_or]
        exact and_iff_left (by simpa [accountEntry] using hne)
      rw [List.filter_congr hrest]
      rfl

end Loops

section Merging

variable {primary secondary : Slot} {hc sc : AccountConnector} {allP allP2 : List Position}

theorem hostAccounts_eq (hhost : primary.ready = some hc) (hpos : hc.positions = some allP) :
    hostAccounts primary [] = some (hc.getManagedAccounts.map (accountEntry hc allP)) := by
  simp only [hostAccounts, hhost, hpos, Option.map_some, foldl_hostEntries, List.nil_append]
  split
  · next hnil => rw [List.isEmpty_iff.mp hnil, List.map_nil]
  · rfl

theorem secondaryAccounts_eq (hsec : secondary.ready = some sc)
    (hpos : sc.positions = some allP2) (hids : sc.getManagedAccounts.Nodup)
    (out : List AccountEntry) :
    secondaryAccounts (some secondary) out =
      some (out ++ (sc.getManagedAccounts.filter fun aid =>
        decide (aid ∉ out.map AccountEntry.accountId)).map (accountEntry sc allP2)) := by
  simp only [secondaryAccounts, Option.bind_some, hsec, hpos, Option.map_some,
    foldl_secondaryEntries hids]
  split
  · next hnil => rw [List.isEmpty_iff.mp hnil, List.filter_nil, List.map_nil, List.append_nil]
  · rfl

theorem map_accountId_entries (c : AccountConnector) (allPositions : List Position)
    (ids : List String) :
    (ids.map (accountEntry c allPositions)).map AccountEntry.accountId = ids := by
  rw [List.map_map]
  exact List.map_id ids

theorem accountsSnapshot_eq (hhost : primary.ready = some hc)
    (hsec : secondary.ready = some sc) (hpos : hc.positions = some allP)
    (hpos2 : sc.positions = some allP2) (hds : sc.getManagedAccounts.Nodup) :
    accountsSnapshot primary (some secondary) =
      some (hc.getManagedAccounts.map (accountEntry hc allP) ++
        (sc.getManagedAccounts.filter fun aid => decide (aid ∉ hc.getManagedAccounts)).map
          (accountEntry sc allP2)) := by
  rw [accountsSnapshot, hostAccounts_eq hhost hpos, Option.bind_some,
    secondaryAccounts_eq hsec hpos2 hds, map_accountId_entries]

theorem exact_entries (hdh : hc.getManagedAccounts.Nodup) (hds : sc.getManagedAccounts.Nodup) :
    Exact hc allP sc allP2 (hc.getManagedAccounts.map (accountEntry hc allP) ++
      (sc.getManagedAccounts.filter fun aid => decide (aid ∉ hc.getManagedAccounts)).map
        (accountEntry sc allP2)) where
  ids := by rw [List.map_append, map_accountId_entries, map_accountId_entries]
  once := by
    rw [List.map_append, map_accountId_entries, map_accountId_entries, List.nodup_append]
    refine ⟨hdh, hds.filter _, fun aid haid aid' haid' heq => ?_⟩
    have hout := of_decide_eq_true (List.mem_filter.mp haid').2
    exact hout (heq ▸ haid)
  host := by
    intro e he hmem
    rcases List.mem_append.mp he with he | he
    · obtain ⟨aid, haid, rfl⟩ := List.mem_map.mp he
      exact fromConnection_entry haid
    · obtain ⟨aid, haid, rfl⟩ := List.mem_map.mp he
      exact absurd hmem (of_decide_eq_true (List.mem_filter.mp haid).2)
  secondary := by
    intro e he hmem
    rcases List.mem_append.mp he with he | he
    · obtain ⟨aid, haid, rfl⟩ := List.mem_map.mp he
      exact absurd haid hmem
    · obtain ⟨aid, haid, rfl⟩ := List.mem_map.mp he
      exact fromConnection_entry (List.mem_filter.mp haid).1

/-- With both slots connected and no call raising, the snapshot is exact. -/
theorem accounts_snapshot_exact (hhost : primary.ready = some hc)
    (hsec : secondary.ready = some sc) (hpos : hc.positions = some allP)
    (hpos2 : sc.positions = some allP2) (hdh : hc.getManagedAccounts.Nodup)
    (hds : sc.getManagedAccounts.Nodup) :
    ∃ out, accountsSnapshot primary (some secondary) = some out ∧ Exact hc allP sc allP2 out :=
  ⟨_, accountsSnapshot_eq hhost hsec hpos hpos2 hds, exact_entries hdh hds⟩

end Merging

section Instances

def positionOf (account symbol : String) (size : ℚ) : Position where
  account := some account
  contract := some ⟨some symbol, some "STK", some "", some (.finite 0), some "", some "SMART",
    some "USD", some symbol, none⟩
  multiplier := some ""
  position := .finite size
  avgCost := some (.finite 1)

def callPosition (account : String) : Position where
  account := some account
  contract := some ⟨some "AAPL", some "OPT", some "20260116", some (.finite 150), some "C", none,
    some "USD", none, none⟩
  multiplier := some "100"
  position := .finite 2
  avgCost := none

def stockRow (account symbol : String) (size : ℚ) : PositionDict :=
  ⟨some account, symbol, "STK", "SMART", "USD", .finite size, some (.finite 1), none⟩

def callRow (account : String) : PositionDict :=
  ⟨some account, "AAPL", "OPT", "", "USD", .finite 2, none,
    some ⟨"20260116", some (.finite 150), "C", some "100"⟩⟩

/-- A connection that manages the accounts among `names` and sees these positions. -/
def connectorOf (names : List String) (positions : List Position) : AccountConnector where
  isConnected := true
  managedAccounts := some (.names names)
  accountSummary _ := some [⟨some "NetLiquidation", some "1.0"⟩, ⟨some "", some "2.0"⟩,
    ⟨some "Leverage", none⟩, ⟨some "NetLiquidation", some "3.0"⟩]
  positions := some positions
  openTrades := some []

def hostPositions : List Position :=
  [positionOf "U1" "AAPL" 5, positionOf "U3" "AAPL" 6, callPosition "U1"]

def secondaryPositions : List Position := [positionOf "U1" "AAPL" 7, positionOf "U3" "MSFT" 1]

def hostConnector : AccountConnector := connectorOf ["U1", "U2", "login"] hostPositions

def secondaryConnector : AccountConnector := connectorOf ["U3", "U1"] secondaryPositions

def overlapEntries : List AccountEntry :=
  [⟨"U1", [("NetLiquidation", "3.0"), ("account", "U1")], [stockRow "U1" "AAPL" 5, callRow "U1"]⟩,
    ⟨"U2", [("NetLiquidation", "3.0"), ("account", "U2")], []⟩,
    ⟨"U3", [("NetLiquidation", "3.0"), ("account", "U3")], [stockRow "U3" "MSFT" 1]⟩]

/-- Both connections manage `U1`, and each has one account more. -/
theorem accounts_snapshot_exact_overlap :
    accountsSnapshot ⟨some hostConnector, true⟩ (some ⟨some secondaryConnector, true⟩) =
        some overlapEntries ∧
      Exact hostConnector hostPositions secondaryConnector secondaryPositions overlapEntries := by
  have hhost : Slot.ready ⟨some hostConnector, true⟩ = some hostConnector := rfl
  have hsec : Slot.ready ⟨some secondaryConnector, true⟩ = some secondaryConnector := rfl
  have hentries : accountsSnapshot ⟨some hostConnector, true⟩
      (some ⟨some secondaryConnector, true⟩) = some overlapEntries := by decide +kernel
  obtain ⟨out, hout, hexact⟩ := accounts_snapshot_exact hhost hsec rfl rfl (by decide +kernel)
    (by decide +kernel)
  rw [hentries] at hout
  obtain rfl := Option.some.inj hout
  exact ⟨hentries, hexact⟩

end Instances

end BifrostSocket.AccountMerges
