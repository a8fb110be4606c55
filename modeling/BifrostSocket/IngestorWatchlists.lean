import BifrostSocket.OperatorProtocol
import BifrostSocket.SeenLists
import Mathlib.Data.Finset.Card
import Mathlib.Data.Rat.Defs

/-!
# What an ingestor session is to subscribe

The subscription cap, the watchlist query with its budget, the symbols that are asked for
through Redis, and the contract keys that the session makes of them. `upper` stands for
`str.upper`.
-/

namespace BifrostSocket.IngestorWatchlists
open OperatorProtocol SeenLists

section Caps

structure IbDataLineBudget where
  gatewayMaxSubscriptions : ℤ
  mounted : Bool

def resolveGatewayMaxSubscriptions (budget : IbDataLineBudget) (configValue : Option ℤ) : ℤ :=
  if budget.mounted then max 1 (min 5000 budget.gatewayMaxSubscriptions)
  else
    match configValue with
    | some value => max 1 (min 5000 value)
    | none => 200

theorem resolveGatewayMaxSubscriptions_pos (budget : IbDataLineBudget) (value : Option ℤ) :
    1 ≤ resolveGatewayMaxSubscriptions budget value := by
  unfold resolveGatewayMaxSubscriptions
  split
  · exact le_max_left 1 _
  · cases value with
    | none => decide
    | some v => exact le_max_left 1 _

/-- The part of the configuration a poll cycle reads. A present `max_subscriptions` is what
`int` makes of it, `none` where that raises. -/
structure Settings where
  budget : IbDataLineBudget
  maxSubscriptions : Option (Option ℤ)
  includeStk : Bool
  includeOpt : Bool

def Settings.configValue (st : Settings) : Option ℤ :=
  match st.maxSubscriptions with
  | none => some 200
  | some value => value

def Settings.cap (st : Settings) : ℤ :=
  resolveGatewayMaxSubscriptions st.budget st.configValue

end Caps

section Queries

/-- What `float` gives. -/
inductive PyFloat where
  | finite (q : ℚ)
  | nan
  | infinity (negative : Bool)
  deriving DecidableEq

/-- An option row of either query. A `strike` of `none` is one that `float` refuses. -/
structure QueryRow where
  contractKey : Option String
  symbol : Option String
  expiry : Option String
  strike : Option PyFloat
  optionRight : Option String

structure OptRow where
  contractKey : String
  symbol : String
  expiry : String
  strike : PyFloat
  optionRight : String
  deriving DecidableEq

/-- What the three queries return. -/
structure QueryResults where
  watchlistOpt : List QueryRow
  positionOpt : List QueryRow
  watchlistStk : List (Option String)

def QueryRow.key (r : QueryRow) : String := strip (orDefault r.contractKey "")

variable (upper : String → String)

/-- `(right or "C").strip().upper() or "C"`. -/
def optionRight (right : Option String) : String :=
  orDefault (some (upper (strip (orDefault right "C")))) "C"

def optRow (r : QueryRow) : Option OptRow :=
  r.strike.map fun strike =>
    { contractKey := r.key
      symbol := strip (orDefault r.symbol "")
      expiry := strip (orDefault r.expiry "")
      strike
      optionRight := optionRight upper r.optionRight }

/-- The option rows of the watchlist, and after them those of the positions whose key is
new. -/
def optRows (results : QueryResults) : Option (List OptRow) :=
  ((results.watchlistOpt.filter fun r => decide (r.key ≠ "")).mapM (optRow upper)).bind
    fun watched =>
      ((firstSeen QueryRow.key (watched.map OptRow.contractKey)
        (results.positionOpt.filter fun r => decide (r.key ≠ ""))).mapM (optRow upper)).map
          (watched ++ ·)

def stkSyms (results : QueryResults) : List String :=
  results.watchlistStk.filterMap fun sym => sym.filter fun s => decide (s ≠ "")

/-- All rows, before the budget; `none` where a query or a conversion raises. -/
def watchlistRows (db : Option QueryResults) (includeStk includeOpt : Bool) :
    Option (List OptRow × List String) :=
  db.bind fun results =>
    (if includeOpt then optRows upper results else some []).map fun opts =>
      (opts, if includeStk then stkSyms results else [])

/-- The options take the budget first, the stocks what remains of it. -/
def takeBudget (maxSubscriptions : ℤ) (opts : List OptRow) (stks : List String) :
    List OptRow × List String :=
  let budget := max 0 maxSubscriptions
  let optTake := min (opts.length : ℤ) budget
  let remaining := budget - optTake
  (opts.take optTake.toNat, stks.take (max 0 remaining).toNat)

def fetchWatchlistSync (db : Option QueryResults) (maxSubscriptions : ℤ)
    (includeStk includeOpt : Bool) : List OptRow × List String :=
  match watchlistRows upper db includeStk includeOpt with
  | none => ([], [])
  | some (opts, stks) => takeBudget maxSubscriptions opts stks

/-- The members of the Redis set; `none` where reading it raises. -/
def onDemandStkSymbols (raw : Option (List String)) : List String :=
  ((raw.getD []).filter fun x => decide (strip x ≠ "")).map fun x => upper (strip x)

end Queries

section Keys

def stkKey (sym : String) : String := sym ++ "|STK|||"

def contractKeys (opts : List OptRow) (stks : List String) : Finset String :=
  (opts.map OptRow.contractKey).toFinset ∪ (stks.map stkKey).toFinset

def mergeOnDemand (stks extra : List String) : List String := stks ++ firstSeen id stks extra

/-- The key list whose beginning the budget selects. -/
def keyList (rows : List OptRow × List String) : List String :=
  rows.1.map OptRow.contractKey ++ rows.2.map stkKey

theorem contractKeys_eq (opts : List OptRow) (stks : List String) :
    contractKeys opts stks = (keyList (opts, stks)).toFinset := by
  rw [contractKeys, keyList, List.toFinset_append]

/-- The budget is one for both kinds of rows. -/
theorem keyList_takeBudget (m : ℤ) (opts : List OptRow) (stks : List String) :
    keyList (takeBudget m opts stks) = (keyList (opts, stks)).take m.toNat := by
  have htake : (min (opts.length : ℤ) (max 0 m)).toNat = min opts.length m.toNat := by omega
  have hrest : (max 0 (max 0 m - min (opts.length : ℤ) (max 0 m))).toNat =
      m.toNat - opts.length := by omega
  simp only [keyList, takeBudget, htake, hrest]
  rw [List.take_append, List.length_map, ← List.map_take, ← List.map_take]
  congr 2
  rcases Nat.le_total m.toNat opts.length with h | h
  · rw [Nat.min_eq_right h]
  · rw [Nat.min_eq_left h, List.take_length, List.take_of_length_le h]

theorem mem_mergeOnDemand {stks extra : List String} {sym : String} :
    sym ∈ mergeOnDemand stks extra ↔ sym ∈ stks ∨ sym ∈ extra := by
  have h := mem_seen_or_firstSeen id stks extra sym
  simp only [List.map_id] at h
  rw [mergeOnDemand, List.mem_append, h]

/-- The symbols from Redis come on top of the rows that the budget selected. -/
theorem contractKeys_mergeOnDemand (opts : List OptRow) (stks extra : List String) :
    contractKeys opts (mergeOnDemand stks extra) =
      contractKeys opts stks ∪ (extra.map stkKey).toFinset := by
  ext k
  simp only [contractKeys, Finset.mem_union, List.mem_toFinset, List.mem_map, mem_mergeOnDemand,
    or_and_right, exists_or, or_assoc]

end Keys

/-- `str.upper` on ASCII text. -/
def asciiUpper (s : String) : String := String.ofList (s.toList.map Char.toUpper)

end BifrostSocket.IngestorWatchlists
