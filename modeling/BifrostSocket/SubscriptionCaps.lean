import BifrostSocket.IngestorSessions
import Mathlib.Data.Finset.Card

/-!
# The subscription cap of a poll cycle

The query selects as many rows as the cap allows, whatever it finds. The symbols that are
asked for through Redis are merged in after that, so a cycle keeps to the cap exactly when
they fit into what the selected keys leave of it.
-/

namespace BifrostSocket.SubscriptionCaps
open OperatorProtocol IngestorWatchlists IngestorSessions

variable (upper : String → String)

/-- The keys of all rows in the order of the budget; none where the query fails. -/
def watchlistKeys (p : Poll) : List String :=
  ((watchlistRows upper p.db p.settings.includeStk p.settings.includeOpt).map keyList).getD []

/-- The distinct keys among the first rows, as many rows as the cap. -/
def selectedKeys (p : Poll) : Finset String :=
  ((watchlistKeys upper p).take p.settings.cap.toNat).toFinset

def onDemandKeys (p : Poll) : Finset String :=
  ((onDemandStkSymbols upper p.onDemand).map stkKey).toFinset

theorem keyList_fetched (p : Poll) :
    keyList (p.fetched upper) = (watchlistKeys upper p).take p.settings.cap.toNat := by
  unfold Poll.fetched fetchWatchlistSync watchlistKeys
  cases h : watchlistRows upper p.db p.settings.includeStk p.settings.includeOpt with
  | none => exact List.take_nil.symm
  | some rows => exact keyList_takeBudget p.settings.cap rows.1 rows.2

/-- What a cycle is to subscribe: the selected keys, and whatever Redis asks for. -/
theorem requestedKeys_eq (p : Poll) :
    p.requestedKeys upper = selectedKeys upper p ∪ onDemandKeys upper p := by
  have hfetched : contractKeys (p.optRows upper) (p.fetched upper).2 = selectedKeys upper p := by
    rw [selectedKeys, ← keyList_fetched]
    exact contractKeys_eq _ _
  rw [Poll.requestedKeys, Poll.stkSyms, contractKeys_mergeOnDemand, hfetched]
  rfl

theorem cap_pos (st : Settings) : 1 ≤ st.cap := resolveGatewayMaxSubscriptions_pos _ _

theorem card_selectedKeys_le (p : Poll) : ((selectedKeys upper p).card : ℤ) ≤ p.settings.cap := by
  have hcard : (selectedKeys upper p).card ≤ p.settings.cap.toNat :=
    (List.toFinset_card_le _).trans (List.length_take_le _ _)
  have hpos := cap_pos p.settings
  omega

/-- A cycle keeps to the cap exactly when the keys from Redis that are not selected anyway
fit into what the selected keys leave of it. -/
theorem within_cap_iff (w : Session) (p : Poll) :
    ((p.requestedKeys upper).card : ℤ) ≤ p.settings.cap ∧
        ((w.poll upper p).published.card : ℤ) ≤ p.settings.cap ↔
      ((onDemandKeys upper p \ selectedKeys upper p).card : ℤ) ≤
        p.settings.cap - (selectedKeys upper p).card := by
  have hcard := Finset.card_sdiff_add_card (onDemandKeys upper p) (selectedKeys upper p)
  rw [poll_published, requestedKeys_eq, Finset.union_comm]
  omega

/-- An empty watchlist, a mounted budget of one line and two symbols asked for. -/
def twoOnDemand : Poll where
  settings :=
    { budget := { gatewayMaxSubscriptions := 1, mounted := true }
      maxSubscriptions := some (some 200)
      includeStk := true
      includeOpt := true }
  db := some { watchlistOpt := [], positionOpt := [], watchlistStk := [] }
  onDemand := some ["aapl", "msft "]
  calls := allSucceed

/-- With a cap of one, two symbols from Redis are subscribed and published. -/
theorem on_demand_exceeds_cap :
    twoOnDemand.settings.cap = 1 ∧
    (initialSession.poll asciiUpper twoOnDemand).published = {"AAPL|STK|||", "MSFT|STK|||"} ∧
    (initialSession.poll asciiUpper twoOnDemand).connector.tickers.length = 2 ∧
    ¬ ((initialSession.poll asciiUpper twoOnDemand).published.card : ℤ) ≤
      twoOnDemand.settings.cap := by
  decide +kernel

end BifrostSocket.SubscriptionCaps
