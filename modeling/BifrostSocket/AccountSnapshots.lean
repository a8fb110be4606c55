import BifrostSocket.ContractKeys

/-!
# Account snapshots of two connections

What a connector reports of its open orders, its accounts and its positions, and how the
account agent puts the reports of the host and of the secondary slot together. `floatStr`
stands for what an f-string makes of a strike.
-/

namespace BifrostSocket.AccountSnapshots
open OperatorProtocol SeenLists IngestorWatchlists ContractKeys

section Orders

structure Order where
  orderId : Option ℤ
  permId : Option ℤ
  account : Option String
  action : Option String
  totalQuantity : Option PyFloat
  lmtPrice : Option PyFloat

structure OrderStatus where
  filled : Option PyFloat
  remaining : Option PyFloat
  status : Option String

/-- A `Trade`; `account` is an attribute that `ib_insync` does not give it. -/
structure Trade where
  contract : Option Contract
  order : Option Order
  orderStatus : Option OrderStatus
  account : Option String

structure OpenOrder where
  orderId : Option ℤ
  permId : Option ℤ
  accountId : Option String
  symbol : String
  secType : String
  action : String
  totalQuantity : PyFloat
  filled : PyFloat
  remaining : PyFloat
  limitPrice : Option PyFloat
  status : String
  contractKey : String
  deriving DecidableEq

/-- The account of the order or else of the trade, and an empty one of the order at last. -/
def Trade.accountId (trade : Trade) : Option String :=
  let ofOrder := trade.order.bind Order.account
  match ofOrder with
  | none => trade.account
  | some s =>
    if s ≠ "" then some s
    else
      match trade.account with
      | none => ofOrder
      | some s => some s

/-- A price of zero and a missing one are no limits. -/
def limitPrice (price : Option PyFloat) : Option PyFloat :=
  price.filter fun x => decide (x ≠ .finite 0 ∧ x ≠ .nan)

def tradeToOpenOrderDict (floatStr : PyFloat → String) (trade : Trade) : OpenOrder :=
  let totalQuantity := (trade.order.bind Order.totalQuantity).getD (.finite 0)
  { orderId := trade.order.bind Order.orderId
    permId := trade.order.bind Order.permId
    accountId := trade.accountId
    symbol := orDefault (trade.contract.bind Contract.symbol) ""
    secType := orDefault (trade.contract.bind Contract.secType) ""
    action := orDefault (trade.order.bind Order.action) ""
    totalQuantity
    filled := match trade.orderStatus with
      | some status => status.filled.getD (.finite 0)
      | none => .finite 0
    remaining := match trade.orderStatus with
      | some status => status.remaining.getD (.finite 0)
      | none => totalQuantity
    limitPrice := limitPrice (trade.order.bind Order.lmtPrice)
    status := match trade.orderStatus with
      | some status => orDefault status.status ""
      | none => ""
    contractKey := ContractKeys.contractKey floatStr trade.contract }

end Orders

section Positions

/-- A position, with the multiplier of its contract. -/
structure Position where
  account : Option String
  contract : Option Contract
  multiplier : Option String
  position : PyFloat
  avgCost : Option PyFloat

/-- The entries that only the position of an option has. -/
structure OptionEntries where
  lastTradeDateOrContractMonth : String
  strike : Option PyFloat
  right : String
  multiplier : Option String
  deriving DecidableEq

structure PositionDict where
  account : Option String
  symbol : String
  secType : String
  exchange : String
  currency : String
  position : PyFloat
  avgCost : Option PyFloat
  option : Option OptionEntries
  deriving DecidableEq

def positionToDict (pos : Position) : PositionDict :=
  let c := pos.contract
  let secType := orDefault (c.bind Contract.secType) ""
  { account := pos.account
    symbol := orDefault (c.bind Contract.symbol) ""
    secType
    exchange := orDefault (c.bind Contract.exchange) ""
    currency := orDefault (c.bind Contract.currency) ""
    position := pos.position
    avgCost := pos.avgCost
    option :=
      if secType = "OPT" then
        some
          { lastTradeDateOrContractMonth :=
              orDefault (c.bind Contract.lastTradeDateOrContractMonth) ""
            strike := c.bind Contract.strike
            right := orDefault (c.bind Contract.right) ""
            multiplier := pos.multiplier }
      else none }

end Positions

section Connectors

/-- What `ib.managedAccounts()` gives. -/
inductive RawAccounts where
  | text (s : String)
  | names (l : List String)

structure AccountValue where
  tag : Option String
  value : Option String

/-- A connector, by what its calls to IB answer; `none` stands for a call that raises. -/
structure AccountConnector where
  isConnected : Bool
  managedAccounts : Option RawAccounts
  accountSummary : String → Option (List AccountValue)
  positions : Option (List Position)
  openTrades : Option (List Trade)

def isUpperAscii (c : Char) : Bool := 'A' ≤ c && c ≤ 'Z'

/-- `_IB_ACCOUNT_ID_RE` on a stripped text: one or two capitals, then digits. -/
def isIbAccountId (s : String) : Bool :=
  let letters := s.toList.takeWhile isUpperAscii
  let digits := s.toList.dropWhile isUpperAscii
  (letters.length == 1 || letters.length == 2) && !digits.isEmpty &&
    digits.all fun c => (digitValue c).isSome

def RawAccounts.parts : RawAccounts → List String
  | .text s => if s = "" then [] else (s.split ',').toList.map (·.copy)
  | .names l => l

def AccountConnector.getManagedAccounts (c : AccountConnector) : List String :=
  if !c.isConnected then []
  else
    match c.managedAccounts with
    | none => []
    | some raw => (raw.parts.map strip).filter fun s => decide (s ≠ "") && isIbAccountId s

def AccountConnector.getAccountSummary (c : AccountConnector) (account : String) :
    List AccountValue :=
  if !c.isConnected then [] else (c.accountSummary account).getD []

/-- `get_open_orders_snapshot`, `none` where it raises. -/
def AccountConnector.getOpenOrdersSnapshot (floatStr : PyFloat → String)
    (c : AccountConnector) : Option (List OpenOrder) :=
  c.openTrades.map fun trades => trades.map (tradeToOpenOrderDict floatStr)

/-- A client of the agent: its connector and `_connected_state`. -/
structure Slot where
  connector : Option AccountConnector
  connectedState : Bool

/-- The connector, where the agent may use it. -/
def Slot.ready (slot : Slot) : Option AccountConnector :=
  if slot.connectedState then slot.connector else none

end Connectors

section Merges

variable (floatStr : PyFloat → String)

/-- The pair that the merge of open orders takes for an order's identity. -/
def OpenOrder.key (o : OpenOrder) : Option ℤ × Option String := (o.orderId, o.accountId)

/-- The orders that a slot contributes: none where it is not ready or the snapshot raises. -/
def Slot.openOrders (slot : Slot) : List OpenOrder :=
  match slot.ready with
  | none => []
  | some c => (c.getOpenOrdersSnapshot floatStr).getD []

def mergedOpenOrders (primary : Slot) (secondary : Option Slot) : List OpenOrder :=
  let orders := primary.openOrders floatStr
  match secondary with
  | none => orders
  | some sc => orders ++ firstSeen OpenOrder.key (orders.map OpenOrder.key) (sc.openOrders floatStr)

structure AccountEntry where
  accountId : String
  summary : Fields
  positions : List PositionDict
  deriving DecidableEq

/-- One round of the loop over the summary: tags that are empty or have no value are left
out. -/
def summaryStep (summary : Fields) (v : AccountValue) : Fields :=
  match v.tag, v.value with
  | some tag, some value => if tag ≠ "" then summary.setItem tag value else summary
  | _, _ => summary

/-- The summary dictionary of an account. -/
def summaryDict (values : List AccountValue) (aid : String) : Fields :=
  let summary := values.foldl summaryStep []
  if aid ≠ "" then Fields.setItem summary "account" aid else summary

def accountEntry (c : AccountConnector) (allPositions : List Position) (aid : String) :
    AccountEntry where
  accountId := aid
  summary := summaryDict (c.getAccountSummary aid) aid
  positions := (allPositions.filter fun p => decide (p.account = some aid)).map positionToDict

/-- The host's part of `_accounts_snapshot`; `none` where reading the positions raises. -/
def hostAccounts (primary : Slot) (out : List AccountEntry) : Option (List AccountEntry) :=
  match primary.ready with
  | none => some out
  | some hc =>
    let accountIds := hc.getManagedAccounts
    if accountIds.isEmpty then some out
    else
      hc.positions.map fun allP =>
        accountIds.foldl (fun out aid => out ++ [accountEntry hc allP aid]) out

/-- The secondary's part, which skips the accounts that are in the list already. -/
def secondaryAccounts (secondary : Option Slot) (out : List AccountEntry) :
    Option (List AccountEntry) :=
  match secondary.bind Slot.ready with
  | none => some out
  | some sc =>
    let ids2 := sc.getManagedAccounts
    if ids2.isEmpty then some out
    else
      sc.positions.map fun allP2 =>
        ids2.foldl (fun out aid =>
          if out.any fun a => decide (a.accountId = aid) then out
          else out ++ [accountEntry sc allP2 aid]) out

def accountsSnapshot (primary : Slot) (secondary : Option Slot) : Option (List AccountEntry) :=
  (hostAccounts primary []).bind (secondaryAccounts secondary)

end Merges

end BifrostSocket.AccountSnapshots
