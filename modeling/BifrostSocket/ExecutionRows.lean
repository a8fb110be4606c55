import BifrostSocket.ContractKeys
import Mathlib.Logic.Function.Basic

/-!
# Execution rows

How a fill becomes a row for the database: in the callback for new fills, among the fills of
a response, and among the fills of the session. `upper` and `floatStr` stand for `str.upper`
and for what an f-string makes of a strike. `none` stands for a missing attribute and for
`None`, and `float` of a number is that number.
-/

namespace BifrostSocket.ExecutionRows
open OperatorProtocol IngestorWatchlists ContractKeys

section Records

/-- A `datetime`; `none` where its `timestamp` raises. -/
structure Datetime where
  timestamp : Option ℚ
  deriving DecidableEq

structure CommissionReport where
  execId : Option String
  commission : Option PyFloat
  realizedPNL : Option PyFloat
  currency : Option String
  yield_ : Option PyFloat
  yieldRedemptionDate : Option ℤ
  deriving DecidableEq

structure Execution where
  execId : Option String
  time : Option Datetime
  acctNumber : Option String
  exchange : Option String
  side : Option String
  shares : Option PyFloat
  price : Option PyFloat
  permId : Option ℤ
  clientId : Option ℤ
  orderId : Option ℤ
  liquidation : Option ℤ
  cumQty : Option PyFloat
  avgPrice : Option PyFloat
  orderRef : Option String
  evRule : Option String
  evMultiplier : Option PyFloat
  modelCode : Option String
  lastLiquidity : Option ℤ

structure Fill where
  contract : Option Contract
  execution : Option Execution
  commissionReport : Option CommissionReport
  time : Option Datetime

/-- The entries of `raw_extra`. -/
inductive RawValue where
  | int (n : ℤ)
  | float (x : PyFloat)
  | str (s : String)
  deriving DecidableEq

structure ExecutionRow where
  execId : Option String
  time : Option ℚ
  accountId : Option String
  symbol : String
  secType : String
  side : String
  quantity : Option PyFloat
  price : Option PyFloat
  commission : Option PyFloat
  source : String
  expiry : Option String
  strike : Option PyFloat
  optionRight : Option String
  exchange : Option String
  currency : Option String
  orderId : Option ℤ
  cumQty : Option PyFloat
  realizedPnl : Option PyFloat
  contractKey : Option String
  rawExtra : Option (List (String × RawValue))
  yield_ : Option PyFloat
  yieldRedemptionDate : Option ℤ
  deriving DecidableEq

end Records

section Values

/-- `a or b` on optional strings. -/
def pyOr (a b : Option String) : Option String :=
  match a with
  | none => b
  | some s => if s = "" then b else some s

@[simp] theorem pyOr_none (b : Option String) : pyOr none b = b := rfl

theorem pyOr_some {s : String} (h : s ≠ "") (b : Option String) : pyOr (some s) b = some s :=
  if_neg h

theorem pyOr_assoc (a b c : Option String) : pyOr (pyOr a b) c = pyOr a (pyOr b c) := by
  cases a with
  | none => rfl
  | some s =>
    by_cases hs : s = ""
    · subst hs
      rfl
    · rw [pyOr_some hs, pyOr_some hs, pyOr_some hs]

/-- `a or None`. -/
def orNone (s : String) : Option String := pyOr (some s) none

def RawValue.isZero : RawValue → Bool
  | .int n => decide (n = 0)
  | .float x => decide (x = .finite 0)
  | .str s => decide (s = "")

def execSideToBuySell (upper : String → String) (side : Option String) : String :=
  match side with
  | none => ""
  | some side =>
    if side = "" then ""
    else
      let s := upper (strip side)
      if s ∈ ["BOT", "BUY", "B"] then "BUY"
      else if s ∈ ["SLD", "SELL", "S"] then "SELL"
      else side

/-- The attributes of an execution that are written to `raw_extra`. -/
def Execution.extras (ex : Execution) : List (String × Option RawValue) :=
  [("permId", ex.permId.map .int), ("clientId", ex.clientId.map .int),
    ("orderId", ex.orderId.map .int), ("liquidation", ex.liquidation.map .int),
    ("cumQty", ex.cumQty.map .float), ("avgPrice", ex.avgPrice.map .float),
    ("orderRef", ex.orderRef.map .str), ("evRule", ex.evRule.map .str),
    ("evMultiplier", ex.evMultiplier.map .float), ("modelCode", ex.modelCode.map .str),
    ("lastLiquidity", ex.lastLiquidity.map .int)]

def rawExtra (fill : Fill) : List (String × RawValue) :=
  let ofExecution := match fill.execution with
    | none => []
    | some ex => ex.extras.filterMap fun p =>
        (p.2.filter fun v => !v.isZero).map fun v => (p.1, v)
  let ofReport := match fill.commissionReport with
    | none => []
    | some report =>
      [("yield_", report.yield_.map RawValue.float),
        ("yieldRedemptionDate", report.yieldRedemptionDate.map .int)].filterMap fun p =>
          p.2.map fun v => (p.1, v)
  let conId := (fill.contract.bind Contract.conId).map fun n => ("conId", RawValue.int n)
  let localSymbol := orNone (orDefault (fill.contract.bind Contract.localSymbol) "")
  ofExecution ++ ofReport ++ conId.toList ++
    (localSymbol.map fun s => ("localSymbol", RawValue.str s)).toList

end Values

section Commissions

/-- What `on_commission_report` keeps of a report. -/
structure CommissionRecord where
  commission : Option PyFloat
  realizedPNL : Option PyFloat
  currency : Option String
  yield_ : Option PyFloat
  yieldRedemptionDate : Option ℤ

def CommissionReport.record (report : CommissionReport) : CommissionRecord where
  commission := report.commission
  realizedPNL := report.realizedPNL
  currency := report.currency
  yield_ := report.yield_
  yieldRedemptionDate := report.yieldRedemptionDate

/-- `commission_by_exec_id`. -/
abbrev CommissionMap := String → Option CommissionRecord

structure CommissionEvent where
  fill : Option Fill
  report : Option CommissionReport

/-- The id of a fill's execution, if it has one that is not empty. -/
def Fill.id (fill : Fill) : Option String :=
  fill.execution.bind fun ex => ex.execId.filter fun eid => decide (eid ≠ "")

theorem Fill.id_ne {fill : Fill} {k : String} (h : fill.id = some k) : k ≠ "" := by
  obtain ⟨ex, -, hex⟩ := Option.bind_eq_some_iff.mp h
  obtain ⟨-, hne⟩ := Option.filter_eq_some_iff.mp hex
  exact of_decide_eq_true hne

def onCommissionReport (m : CommissionMap) (e : CommissionEvent) : CommissionMap :=
  match e.fill.bind Fill.id, e.report with
  | some eid, some report => Function.update m eid (some report.record)
  | _, _ => m

/-- The commission data of a fill: its own report, and what the events have where that has
no commission. The yield is merged for the fills of the session only. -/
def mergedCommission (fill : Fill) (m : CommissionMap) : CommissionRecord :=
  let own : CommissionRecord := match fill.commissionReport with
    | none => ⟨none, none, none, none, none⟩
    | some report => report.record
  match own.commission, fill.id.bind m with
  | none, some rec =>
    { commission := rec.commission
      realizedPNL := own.realizedPNL.orElse fun _ => rec.realizedPNL
      currency := pyOr own.currency rec.currency
      yield_ := own.yield_.orElse fun _ => rec.yield_
      yieldRedemptionDate := own.yieldRedemptionDate.orElse fun _ => rec.yieldRedemptionDate }
  | _, _ => own

end Commissions

section Rows

variable (upper : String → String) (floatStr : PyFloat → String)

def Fill.timestamp (fill : Fill) : Option ℚ :=
  (fill.time.orElse fun _ => fill.execution.bind Execution.time).bind Datetime.timestamp

/-- The exchange of the contract or else of the execution. -/
def Fill.exchange (fill : Fill) : String :=
  orDefault (some (orDefault (fill.contract.bind Contract.exchange) ""))
    (orDefault (fill.execution.bind Execution.exchange) "")

/-- The row that the callback and the loop over a response build. -/
def executionRow (fill : Fill) (m : CommissionMap) (source : String) : ExecutionRow :=
  let c := fill.contract
  let merged := mergedCommission fill m
  let secType := orDefault (c.bind Contract.secType) ""
  let isOpt := decide (secType = "OPT")
  { execId := fill.execution.bind Execution.execId
    time := fill.timestamp
    accountId := fill.execution.bind Execution.acctNumber
    symbol := orDefault (c.bind Contract.symbol) ""
    secType
    side := execSideToBuySell upper (fill.execution.bind Execution.side)
    quantity := fill.execution.bind Execution.shares
    price := fill.execution.bind Execution.price
    commission := merged.commission
    source
    expiry :=
      if isOpt then orNone (orDefault (c.bind Contract.lastTradeDateOrContractMonth) "") else none
    strike := if isOpt then c.bind Contract.strike else none
    optionRight := if isOpt then orNone (orDefault (c.bind Contract.right) "") else none
    exchange := orNone fill.exchange
    currency := pyOr merged.currency (orNone (orDefault (c.bind Contract.currency) ""))
    orderId := fill.execution.bind Execution.orderId
    cumQty := fill.execution.bind Execution.cumQty
    realizedPnl := merged.realizedPNL
    contractKey := orNone (ContractKeys.contractKey floatStr c)
    rawExtra :=
      let extra := ExecutionRows.rawExtra fill
      if extra.isEmpty then none else some extra
    yield_ := fill.commissionReport.bind CommissionReport.yield_
    yieldRedemptionDate := fill.commissionReport.bind CommissionReport.yieldRedemptionDate }

/-- `fill_to_execution_row`, used for the fills of the secondary connection. -/
def fillToExecutionRow (fill : Fill) (commissionByExecId : Option CommissionMap)
    (source : String) : Option ExecutionRow :=
  if fill.execution.isNone then none
  else some (executionRow upper floatStr fill (commissionByExecId.getD fun _ => none) source)

/-- The row of a fill in the response. -/
def responseRow (fill : Fill) (m : CommissionMap) : ExecutionRow :=
  executionRow upper floatStr fill m "tws_client"

/-- The row of a fill that only `ib.fills()` has: the fields of an option are read from every
contract, and nothing is kept in `raw_extra`. -/
def sessionRow (fill : Fill) (m : CommissionMap) : ExecutionRow :=
  let c := fill.contract
  let merged := mergedCommission fill m
  { execId := fill.execution.bind Execution.execId
    time := fill.timestamp
    accountId := some (orDefault (fill.execution.bind Execution.acctNumber) "")
    symbol := orDefault (c.bind Contract.symbol) ""
    secType := orDefault (c.bind Contract.secType) ""
    side := execSideToBuySell upper (fill.execution.bind Execution.side)
    quantity := fill.execution.bind Execution.shares
    price := fill.execution.bind Execution.price
    commission := merged.commission
    source := "tws_client"
    expiry := pyOr (c.bind Contract.lastTradeDateOrContractMonth) none
    strike := c.bind Contract.strike
    optionRight := pyOr (c.bind Contract.right) none
    exchange := orNone fill.exchange
    currency := pyOr merged.currency (orNone (orDefault (c.bind Contract.currency) ""))
    orderId := fill.execution.bind Execution.orderId
    cumQty := fill.execution.bind Execution.cumQty
    realizedPnl := merged.realizedPNL
    contractKey := orNone (ContractKeys.contractKey floatStr c)
    rawExtra := none
    yield_ := merged.yield_
    yieldRedemptionDate := merged.yieldRedemptionDate }

end Rows

end BifrostSocket.ExecutionRows
