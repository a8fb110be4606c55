import BifrostSocket.CommissionMerges

/-!
# The rows of one fill, by the pass that finds it

A fill's row is written down three times: for the fills of a response, for those that only
the session has, and in the callback for new fills. The three agree where nothing is read
that one of them leaves out.
-/

namespace BifrostSocket.RowAgreement
open OperatorProtocol IngestorWatchlists ContractKeys ExecutionRows CommissionMerges

section Rows

variable (upper : String → String) (floatStr : PyFloat → String) (m : CommissionMap)

/-- The row of the fill in the loop over a response, whatever came before it. -/
def ResponseBuilds (fill : Fill) (row : ExecutionRow) : Prop :=
  ∃ seen, (responsePass upper floatStr m seen [fill]).1 = [row]

/-- And in the loop over the session, for any requested account. -/
def SessionBuilds (fill : Fill) (row : ExecutionRow) : Prop :=
  ∃ account seen, sessionPass upper floatStr m account seen [fill] = [row]

/-- Every field but `raw_extra` is the same. -/
def SameButRawExtra (row row' : ExecutionRow) : Prop :=
  { row with rawExtra := none } = { row' with rawExtra := none }

/-- Every field but `source` and `raw_extra` is the same. -/
def SameButSource (row row' : ExecutionRow) : Prop :=
  { row with source := "", rawExtra := none } = { row' with source := "", rawExtra := none }

/-- The fill has one row, whichever pass finds it, and the callback builds it too. -/
def PassIndependent (fill : Fill) : Prop :=
  ∀ row, ResponseBuilds upper floatStr m fill row →
    (∀ row', SessionBuilds upper floatStr m fill row' → SameButRawExtra row row') ∧
    ∀ source, ∃ r, fillToExecutionRow upper floatStr fill (some m) source = some r ∧
      SameButSource row r ∧
      ∀ row', SessionBuilds upper floatStr m fill row' → SameButSource row' r

end Rows

section Conditions

/-- The fields that only options have are empty on every other contract. -/
def OptionFields (contract : Option Contract) : Prop :=
  orDefault (contract.bind Contract.secType) "" = "OPT" ∨
    (pyOr (contract.bind Contract.lastTradeDateOrContractMonth) none = none ∧
      contract.bind Contract.strike = none ∧ pyOr (contract.bind Contract.right) none = none)

/-- Where the fill's report has no commission, the event's report brings no yield and no
redemption date that the fill's own has not. -/
def OwnYields (fill : Fill) (m : CommissionMap) : Prop :=
  ∀ rec, fill.id.bind m = some rec →
    fill.commissionReport.bind CommissionReport.commission = none →
      (fill.commissionReport.bind CommissionReport.yield_ = none → rec.yield_ = none) ∧
      (fill.commissionReport.bind CommissionReport.yieldRedemptionDate = none →
        rec.yieldRedemptionDate = none)

end Conditions

section Agreement

variable {upper : String → String} {floatStr : PyFloat → String} {m : CommissionMap}
  {fill : Fill} {row : ExecutionRow}

theorem responseBuilds_iff :
    ResponseBuilds upper floatStr m fill row ↔ row = responseRow upper floatStr fill m := by
  constructor
  · rintro ⟨seen, h⟩
    unfold responsePass at h
    split at h
    · exact (List.singleton_inj.mp h).symm
    · split at h
      · cases h
      · exact (List.singleton_inj.mp h).symm
  · rintro rfl
    refine ⟨[], ?_⟩
    unfold responsePass
    split
    · rfl
    · rw [if_neg List.not_mem_nil]
      rfl

theorem sessionBuilds_iff : SessionBuilds upper floatStr m fill row ↔
    fill.id ≠ none ∧ row = sessionRow upper floatStr fill m := by
  constructor
  · rintro ⟨account, seen, h⟩
    unfold sessionPass at h
    split at h
    · cases h
    · next eid hid =>
      split at h
      · cases h
      · split at h
        · cases h
        · rw [hid]
          exact ⟨by simp, (List.singleton_inj.mp h).symm⟩
  · rintro ⟨hid, rfl⟩
    obtain ⟨eid, hid⟩ := Option.ne_none_iff_exists'.mp hid
    refine ⟨none, [], ?_⟩
    have hany : ofAccount none fill = true := by
      simp [ofAccount, orDefault, strip, stripBy]
    unfold sessionPass
    rw [hid]
    dsimp only
    rw [if_neg List.not_mem_nil, hany, if_neg (by simp)]
    rfl

theorem orDefault_self (acct : Option String) :
    acct = some (orDefault acct "") ↔ acct ≠ none := by
  cases acct with
  | none => simp
  | some s =>
    by_cases hs : s = ""
    · simp [orDefault, hs]
    · simp [orDefault, hs]

theorem orNone_orDefault (text : Option String) : orNone (orDefault text "") = pyOr text none := by
  cases text with
  | none => rfl
  | some s =>
    by_cases hs : s = ""
    · subst hs
      rfl
    · simp [orNone, orDefault, pyOr, hs]

/-- The yield columns agree exactly where the events bring nothing new. -/
theorem merged_yields_iff : OwnYields fill m ↔
    fill.commissionReport.bind CommissionReport.yield_ = (mergedCommission fill m).yield_ ∧
      fill.commissionReport.bind CommissionReport.yieldRedemptionDate =
        (mergedCommission fill m).yieldRedemptionDate := by
  unfold OwnYields mergedCommission
  cases hrec : fill.id.bind m with
  | none => cases fill.commissionReport <;> simp [CommissionReport.record]
  | some rec =>
    cases hreport : fill.commissionReport with
    | none => simp [eq_comm]
    | some report =>
      cases hcomm : report.commission with
      | some c => simp [CommissionReport.record, hcomm]
      | none =>
        cases hy : report.yield_ <;> cases hd : report.yieldRedemptionDate <;>
          simp [CommissionReport.record, hcomm, hy, hd, eq_comm]

/-- The option columns agree exactly where both passes may read them. -/
theorem option_columns_iff (c : Option Contract) : OptionFields c ↔
    (if orDefault (c.bind Contract.secType) "" = "OPT" then
        orNone (orDefault (c.bind Contract.lastTradeDateOrContractMonth) "") else none) =
        pyOr (c.bind Contract.lastTradeDateOrContractMonth) none ∧
      (if orDefault (c.bind Contract.secType) "" = "OPT" then c.bind Contract.strike else none) =
        c.bind Contract.strike ∧
      (if orDefault (c.bind Contract.secType) "" = "OPT" then
        orNone (orDefault (c.bind Contract.right) "") else none) =
        pyOr (c.bind Contract.right) none := by
  unfold OptionFields
  by_cases hopt : orDefault (c.bind Contract.secType) "" = "OPT"
  · simp only [hopt, true_or, if_true, orNone_orDefault, and_self]
  · simp only [hopt, false_or, if_false, eq_comm (a := none)]

theorem response_session_iff :
    SameButRawExtra (responseRow upper floatStr fill m) (sessionRow upper floatStr fill m) ↔
      fill.execution.bind Execution.acctNumber ≠ none ∧ OptionFields fill.contract ∧
        OwnYields fill m := by
  rw [← orDefault_self, option_columns_iff, merged_yields_iff]
  simp only [SameButRawExtra, responseRow, executionRow, sessionRow, ExecutionRow.mk.injEq,
    decide_eq_true_eq, true_and]
  constructor
  · rintro ⟨hacct, hexp, hstrike, hright, hyield, hdate⟩
    exact ⟨hacct, ⟨hexp, hstrike, hright⟩, hyield, hdate⟩
  · rintro ⟨hacct, ⟨hexp, hstrike, hright⟩, hyield, hdate⟩
    exact ⟨hacct, hexp, hstrike, hright, hyield, hdate⟩

/-- The callback's row is the one of the response, where it builds a row at all. -/
theorem fillToExecutionRow_iff {source : String} {r : ExecutionRow} :
    fillToExecutionRow upper floatStr fill (some m) source = some r ↔
      fill.execution ≠ none ∧ r = executionRow upper floatStr fill m source := by
  unfold fillToExecutionRow
  cases fill.execution with
  | none => simp
  | some ex => simp [eq_comm]

theorem SameButRawExtra.sameButSource {r r' : ExecutionRow} (h : SameButRawExtra r r') :
    SameButSource r r' := by
  simp only [SameButRawExtra, SameButSource, ExecutionRow.mk.injEq] at h ⊢
  tauto

theorem SameButSource.symm {r r' : ExecutionRow} (h : SameButSource r r') : SameButSource r' r :=
  Eq.symm h

theorem SameButSource.trans {r r' r'' : ExecutionRow} (h : SameButSource r r')
    (h' : SameButSource r' r'') : SameButSource r r'' :=
  Eq.trans h h'

/-- A fill's row is the same in all passes if and only if the fill has an execution and, where
the session's loop builds a row of it, an account, no option fields on another contract and
no yield that only an event has. -/
theorem row_pass_independent_iff (upper : String → String) (floatStr : PyFloat → String)
    (m : CommissionMap) (fill : Fill) :
    PassIndependent upper floatStr m fill ↔
      fill.execution ≠ none ∧ (fill.id ≠ none →
        fill.execution.bind Execution.acctNumber ≠ none ∧ OptionFields fill.contract ∧
          OwnYields fill m) := by
  constructor
  · intro h
    obtain ⟨hsession, hcallback⟩ := h _ (responseBuilds_iff.mpr rfl)
    obtain ⟨r, hr, -⟩ := hcallback "tws_client"
    refine ⟨(fillToExecutionRow_iff.mp hr).1, fun hid => ?_⟩
    exact response_session_iff.mp (hsession _ (sessionBuilds_iff.mpr ⟨hid, rfl⟩))
  · rintro ⟨hex, hfields⟩ row hrow
    obtain rfl := responseBuilds_iff.mp hrow
    have hagree : ∀ row', SessionBuilds upper floatStr m fill row' →
        SameButRawExtra (responseRow upper floatStr fill m) row' := by
      intro row' hrow'
      obtain ⟨hid, rfl⟩ := sessionBuilds_iff.mp hrow'
      exact response_session_iff.mpr (hfields hid)
    refine ⟨hagree, fun source => ?_⟩
    have hsource : SameButSource (responseRow upper floatStr fill m)
        (executionRow upper floatStr fill m source) := rfl
    refine ⟨_, fillToExecutionRow_iff.mpr ⟨hex, rfl⟩, hsource, fun row' hrow' => ?_⟩
    exact (hagree row' hrow').sameButSource.symm.trans hsource

end Agreement

section Instances

/-- A stock as `ib_insync` describes it: the strike of a contract that has none is zero. -/
def stock : Contract where
  symbol := some "AAPL"
  secType := some "STK"
  lastTradeDateOrContractMonth := some ""
  strike := some (.finite 0)
  right := some ""
  exchange := some "SMART"
  currency := some "USD"
  localSymbol := some "AAPL"
  conId := some 265598

/-- A fill of it with its commission report. -/
def stockFill : Fill where
  contract := some stock
  execution := some ⟨some "0001", some ⟨some 0⟩, some "DU1", some "ISLAND", some "BOT",
    some (.finite 100), some (.finite 150), some 1, some 2, some 3, some 0, some (.finite 100),
    some (.finite 150), some "", some "", some (.finite 0), some "", some 0⟩
  commissionReport := some (receivedReport "0001")
  time := some ⟨some 0⟩

/-- The session's row of a stock has a strike. -/
theorem stock_strike_depends_on_pass :
    (responseRow asciiUpper (fun _ => "") stockFill fun _ => none).strike = none ∧
      (sessionRow asciiUpper (fun _ => "") stockFill fun _ => none).strike = some (.finite 0) ∧
      ¬ PassIndependent asciiUpper (fun _ => "") (fun _ => none) stockFill := by
  have hid : stockFill.id ≠ none := by decide
  refine ⟨rfl, rfl, fun h => ?_⟩
  have hsame := (h _ (responseBuilds_iff.mpr rfl)).1 _ (sessionBuilds_iff.mpr ⟨hid, rfl⟩)
  have hstrike := congrArg ExecutionRow.strike hsame
  cases hstrike

end Instances

end BifrostSocket.RowAgreement
