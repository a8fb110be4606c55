import BifrostSocket.ExecutionRows

/-!
# Merging commission reports into execution rows

`get_executions_async` builds rows from the fills of the response, then from the fills of the
session with a new id, and fills in commissions from the session once more at the end. A row
takes its commission from the first of its fill's own report, the events of the wait and the
session's last fill that has one at all, whether that report was received or not.
-/

namespace BifrostSocket.CommissionMerges
open OperatorProtocol IngestorWatchlists ContractKeys ExecutionRows

section Passes

variable (upper : String → String) (floatStr : PyFloat → String)

/-- The loop over the response. A fill without an id is never skipped. -/
def responsePass (m : CommissionMap) : List String → List Fill → List ExecutionRow × List String
  | seen, [] => ([], seen)
  | seen, fill :: fills =>
    match fill.id with
    | none =>
      let r := responsePass m seen fills
      (responseRow upper floatStr fill m :: r.1, r.2)
    | some eid =>
      if eid ∈ seen then responsePass m seen fills
      else
        let r := responsePass m (eid :: seen) fills
        (responseRow upper floatStr fill m :: r.1, r.2)

/-- Whether a fill of the session is for the requested account. -/
def ofAccount (account : Option String) (fill : Fill) : Bool :=
  let accountFilter := strip (orDefault account "")
  decide (accountFilter = "" ∨
    orDefault (fill.execution.bind Execution.acctNumber) "" = accountFilter)

def sessionPass (m : CommissionMap) (account : Option String) :
    List String → List Fill → List ExecutionRow
  | _, [] => []
  | seen, fill :: fills =>
    match fill.id with
    | none => sessionPass m account seen fills
    | some eid =>
      if eid ∈ seen then sessionPass m account seen fills
      else if !ofAccount account fill then sessionPass m account seen fills
      else sessionRow upper floatStr fill m :: sessionPass m account (eid :: seen) fills

/-- `fills_by_id` of the second pass. -/
def fillsById (session : List Fill) : String → Option Fill :=
  session.foldl (fun d fill => match fill.id with
    | none => d
    | some eid => Function.update d eid (some fill)) fun _ => none

/-- The second pass on one row. -/
def secondPassRow (byId : String → Option Fill) (row : ExecutionRow) : ExecutionRow :=
  match row.execId.filter fun eid => decide (eid ≠ "") with
  | none => row
  | some eid =>
    if row.commission.isSome then row
    else
      match (byId eid).bind Fill.commissionReport with
      | none => row
      | some cr =>
        if cr.commission.isSome ∨ cr.realizedPNL.isSome ∨ cr.currency.isSome ∨ cr.yield_.isSome ∨
            cr.yieldRedemptionDate.isSome then
          { row with
            commission := cr.commission
            realizedPnl := cr.realizedPNL
            currency := pyOr cr.currency (pyOr row.currency none)
            yield_ := cr.yield_
            yieldRedemptionDate := cr.yieldRedemptionDate }
        else row

/-- What a call reads: the account, the response (`none` where the request raises), the
commission events of the wait in their order, and `ib.fills()`. -/
structure Inputs where
  account : Option String
  response : Option (List Fill)
  events : List CommissionEvent
  session : List Fill

def Inputs.commissionByExecId (inp : Inputs) : CommissionMap :=
  inp.events.foldl onCommissionReport fun _ => none

/-- The rows before the second pass. -/
def Inputs.firstRows (inp : Inputs) : List ExecutionRow :=
  match inp.response with
  | none => []
  | some fills =>
    let r := responsePass upper floatStr inp.commissionByExecId [] fills
    r.1 ++ sessionPass upper floatStr inp.commissionByExecId inp.account r.2 inp.session

/-- `get_executions_async`. -/
def getExecutions (inp : Inputs) : List ExecutionRow :=
  (inp.firstRows upper floatStr).map (secondPassRow (fillsById inp.session))

end Passes

section Spec

/-- A received report of this id that one of the fills carries. A report that has not arrived
has no execution id of its own. -/
def HeldBy (fills : List Fill) (k : String) (report : CommissionReport) : Prop :=
  ∃ fill ∈ fills, fill.id = some k ∧ fill.commissionReport = some report ∧
    orDefault report.execId "" ≠ ""

def Received (inp : Inputs) (k : String) (report : CommissionReport) : Prop :=
  HeldBy (inp.response.getD []) k report ∨
    (∃ e ∈ inp.events, e.fill.bind Fill.id = some k ∧ e.report = some report) ∨
    HeldBy inp.session k report

/-- The row has the values of the report, and its currency where it names one. -/
def Carries (row : ExecutionRow) (report : CommissionReport) : Prop :=
  row.commission = report.commission ∧ row.realizedPnl = report.realizedPNL ∧
    ∀ cur, cur ≠ "" → report.currency = some cur → row.currency = some cur

variable (upper : String → String) (floatStr : PyFloat → String)

/-- Every row of an id for which a report was received carries a received report. -/
def Complete (inp : Inputs) : Prop :=
  ∀ row ∈ getExecutions upper floatStr inp, ∀ k, k ≠ "" → row.execId = some k →
    (∃ report, Received inp k report) → ∃ report, Received inp k report ∧ Carries row report

/-- What a row has from a received report, it still has after the second pass. -/
def NotErased (inp : Inputs) : Prop :=
  ∀ (i : ℕ) (row row' : ExecutionRow), (inp.firstRows upper floatStr)[i]? = some row →
    (getExecutions upper floatStr inp)[i]? = some row' →
    ∀ k report, row.execId = some k → Received inp k report → Carries row report →
      Carries row' report

/-- The report objects that a call meets. -/
def Occurs (inp : Inputs) (report : CommissionReport) : Prop :=
  (∃ fill ∈ inp.response.getD [], fill.commissionReport = some report) ∨
    (∃ e ∈ inp.events, e.report = some report) ∨
    ∃ fill ∈ inp.session, fill.commissionReport = some report

/-- The fill that the row of an id is built from. -/
def firstFill (inp : Inputs) (k : String) : Option Fill :=
  inp.response.bind fun fills =>
    (fills.find? fun fill => decide (fill.id = some k)).orElse fun _ =>
      inp.session.find? fun fill => decide (fill.id = some k) && ofAccount inp.account fill

/-- The report has the values of another one, for a fill whose contract may name the
currency. -/
def Agrees (fill : Fill) (own report : CommissionReport) : Prop :=
  own.commission = report.commission ∧ own.realizedPNL = report.realizedPNL ∧
    ∀ cur, cur ≠ "" → report.currency = some cur →
      pyOr own.currency (orNone (orDefault (fill.contract.bind Contract.currency) "")) = some cur

/-- The report object of the fill itself has the values of a received one; or the fill has no
report object, and an event brought one or the one of the session's last fill with this id
has the values of a received one. -/
def Supplies (inp : Inputs) (k : String) (fill : Fill) : Prop :=
  match fill.commissionReport with
  | some own => ∃ report, Received inp k report ∧ Agrees fill own report
  | none =>
    (∃ e ∈ inp.events, e.fill.bind Fill.id = some k ∧ e.report.isSome = true) ∨
      ∃ last own, fillsById inp.session k = some last ∧ last.commissionReport = some own ∧
        ∃ report, Received inp k report ∧ Agrees fill own report

theorem Received.occurs {inp : Inputs} {k : String} {report : CommissionReport}
    (h : Received inp k report) : Occurs inp report := by
  rcases h with ⟨fill, hfill, -, hreport, -⟩ | ⟨e, he, -, hreport⟩ | ⟨fill, hfill, -, hreport, -⟩
  · exact .inl ⟨fill, hfill, hreport⟩
  · exact .inr (.inl ⟨e, he, hreport⟩)
  · exact .inr (.inr ⟨fill, hfill, hreport⟩)

end Spec

section Lookups

theorem onCommissionReport_self {m : CommissionMap} {e : CommissionEvent} {k : String}
    {report : CommissionReport} (hid : e.fill.bind Fill.id = some k)
    (hreport : e.report = some report) : onCommissionReport m e k = some report.record := by
  simp [onCommissionReport, hid, hreport]

theorem onCommissionReport_other {m : CommissionMap} {e : CommissionEvent} {k : String}
    (h : ¬ (e.fill.bind Fill.id = some k ∧ e.report.isSome = true)) :
    onCommissionReport m e k = m k := by
  unfold onCommissionReport
  cases hid : e.fill.bind Fill.id with
  | none => rfl
  | some eid =>
    cases hreport : e.report with
    | none => rfl
    | some report =>
      dsimp only
      rw [Function.update_of_ne]
      rintro rfl
      exact h ⟨hid, by rw [hreport]; rfl⟩

/-- The map holds a report of an id among the events. -/
theorem commissionByExecId_some {events : List CommissionEvent} {k : String}
    {rec : CommissionRecord} (h : events.foldl onCommissionReport (fun _ => none) k = some rec) :
    ∃ e ∈ events, e.fill.bind Fill.id = some k ∧ ∃ report, e.report = some report ∧
      rec = report.record := by
  induction events using List.reverseRecOn with
  | nil => cases h
  | append_singleton events e ih =>
    rw [List.foldl_append, List.foldl_cons, List.foldl_nil] at h
    by_cases he : e.fill.bind Fill.id = some k ∧ e.report.isSome = true
    · obtain ⟨report, hreport⟩ := Option.isSome_iff_exists.mp he.2
      rw [onCommissionReport_self he.1 hreport] at h
      exact ⟨e, by simp, he.1, report, hreport, (Option.some.inj h).symm⟩
    · rw [onCommissionReport_other he] at h
      obtain ⟨e', he', hrest⟩ := ih h
      exact ⟨e', List.mem_append_left _ he', hrest⟩

theorem commissionByExecId_isSome {events : List CommissionEvent} {k : String}
    {e : CommissionEvent} (he : e ∈ events) (hid : e.fill.bind Fill.id = some k)
    (hreport : e.report.isSome = true) :
    (events.foldl onCommissionReport (fun _ => none) k).isSome = true := by
  induction events using List.reverseRecOn with
  | nil => cases he
  | append_singleton events e' ih =>
    rw [List.foldl_append, List.foldl_cons, List.foldl_nil]
    by_cases hlast : e'.fill.bind Fill.id = some k ∧ e'.report.isSome = true
    · obtain ⟨report, hsome⟩ := Option.isSome_iff_exists.mp hlast.2
      rw [onCommissionReport_self hlast.1 hsome]
      rfl
    · rw [onCommissionReport_other hlast]
      rcases List.mem_append.mp he with he | he
      · exact ih he
      · obtain rfl := List.mem_singleton.mp he
        exact absurd ⟨hid, hreport⟩ hlast

theorem fillsById_append (session : List Fill) (fill : Fill) (k : String) :
    fillsById (session ++ [fill]) k =
      if fill.id = some k then some fill else fillsById session k := by
  unfold fillsById
  rw [List.foldl_append, List.foldl_cons, List.foldl_nil]
  cases hid : fill.id with
  | none => simp
  | some eid =>
    by_cases hk : eid = k
    · subst hk
      simp
    · rw [if_neg (by simpa using hk)]
      exact Function.update_of_ne (Ne.symm hk) _ _

theorem fillsById_mem {session : List Fill} {k : String} {fill : Fill}
    (h : fillsById session k = some fill) : fill ∈ session := by
  induction session using List.reverseRecOn with
  | nil => cases h
  | append_singleton session f ih =>
    rw [fillsById_append] at h
    split at h
    · obtain rfl := Option.some.inj h
      simp
    · exact List.mem_append_left _ (ih h)

end Lookups

section Rows

variable (upper : String → String) (floatStr : PyFloat → String) {m : CommissionMap}

theorem seen_responsePass (seen : List String) (fills : List Fill) (k : String) :
    k ∈ (responsePass upper floatStr m seen fills).2 ↔
      k ∈ seen ∨ (fills.find? fun fill => decide (fill.id = some k)).isSome = true := by
  induction fills generalizing seen with
  | nil => simp [responsePass]
  | cons fill fills ih =>
    unfold responsePass
    split
    · next hid =>
      dsimp only
      rw [ih, List.find?_cons_of_neg (by simp [hid])]
    · next eid hid =>
      by_cases hk : eid = k
      · subst hk
        rw [List.find?_cons_of_pos (by simp [hid])]
        split
        · next hseen => simp [ih, hseen]
        · simp [ih]
      · rw [List.find?_cons_of_neg (by simp [hid, hk])]
        split
        · exact ih seen
        · dsimp only
          rw [ih, List.mem_cons, or_iff_right (a := k = eid) (Ne.symm hk)]

theorem execId_iff {fill : Fill} {k : String} (hk : k ≠ "") :
    fill.execution.bind Execution.execId = some k ↔ fill.id = some k := by
  unfold Fill.id
  cases hex : fill.execution with
  | none => simp
  | some ex =>
    simp only [Option.bind_some, Option.filter_eq_some_iff, decide_eq_true_eq]
    exact ⟨fun h => ⟨h, hk⟩, And.left⟩

theorem mem_cons_other {rows : List ExecutionRow} {r row : ExecutionRow} {k : String}
    (hr : r.execId ≠ some k) :
    (row ∈ r :: rows ∧ row.execId = some k) ↔ (row ∈ rows ∧ row.execId = some k) := by
  rw [List.mem_cons]
  constructor
  · rintro ⟨rfl | hmem, hexec⟩
    · exact absurd hexec hr
    · exact ⟨hmem, hexec⟩
  · rintro ⟨hmem, hexec⟩
    exact ⟨.inr hmem, hexec⟩

theorem mem_cons_first {rows : List ExecutionRow} {r row : ExecutionRow} {k : String}
    (hr : r.execId = some k) (hrest : ¬ (row ∈ rows ∧ row.execId = some k)) :
    (row ∈ r :: rows ∧ row.execId = some k) ↔ row = r := by
  rw [List.mem_cons]
  constructor
  · rintro ⟨rfl | hmem, hexec⟩
    · rfl
    · exact absurd ⟨hmem, hexec⟩ hrest
  · rintro rfl
    exact ⟨.inl rfl, hr⟩

theorem not_mem_cons_other {seen : List String} {eid k : String} (h : eid ≠ k) :
    k ∉ eid :: seen ↔ k ∉ seen := by
  rw [List.mem_cons, or_iff_right (Ne.symm h)]

/-- For an id, the loop over the response builds one row, from its first fill. -/
theorem mem_responsePass {k : String} (hk : k ≠ "") (seen : List String) (fills : List Fill)
    (row : ExecutionRow) :
    (row ∈ (responsePass upper floatStr m seen fills).1 ∧ row.execId = some k) ↔
      k ∉ seen ∧ ∃ fill, (fills.find? fun fill => decide (fill.id = some k)) = some fill ∧
        row = responseRow upper floatStr fill m := by
  induction fills generalizing seen with
  | nil => simp [responsePass]
  | cons fill fills ih =>
    have hrow : (responseRow upper floatStr fill m).execId = some k ↔ fill.id = some k :=
      execId_iff hk
    unfold responsePass
    split
    · next hid =>
      have hother : (responseRow upper floatStr fill m).execId ≠ some k := by
        rw [Ne, hrow, hid]
        simp
      rw [List.find?_cons_of_neg (by simp [hid]), mem_cons_other hother]
      exact ih seen
    · next eid hid =>
      by_cases hek : eid = k
      · subst hek
        rw [List.find?_cons_of_pos (by simp [hid])]
        split
        · next hseen =>
          rw [ih seen]
          exact iff_of_false (fun h => h.1 hseen) (fun h => h.1 hseen)
        · next hseen =>
          rw [mem_cons_first (hrow.mpr hid) fun h => ((ih (eid :: seen)).mp h).1 List.mem_cons_self]
          constructor
          · intro heq
            exact ⟨hseen, fill, rfl, heq⟩
          · rintro ⟨-, f, hf, rfl⟩
            obtain rfl := Option.some.inj hf
            rfl
      · rw [List.find?_cons_of_neg (by simp [hid, hek])]
        split
        · exact ih seen
        · have hother : (responseRow upper floatStr fill m).execId ≠ some k := by
            rw [Ne, hrow, hid]
            exact fun h => hek (Option.some.inj h)
          rw [mem_cons_other hother, ← not_mem_cons_other hek]
          exact ih (eid :: seen)

/-- And the loop over the session one from its first fill for the account, if the id is new. -/
theorem mem_sessionPass {k : String} (hk : k ≠ "") (account : Option String) (seen : List String)
    (fills : List Fill) (row : ExecutionRow) :
    (row ∈ sessionPass upper floatStr m account seen fills ∧ row.execId = some k) ↔
      k ∉ seen ∧ ∃ fill,
        (fills.find? fun fill => decide (fill.id = some k) && ofAccount account fill) = some fill ∧
          row = sessionRow upper floatStr fill m := by
  induction fills generalizing seen with
  | nil => simp [sessionPass]
  | cons fill fills ih =>
    have hrow : (sessionRow upper floatStr fill m).execId = some k ↔ fill.id = some k :=
      execId_iff hk
    unfold sessionPass
    split
    · next hid =>
      rw [List.find?_cons_of_neg (by simp [hid])]
      exact ih seen
    · next eid hid =>
      by_cases hek : eid = k
      · subst hek
        split
        · next hseen =>
          rw [ih seen]
          exact iff_of_false (fun h => h.1 hseen) (fun h => h.1 hseen)
        · next hseen =>
          cases hacc : ofAccount account fill with
          | false =>
            rw [List.find?_cons_of_neg (by simp [hacc]), if_pos (by simp)]
            exact ih seen
          | true =>
            rw [List.find?_cons_of_pos (by simp [hid, hacc]), if_neg (by simp),
              mem_cons_first (hrow.mpr hid) fun h => ((ih (eid :: seen)).mp h).1 List.mem_cons_self]
            constructor
            · intro heq
              exact ⟨hseen, fill, rfl, heq⟩
            · rintro ⟨-, f, hf, rfl⟩
              obtain rfl := Option.some.inj hf
              rfl
      · rw [List.find?_cons_of_neg (by simp [hid, hek])]
        split
        · exact ih seen
        split
        · exact ih seen
        · have hother : (sessionRow upper floatStr fill m).execId ≠ some k := by
            rw [Ne, hrow, hid]
            exact fun h => hek (Option.some.inj h)
          rw [mem_cons_other hother, ← not_mem_cons_other hek]
          exact ih (eid :: seen)

/-- The commission columns of a row are those that were merged for this fill. -/
structure BuiltFrom (m : CommissionMap) (fill : Fill) (row : ExecutionRow) : Prop where
  commission : row.commission = (mergedCommission fill m).commission
  realizedPnl : row.realizedPnl = (mergedCommission fill m).realizedPNL
  currency : row.currency = pyOr (mergedCommission fill m).currency
    (orNone (orDefault (fill.contract.bind Contract.currency) ""))

/-- The rows of an id before the second pass are built from its first fill. -/
theorem builtFrom_firstFill {inp : Inputs} {k : String} (hk : k ≠ "") {row : ExecutionRow}
    (hrow : row ∈ inp.firstRows upper floatStr) (hid : row.execId = some k) :
    ∃ fill, firstFill inp k = some fill ∧ BuiltFrom inp.commissionByExecId fill row := by
  unfold Inputs.firstRows at hrow
  unfold firstFill
  cases hresp : inp.response with
  | none =>
    rw [hresp] at hrow
    cases hrow
  | some fills =>
    rw [hresp] at hrow
    rcases List.mem_append.mp hrow with hrow | hrow
    · obtain ⟨-, fill, hfind, rfl⟩ :=
        (mem_responsePass upper floatStr hk [] fills row).mp ⟨hrow, hid⟩
      exact ⟨fill, by simp [hfind], ⟨rfl, rfl, rfl⟩⟩
    · obtain ⟨hnew, fill, hfind, rfl⟩ :=
        (mem_sessionPass upper floatStr hk inp.account _ inp.session row).mp ⟨hrow, hid⟩
      rw [seen_responsePass] at hnew
      have hnone : (fills.find? fun fill => decide (fill.id = some k)) = none := by
        rw [← Option.not_isSome_iff_eq_none]
        exact fun hsome => hnew (.inr hsome)
      exact ⟨fill, by simp [hnone, hfind], ⟨rfl, rfl, rfl⟩⟩

theorem exists_row_of_firstFill {inp : Inputs} {k : String} (hk : k ≠ "") {fill : Fill}
    (hfill : firstFill inp k = some fill) :
    ∃ row ∈ inp.firstRows upper floatStr, row.execId = some k := by
  obtain ⟨fills, hresp, hfill⟩ := Option.bind_eq_some_iff.mp hfill
  unfold Inputs.firstRows
  rw [hresp]
  cases hfind : fills.find? fun fill => decide (fill.id = some k) with
  | some f =>
    obtain ⟨hmem, hid⟩ := (mem_responsePass upper floatStr (m := inp.commissionByExecId) hk []
      fills (responseRow upper floatStr f inp.commissionByExecId)).mpr
        ⟨List.not_mem_nil, f, hfind, rfl⟩
    exact ⟨_, List.mem_append_left _ hmem, hid⟩
  | none =>
    rw [hfind] at hfill
    have hnew : k ∉ (responsePass upper floatStr inp.commissionByExecId [] fills).2 := by
      rw [seen_responsePass, hfind]
      simp
    obtain ⟨hmem, hid⟩ := (mem_sessionPass upper floatStr (m := inp.commissionByExecId) hk
      inp.account _ inp.session (sessionRow upper floatStr fill inp.commissionByExecId)).mpr
        ⟨hnew, fill, hfill, rfl⟩
    exact ⟨_, List.mem_append_right _ hmem, hid⟩

end Rows

section Merges

/-- As `ib_insync` builds them, report objects have a commission: the received one or the
default `0.0`. -/
def HaveCommissions (inp : Inputs) : Prop := ∀ report, Occurs inp report → report.commission ≠ none

variable {inp : Inputs} {k : String} {fill : Fill} {row : ExecutionRow} {m : CommissionMap}

theorem mergedCommission_own {own : CommissionReport} (hown : fill.commissionReport = some own)
    (hcomm : own.commission ≠ none) : mergedCommission fill m = own.record := by
  unfold mergedCommission
  rw [hown]
  cases hc : own.commission with
  | none => exact absurd hc hcomm
  | some c => simp [CommissionReport.record, hc]

theorem mergedCommission_event (hown : fill.commissionReport = none) (hid : fill.id = some k)
    {rec : CommissionRecord} (hrec : m k = some rec) : mergedCommission fill m = rec := by
  simp [mergedCommission, hown, hid, hrec]

theorem mergedCommission_none (hown : fill.commissionReport = none) (hid : fill.id = some k)
    (hrec : m k = none) : mergedCommission fill m = ⟨none, none, none, none, none⟩ := by
  simp [mergedCommission, hown, hid, hrec]

theorem secondPassRow_of_commission {byId : String → Option Fill} (h : row.commission ≠ none) :
    secondPassRow byId row = row := by
  unfold secondPassRow
  split
  · rfl
  · rw [if_pos (Option.isSome_iff_ne_none.mpr h)]

theorem secondPassRow_execId (byId : String → Option Fill) (row : ExecutionRow) :
    (secondPassRow byId row).execId = row.execId := by
  unfold secondPassRow
  repeat' split
  all_goals rfl

/-- And it takes over what the session's last fill has, for one without a commission. -/
theorem secondPassRow_of_none {byId : String → Option Fill} (h : row.commission = none)
    (hid : row.execId = some k) (hk : k ≠ "") {cr : CommissionReport}
    (hcr : (byId k).bind Fill.commissionReport = some cr) (hcomm : cr.commission ≠ none) :
    secondPassRow byId row = { row with
      commission := cr.commission
      realizedPnl := cr.realizedPNL
      currency := pyOr cr.currency (pyOr row.currency none)
      yield_ := cr.yield_
      yieldRedemptionDate := cr.yieldRedemptionDate } := by
  have hfilter : (some k).filter (fun eid => decide (eid ≠ "")) = some k := by simp [hk]
  unfold secondPassRow
  rw [hid, hfilter]
  dsimp only
  rw [h, if_neg (by simp), hcr]
  dsimp only
  rw [if_pos (.inl (Option.isSome_iff_ne_none.mpr hcomm))]

theorem secondPassRow_absent {byId : String → Option Fill}
    (hid : row.execId = some k) (hcr : (byId k).bind Fill.commissionReport = none) :
    secondPassRow byId row = row := by
  unfold secondPassRow
  split
  · rfl
  · next eid heid =>
    obtain ⟨heq, -⟩ := Option.filter_eq_some_iff.mp heid
    obtain rfl := Option.some.inj (hid.symm.trans heq)
    rw [hcr]
    split
    · rfl
    · rfl

theorem pyOr_pyOr_none (a : Option String) (s : String) :
    pyOr a (pyOr (orNone s) none) = pyOr a (orNone s) := by
  rw [orNone, pyOr_assoc]
  rfl

theorem firstFill_mem (h : firstFill inp k = some fill) :
    fill.id = some k ∧ (fill ∈ inp.response.getD [] ∨ fill ∈ inp.session) := by
  obtain ⟨fills, hresp, h⟩ := Option.bind_eq_some_iff.mp h
  rw [hresp]
  cases hfind : fills.find? fun fill => decide (fill.id = some k) with
  | some f =>
    rw [hfind] at h
    obtain rfl := Option.some.inj h
    have hp := List.find?_some hfind
    exact ⟨of_decide_eq_true hp, .inl (List.mem_of_find?_eq_some hfind)⟩
  | none =>
    rw [hfind] at h
    have hp := List.find?_some h
    rw [Bool.and_eq_true] at hp
    exact ⟨of_decide_eq_true hp.1, .inr (List.mem_of_find?_eq_some h)⟩

theorem carries_own_iff (hbuilt : BuiltFrom m fill row) {own : CommissionReport}
    (hown : fill.commissionReport = some own) (hcomm : own.commission ≠ none)
    (byId : String → Option Fill) (report : CommissionReport) :
    Carries (secondPassRow byId row) report ↔ Agrees fill own report := by
  have hmerged := mergedCommission_own (m := m) hown hcomm
  have hrow : row.commission ≠ none := by
    rw [hbuilt.commission, hmerged]
    exact hcomm
  rw [secondPassRow_of_commission hrow]
  simp only [Carries, Agrees, hbuilt.commission, hbuilt.realizedPnl, hbuilt.currency, hmerged,
    CommissionReport.record]

theorem carries_event (hbuilt : BuiltFrom m fill row) (hown : fill.commissionReport = none)
    (hid : fill.id = some k) {report : CommissionReport} (hrec : m k = some report.record)
    (hcomm : report.commission ≠ none) (byId : String → Option Fill) :
    Carries (secondPassRow byId row) report := by
  have hmerged := mergedCommission_event hown hid hrec
  have hrow : row.commission ≠ none := by
    rw [hbuilt.commission, hmerged]
    exact hcomm
  rw [secondPassRow_of_commission hrow]
  refine ⟨?_, ?_, fun cur hcur heq => ?_⟩
  · rw [hbuilt.commission, hmerged]
    rfl
  · rw [hbuilt.realizedPnl, hmerged]
    rfl
  · rw [hbuilt.currency, hmerged, CommissionReport.record, heq, pyOr_some hcur]

/-- A fill with neither: the second pass gives its row the report `cr` of the session's last
fill. -/
theorem carries_last_iff (hbuilt : BuiltFrom m fill row) (hown : fill.commissionReport = none)
    (hfid : fill.id = some k) (hrec : m k = none) (hid : row.execId = some k) (hk : k ≠ "")
    {byId : String → Option Fill} {cr : CommissionReport}
    (hlast : (byId k).bind Fill.commissionReport = some cr) (hcomm : cr.commission ≠ none)
    (report : CommissionReport) :
    Carries (secondPassRow byId row) report ↔ Agrees fill cr report := by
  have hmerged := mergedCommission_none hown hfid hrec
  have hrow : row.commission = none := by rw [hbuilt.commission, hmerged]
  rw [secondPassRow_of_none hrow hid hk hlast hcomm]
  simp only [Carries, Agrees, hbuilt.currency, hmerged, pyOr_none, pyOr_pyOr_none]

/-- What an id's row carries in the end is decided by what its first fill is supplied with. -/
theorem carries_iff (hib : HaveCommissions inp) (hk : k ≠ "")
    (hfill : firstFill inp k = some fill) (hid : row.execId = some k)
    (hbuilt : BuiltFrom inp.commissionByExecId fill row) :
    (∃ report, Received inp k report ∧ Carries (secondPassRow (fillsById inp.session) row) report) ↔
      Supplies inp k fill := by
  obtain ⟨hfid, hmem⟩ := firstFill_mem hfill
  unfold Supplies
  cases hown : fill.commissionReport with
  | some own =>
    have hcomm : own.commission ≠ none := by
      apply hib
      rcases hmem with hmem | hmem
      · exact .inl ⟨fill, hmem, hown⟩
      · exact .inr (.inr ⟨fill, hmem, hown⟩)
    simp only [carries_own_iff hbuilt hown hcomm]
  | none =>
    dsimp only
    cases hrec : inp.commissionByExecId k with
    | some rec =>
      obtain ⟨e, he, heid, report, hreport, rfl⟩ := commissionByExecId_some hrec
      refine iff_of_true ⟨report, .inr (.inl ⟨e, he, heid, hreport⟩), ?_⟩
        (.inl ⟨e, he, heid, by rw [hreport]; rfl⟩)
      exact carries_event hbuilt hown hfid hrec (hib report (.inr (.inl ⟨e, he, hreport⟩))) _
    | none =>
      have hevents : ¬ ∃ e ∈ inp.events,
          e.fill.bind Fill.id = some k ∧ e.report.isSome = true := by
        rintro ⟨e, he, heid, hreport⟩
        have hsome := commissionByExecId_isSome he heid hreport
        rw [Inputs.commissionByExecId] at hrec
        rw [hrec] at hsome
        cases hsome
      rw [or_iff_right hevents]
      cases hlast : (fillsById inp.session k).bind Fill.commissionReport with
      | none =>
        have hrow : row.commission = none := by
          rw [hbuilt.commission, mergedCommission_none hown hfid hrec]
        rw [secondPassRow_absent hid hlast]
        refine iff_of_false ?_ ?_
        · rintro ⟨report, hreceived, hcarries, -⟩
          exact hib report hreceived.occurs (hcarries.symm.trans hrow)
        · rintro ⟨last, own, hl, ho, -⟩
          rw [hl, Option.bind_some, ho] at hlast
          cases hlast
      | some cr =>
        obtain ⟨last, hl, hcr⟩ := Option.bind_eq_some_iff.mp hlast
        have hcomm : cr.commission ≠ none :=
          hib cr (.inr (.inr ⟨last, fillsById_mem hl, hcr⟩))
        simp only [carries_last_iff hbuilt hown hfid hrec hid hk hlast hcomm]
        constructor
        · rintro ⟨report, hreceived, hagrees⟩
          exact ⟨last, cr, hl, hcr, report, hreceived, hagrees⟩
        · rintro ⟨last', own, hl', ho, report, hreceived, hagrees⟩
          obtain rfl := Option.some.inj (hl.symm.trans hl')
          obtain rfl := Option.some.inj (hcr.symm.trans ho)
          exact ⟨report, hreceived, hagrees⟩

variable (upper : String → String) (floatStr : PyFloat → String)

theorem not_erased (hib : HaveCommissions inp) : NotErased upper floatStr inp := by
  intro i row row' hrow hrow' k report hid hreceived hcarries
  have hmap : row' = secondPassRow (fillsById inp.session) row := by
    rw [getExecutions, List.getElem?_map, hrow] at hrow'
    exact (Option.some.inj hrow').symm
  have hcomm : row.commission ≠ none := by
    rw [hcarries.1]
    exact hib report hreceived.occurs
  rw [hmap, secondPassRow_of_commission hcomm]
  exact hcarries

/-- A call returns complete commission data, and erases none, if and only if the first fill of
each id with a received report is supplied with it. -/
theorem commission_complete_iff (hib : HaveCommissions inp) :
    (Complete upper floatStr inp ∧ NotErased upper floatStr inp) ↔
      ∀ k fill, firstFill inp k = some fill → (∃ report, Received inp k report) →
        Supplies inp k fill := by
  rw [and_iff_left (not_erased upper floatStr hib)]
  constructor
  · intro hcomplete k fill hfill hreceived
    have hk : k ≠ "" := Fill.id_ne (firstFill_mem hfill).1
    obtain ⟨row, hrow, hid⟩ := exists_row_of_firstFill upper floatStr hk hfill
    obtain ⟨f, hf, hbuilt⟩ := builtFrom_firstFill upper floatStr hk hrow hid
    obtain rfl := Option.some.inj (hfill.symm.trans hf)
    apply (carries_iff hib hk hfill hid hbuilt).mp
    refine hcomplete _ (List.mem_map.mpr ⟨row, hrow, rfl⟩) k hk ?_ hreceived
    rw [secondPassRow_execId, hid]
  · intro hsupplied row' hrow' k hk hid hreceived
    obtain ⟨row, hrow, rfl⟩ := List.mem_map.mp hrow'
    rw [secondPassRow_execId] at hid
    obtain ⟨fill, hfill, hbuilt⟩ := builtFrom_firstFill upper floatStr hk hrow hid
    exact (carries_iff hib hk hfill hid hbuilt).mpr (hsupplied k fill hfill hreceived)

end Merges

section Instances

/-- A report as TWS sends it. -/
def receivedReport (eid : String) : CommissionReport where
  execId := some eid
  commission := some (.finite (5 / 4))
  realizedPNL := some (.finite 0)
  currency := some "USD"
  yield_ := some (.finite 0)
  yieldRedemptionDate := some 0

/-- The report object of a fill whose report has not arrived. -/
def defaultReport : CommissionReport where
  execId := some ""
  commission := some (.finite 0)
  realizedPNL := some (.finite 0)
  currency := some ""
  yield_ := some (.finite 0)
  yieldRedemptionDate := some 0

def fillOf (eid : String) (report : CommissionReport) : Fill where
  contract := none
  execution := some ⟨some eid, none, none, none, none, none, none, none, none, none, none, none,
    none, none, none, none, none, none⟩
  commissionReport := some report
  time := none

theorem id_fillOf {eid : String} (h : eid ≠ "") (report : CommissionReport) :
    (fillOf eid report).id = some eid := by
  simp [fillOf, Fill.id, h]

/-- One fill in the response and a second one in the session, both with their reports. -/
def bothReceived : Inputs where
  account := none
  response := some [fillOf "first" (receivedReport "first")]
  events := []
  session := [fillOf "first" defaultReport, fillOf "second" (receivedReport "second")]

theorem commission_complete_iff_received :
    (getExecutions asciiUpper (fun _ => "") bothReceived).map ExecutionRow.commission =
        [some (.finite (5 / 4)), some (.finite (5 / 4))] ∧
      Complete asciiUpper (fun _ => "") bothReceived ∧
        NotErased asciiUpper (fun _ => "") bothReceived := by
  have hib : HaveCommissions bothReceived := by
    rintro report (⟨fill, hfill, hreport⟩ | ⟨e, he, -⟩ | ⟨fill, hfill, hreport⟩)
    · obtain rfl := List.mem_singleton.mp hfill
      obtain rfl := Option.some.inj hreport
      simp [receivedReport]
    · cases he
    · rcases List.mem_pair.mp hfill with rfl | rfl
      · obtain rfl := Option.some.inj hreport
        simp [defaultReport]
      · obtain rfl := Option.some.inj hreport
        simp [receivedReport]
  refine ⟨by decide +kernel,
    (commission_complete_iff asciiUpper (fun _ => "") hib).mpr fun k fill hfill _ => ?_⟩
  have hagrees : ∀ (f : Fill) (report : CommissionReport) (h : report.currency = some "USD"),
      Agrees f report report := by
    refine fun f report h => ⟨rfl, rfl, fun cur hcur heq => ?_⟩
    rw [heq, pyOr_some hcur]
  by_cases hfirst : k = "first"
  · subst hfirst
    obtain rfl : fillOf "first" (receivedReport "first") = fill := by
      simpa [firstFill, bothReceived, id_fillOf] using hfill
    refine ⟨receivedReport "first", .inl ⟨_, List.mem_cons_self, ?_⟩, hagrees _ _ rfl⟩
    exact ⟨id_fillOf (by decide) _, rfl, by decide⟩
  · obtain ⟨hid, -⟩ := firstFill_mem hfill
    have hsecond : fill = fillOf "second" (receivedReport "second") := by
      rcases (firstFill_mem hfill).2 with hmem | hmem
      · obtain rfl := List.mem_singleton.mp hmem
        rw [id_fillOf (by decide)] at hid
        exact absurd (Option.some.inj hid).symm hfirst
      · rcases List.mem_pair.mp hmem with rfl | rfl
        · rw [id_fillOf (by decide)] at hid
          exact absurd (Option.some.inj hid).symm hfirst
        · rfl
    subst hsecond
    refine ⟨receivedReport "second", .inr (.inr ⟨_, ?_, hid, rfl, by decide⟩), hagrees _ _ rfl⟩
    simp [bothReceived]

/-- The report arrives as an event during the wait, and in the fill of the session. -/
def reportDuringWait : Inputs where
  account := none
  response := some [fillOf "fill" defaultReport]
  events := [⟨some (fillOf "fill" (receivedReport "fill")), some (receivedReport "fill")⟩]
  session := [fillOf "fill" (receivedReport "fill")]

theorem default_report_hides_commission : ∃ inp, HaveCommissions inp ∧
    ∀ (upper : String → String) (floatStr : PyFloat → String), ¬ Complete upper floatStr inp := by
  have hib : HaveCommissions reportDuringWait := by
    rintro report (⟨fill, hfill, hreport⟩ | ⟨e, he, hreport⟩ | ⟨fill, hfill, hreport⟩)
    · obtain rfl := List.mem_singleton.mp hfill
      obtain rfl := Option.some.inj hreport
      simp [defaultReport]
    · obtain rfl := List.mem_singleton.mp he
      obtain rfl := Option.some.inj hreport
      simp [receivedReport]
    · obtain rfl := List.mem_singleton.mp hfill
      obtain rfl := Option.some.inj hreport
      simp [receivedReport]
  refine ⟨reportDuringWait, hib, fun upper floatStr hcomplete => ?_⟩
  have hk : "fill" ≠ "" := by decide
  have hfill : firstFill reportDuringWait "fill" = some (fillOf "fill" defaultReport) := by
    simp [firstFill, reportDuringWait, id_fillOf]
  have hreceived : ∃ report, Received reportDuringWait "fill" report :=
    ⟨receivedReport "fill",
      .inr (.inl ⟨_, List.mem_cons_self, id_fillOf hk (receivedReport "fill"), rfl⟩)⟩
  obtain ⟨row, hrow, hid⟩ := exists_row_of_firstFill upper floatStr hk hfill
  obtain ⟨f, hf, hbuilt⟩ := builtFrom_firstFill upper floatStr hk hrow hid
  obtain rfl := Option.some.inj (hfill.symm.trans hf)
  have hcarries := hcomplete _ (List.mem_map.mpr ⟨row, hrow, rfl⟩) "fill" hk
    (by rw [secondPassRow_execId, hid]) hreceived
  obtain ⟨report, hreport, hcomm, -⟩ := (carries_iff hib hk hfill hid hbuilt).mp hcarries
  have hfive : report.commission = some (.finite (5 / 4)) := by
    rcases hreport with
      ⟨fill, hmem, -, hrep, harrived⟩ | ⟨e, he, -, hrep⟩ | ⟨fill, hmem, -, hrep, -⟩
    · obtain rfl := List.mem_singleton.mp hmem
      obtain rfl := Option.some.inj hrep
      exact absurd rfl harrived
    · obtain rfl := List.mem_singleton.mp he
      obtain rfl := Option.some.inj hrep
      rfl
    · obtain rfl := List.mem_singleton.mp hmem
      obtain rfl := Option.some.inj hrep
      rfl
  rw [hfive] at hcomm
  revert hcomm
  decide +kernel

end Instances

end BifrostSocket.CommissionMerges
