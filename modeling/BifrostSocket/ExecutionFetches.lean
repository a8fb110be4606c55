import BifrostSocket.AccountSnapshots
import BifrostSocket.CommissionMerges

/-!
# Executions of all managed accounts

`fetch_executions` makes one request for each managed account, or one for all of them where
none is known, and puts the rows of all requests in one list. Within a request the ids are
told apart; between requests it is the account filter that keeps them apart.
-/

namespace BifrostSocket.ExecutionFetches
open OperatorProtocol SeenLists IngestorWatchlists ContractKeys ExecutionRows CommissionMerges
open AccountSnapshots

section Fetching

/-- What TWS answers during one call: the response and the commission events to the request
for an account code, and `ib.fills()`. -/
structure ExecutionServer where
  response : String → Option (List Fill)
  events : String → List CommissionEvent
  session : List Fill

def ExecutionServer.inputs (srv : ExecutionServer) (account : Option String) : Inputs where
  account
  response := srv.response (orDefault account "")
  events := srv.events (orDefault account "")
  session := srv.session

/-- The accounts that are queried; the empty one stands for all. -/
def queriedAccounts (c : AccountConnector) : List String :=
  let accountIds := c.getManagedAccounts
  if accountIds.isEmpty then [""] else accountIds

variable (upper : String → String) (floatStr : PyFloat → String)

def fetchExecutions (c : AccountConnector) (srv : ExecutionServer) : List ExecutionRow :=
  (queriedAccounts c).flatMap fun acc =>
    getExecutions upper floatStr (srv.inputs (if acc = "" then none else some acc))

end Fetching

section Spec

/-- The execution ids of rows, without missing and empty ones. -/
def rowIds (rows : List ExecutionRow) : List String :=
  rows.filterMap fun row => row.execId.filter fun eid => decide (eid ≠ "")

def Fill.account (fill : Fill) : Option String := fill.execution.bind Execution.acctNumber

/-- Every request is answered, with fills of its account, and each execution id belongs to
one account. -/
structure Answers (c : AccountConnector) (srv : ExecutionServer) : Prop where
  answered : ∀ acc ∈ queriedAccounts c, (srv.response acc).isSome = true
  own : ∀ acc ≠ "", ∀ fills, srv.response acc = some fills → ∀ fill ∈ fills,
    Fill.account fill = some acc
  oneAccount : ∀ fill fill', (fill ∈ srv.session ∨ ∃ acc ∈ queriedAccounts c,
      fill ∈ (srv.response acc).getD []) →
    (fill' ∈ srv.session ∨ ∃ acc ∈ queriedAccounts c, fill' ∈ (srv.response acc).getD []) →
    ∀ k, fill.id = some k → fill'.id = some k → Fill.account fill = Fill.account fill'

/-- The id occurs in a response, or in the session with an account that was queried. -/
def Occurs (c : AccountConnector) (srv : ExecutionServer) (k : String) : Prop :=
  (∃ acc ∈ queriedAccounts c, ∃ fill ∈ (srv.response acc).getD [], fill.id = some k) ∨
    ∃ fill ∈ srv.session, fill.id = some k ∧
      (c.getManagedAccounts = [] ∨ ∃ acc ∈ c.getManagedAccounts, Fill.account fill = some acc)

end Spec

section Requests

variable (upper : String → String) (floatStr : PyFloat → String) {m : CommissionMap}

theorem id_eq_filter (fill : Fill) :
    (fill.execution.bind Execution.execId).filter (fun eid => decide (eid ≠ "")) = fill.id := by
  unfold Fill.id
  cases fill.execution with
  | none => rfl
  | some ex => rfl

theorem firstSeen_id_cons (seen : List String) (k : String) (l : List String) :
    firstSeen id seen (k :: l) =
      if k ∈ seen then firstSeen id seen l else k :: firstSeen id (k :: seen) l :=
  rfl

/-- The loop over a response builds rows of the ids that it meets for the first time. -/
theorem rowIds_responsePass (seen : List String) (fills : List Fill) :
    rowIds (responsePass upper floatStr m seen fills).1 =
      firstSeen id seen (fills.filterMap Fill.id) := by
  induction fills generalizing seen with
  | nil => rfl
  | cons fill fills ih =>
    unfold responsePass
    split
    · next hid =>
      rw [List.filterMap_cons_none hid, ← ih seen]
      exact List.filterMap_cons_none ((id_eq_filter fill).trans hid)
    · next eid hid =>
      rw [List.filterMap_cons_some hid, firstSeen_id_cons]
      split
      · next hseen => exact ih seen
      · next hseen =>
        rw [← ih (eid :: seen)]
        exact List.filterMap_cons_some ((id_eq_filter fill).trans hid)

theorem rowIds_sessionPass (account : Option String) (seen : List String) (fills : List Fill) :
    rowIds (sessionPass upper floatStr m account seen fills) =
      firstSeen id seen ((fills.filter (ofAccount account)).filterMap Fill.id) := by
  induction fills generalizing seen with
  | nil => rfl
  | cons fill fills ih =>
    have hskip : fill.id = none ∨ ofAccount account fill = false →
        ((fill :: fills).filter (ofAccount account)).filterMap Fill.id =
          (fills.filter (ofAccount account)).filterMap Fill.id := by
      rintro (hid | hacc)
      · cases hacc : ofAccount account fill with
        | true => rw [List.filter_cons_of_pos hacc, List.filterMap_cons_none hid]
        | false => rw [List.filter_cons_of_neg (by simp [hacc])]
      · rw [List.filter_cons_of_neg (by simp [hacc])]
    unfold sessionPass
    split
    · next hid => rw [ih seen, hskip (.inl hid)]
    · next eid hid =>
      cases hacc : ofAccount account fill with
      | false =>
        rw [hskip (.inr hacc), if_pos (by simp : (!false) = true), ite_self]
        exact ih seen
      | true =>
        rw [List.filter_cons_of_pos hacc, List.filterMap_cons_some hid, firstSeen_id_cons]
        split
        · next hseen => exact ih seen
        · next hseen =>
          rw [if_neg (by simp), ← ih (eid :: seen)]
          exact List.filterMap_cons_some ((id_eq_filter fill).trans hid)

theorem rowIds_getExecutions (inp : Inputs) :
    rowIds (getExecutions upper floatStr inp) = rowIds (inp.firstRows upper floatStr) := by
  unfold getExecutions rowIds
  rw [List.filterMap_map]
  apply List.filterMap_congr
  intro row _
  rw [Function.comp_apply, secondPassRow_execId]

/-- One request returns each id once, and those of its response and of the session's fills
for the account. -/
theorem rowIds_request {inp : Inputs} (hresp : inp.response.isSome = true) :
    (rowIds (getExecutions upper floatStr inp)).Nodup ∧
      ∀ k, k ∈ rowIds (getExecutions upper floatStr inp) ↔
        (∃ fill ∈ inp.response.getD [], fill.id = some k) ∨
          ∃ fill ∈ inp.session, fill.id = some k ∧ ofAccount inp.account fill = true := by
  obtain ⟨fills, hfills⟩ := Option.isSome_iff_exists.mp hresp
  have hrows : rowIds (getExecutions upper floatStr inp) =
      firstSeen id [] (fills.filterMap Fill.id) ++
        firstSeen id (responsePass upper floatStr inp.commissionByExecId [] fills).2
          ((inp.session.filter (ofAccount inp.account)).filterMap Fill.id) := by
    rw [rowIds_getExecutions, Inputs.firstRows, hfills]
    dsimp only
    rw [rowIds, List.filterMap_append]
    exact congrArg₂ _ (rowIds_responsePass ..) (rowIds_sessionPass ..)
  have hseen : ∀ k, k ∈ (responsePass upper floatStr inp.commissionByExecId [] fills).2 ↔
      k ∈ fills.filterMap Fill.id := by
    intro k
    rw [seen_responsePass, List.find?_isSome, List.mem_filterMap]
    simp
  have hnodup : ∀ seen l, (firstSeen (id : String → String) seen l).Nodup := by
    intro seen l
    simpa using nodup_map_firstSeen (id : String → String) seen l
  have hmem : ∀ seen l k, k ∈ firstSeen (id : String → String) seen l ↔ k ∉ seen ∧ k ∈ l := by
    intro seen l k
    have h := @mem_map_firstSeen _ _ _ (id : String → String) seen l k
    rwa [List.map_id, List.map_id] at h
  rw [hrows, hfills]
  constructor
  · rw [List.nodup_append]
    refine ⟨hnodup _ _, hnodup _ _, fun k hk k' hk' heq => ?_⟩
    have hold := ((hmem _ _ k).mp hk).2
    exact ((hmem _ _ k').mp hk').1 ((hseen k').mpr (heq ▸ hold))
  · intro k
    rw [List.mem_append, hmem, hmem, hseen, List.mem_filterMap, List.mem_filterMap]
    simp only [List.not_mem_nil, not_false_eq_true, true_and, Option.getD_some, List.mem_filter]
    constructor
    · rintro (h | ⟨-, fill, ⟨hfill, hacc⟩, hid⟩)
      · exact .inl h
      · exact .inr ⟨fill, hfill, hid, hacc⟩
    · rintro (h | ⟨fill, hfill, hid, hacc⟩)
      · exact .inl h
      · by_cases hold : ∃ fill ∈ fills, fill.id = some k
        · exact .inl hold
        · exact .inr ⟨hold, fill, ⟨hfill, hacc⟩, hid⟩

end Requests

section Accounts

variable {c : AccountConnector} {srv : ExecutionServer}

theorem mem_managedAccounts {acc : String} (h : acc ∈ c.getManagedAccounts) :
    acc ≠ "" ∧ strip acc = acc := by
  unfold AccountConnector.getManagedAccounts at h
  split at h
  · cases h
  · split at h
    · cases h
    · obtain ⟨hmem, hp⟩ := List.mem_filter.mp h
      obtain ⟨s, -, rfl⟩ := List.mem_map.mp hmem
      rw [Bool.and_eq_true] at hp
      exact ⟨of_decide_eq_true hp.1, strip_strip s⟩

/-- For a managed account, the session's fills are those with this account. -/
theorem ofAccount_managed {acc : String} (hne : acc ≠ "") (hstrip : strip acc = acc)
    (fill : Fill) : ofAccount (some acc) fill = true ↔ Fill.account fill = some acc := by
  have hfilter : strip (orDefault (some acc) "") = acc := by
    rw [orDefault, if_neg hne, hstrip]
  unfold ofAccount Fill.account
  rw [hfilter, decide_eq_true_eq, or_iff_right hne]
  cases hacct : fill.execution.bind Execution.acctNumber with
  | none => simp [orDefault, Ne.symm hne]
  | some s =>
    by_cases hs : s = ""
    · subst hs
      simp [orDefault]
    · simp [orDefault, hs]

theorem ofAccount_all (fill : Fill) : ofAccount none fill = true := by
  simp [ofAccount, orDefault, strip, stripBy]

theorem queried_cases {acc : String} (h : acc ∈ queriedAccounts c) :
    (acc = "" ∧ c.getManagedAccounts = []) ∨
      (acc ≠ "" ∧ strip acc = acc ∧ acc ∈ c.getManagedAccounts) := by
  unfold queriedAccounts at h
  dsimp only at h
  split at h
  · next hnil => exact .inl ⟨List.mem_singleton.mp h, List.isEmpty_iff.mp hnil⟩
  · obtain ⟨hne, hstrip⟩ := mem_managedAccounts h
    exact .inr ⟨hne, hstrip, h⟩

variable (upper : String → String) (floatStr : PyFloat → String)

theorem rowIds_account (hans : Answers c srv) {acc : String} (hacc : acc ∈ queriedAccounts c) :
    (rowIds (getExecutions upper floatStr
        (srv.inputs (if acc = "" then none else some acc)))).Nodup ∧
      ∀ k, k ∈ rowIds (getExecutions upper floatStr
          (srv.inputs (if acc = "" then none else some acc))) ↔
        (∃ fill ∈ (srv.response acc).getD [], fill.id = some k) ∨
          ∃ fill ∈ srv.session, fill.id = some k ∧
            (c.getManagedAccounts = [] ∨ Fill.account fill = some acc) := by
  have hcode : orDefault (if acc = "" then none else some acc) "" = acc := by
    by_cases h : acc = ""
    · simp [h, orDefault]
    · simp [h, orDefault]
  have hresp : (srv.inputs (if acc = "" then none else some acc)).response.isSome = true := by
    rw [ExecutionServer.inputs, hcode]
    exact hans.answered acc hacc
  obtain ⟨hnodup, hmem⟩ := rowIds_request upper floatStr hresp
  refine ⟨hnodup, fun k => (hmem k).trans ?_⟩
  simp only [ExecutionServer.inputs, hcode]
  refine or_congr_right (exists_congr fun fill =>
    and_congr_right fun _ => and_congr_right fun _ => ?_)
  rcases queried_cases hacc with ⟨rfl, hnil⟩ | ⟨hne, hstrip, hmanaged⟩
  · simp [ofAccount_all, hnil]
  · rw [if_neg hne, ofAccount_managed hne hstrip,
      or_iff_right (List.ne_nil_of_mem hmanaged)]

theorem account_of_rowIds (hans : Answers c srv) {acc acc' k : String}
    (hacc : acc ∈ queriedAccounts c) (hacc' : acc' ∈ queriedAccounts c)
    (hk : k ∈ rowIds (getExecutions upper floatStr
      (srv.inputs (if acc = "" then none else some acc))))
    (hk' : k ∈ rowIds (getExecutions upper floatStr
      (srv.inputs (if acc' = "" then none else some acc')))) : acc = acc' := by
  have hfill : ∀ {a : String}, a ∈ queriedAccounts c → a ≠ "" →
      k ∈ rowIds (getExecutions upper floatStr (srv.inputs (if a = "" then none else some a))) →
      ∃ fill, (fill ∈ srv.session ∨ ∃ acc ∈ queriedAccounts c,
        fill ∈ (srv.response acc).getD []) ∧ fill.id = some k ∧ Fill.account fill = some a := by
    intro a ha hne hka
    rcases ((rowIds_account upper floatStr hans ha).2 k).mp hka with
      ⟨fill, hfill, hid⟩ | ⟨fill, hfill, hid, hall⟩
    · obtain ⟨fills, hfills⟩ := Option.isSome_iff_exists.mp (hans.answered a ha)
      have hmem : fill ∈ fills := by rwa [hfills, Option.getD_some] at hfill
      exact ⟨fill, .inr ⟨a, ha, hfill⟩, hid, hans.own a hne fills hfills fill hmem⟩
    · rcases queried_cases ha with ⟨rfl, -⟩ | ⟨-, -, hmanaged⟩
      · exact absurd rfl hne
      · exact ⟨fill, .inl hfill, hid, hall.resolve_left (List.ne_nil_of_mem hmanaged)⟩
  rcases queried_cases hacc with ⟨rfl, hnil⟩ | ⟨hne, -, hmanaged⟩
  · rcases queried_cases hacc' with ⟨rfl, -⟩ | ⟨-, -, hmanaged⟩
    · rfl
    · exact absurd hnil (List.ne_nil_of_mem hmanaged)
  · rcases queried_cases hacc' with ⟨-, hnil⟩ | ⟨hne', -, -⟩
    · exact absurd hnil (List.ne_nil_of_mem hmanaged)
    · obtain ⟨fill, hoccurs, hid, hown⟩ := hfill hacc hne hk
      obtain ⟨fill', hoccurs', hid', hown'⟩ := hfill hacc' hne' hk'
      have hsame := hans.oneAccount fill fill' hoccurs hoccurs' k hid hid'
      exact Option.some.inj (hown.symm.trans (hsame.trans hown'))

theorem nodup_queriedAccounts (h : c.getManagedAccounts.Nodup) : (queriedAccounts c).Nodup := by
  unfold queriedAccounts
  dsimp only
  split
  · exact List.nodup_singleton ""
  · exact h

/-- Every id that occurs is returned exactly once, and no other is. -/
theorem executions_exactly_once (hans : Answers c srv) (hids : c.getManagedAccounts.Nodup) :
    (rowIds (fetchExecutions upper floatStr c srv)).Nodup ∧
      ∀ k, k ∈ rowIds (fetchExecutions upper floatStr c srv) ↔ Occurs c srv k := by
  have hrows : rowIds (fetchExecutions upper floatStr c srv) =
      (queriedAccounts c).flatMap fun acc =>
        rowIds (getExecutions upper floatStr (srv.inputs (if acc = "" then none else some acc))) :=
    List.filterMap_flatMap
  rw [hrows]
  constructor
  · rw [List.nodup_flatMap]
    refine ⟨fun acc hacc => (rowIds_account upper floatStr hans hacc).1, ?_⟩
    apply (nodup_queriedAccounts hids).imp_of_mem
    intro acc acc' hacc hacc' hne k hk hk'
    exact hne (account_of_rowIds upper floatStr hans hacc hacc' hk hk')
  · intro k
    rw [List.mem_flatMap]
    constructor
    · rintro ⟨acc, hacc, hk⟩
      rcases ((rowIds_account upper floatStr hans hacc).2 k).mp hk with
        hresp | ⟨fill, hfill, hid, hall⟩
      · exact .inl ⟨acc, hacc, hresp⟩
      · refine .inr ⟨fill, hfill, hid, ?_⟩
        rcases queried_cases hacc with ⟨-, hnil⟩ | ⟨-, -, hmanaged⟩
        · exact .inl hnil
        · exact hall.imp_right fun hown => ⟨acc, hmanaged, hown⟩
    · rintro (⟨acc, hacc, hresp⟩ | ⟨fill, hfill, hid, hall⟩)
      · exact ⟨acc, hacc, ((rowIds_account upper floatStr hans hacc).2 k).mpr (.inl hresp)⟩
      · obtain ⟨acc, hacc, hown⟩ : ∃ acc ∈ queriedAccounts c,
            c.getManagedAccounts = [] ∨ Fill.account fill = some acc := by
          unfold queriedAccounts
          rcases hall with hnil | ⟨acc, hmanaged, hown⟩
          · exact ⟨"", by simp [hnil], .inl hnil⟩
          · refine ⟨acc, ?_, .inr hown⟩
            rw [if_neg (by simpa using List.ne_nil_of_mem hmanaged)]
            exact hmanaged
        exact ⟨acc, hacc, ((rowIds_account upper floatStr hans hacc).2 k).mpr
          (.inr ⟨fill, hfill, hid, hown⟩)⟩

end Accounts

section Instances

def fillFor (account eid : String) : Fill where
  contract := none
  execution := some ⟨some eid, none, some account, none, none, none, none, none, none, none,
    none, none, none, none, none, none, none, none⟩
  commissionReport := none
  time := none

def twoAccounts : AccountConnector where
  isConnected := true
  managedAccounts := some (.names ["U1", "U2"])
  accountSummary _ := none
  positions := none
  openTrades := none

/-- The session holds all fills, the responses one of each account, the first one twice. -/
def twoAccountServer : ExecutionServer where
  response acc :=
    if acc = "U1" then some [fillFor "U1" "a", fillFor "U1" "a"]
    else if acc = "U2" then some [fillFor "U2" "b"]
    else some []
  events _ := []
  session := [fillFor "U1" "a", fillFor "U2" "b", fillFor "U2" "c", fillFor "U9" "d"]

theorem answers_twoAccounts : Answers twoAccounts twoAccountServer := by
  have hqueried : queriedAccounts twoAccounts = ["U1", "U2"] := by decide +kernel
  have hsession : ∀ acc, ∀ fill ∈ (twoAccountServer.response acc).getD [],
      fill ∈ twoAccountServer.session := by
    intro acc fill hfill
    simp only [twoAccountServer] at hfill ⊢
    split at hfill
    · simp_all
    · split at hfill
      · simp_all
      · cases hfill
  have haccount : ∀ fill ∈ twoAccountServer.session, ∀ k, fill.id = some k →
      Fill.account fill =
        if k = "a" then some "U1" else if k = "d" then some "U9" else some "U2" := by
    intro fill hfill k hid
    simp only [twoAccountServer, List.mem_cons, List.not_mem_nil, or_false] at hfill
    rcases hfill with rfl | rfl | rfl | rfl
    all_goals
      obtain rfl := Option.some.inj hid
      decide
  constructor
  · rw [hqueried]
    decide
  · intro acc _ fills hfills fill hfill
    simp only [twoAccountServer] at hfills
    split at hfills
    · next h =>
      subst h
      obtain rfl := Option.some.inj hfills
      obtain rfl : fill = fillFor "U1" "a" := by simpa using hfill
      rfl
    · split at hfills
      · next h =>
        subst h
        obtain rfl := Option.some.inj hfills
        obtain rfl := List.mem_singleton.mp hfill
        rfl
      · obtain rfl := Option.some.inj hfills
        cases hfill
  · intro fill fill' h h' k hid hid'
    have hmem : ∀ f, (f ∈ twoAccountServer.session ∨ ∃ acc ∈ queriedAccounts twoAccounts,
        f ∈ (twoAccountServer.response acc).getD []) → f ∈ twoAccountServer.session := by
      rintro f (hf | ⟨acc, -, hf⟩)
      · exact hf
      · exact hsession acc f hf
    rw [haccount fill (hmem fill h) k hid, haccount fill' (hmem fill' h') k hid']

theorem executions_exactly_once_two_accounts :
    rowIds (fetchExecutions asciiUpper (fun _ => "") twoAccounts twoAccountServer) =
        ["a", "b", "c"] ∧
      ∀ k, k ∈ rowIds (fetchExecutions asciiUpper (fun _ => "") twoAccounts twoAccountServer) ↔
        Occurs twoAccounts twoAccountServer k :=
  ⟨by decide +kernel,
    (executions_exactly_once asciiUpper (fun _ => "") answers_twoAccounts (by decide +kernel)).2⟩

end Instances

end BifrostSocket.ExecutionFetches
