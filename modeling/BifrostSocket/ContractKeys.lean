import BifrostSocket.IngestorWatchlists

/-!
# Contract keys of the connector, the ingestor and the mock gateway

Each of the three builds the key of a contract by hand. `floatStr` stands for what an
f-string makes of a strike; splitting at the bars is `str.split` with one character.
-/

namespace BifrostSocket.ContractKeys
open OperatorProtocol IngestorWatchlists

/-- The attributes of an `ib_insync` contract that a row is built from; `none` stands for a
missing attribute and for `None`. -/
structure Contract where
  symbol : Option String
  secType : Option String
  lastTradeDateOrContractMonth : Option String
  strike : Option PyFloat
  right : Option String
  exchange : Option String
  currency : Option String
  localSymbol : Option String
  conId : Option ℤ

section Encoders

variable (floatStr : PyFloat → String)

/-- `strike or 0`, written into the key. -/
def strikeOrZero (strike : Option PyFloat) : String :=
  match strike with
  | none => "0"
  | some x => if x = .finite 0 then "0" else floatStr x

def contractKey (contract : Option Contract) : String :=
  match contract with
  | none => ""
  | some c =>
    let sym := orDefault c.symbol ""
    let st := orDefault c.secType ""
    if st = "OPT" then
      let exp := orDefault c.lastTradeDateOrContractMonth ""
      let right := orDefault c.right ""
      sym ++ "|" ++ st ++ "|" ++ exp ++ "|" ++ strikeOrZero floatStr c.strike ++ "|" ++ right
    else sym ++ "|" ++ st ++ "||||"

def mockContractKey (symbol : String) : String := symbol

def ibIngesterTickPrefix : String := "ib:ingester:tick:"

/-- The Redis key under which `write_quote` stores a tick. -/
def tickKey (contractKey : String) : String := ibIngesterTickPrefix ++ contractKey

end Encoders

section Format

variable (floatStr : PyFloat → String)

/-- The five fields of the documented form; only an option has the last three. -/
def keyFields (c : Contract) : List String :=
  if orDefault c.secType "" = "OPT" then
    [orDefault c.symbol "", orDefault c.secType "", orDefault c.lastTradeDateOrContractMonth "",
      strikeOrZero floatStr c.strike, orDefault c.right ""]
  else [orDefault c.symbol "", orDefault c.secType "", "", "", ""]

def splitBars (key : String) : List String := (key.split '|').toList.map (·.copy)

def BarFree (c : Contract) : Prop := ∀ field ∈ keyFields floatStr c, '|' ∉ field.toList

theorem splitBars_join {fields : List String} (hbar : ∀ field ∈ fields, '|' ∉ field.toList)
    (hne : fields ≠ []) : splitBars (String.intercalate "|" fields) = fields := by
  have h := String.toList_split_intercalate hbar
  rw [if_neg hne] at h
  exact h

theorem keyFields_ne_nil (c : Contract) : keyFields floatStr c ≠ [] := by
  unfold keyFields
  split <;> simp

theorem length_keyFields (c : Contract) : (keyFields floatStr c).length = 5 := by
  unfold keyFields
  split <;> rfl

theorem contractKey_opt {c : Contract} (hopt : orDefault c.secType "" = "OPT") :
    contractKey floatStr (some c) = String.intercalate "|" (keyFields floatStr c) := by
  apply String.toList_inj.mp
  simp [contractKey, keyFields, hopt]

/-- Every other key is the fields joined, with one more empty field behind them. -/
theorem contractKey_other {c : Contract} (hopt : orDefault c.secType "" ≠ "OPT") :
    contractKey floatStr (some c) =
      String.intercalate "|" (keyFields floatStr c ++ [""]) := by
  apply String.toList_inj.mp
  simp [contractKey, keyFields, hopt]

/-- The key has the documented form, and a stock has one key with all three producers. -/
def KeyAgrees (c : Contract) : Prop :=
  splitBars (contractKey floatStr (some c)) = keyFields floatStr c ∧
    (orDefault c.secType "" = "STK" →
      contractKey floatStr (some c) = stkKey (orDefault c.symbol "") ∧
      tickKey (mockContractKey (orDefault c.symbol "")) =
        tickKey (stkKey (orDefault c.symbol "")))

theorem length_splitBars_other {c : Contract} (hbar : BarFree floatStr c)
    (hopt : orDefault c.secType "" ≠ "OPT") :
    (splitBars (contractKey floatStr (some c))).length = 6 := by
  have hbar' : ∀ field ∈ keyFields floatStr c ++ [""], '|' ∉ field.toList := by
    intro field hfield
    rcases List.mem_append.mp hfield with h | h
    · exact hbar field h
    · rw [List.mem_singleton.mp h]
      simp
  rw [contractKey_other floatStr hopt, splitBars_join hbar' (by simp), List.length_append,
    length_keyFields]
  rfl

theorem splitBars_contractKey_iff {c : Contract} (hbar : BarFree floatStr c) :
    splitBars (contractKey floatStr (some c)) = keyFields floatStr c ↔
      orDefault c.secType "" = "OPT" := by
  constructor
  · intro hsplit
    by_contra hopt
    have hsix := length_splitBars_other floatStr hbar hopt
    rw [hsplit, length_keyFields] at hsix
    omega
  · intro hopt
    rw [contractKey_opt floatStr hopt]
    exact splitBars_join hbar (keyFields_ne_nil floatStr c)

/-- No two of the three producers give a stock the same key. -/
theorem stock_keys_differ {c : Contract} (hstk : orDefault c.secType "" = "STK") :
    let s := orDefault c.symbol ""
    contractKey floatStr (some c) ≠ stkKey s ∧ contractKey floatStr (some c) ≠ mockContractKey s ∧
      stkKey s ≠ mockContractKey s := by
  intro s
  have hkey : contractKey floatStr (some c) = s ++ "|STK||||" := by
    apply String.toList_inj.mp
    simp [contractKey, hstk, s]
  refine ⟨?_, ?_, ?_⟩
  · intro heq
    have hlen := congrArg String.length (hkey.symm.trans heq)
    simp only [stkKey, String.length_append, Nat.add_left_cancel_iff] at hlen
    exact absurd hlen (by decide)
  · intro heq
    have hlen := congrArg String.length (hkey.symm.trans heq)
    simp [mockContractKey] at hlen
  · intro heq
    have hlen := congrArg String.length heq
    simp [stkKey, mockContractKey] at hlen

theorem contract_keys_agree_iff :
    (∀ c, BarFree floatStr c → (KeyAgrees floatStr c ↔ orDefault c.secType "" = "OPT")) ∧
      ∀ c, orDefault c.secType "" = "STK" →
        contractKey floatStr (some c) ≠ stkKey (orDefault c.symbol "") ∧
        contractKey floatStr (some c) ≠ mockContractKey (orDefault c.symbol "") ∧
        stkKey (orDefault c.symbol "") ≠ mockContractKey (orDefault c.symbol "") := by
  refine ⟨?_, fun c hstk => stock_keys_differ floatStr hstk⟩
  intro c hbar
  constructor
  · intro hagree
    exact (splitBars_contractKey_iff floatStr hbar).mp hagree.1
  · intro hopt
    refine ⟨(splitBars_contractKey_iff floatStr hbar).mpr hopt, ?_⟩
    intro hstk
    rw [hopt] at hstk
    exact absurd hstk (by decide)

end Format

section Instances

/-- What `str` gives for the strikes of the instances. -/
def floatStrAt (x : PyFloat) : String := if x = .finite 150 then "150.0" else "0.0"

def stockContract (sym : String) : Contract :=
  ⟨some sym, some "STK", some "", some (.finite 0), some "", some "SMART", some "USD", some sym,
    some 265598⟩

def optionContract : Contract :=
  ⟨some "AAPL", some "OPT", some "20261218", some (.finite 150), some "C", some "SMART",
    some "USD", some "AAPL  261218C00150000", some 700000001⟩

theorem contract_keys_agree_iff_option_and_stock :
    KeyAgrees floatStrAt optionContract ∧
      contractKey floatStrAt (some (stockContract "AAPL")) ≠ stkKey "AAPL" := by
  have h := contract_keys_agree_iff floatStrAt
  refine ⟨(h.1 optionContract ?_).mpr (by decide), ?_⟩
  · unfold BarFree
    decide +kernel
  · exact (h.2 (stockContract "AAPL") (by decide)).1

/-- The key of an ordinary stock splits into six fields, and no join with the quotes finds
it. -/
theorem stock_key_has_six_fields :
    ¬ (∀ (floatStr : PyFloat → String) (c : Contract),
      BarFree floatStr c → KeyAgrees floatStr c) := by
  intro hall
  have hfree : BarFree floatStrAt (stockContract "AAPL") := by
    unfold BarFree
    decide +kernel
  have hkey := (hall floatStrAt (stockContract "AAPL") hfree).2 (by decide)
  exact absurd hkey.1 (by decide)

end Instances

end BifrostSocket.ContractKeys
