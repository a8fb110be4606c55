import Mathlib.Data.List.Infix
import Mathlib.Tactic.Common

/-!
# Command lines with options and one optional positional

`ArgumentParser.parse_args` of Python 3.11 for a parser whose options take no value or one value
from a list of choices, and whose only positional has `nargs="?"`. The arguments are classified
first; then options and positionals are consumed by their index.
-/

namespace BifrostSocket.ArgumentParsers

section Strings

def startsWith (s p : String) : Bool := p.toList.isPrefixOf s.toList

/-- `s.partition("=")`: the text before the first `=`, and what follows it if there is one. -/
def partitionEq (s : String) : String × Option String :=
  (String.ofList (s.toList.takeWhile (· ≠ '=')),
    match s.toList.dropWhile (· ≠ '=') with
    | [] => none
    | _ :: rest => some (String.ofList rest))

/-- The zeros of the decimal digits that `\d` matches, each with nine digits after it. -/
def digitZeros : List ℕ :=
  [0x30, 0x660, 0x6f0, 0x7c0, 0x966, 0x9e6, 0xa66, 0xae6, 0xb66, 0xbe6, 0xc66, 0xce6, 0xd66, 0xde6,
    0xe50, 0xed0, 0xf20, 0x1040, 0x1090, 0x17e0, 0x1810, 0x1946, 0x19d0, 0x1a80, 0x1a90, 0x1b50,
    0x1bb0, 0x1c40, 0x1c50, 0xa620, 0xa8d0, 0xa900, 0xa9d0, 0xa9f0, 0xaa50, 0xabf0, 0xff10, 0x104a0,
    0x10d30, 0x11066, 0x110f0, 0x11136, 0x111d0, 0x112f0, 0x11450, 0x114d0, 0x11650, 0x116c0,
    0x11730, 0x118e0, 0x11950, 0x11c50, 0x11d50, 0x11da0, 0x16a60, 0x16ac0, 0x16b50, 0x1d7ce,
    0x1d7d8, 0x1d7e2, 0x1d7ec, 0x1d7f6, 0x1e140, 0x1e2f0, 0x1e950, 0x1fbf0]

def isDigit (c : Char) : Bool := digitZeros.any fun z => z ≤ c.toNat && c.toNat < z + 10

/-- `\d+` or `\d*\.\d+`. -/
def isNumberBody (cs : List Char) : Bool :=
  match cs.dropWhile isDigit with
  | [] => !cs.isEmpty
  | c :: rest => c == '.' && !rest.isEmpty && rest.all isDigit

/-- `_negative_number_matcher`; its `$` also matches before a last newline. -/
def isNegativeNumber (s : String) : Bool :=
  match s.toList with
  | '-' :: cs => isNumberBody cs || (cs.getLast? == some '\n' && isNumberBody cs.dropLast)
  | _ => false

end Strings

section Options

inductive OptionAction where
  | help
  | storeTrue
  | store (choices : List String)
  deriving DecidableEq

def OptionAction.choices : OptionAction → List String
  | .store choices => choices
  | .help | .storeTrue => []

/-- `_option_string_actions`. -/
abbrev OptionTable := List (String × OptionAction)

def OptionTable.action (table : OptionTable) (name : String) : Option OptionAction :=
  (table.find? fun o => o.1 == name).map Prod.snd

/-- What `_parse_optional` makes of an argument. -/
inductive Classified where
  | argument
  | option (name : String) (action : OptionAction) (explicit : Option String)
  | unknown
  | ambiguous
  deriving DecidableEq

/-- `_get_option_tuples`. -/
def optionTuples (table : OptionTable) (arg : String) :
    List (String × OptionAction × Option String) :=
  if startsWith arg "--" then
    let (before, explicit) := partitionEq arg
    (table.filter fun o => startsWith o.1 before).map fun o => (o.1, o.2, explicit)
  else
    table.filterMap fun o =>
      if o.1 = String.ofList (arg.toList.take 2) then
        some (o.1, o.2, some (String.ofList (arg.toList.drop 2)))
      else if startsWith o.1 arg then some (o.1, o.2, none)
      else none

/-- The end of `_parse_optional`, for an argument that is no option string. -/
def parseAbbreviation (table : OptionTable) (arg : String) : Classified :=
  match optionTuples table arg with
  | [(name, action, explicit)] => .option name action explicit
  | _ :: _ :: _ => .ambiguous
  | [] =>
    if isNegativeNumber arg && !(table.any fun o => isNegativeNumber o.1) then .argument
    else if ' ' ∈ arg.toList then .argument
    else .unknown

def parseOptional (table : OptionTable) (arg : String) : Classified :=
  match arg.toList with
  | '-' :: rest =>
    match table.action arg with
    | some action => .option arg action none
    | none =>
      if rest = [] then .argument
      else
        match (partitionEq arg).2, table.action (partitionEq arg).1 with
        | some explicit, some action => .option (partitionEq arg).1 action (some explicit)
        | _, _ => parseAbbreviation table arg
  | _ => .argument

end Options

section Parsing

/-- The letters of `arg_strings_pattern`. -/
inductive Mark where
  | argument
  | dashes
  | option (action : OptionAction) (explicit : Option String)
  | unknown
  deriving DecidableEq

/-- An ambiguous option ends the program. -/
def Classified.mark : Classified → Option Mark
  | .argument => some .argument
  | .option _ action explicit => some (.option action explicit)
  | .unknown => some .unknown
  | .ambiguous => none

/-- The arguments with their marks. -/
def marked (table : OptionTable) : List String → Option (List (String × Mark))
  | [] => some []
  | arg :: rest =>
    if arg = "--" then some ((arg, .dashes) :: rest.map fun a => (a, .argument))
    else (parseOptional table arg).mark.bind fun m => (marked table rest).map ((arg, m) :: ·)

def Mark.isOption : Mark → Bool
  | .option _ _ | .unknown => true
  | .argument | .dashes => false

/-- The last `consume_positionals`: at most one argument, which `--` may precede or follow, and
nothing else once the positional has been consumed. -/
def consumeRest (i : ℕ) : Option (ℕ × String) → List (String × Mark) → Option (Option (ℕ × String))
  | positional, [] => some positional
  | none, [(a, .argument)] => some (some (i, a))
  | none, [(a, .argument), (_, .dashes)] => some (some (i, a))
  | none, [(_, .dashes)] => some none
  | none, [(_, .dashes), (a, .argument)] => some (some (i + 1, a))
  | _, _ => none

/-- The positional with its index, if `parse_args` returns. Extra arguments end the program at
last, so that it makes no difference where they are found. -/
def parseLoop : ℕ → Option (ℕ × String) → List (String × Mark) → Option (Option (ℕ × String))
  | _, positional, [] => some positional
  | i, positional, (a, m) :: rest =>
    if m.isOption || rest.any fun p => p.2.isOption then
      match m with
      | .argument => if positional = none then parseLoop (i + 1) (some (i, a)) rest else none
      -- no option follows `--`
      | .dashes => none
      | .unknown => none
      | .option .help _ => none
      | .option .storeTrue none => parseLoop (i + 1) positional rest
      | .option .storeTrue (some _) => none
      | .option (.store choices) (some v) =>
        if v ∈ choices then parseLoop (i + 1) positional rest else none
      | .option (.store choices) none =>
        match rest with
        | (v, .argument) :: rest => if v ∈ choices then parseLoop (i + 2) positional rest else none
        | _ => none
    else consumeRest i positional ((a, m) :: rest)

def parseArgs (table : OptionTable) (args : List String) : Option (Option (ℕ × String)) :=
  (marked table args).bind (parseLoop 0 none)

end Parsing

section Lemmas

variable {table : OptionTable} {arg name : String} {action : OptionAction}
  {explicit : Option String} {i j : ℕ} {a : String} {positional r : Option (ℕ × String)}
  {l : List (String × Mark)}

theorem startsWith_iff {s p : String} : startsWith s p = true ↔ p.toList <+: s.toList := by
  rw [startsWith, List.isPrefixOf_iff_prefix]

theorem OptionTable.mem_of_action (h : table.action name = some action) :
    (name, action) ∈ table := by
  obtain ⟨o, ho, rfl⟩ := Option.map_eq_some_iff.mp h
  have hname := List.find?_some ho
  rw [beq_iff_eq] at hname
  rw [← hname]
  exact List.mem_of_find?_eq_some ho

theorem partitionEq_prefix : (partitionEq arg).1.toList <+: arg.toList := by
  simpa [partitionEq] using List.takeWhile_prefix (fun c => decide (c ≠ '='))

/-- The tuples name options of the table, and a single dash never finds a long option. -/
theorem mem_optionTuples (h : (name, action, explicit) ∈ optionTuples table arg)
    (hlength : 2 ≤ arg.toList.length) :
    (name, action) ∈ table ∧ (startsWith name "--" = true → startsWith arg "--" = true) := by
  unfold optionTuples at h
  split at h
  · next hdashes =>
    obtain ⟨o, ho, heq⟩ := List.mem_map.mp h
    cases heq
    exact ⟨(List.mem_filter.mp ho).1, fun _ => hdashes⟩
  · obtain ⟨o, ho, hsome⟩ := List.mem_filterMap.mp h
    split at hsome
    · next hshort =>
      cases hsome
      refine ⟨ho, fun hname => ?_⟩
      have htake : o.1.toList = arg.toList.take 2 := by rw [hshort, String.toList_ofList]
      rw [startsWith_iff, htake] at hname
      exact startsWith_iff.mpr (hname.trans (List.take_prefix 2 _))
    · split at hsome
      · next hprefix =>
        cases hsome
        refine ⟨ho, fun hname => ?_⟩
        rw [startsWith_iff] at hname hprefix ⊢
        exact List.prefix_of_prefix_length_le hname hprefix hlength
      · cases hsome

/-- An argument that is taken for an option stands for one of the table, and for a long one only
if it starts with two dashes. -/
theorem parseOptional_option (h : parseOptional table arg = .option name action explicit) :
    (name, action) ∈ table ∧ (startsWith name "--" = true → startsWith arg "--" = true) := by
  unfold parseOptional at h
  split at h
  · next rest harg =>
    split at h
    · next hexact =>
      cases h
      exact ⟨OptionTable.mem_of_action hexact, id⟩
    · split at h
      · cases h
      · next hrest =>
        have hlength : 2 ≤ arg.toList.length := by
          rw [harg, List.length_cons]
          have := List.length_pos_iff.mpr hrest
          omega
        split at h
        · next hbefore =>
          cases h
          refine ⟨OptionTable.mem_of_action hbefore, fun hname => ?_⟩
          rw [startsWith_iff] at hname ⊢
          exact hname.trans partitionEq_prefix
        · unfold parseAbbreviation at h
          split at h
          · next htuples =>
            cases h
            exact mem_optionTuples (by rw [htuples]; exact List.mem_singleton.mpr rfl) hlength
          · cases h
          · split at h
            · cases h
            · split at h
              · cases h
              · cases h
  · cases h

theorem Classified.mark_argument {c : Classified} (h : c.mark = some .argument) :
    c = .argument := by
  cases c with
  | argument => rfl
  | option | unknown | ambiguous => cases h

theorem Classified.mark_option {c : Classified} (h : c.mark = some (.option action explicit)) :
    ∃ name, c = .option name action explicit := by
  cases c with
  | option name action' explicit' =>
    cases h
    exact ⟨name, rfl⟩
  | argument | unknown | ambiguous => cases h

theorem marked_cons {rest : List String} (h : marked table (arg :: rest) = some l) :
    (arg = "--" ∧ l = (arg, .dashes) :: rest.map fun a => (a, .argument)) ∨
    arg ≠ "--" ∧ ∃ m l', l = (arg, m) :: l' ∧ (parseOptional table arg).mark = some m ∧
      marked table rest = some l' := by
  rw [marked] at h
  split at h
  · next hdashes => exact .inl ⟨hdashes, (Option.some.inj h).symm⟩
  · next hdashes =>
    obtain ⟨m, hm, hrest⟩ := Option.bind_eq_some_iff.mp h
    obtain ⟨l', hl', rfl⟩ := Option.map_eq_some_iff.mp hrest
    exact .inr ⟨hdashes, m, l', rfl, hm, hl'⟩

theorem consumeRest_some {c : ℕ × String} (h : consumeRest i (some c) l = some r) : r = some c := by
  cases l with
  | nil => exact (Option.some.inj h).symm
  | cons p l => simp [consumeRest] at h

/-- Once the positional has been consumed it stays as it is. -/
theorem parseLoop_some {c : ℕ × String} (h : parseLoop i (some c) l = some r) : r = some c := by
  generalize hpos : (some c : Option (ℕ × String)) = positional at h
  fun_induction parseLoop i positional l with
  | case1 => exact (Option.some.inj h).symm
  | case2 => cases hpos
  | case7 _ _ _ _ _ ih => exact ih hpos h
  | case9 _ _ _ _ _ _ _ _ ih => exact ih hpos h
  | case11 _ _ _ _ _ _ _ _ ih => exact ih hpos h
  | case14 =>
    subst hpos
    exact consumeRest_some h
  | _ => cases h

theorem consumeRest_cons {m : Mark} {rest : List (String × Mark)}
    (h : consumeRest i none ((a, m) :: rest) = some r) :
    (m = .argument ∧ r = some (i, a)) ∨
    m = .dashes ∧ (rest = [] ∧ r = none ∨ ∃ t, rest = [(t, .argument)] ∧ r = some (i + 1, t)) := by
  generalize hl : (a, m) :: rest = l at h
  generalize hp : (none : Option (ℕ × String)) = positional at h
  unfold consumeRest at h
  split at h
  · cases hl
  · cases hl
    exact .inl ⟨rfl, (Option.some.inj h).symm⟩
  · cases hl
    exact .inl ⟨rfl, (Option.some.inj h).symm⟩
  · cases hl
    exact .inr ⟨rfl, .inl ⟨rfl, (Option.some.inj h).symm⟩⟩
  · cases hl
    exact .inr ⟨rfl, .inr ⟨_, rfl, (Option.some.inj h).symm⟩⟩
  · cases h

/-- What the first argument can be when the parser returns. -/
theorem parseLoop_cons {m : Mark} {rest : List (String × Mark)}
    (h : parseLoop i none ((a, m) :: rest) = some r) :
    (m = .argument ∧ r = some (i, a)) ∨
    (m = .dashes ∧ (rest = [] ∧ r = none ∨ ∃ t, rest = [(t, .argument)] ∧ r = some (i + 1, t))) ∨
    (∃ action explicit, m = .option action explicit ∧ action ≠ .help ∧
      (action = .storeTrue ∨ explicit.isSome) ∧ parseLoop (i + 1) none rest = some r) ∨
    ∃ choices v rest', m = .option (.store choices) none ∧ rest = (v, .argument) :: rest' ∧
      v ∈ choices ∧ parseLoop (i + 2) none rest' = some r := by
  unfold parseLoop at h
  split at h
  · cases m with
    | argument =>
      rw [if_pos rfl] at h
      exact .inl ⟨rfl, parseLoop_some h⟩
    | dashes => cases h
    | unknown => cases h
    | option action explicit =>
      cases action with
      | help => cases h
      | storeTrue => cases explicit with
        | none => exact .inr (.inr (.inl ⟨_, _, rfl, by simp, .inl rfl, h⟩))
        | some v => cases h
      | store choices => cases explicit with
        | some v =>
          dsimp only at h
          split at h
          · exact .inr (.inr (.inl ⟨_, _, rfl, by simp, .inr rfl, h⟩))
          · cases h
        | none =>
          dsimp only at h
          split at h
          · split at h
            · next hv => exact .inr (.inr (.inr ⟨_, _, _, rfl, rfl, hv, h⟩))
            · cases h
          · cases h
  · rcases consumeRest_cons h with hargument | hdashes
    · exact .inl hargument
    · exact .inr (.inl hdashes)

theorem parseLoop_index (h : parseLoop i none l = some (some (j, a))) : i ≤ j := by
  induction hn : l.length using Nat.strong_induction_on generalizing l i with
  | _ n ih =>
    cases l with
    | nil => simp [parseLoop] at h
    | cons p rest =>
      obtain ⟨b, m⟩ := p
      rcases parseLoop_cons h with ⟨-, hr⟩ | ⟨-, ⟨-, hr⟩ | ⟨t, -, hr⟩⟩ |
        ⟨_, _, -, -, -, hrest⟩ | ⟨_, v, rest', -, rfl, -, hrest⟩
      · cases hr
        exact le_rfl
      · cases hr
      · cases hr
        exact Nat.le_succ i
      · have hle := ih rest.length (by rw [← hn]; exact Nat.lt_succ_self _) hrest rfl
        omega
      · have hless : rest'.length < n := by
          rw [← hn, List.length_cons, List.length_cons]
          omega
        have hle := ih rest'.length hless hrest rfl
        omega

end Lemmas

end BifrostSocket.ArgumentParsers
