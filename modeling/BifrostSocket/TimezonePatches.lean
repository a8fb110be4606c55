import BifrostSocket.OperatorProtocol
import BifrostSocket.TransitionRuns
import Mathlib.Data.List.Infix

/-!
# The time zone patch of the timestamp parser

The zone at the end of an IB timestamp is replaced by its IANA name if it is a legacy alias.
`apply_ib_timezone_patch` wraps the parser of the client library once, where it is defined and
where the decoder has bound it.
-/

namespace BifrostSocket.TimezonePatches
open OperatorProtocol TransitionRuns

section Zones

def ibTzAliases : List (String × String) :=
  [("US/Eastern", "America/New_York"), ("US/Central", "America/Chicago"),
    ("US/Mountain", "America/Denver"), ("US/Pacific", "America/Los_Angeles"),
    ("EST", "America/New_York"), ("EDT", "America/New_York"),
    ("CST", "America/Chicago"), ("CDT", "America/Chicago"),
    ("MST", "America/Denver"), ("MDT", "America/Denver"),
    ("PST", "America/Los_Angeles"), ("PDT", "America/Los_Angeles")]

/-- `s.split(" ", 1)` of a text with a blank. -/
def splitOnce (s : List Char) : List Char × List Char :=
  (s.takeWhile fun c => decide (c ≠ ' '), (s.dropWhile fun c => decide (c ≠ ' ')).tail)

/-- Two parts and the rest, put together with single blanks. -/
def joinParts (s0 s1 s2 : List Char) : List Char := s0 ++ ' ' :: (s1 ++ ' ' :: s2)

def normalizeIbDatetimeString (s : String) : String :=
  if 2 ≤ s.toList.count ' ' ∧ ¬ [' ', ' '] <:+: s.toList then
    let s0 := (splitOnce s.toList).1
    let s1 := (splitOnce (splitOnce s.toList).2).1
    let s2 := (splitOnce (splitOnce s.toList).2).2
    match ibTzAliases.lookup (strip (String.ofList s2)) with
    | some mapped => String.ofList (joinParts s0 s1 mapped.toList)
    | none => s
  else s

example : normalizeIbDatetimeString "20260609 12:24:16 US/Eastern" =
    "20260609 12:24:16 America/New_York" := by decide +kernel

end Zones

section Splits

variable {s a b : List Char}

theorem splitOnce_append (h : ' ' ∉ a) : splitOnce (a ++ ' ' :: b) = (a, b) := by
  have hall : ∀ c ∈ a, decide (c ≠ ' ') = true := by
    intro c hc
    simpa using fun heq : c = ' ' => h (heq ▸ hc)
  rw [splitOnce, List.takeWhile_append_of_pos hall, List.dropWhile_append_of_pos hall]
  simp

theorem splitOnce_blank (s : List Char) : ' ' ∉ (splitOnce s).1 := by
  intro hmem
  have hkept := List.mem_takeWhile_imp hmem
  simp at hkept

theorem splitOnce_join (h : ' ' ∈ s) : (splitOnce s).1 ++ ' ' :: (splitOnce s).2 = s := by
  obtain ⟨a, b, rfl, hfirst⟩ := List.eq_append_cons_of_mem h
  rw [splitOnce_append hfirst]

theorem count_splitOnce (h : ' ' ∈ s) : (splitOnce s).2.count ' ' + 1 = s.count ' ' := by
  have hnone : (splitOnce s).1.count ' ' = 0 := List.count_eq_zero.mpr (splitOnce_blank s)
  conv_rhs => rw [← splitOnce_join h]
  simp [hnone]

theorem joinParts_splitOnce (h : 2 ≤ s.count ' ') :
    joinParts (splitOnce s).1 (splitOnce (splitOnce s).2).1 (splitOnce (splitOnce s).2).2 = s := by
  have hmem : ' ' ∈ s := List.count_pos_iff.mp (by omega)
  have hcount := count_splitOnce hmem
  have hrest : ' ' ∈ (splitOnce s).2 := List.count_pos_iff.mp (by omega)
  rw [joinParts, splitOnce_join hrest, splitOnce_join hmem]

end Splits

section Normal

/-- The IANA names are no aliases, and stay what they are when they are read back. -/
theorem lookup_mapped {zone mapped : String} (h : ibTzAliases.lookup zone = some mapped) :
    ibTzAliases.lookup (strip (String.ofList mapped.toList)) = none := by
  have hall : ∀ p ∈ ibTzAliases,
      ibTzAliases.lookup (strip (String.ofList p.2.toList)) = none := by
    decide +kernel
  obtain ⟨pre, post, heq, -⟩ := List.lookup_eq_some_iff.mp h
  exact hall (zone, mapped) (by simp [heq])

/-- A timestamp with an alias for its zone, and what becomes of it. -/
structure Aliased (s t : String) : Prop where
  parts : ∃ date time zone mapped, ' ' ∉ date ∧ ' ' ∉ time ∧
    s = String.ofList (joinParts date time zone) ∧
    ibTzAliases.lookup (strip (String.ofList zone)) = some mapped ∧
    t = String.ofList (joinParts date time mapped.toList)

theorem normalize_cases (s : String) :
    normalizeIbDatetimeString s = s ∨ Aliased s (normalizeIbDatetimeString s) := by
  unfold normalizeIbDatetimeString
  split
  · next hshape =>
    dsimp only
    split
    · next mapped hmapped =>
      right
      refine ⟨_, _, _, mapped, splitOnce_blank _, splitOnce_blank _, ?_, hmapped, rfl⟩
      rw [joinParts_splitOnce hshape.1, String.ofList_toList]
    · exact .inl rfl
  · exact .inl rfl

theorem normalize_of_lookup {date time zone : List Char} (hdate : ' ' ∉ date) (htime : ' ' ∉ time)
    (hzone : ibTzAliases.lookup (strip (String.ofList zone)) = none) :
    normalizeIbDatetimeString (String.ofList (joinParts date time zone)) =
      String.ofList (joinParts date time zone) := by
  unfold normalizeIbDatetimeString
  split
  · rw [String.toList_ofList, joinParts, splitOnce_append hdate, splitOnce_append htime]
    dsimp only
    rw [hzone]
  · rfl

theorem normalize_normalize (s : String) :
    normalizeIbDatetimeString (normalizeIbDatetimeString s) = normalizeIbDatetimeString s := by
  rcases normalize_cases s with h | ⟨date, time, zone, mapped, hdate, htime, -, hmapped, h⟩
  · rw [h, h]
  · rw [h]
    exact normalize_of_lookup hdate htime (lookup_mapped hmapped)

/-- A text of two parts without blanks and an alias, with no blanks in a row, is normalised. -/
theorem normalize_of_alias {date time zone : List Char} {mapped : String} (hdate : ' ' ∉ date)
    (htime : ' ' ∉ time) (hzone : ibTzAliases.lookup (strip (String.ofList zone)) = some mapped)
    (hblanks : ¬ [' ', ' '] <:+: joinParts date time zone) :
    normalizeIbDatetimeString (String.ofList (joinParts date time zone)) =
      String.ofList (joinParts date time mapped.toList) := by
  have hcount : 2 ≤ (joinParts date time zone).count ' ' := by
    simp [joinParts, List.count_append]
    omega
  unfold normalizeIbDatetimeString
  rw [String.toList_ofList, if_pos ⟨hcount, hblanks⟩, joinParts, splitOnce_append hdate,
    splitOnce_append htime]
  dsimp only
  rw [hzone]

/-- Normalising twice is normalising once, and it changes nothing but an alias in the place of
the zone, which it always replaces. -/
theorem timestamp_normal_form (s : String) :
    normalizeIbDatetimeString (normalizeIbDatetimeString s) = normalizeIbDatetimeString s ∧
    (normalizeIbDatetimeString s = s ∨ Aliased s (normalizeIbDatetimeString s)) ∧
    ∀ date time zone mapped, s = String.ofList (joinParts date time zone) → ' ' ∉ date →
      ' ' ∉ time → ibTzAliases.lookup (strip (String.ofList zone)) = some mapped →
      ¬ [' ', ' '] <:+: s.toList →
      normalizeIbDatetimeString s = String.ofList (joinParts date time mapped.toList) := by
  refine ⟨normalize_normalize s, normalize_cases s, ?_⟩
  rintro date time zone mapped rfl hdate htime hzone hblanks
  rw [String.toList_ofList] at hblanks
  exact normalize_of_alias hdate htime hzone hblanks

end Normal

section Patches

variable {α : Type*}

/-- The parser in the library's `util` module, and the one its decoder has bound if it was
imported. -/
structure IbInsync (α : Type*) where
  utilParse : String → α
  decoderParse : Option (String → α)
  patched : Bool

/-- Somebody imports the decoder, or calls `apply_ib_timezone_patch`, which imports it too where
that succeeds. -/
inductive Event where
  | importDecoder
  | applyPatch (imports : Bool)
  deriving DecidableEq

def applyIbTimezonePatch (m : IbInsync α) (imports : Bool) : IbInsync α :=
  if m.patched then m
  else
    let patched := fun s => m.utilParse (normalizeIbDatetimeString s)
    { utilParse := patched
      decoderParse := if m.decoderParse.isSome || imports then some patched else none
      patched := true }

def step (m : IbInsync α) : Event → IbInsync α
  | .importDecoder =>
    { m with decoderParse := some (m.decoderParse.getD m.utilParse) }
  | .applyPatch imports => applyIbTimezonePatch m imports

def Step (m : IbInsync α) (e : Event) (m' : IbInsync α) : Prop := step m e = m'

def freshLibrary (original : String → α) : IbInsync α := ⟨original, none, false⟩

/-- Both references to the parser are this one. -/
structure Parses (m : IbInsync α) (parse : String → α) : Prop where
  util : m.utilParse = parse
  decoder : ∀ p ∈ m.decoderParse, p = parse

variable {original : String → α} {m m' : IbInsync α} {es : List Event}

/-- The parser is wrapped once, at the first patch. -/
def Patched (original : String → α) (m : IbInsync α) : Prop :=
  Parses m (if m.patched then fun s => original (normalizeIbDatetimeString s) else original)

theorem patched_step {e : Event} (h : Patched original m) (hs : Step m e m') :
    Patched original m' := by
  obtain rfl := hs
  obtain ⟨hutil, hdecoder⟩ := h
  cases e with
  | importDecoder =>
    refine ⟨hutil, fun p hp => ?_⟩
    obtain rfl := Option.some.inj hp
    cases hd : m.decoderParse with
    | none => exact hutil
    | some q => exact hdecoder q hd
  | applyPatch imports =>
    cases hpatched : m.patched with
    | true =>
      have hsame : step m (.applyPatch imports) = m := if_pos hpatched
      rw [hsame]
      exact ⟨hutil, hdecoder⟩
    | false =>
      have hwrapped : step m (.applyPatch imports) = ⟨fun s => m.utilParse
          (normalizeIbDatetimeString s), if m.decoderParse.isSome || imports then
            some fun s => m.utilParse (normalizeIbDatetimeString s) else none, true⟩ :=
        if_neg (by simp [hpatched])
      have horiginal : m.utilParse = original := by simpa [hpatched] using hutil
      rw [hwrapped, horiginal]
      refine ⟨rfl, fun p hp => ?_⟩
      dsimp only at hp
      split at hp
      · exact (Option.some.inj hp).symm
      · cases hp

theorem patched_fresh : Patched original (freshLibrary original) :=
  ⟨rfl, by simp [freshLibrary]⟩

theorem applied_patched (hr : Run Step m es m') (h : m.patched = true ∨ ∃ i, .applyPatch i ∈ es) :
    m'.patched = true := by
  induction hr with
  | nil s => simpa using h
  | @cons s t u e es head _ ih =>
    obtain rfl := head
    apply ih
    rcases h with hpatched | ⟨i, hi⟩
    · left
      cases e with
      | importDecoder => exact hpatched
      | applyPatch imports => simp [step, applyIbTimezonePatch, hpatched]
    · rcases List.mem_cons.mp hi with rfl | hi
      · left
        simp only [step, applyIbTimezonePatch]
        split
        · assumption
        · rfl
      · exact .inr ⟨i, hi⟩

/-- However often, and in whatever order with the decoder's import, the patch is applied, both
parsers are the original one after one normalisation, and give it a normalised text as before. -/
theorem patched_once (hr : Run Step (freshLibrary original) es m) (h : ∃ i, .applyPatch i ∈ es) :
    Parses m (fun s => original (normalizeIbDatetimeString s)) ∧
      ∀ s, m.utilParse (normalizeIbDatetimeString s) = m.utilParse s := by
  have hparses := hr.preserves (fun _ _ _ => patched_step) (@patched_fresh _ original)
  rw [Patched, applied_patched hr (.inr h), if_pos rfl] at hparses
  refine ⟨hparses, fun s => ?_⟩
  rw [hparses.util]
  exact congrArg original (normalize_normalize s)

theorem patched_once_between :
    ∃ m, Run Step (freshLibrary String.length)
      [.applyPatch false, .importDecoder, .applyPatch true] m ∧
        m.utilParse "20260609 12:24:16 EST" = 34 := by
  have hrun : ∃ m, Run Step (freshLibrary String.length)
      [.applyPatch false, .importDecoder, .applyPatch true] m :=
    ⟨_, .cons rfl (.cons rfl (.single rfl))⟩
  obtain ⟨m, hrun⟩ := hrun
  refine ⟨m, hrun, ?_⟩
  rw [(patched_once hrun ⟨false, List.mem_cons_self⟩).1.util]
  decide +kernel

end Patches

end BifrostSocket.TimezonePatches
