import Mathlib.Data.List.Basic
import Mathlib.Data.List.Nodup
import Mathlib.Tactic.Tauto

/-!
# Loops over a list with a set of keys already seen

Such a loop skips an entry whose key it has met, and remembers the key of every other one.
The entries it goes on with cover exactly the keys of the list.
-/

namespace BifrostSocket.SeenLists

variable {α β : Type*} [DecidableEq β]

/-- The entries that are not skipped, in order. -/
def firstSeen (key : α → β) : List β → List α → List α
  | _, [] => []
  | seen, a :: as =>
    if key a ∈ seen then firstSeen key seen as else a :: firstSeen key (key a :: seen) as

variable (key : α → β)

theorem mem_seen_or_firstSeen (seen : List β) (l : List α) (b : β) :
    b ∈ seen ∨ b ∈ (firstSeen key seen l).map key ↔ b ∈ seen ∨ b ∈ l.map key := by
  induction l generalizing seen with
  | nil => rfl
  | cons a as ih =>
    simp only [firstSeen, List.map_cons, List.mem_cons]
    split
    · next ha =>
      rw [ih seen]
      constructor
      · rintro (h | h)
        · exact .inl h
        · exact .inr (.inr h)
      · rintro (h | rfl | h)
        · exact .inl h
        · exact .inl ha
        · exact .inr h
    · have h := ih (key a :: seen)
      simp only [List.mem_cons] at h
      simp only [List.map_cons, List.mem_cons]
      tauto

theorem firstSeen_sublist (seen : List β) (l : List α) : (firstSeen key seen l).Sublist l := by
  induction l generalizing seen with
  | nil => exact List.Sublist.refl []
  | cons a as ih =>
    simp only [firstSeen]
    split
    · exact (ih seen).cons a
    · exact (ih (key a :: seen)).cons_cons a

/-- An entry is kept where its key was neither seen at the start nor met before. -/
theorem mem_firstSeen (seen : List β) (l : List α) (a : α) :
    a ∈ firstSeen key seen l ↔
      ∃ pre post, l = pre ++ a :: post ∧ key a ∉ seen ∧ key a ∉ pre.map key := by
  induction l generalizing seen with
  | nil => simp [firstSeen]
  | cons b as ih =>
    constructor
    · intro h
      simp only [firstSeen] at h
      split at h
      · next hb =>
        obtain ⟨pre, post, rfl, hseen, hpre⟩ := (ih seen).mp h
        refine ⟨b :: pre, post, rfl, hseen, ?_⟩
        rw [List.map_cons, List.mem_cons]
        rintro (hab | hmem)
        · exact hseen (hab ▸ hb)
        · exact hpre hmem
      · next hb =>
        rcases List.mem_cons.mp h with rfl | h
        · exact ⟨[], as, rfl, hb, List.not_mem_nil⟩
        · obtain ⟨pre, post, rfl, hseen, hpre⟩ := (ih (key b :: seen)).mp h
          rw [List.mem_cons, not_or] at hseen
          refine ⟨b :: pre, post, rfl, hseen.2, ?_⟩
          rw [List.map_cons, List.mem_cons, not_or]
          exact ⟨hseen.1, hpre⟩
    · rintro ⟨pre, post, hl, hseen, hpre⟩
      simp only [firstSeen]
      cases pre with
      | nil =>
        obtain ⟨rfl, rfl⟩ := List.cons.inj hl
        rw [if_neg hseen]
        exact List.mem_cons_self
      | cons b' pre =>
        obtain ⟨rfl, rfl⟩ := List.cons.inj hl
        rw [List.map_cons, List.mem_cons, not_or] at hpre
        split
        · exact (ih seen).mpr ⟨pre, post, rfl, hseen, hpre.2⟩
        · refine List.mem_cons_of_mem _ ((ih (key b :: seen)).mpr ⟨pre, post, rfl, ?_, hpre.2⟩)
          rw [List.mem_cons, not_or]
          exact ⟨hpre.1, hseen⟩

theorem mem_map_firstSeen {seen : List β} {l : List α} {b : β} :
    b ∈ (firstSeen key seen l).map key ↔ b ∉ seen ∧ b ∈ l.map key := by
  constructor
  · intro h
    obtain ⟨a, ha, rfl⟩ := List.mem_map.mp h
    obtain ⟨pre, post, rfl, hseen, -⟩ := (mem_firstSeen key seen l a).mp ha
    exact ⟨hseen, List.mem_map_of_mem (by simp)⟩
  · rintro ⟨hseen, hmem⟩
    exact ((mem_seen_or_firstSeen key seen l b).mpr (.inr hmem)).resolve_left hseen

theorem nodup_map_firstSeen (seen : List β) (l : List α) :
    ((firstSeen key seen l).map key).Nodup := by
  induction l generalizing seen with
  | nil => exact List.nodup_nil
  | cons a as ih =>
    simp only [firstSeen]
    split
    · exact ih seen
    · rw [List.map_cons, List.nodup_cons]
      refine ⟨fun hmem => ?_, ih (key a :: seen)⟩
      exact ((mem_map_firstSeen key).mp hmem).1 List.mem_cons_self

theorem firstSeen_eq_self {seen : List β} {l : List α} (hseen : ∀ a ∈ l, key a ∉ seen)
    (hl : (l.map key).Nodup) : firstSeen key seen l = l := by
  induction l generalizing seen with
  | nil => rfl
  | cons a as ih =>
    obtain ⟨ha, has⟩ := List.nodup_cons.mp hl
    rw [firstSeen, if_neg (hseen a List.mem_cons_self), ih (fun b hb => ?_) has]
    rw [List.mem_cons, not_or]
    refine ⟨fun heq => ha (heq ▸ List.mem_map_of_mem hb), ?_⟩
    exact hseen b (List.mem_cons_of_mem a hb)

/-- In a list without repetitions, what came before an entry is determined. -/
theorem mem_firstSeen_of_nodup {seen : List β} {pre post : List α} {a : α}
    (hl : (pre ++ a :: post).Nodup) :
    a ∈ firstSeen key seen (pre ++ a :: post) ↔ key a ∉ seen ∧ key a ∉ pre.map key := by
  have hnot : a ∉ pre ∧ a ∉ post := by
    rw [List.nodup_middle, List.nodup_cons, List.mem_append, not_or] at hl
    exact hl.1
  rw [mem_firstSeen]
  constructor
  · rintro ⟨pre', post', heq, hseen, hpre⟩
    obtain ⟨rfl, -, -⟩ := (List.append_cons_inj_of_notMem hnot.1 hnot.2).mp heq
    exact ⟨hseen, hpre⟩
  · rintro ⟨hseen, hpre⟩
    exact ⟨pre, post, rfl, hseen, hpre⟩

end BifrostSocket.SeenLists
