import Mathlib.Order.WithBot
import Mathlib.Data.List.Nodup

/-!
# An append-only stream read through one consumer group

Entries carry ascending ids. The group remembers the last delivered id and which
delivered entries are not yet acknowledged, each with the consumer it went to. Reading
`>` delivers the next entry to a consumer; reading `0` gives a consumer its own pending
entries again. Both reads return one entry at a time.
-/

namespace BifrostSocket.ConsumerGroups

structure Entry (κ φ : Type*) where
  id : κ
  fields : φ
  deriving DecidableEq

/-- The cursor is `⊥` in a group created at `0`. -/
structure Group (κ χ : Type*) where
  cursor : WithBot κ := ⊥
  pending : List (κ × χ) := []

variable {κ φ χ : Type*} [LinearOrder κ]

/-- Pending entries are in id order, and they are entries that were delivered; the cursor
stands at the last delivered one. -/
structure Group.Sound (entries : List (Entry κ φ)) (g : Group κ χ) : Prop where
  reached : g.cursor = ⊥ ∨ ∃ e ∈ entries, g.cursor = e.id
  ascending : g.pending.Pairwise (·.1 < ·.1)
  delivered : ∀ p ∈ g.pending, (p.1 : WithBot κ) ≤ g.cursor ∧ ∃ e ∈ entries, e.id = p.1

structure GroupStream (κ φ χ : Type*) [LinearOrder κ] where
  entries : List (Entry κ φ)
  group : Option (Group κ χ)
  ascending : entries.Pairwise (·.id < ·.id)
  sound : ∀ g ∈ group, g.Sound entries

namespace Group

/-- The first entry behind the cursor. -/
def next (g : Group κ χ) (entries : List (Entry κ φ)) : Option (Entry κ φ) :=
  entries.find? fun e => decide (g.cursor < e.id)

def deliver (g : Group κ χ) (id : κ) (c : χ) : Group κ χ := ⟨id, g.pending ++ [(id, c)]⟩

def ack (g : Group κ χ) (id : κ) : Group κ χ :=
  { g with pending := g.pending.filter fun p => decide (p.1 ≠ id) }

theorem sound_new (entries : List (Entry κ φ)) : ({} : Group κ χ).Sound entries := by
  refine ⟨.inl rfl, ?_, ?_⟩
  · simp
  · simp

theorem Sound.append {entries : List (Entry κ φ)} {g : Group κ χ} (h : g.Sound entries)
    (e : Entry κ φ) : g.Sound (entries ++ [e]) := by
  refine ⟨?_, h.ascending, fun p hp => ?_⟩
  · rcases h.reached with hr | ⟨x, hx, hr⟩
    · exact .inl hr
    · exact .inr ⟨x, List.mem_append_left _ hx, hr⟩
  · obtain ⟨hle, x, hx, hid⟩ := h.delivered p hp
    exact ⟨hle, x, List.mem_append_left _ hx, hid⟩

theorem Sound.ack {entries : List (Entry κ φ)} {g : Group κ χ} (h : g.Sound entries) (id : κ) :
    (g.ack id).Sound entries := by
  refine ⟨h.reached, h.ascending.filter _, ?_⟩
  intro p hp
  exact h.delivered p (List.mem_filter.mp hp).1

theorem next_mem {entries : List (Entry κ φ)} {g : Group κ χ} {e : Entry κ φ}
    (h : g.next entries = some e) : e ∈ entries ∧ g.cursor < e.id :=
  ⟨List.mem_of_find?_eq_some h, by simpa using List.find?_some h⟩

theorem Sound.deliver {entries : List (Entry κ φ)} {g : Group κ χ} (h : g.Sound entries)
    {e : Entry κ φ} (he : g.next entries = some e) (c : χ) : (g.deliver e.id c).Sound entries := by
  obtain ⟨hmem, hlt⟩ := next_mem he
  refine ⟨.inr ⟨e, hmem, rfl⟩, ?_, ?_⟩
  · refine List.pairwise_append.mpr ⟨h.ascending, by simp, ?_⟩
    intro p hp q hq
    obtain rfl : q = (e.id, c) := by simpa using hq
    exact WithBot.coe_lt_coe.mp ((h.delivered p hp).1.trans_lt hlt)
  · intro p hp
    rcases List.mem_append.mp hp with hp | hp
    · obtain ⟨hle, hent⟩ := h.delivered p hp
      exact ⟨hle.trans hlt.le, hent⟩
    · obtain rfl : p = (e.id, c) := by simpa using hp
      exact ⟨le_rfl, e, hmem, rfl⟩

end Group

namespace GroupStream

def empty : GroupStream κ φ χ := ⟨[], none, by simp, by simp⟩

/-- Ids only grow; the server refuses another one. -/
def xadd (s : GroupStream κ φ χ) (id : κ) (fields : φ) : Option (GroupStream κ φ χ) :=
  if h : ∀ e ∈ s.entries, e.id < id then
    some {
      entries := s.entries ++ [⟨id, fields⟩]
      group := s.group
      ascending := List.pairwise_append.mpr ⟨s.ascending, by simp, by simpa using h⟩
      sound := fun g hg => (s.sound g hg).append _ }
  else none

/-- Creating a group that exists changes nothing. -/
def createGroup (s : GroupStream κ φ χ) : GroupStream κ φ χ :=
  { s with
    group := some (s.group.getD {})
    sound := by
      intro g hg
      obtain rfl := Option.some.inj hg
      cases hs : s.group with
      | none => exact Group.sound_new _
      | some g => exact s.sound g hs }

def destroyGroup (s : GroupStream κ φ χ) : GroupStream κ φ χ :=
  { s with group := none, sound := by simp }

/-- XREADGROUP `>` COUNT 1: `none` when there is no such group. -/
def readNew (s : GroupStream κ φ χ) (c : χ) : Option (Option (Entry κ φ) × GroupStream κ φ χ) :=
  match hg : s.group with
  | none => none
  | some g => match hn : g.next s.entries with
    | none => some (none, s)
    | some e => some (some e, { s with
        group := some (g.deliver e.id c)
        sound := by
          intro g' hg'
          obtain rfl := Option.some.inj hg'
          exact (s.sound g hg).deliver hn c })

/-- XREADGROUP `0` COUNT 1: the consumer's first pending entry. -/
def readPending [DecidableEq χ] (s : GroupStream κ φ χ) (c : χ) : Option (Option (Entry κ φ)) :=
  s.group.map fun g => (g.pending.find? fun p => decide (p.2 = c)).bind fun p =>
    s.entries.find? fun e => decide (e.id = p.1)

def xack (s : GroupStream κ φ χ) (id : κ) : GroupStream κ φ χ :=
  { s with
    group := s.group.map (·.ack id)
    sound := by
      intro g hg
      obtain ⟨g', hg', rfl⟩ := Option.map_eq_some_iff.mp hg
      exact (s.sound g' hg').ack id }

def cursor (s : GroupStream κ φ χ) : WithBot κ := (s.group.getD {}).cursor

def pending (s : GroupStream κ φ χ) : List (κ × χ) := (s.group.getD {}).pending

section Facts

variable {s t : GroupStream κ φ χ} {c : χ}

@[simp] theorem xack_cursor (id : κ) : (s.xack id).cursor = s.cursor := by
  cases h : s.group <;> simp [cursor, xack, h, Group.ack]

@[simp] theorem xack_pending (id : κ) :
    (s.xack id).pending = s.pending.filter fun p => decide (p.1 ≠ id) := by
  cases h : s.group <;> simp [pending, xack, h, Group.ack]

theorem xadd_ok {id : κ} {fields : φ} (h : s.xadd id fields = some t) :
    (∀ e ∈ s.entries, e.id < id) ∧ t.entries = s.entries ++ [⟨id, fields⟩] ∧
      t.cursor = s.cursor ∧ t.pending = s.pending ∧ t.group = s.group := by
  unfold xadd at h
  split at h
  · next hlt =>
    obtain rfl := Option.some.inj h
    exact ⟨hlt, rfl, rfl, rfl, rfl⟩
  · cases h

/-- The cursor has not reached an entry that is yet to be added. -/
theorem cursor_lt_new {id : κ} (h : ∀ e ∈ s.entries, e.id < id) : s.cursor < id := by
  cases hg : s.group with
  | none => simp [cursor, hg]
  | some g =>
    have hcur : s.cursor = g.cursor := by simp [cursor, hg]
    rw [hcur]
    rcases (s.sound g hg).reached with hbot | ⟨e, he, hreach⟩
    · rw [hbot]
      exact WithBot.bot_lt_coe id
    · rw [hreach, WithBot.coe_lt_coe]
      exact h e he

/-- Entries are known by their ids. -/
theorem entry_unique {e x : Entry κ φ} (he : e ∈ s.entries) (hx : x ∈ s.entries)
    (h : e.id = x.id) : e = x := by
  have hnodup : (s.entries.map Entry.id).Nodup :=
    (List.pairwise_map.mpr s.ascending).imp fun hlt => hlt.ne
  exact List.inj_on_of_nodup_map hnodup he hx h

/-- What a read of new entries answers and leaves: either nothing lies behind the cursor, or
the first entry there is delivered. -/
structure NewRead (s : GroupStream κ φ χ) (c : χ) (e : Entry κ φ) (t : GroupStream κ φ χ) :
    Prop where
  mem : e ∈ s.entries
  behind : s.cursor < e.id
  first : ∀ x ∈ s.entries, s.cursor < x.id → e.id ≤ x.id
  entries : t.entries = s.entries
  cursor : t.cursor = e.id
  pending : t.pending = s.pending ++ [(e.id, c)]

/-- The same entries, cursor and pending list. -/
structure Same (s t : GroupStream κ φ χ) : Prop where
  entries : t.entries = s.entries
  cursor : t.cursor = s.cursor
  pending : t.pending = s.pending

theorem Same.refl (s : GroupStream κ φ χ) : Same s s := ⟨rfl, rfl, rfl⟩

theorem same_createGroup (s : GroupStream κ φ χ) : Same s s.createGroup := ⟨rfl, rfl, rfl⟩

theorem readNew_cases {r : Option (Entry κ φ)} (h : s.readNew c = some (r, t)) :
    (r = none ∧ Same s t ∧ ∀ e ∈ s.entries, (e.id : WithBot κ) ≤ s.cursor) ∨
      ∃ e, r = some e ∧ NewRead s c e t := by
  unfold readNew at h
  split at h
  · cases h
  · next g hg =>
    have hcur : s.cursor = g.cursor := by simp [cursor, hg]
    have hpend : s.pending = g.pending := by simp [pending, hg]
    split at h
    · next hn =>
      obtain ⟨rfl, rfl⟩ := Prod.mk.inj (Option.some.inj h)
      refine .inl ⟨rfl, .refl s, fun e he => ?_⟩
      rw [hcur]
      simpa using List.find?_eq_none.mp hn e he
    · next e hn =>
      obtain ⟨rfl, rfl⟩ := Prod.mk.inj (Option.some.inj h)
      obtain ⟨hmem, hlt⟩ := Group.next_mem hn
      refine .inr ⟨e, rfl, hmem, hcur ▸ hlt, ?_, rfl, rfl, by rw [hpend]; rfl⟩
      intro x hx hxlt
      rw [hcur] at hxlt
      obtain ⟨-, l₁, l₂, hsplit, hbefore⟩ := List.find?_eq_some_iff_append.mp hn
      have hasc := s.ascending
      rw [hsplit] at hx hasc
      rcases List.mem_append.mp hx with hx | hx
      · have hno := hbefore x hx
        simp [hxlt] at hno
      · rcases List.mem_cons.mp hx with rfl | hx
        · exact le_rfl
        · exact ((List.pairwise_cons.mp (List.pairwise_append.mp hasc).2.1).1 x hx).le

theorem readPending_cases [DecidableEq χ] {r : Option (Entry κ φ)}
    (h : s.readPending c = some r) :
    (r = none ∧ ∀ p ∈ s.pending, p.2 ≠ c) ∨
      ∃ e, r = some e ∧ e ∈ s.entries ∧ (e.id, c) ∈ s.pending := by
  obtain ⟨g, hg, rfl⟩ := Option.map_eq_some_iff.mp h
  have hpend : s.pending = g.pending := by simp [pending, hg]
  rw [hpend]
  cases hp : g.pending.find? fun p => decide (p.2 = c) with
  | none =>
    refine .inl ⟨rfl, fun p hmem => ?_⟩
    simpa using List.find?_eq_none.mp hp p hmem
  | some p =>
    have hmem : p ∈ g.pending := List.mem_of_find?_eq_some hp
    have howner : p.2 = c := by simpa using List.find?_some hp
    obtain ⟨-, x, hx, hid⟩ := (s.sound g hg).delivered p hmem
    cases he : s.entries.find? fun e => decide (e.id = p.1) with
    | none =>
      have hno := List.find?_eq_none.mp he x hx
      simp [hid] at hno
    | some e =>
      have heid : e.id = p.1 := by simpa using List.find?_some he
      refine .inr ⟨e, he, List.mem_of_find?_eq_some he, ?_⟩
      rw [heid, ← howner]
      exact hmem

end Facts

end GroupStream

end BifrostSocket.ConsumerGroups
