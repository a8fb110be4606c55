import BifrostSocket.ConsumerGroups
import Mathlib.Logic.Function.Basic

/-!
# Several consumers of one group

Any number of consumers read an append-only stream through one consumer group at once. A
consumer holds the ids it was given, does something with them or drops them, and may
acknowledge the first. As long as the group stays, an id belongs to the one name it was
delivered under, whoever else joins or leaves; and if no two consumers bear one name at the
same time, no id is in two hands and none is touched again once it is acknowledged.
-/

namespace BifrostSocket.GroupConsumers
open ConsumerGroups ConsumerGroups.GroupStream

structure Consumer (κ χ : Type*) where
  name : χ
  hand : List κ

/-- What was done with an entry: anything, or its acknowledgement. -/
inductive Deed (κ : Type*) where
  | worked (id : κ)
  | acked (id : κ)

def Deed.id {κ : Type*} : Deed κ → κ
  | .worked i | .acked i => i

/-- The log is newest first, each deed under the name of the consumer that did it. -/
structure Consumers (ι κ φ χ : Type*) [LinearOrder κ] where
  stream : GroupStream κ φ χ
  members : ι → Option (Consumer κ χ)
  log : List (χ × Deed κ)

variable {ι κ φ χ : Type*} [LinearOrder κ]

/-- Consumer `i` and the stream are as given from now on, and what `i` did is logged. -/
def Consumers.next [DecidableEq ι] (s : Consumers ι κ φ χ) (i : ι) (r : GroupStream κ φ χ)
    (m : Option (Consumer κ χ)) (deeds : List (χ × Deed κ)) : Consumers ι κ φ χ :=
  ⟨r, Function.update s.members i m, deeds ++ s.log⟩

/-- What a consumer of a group that stays can do, or its stream while it does nothing. -/
inductive Step [DecidableEq ι] (s : Consumers ι κ φ χ) (i : ι) : Consumers ι κ φ χ → Prop where
  | added {r} (hc : r.cursor = s.stream.cursor) (hp : r.pending = s.stream.pending) :
      Step s i { s with stream := r }
  | joined {r name} (h : s.members i = none) (hr : Same s.stream r) :
      Step s i (s.next i r (some ⟨name, []⟩) [])
  | worked {r m m'} {ids : List κ} (h : s.members i = some m) (hr : Same s.stream r)
      (hm : ∀ n ∈ m', n.name = m.name ∧ n.hand.Sublist m.hand) (hids : ∀ id ∈ ids, id ∈ m.hand) :
      Step s i (s.next i r m' (ids.map fun id => (m.name, .worked id)))
  | found {r m id} (h : s.members i = some m) (hr : Same s.stream r)
      (hid : (id, m.name) ∈ s.stream.pending) :
      Step s i (s.next i r (some { m with hand := [id] }) [])
  | took {r m e hand} (h : s.members i = some m) (hr : NewRead s.stream m.name e r)
      (hh : hand = [] ∨ hand = [e.id]) :
      Step s i (s.next i r (some { m with hand }) [])
  | acked {m id rest} (h : s.members i = some m) (hh : m.hand = id :: rest) :
      Step s i (s.next i (s.stream.xack id) (some { m with hand := rest })
        [(m.name, .acked id)])

/-- An entry was delivered to a name: it is pending under it or was worked on under it. -/
def Consumers.Taken (s : Consumers ι κ φ χ) (c : χ) (id : κ) : Prop :=
  (id, c) ∈ s.stream.pending ∨ ∃ d, (c, d) ∈ s.log ∧ d.id = id

/-- The same, or a consumer of that name has the entry in hand. -/
def Consumers.Holds (s : Consumers ι κ φ χ) (c : χ) (id : κ) : Prop :=
  s.Taken c id ∨ ∃ i m, s.members i = some m ∧ m.name = c ∧ id ∈ m.hand

/-- An entry belongs to one name, and only delivered entries belong to any. -/
structure Owned (s : Consumers ι κ φ χ) : Prop where
  sole : ∀ {c d id}, s.Holds c id → s.Holds d id → c = d
  reached : ∀ {c id}, s.Holds c id → (id : WithBot κ) ≤ s.stream.cursor

/-- No two consumers bear one name. -/
def NamesApart (s : Consumers ι κ φ χ) : Prop :=
  ∀ ⦃i j m n⦄, s.members i = some m → s.members j = some n → m.name = n.name → i = j

/-- An acknowledged entry is in no hand and pending under no name, and its acknowledgement is
the last that was done with it. -/
structure Settled (s : Consumers ι κ φ χ) : Prop where
  nodup : ∀ {i m}, s.members i = some m → m.hand.Nodup
  pending : ∀ {c d id}, (c, .acked id) ∈ s.log → (id, d) ∉ s.stream.pending
  hands : ∀ {c id i m}, (c, .acked id) ∈ s.log → s.members i = some m → id ∉ m.hand
  final : s.log.Pairwise fun x y => y.2 = .acked y.2.id → x.2.id ≠ y.2.id

section Steps

variable {s t : Consumers ι κ φ χ}

theorem holds_hand {j : ι} {m : Consumer κ χ} (h : s.members j = some m) {id : κ}
    (hid : id ∈ m.hand) : s.Holds m.name id :=
  .inr ⟨j, m, h, rfl, hid⟩

theorem holds_pending {c : χ} {id : κ} (h : (id, c) ∈ s.stream.pending) : s.Holds c id :=
  .inl (.inl h)

theorem holds_log {c : χ} {d : Deed κ} (h : (c, d) ∈ s.log) : s.Holds c d.id :=
  .inl (.inr ⟨d, h, rfl⟩)

theorem hands_apart (own : Owned s) (hn : NamesApart s) {i j : ι} {m n : Consumer κ χ}
    (hm : s.members i = some m) (hj : s.members j = some n) {id : κ} (hid : id ∈ m.hand)
    (hid' : id ∈ n.hand) : i = j :=
  hn hm hj (own.sole (holds_hand hm hid) (holds_hand hj hid'))

variable [DecidableEq ι] {i : ι}

theorem next_members {r : GroupStream κ φ χ} {m : Option (Consumer κ χ)}
    {deeds : List (χ × Deed κ)} {j : ι} {n : Consumer κ χ}
    (h : (s.next i r m deeds).members j = some n) :
    (j = i ∧ m = some n) ∨ (j ≠ i ∧ s.members j = some n) := by
  by_cases hj : j = i
  · subst hj
    exact .inl ⟨rfl, by simpa [Consumers.next] using h⟩
  · exact .inr ⟨hj, by simpa [Consumers.next, hj] using h⟩

@[simp] theorem next_stream (r : GroupStream κ φ χ) (m : Option (Consumer κ χ))
    (deeds : List (χ × Deed κ)) : (s.next i r m deeds).stream = r := rfl

@[simp] theorem next_log (r : GroupStream κ φ χ) (m : Option (Consumer κ χ))
    (deeds : List (χ × Deed κ)) : (s.next i r m deeds).log = deeds ++ s.log := rfl

theorem holds_next {r : GroupStream κ φ χ} {m : Option (Consumer κ χ)}
    {deeds : List (χ × Deed κ)} {c : χ} {id : κ} (h : (s.next i r m deeds).Holds c id) :
    s.Holds c id ∨ (id, c) ∈ r.pending ∨ (∃ d, (c, d) ∈ deeds ∧ d.id = id) ∨
      ∃ n ∈ m, n.name = c ∧ id ∈ n.hand := by
  rcases h with (hpend | ⟨d, hd, rfl⟩) | ⟨j, n, hn, rfl, hid⟩
  · exact .inr (.inl hpend)
  · rcases List.mem_append.mp hd with hnew | hold
    · exact .inr (.inr (.inl ⟨d, hnew, rfl⟩))
    · exact .inl (holds_log hold)
  · rcases next_members hn with ⟨-, rfl⟩ | ⟨-, hold⟩
    · exact .inr (.inr (.inr ⟨n, rfl, rfl, hid⟩))
    · exact .inl (holds_hand hold hid)

theorem step_cursor (h : Step s i t) : s.stream.cursor ≤ t.stream.cursor := by
  cases h with
  | added hc => exact hc.ge
  | joined _ hr => exact hr.cursor.ge
  | worked _ hr => exact hr.cursor.ge
  | found _ hr => exact hr.cursor.ge
  | took _ hr =>
    rw [next_stream, hr.cursor]
    exact hr.behind.le
  | acked => exact (xack_cursor _).ge

/-- Whoever holds an entry after a step of `i` held it before, or it is the entry the step
delivered to `i`. -/
theorem step_holds (h : Step s i t) :
    (∀ c id, t.Holds c id → s.Holds c id) ∨
      ∃ m e, s.members i = some m ∧ NewRead s.stream m.name e t.stream ∧
        ∀ c id, t.Holds c id → s.Holds c id ∨ c = m.name ∧ id = e.id := by
  cases h with
  | added _ hp =>
    left
    rintro c id ((hpend | hlog) | hhand)
    · rw [hp] at hpend
      exact holds_pending hpend
    · exact .inl (.inr hlog)
    · exact .inr hhand
  | joined _ hr =>
    refine .inl fun c id hc => ?_
    rcases holds_next hc with hold | hpend | ⟨d, hd, -⟩ | ⟨n, hn, -, hid⟩
    · exact hold
    · exact holds_pending (hr.pending ▸ hpend)
    · cases hd
    · obtain rfl := Option.some.inj hn
      cases hid
  | worked hmem hr hm hids =>
    refine .inl fun c id hc => ?_
    rcases holds_next hc with hold | hpend | ⟨d, hd, rfl⟩ | ⟨n, hn, rfl, hid⟩
    · exact hold
    · exact holds_pending (hr.pending ▸ hpend)
    · obtain ⟨x, hx, heq⟩ := List.mem_map.mp hd
      obtain ⟨rfl, rfl⟩ := Prod.mk.inj heq
      exact holds_hand hmem (hids x hx)
    · obtain ⟨hname, hsub⟩ := hm n hn
      exact hname ▸ holds_hand hmem (hsub.subset hid)
  | found hmem hr hfound =>
    refine .inl fun c id hc => ?_
    rcases holds_next hc with hold | hpend | ⟨d, hd, -⟩ | ⟨n, hn, rfl, hid⟩
    · exact hold
    · exact holds_pending (hr.pending ▸ hpend)
    · cases hd
    · obtain rfl := Option.some.inj hn
      obtain rfl := List.mem_singleton.mp hid
      exact holds_pending hfound
  | @took r m e hand hmem hr hh =>
    refine .inr ⟨m, e, hmem, hr, fun c id hc => ?_⟩
    rcases holds_next hc with hold | hpend | ⟨d, hd, -⟩ | ⟨n, hn, rfl, hid⟩
    · exact .inl hold
    · rw [hr.pending, List.mem_append, List.mem_singleton] at hpend
      rcases hpend with hold | hnew
      · exact .inl (holds_pending hold)
      · obtain ⟨rfl, rfl⟩ := Prod.mk.inj hnew
        exact .inr ⟨rfl, rfl⟩
    · cases hd
    · obtain rfl := Option.some.inj hn
      rcases hh with rfl | rfl
      · cases hid
      · exact .inr ⟨rfl, List.mem_singleton.mp hid⟩
  | acked hmem hh =>
    refine .inl fun c id hc => ?_
    rcases holds_next hc with hold | hpend | ⟨d, hd, rfl⟩ | ⟨n, hn, rfl, hid⟩
    · exact hold
    · rw [xack_pending] at hpend
      exact holds_pending (List.mem_filter.mp hpend).1
    · obtain ⟨rfl, rfl⟩ := Prod.mk.inj (List.mem_singleton.mp hd)
      exact holds_hand hmem (by simp [hh, Deed.id])
    · obtain rfl := Option.some.inj hn
      exact holds_hand hmem (hh ▸ List.mem_cons_of_mem _ hid)

theorem Owned.step (inv : Owned s) (h : Step s i t) : Owned t := by
  have hle := step_cursor h
  rcases step_holds h with hold | ⟨m, e, hmem, hr, hnew⟩
  · constructor
    · intro c d id hc hd
      exact inv.sole (hold c id hc) (hold d id hd)
    · intro c id hc
      exact (inv.reached (hold c id hc)).trans hle
  · -- the delivered entry lies behind the cursor, so nobody had it
    have hfree : ∀ {c}, ¬ s.Holds c e.id := fun hc =>
      absurd (inv.reached hc) (not_le.mpr hr.behind)
    constructor
    · intro c d id hc hd
      rcases hnew c id hc with hc | ⟨rfl, rfl⟩
      · rcases hnew d id hd with hd | ⟨-, rfl⟩
        · exact inv.sole hc hd
        · exact absurd hc hfree
      · rcases hnew d _ hd with hd | ⟨rfl, -⟩
        · exact absurd hd hfree
        · rfl
    · intro c id hc
      rcases hnew c id hc with hc | ⟨-, rfl⟩
      · exact (inv.reached hc).trans hle
      · rw [hr.cursor]

/-- A step that keeps an entry pending, or logs what became of it, keeps it with its name. -/
theorem taken_next {r : GroupStream κ φ χ} {m : Option (Consumer κ χ)}
    {deeds : List (χ × Deed κ)} {c : χ} {id : κ} (hc : s.Taken c id)
    (hpend : (id, c) ∈ s.stream.pending → (id, c) ∈ r.pending ∨ ∃ d, (c, d) ∈ deeds ∧ d.id = id) :
    (s.next i r m deeds).Taken c id := by
  rcases hc with hin | ⟨d, hd, hid⟩
  · rcases hpend hin with hin | ⟨d, hd, hid⟩
    · exact .inl hin
    · exact .inr ⟨d, List.mem_append_left _ hd, hid⟩
  · exact .inr ⟨d, List.mem_append_right _ hd, hid⟩

theorem taken_step (inv : Owned s) (h : Step s i t) {c : χ} {id : κ} (hc : s.Taken c id) :
    t.Taken c id := by
  cases h with
  | added _ hp =>
    rcases hc with hin | hlog
    · exact .inl (by rwa [hp])
    · exact .inr hlog
  | joined _ hr => exact taken_next hc fun hin => .inl (hr.pending ▸ hin)
  | worked _ hr => exact taken_next hc fun hin => .inl (hr.pending ▸ hin)
  | found _ hr => exact taken_next hc fun hin => .inl (hr.pending ▸ hin)
  | took _ hr =>
    refine taken_next hc fun hin => .inl ?_
    rw [hr.pending]
    exact List.mem_append_left _ hin
  | @acked m id₀ rest hmem hh =>
    refine taken_next hc fun hin => ?_
    by_cases heq : id = id₀
    · -- only its own consumer acknowledges it
      have hown : c = m.name :=
        inv.sole (holds_pending hin) (holds_hand hmem (by simp [hh, heq]))
      exact .inr ⟨.acked id₀, by simp [hown], heq.symm⟩
    · rw [xack_pending]
      exact .inl (List.mem_filter.mpr ⟨hin, by simpa using heq⟩)

/-- Names stay apart if `i` goes on under its name, or under one that nobody bears. -/
theorem namesApart_next (hn : NamesApart s) {r : GroupStream κ φ χ} {m : Option (Consumer κ χ)}
    {deeds : List (χ × Deed κ)}
    (hm : ∀ a ∈ m, ∀ j b, s.members j = some b → a.name = b.name → j = i) :
    NamesApart (s.next i r m deeds) := by
  intro j k a b ha hb hab
  rcases next_members ha with ⟨rfl, rfl⟩ | ⟨-, ha'⟩
  · rcases next_members hb with ⟨rfl, -⟩ | ⟨-, hb'⟩
    · rfl
    · exact (hm a rfl k b hb' hab).symm
  · rcases next_members hb with ⟨rfl, rfl⟩ | ⟨-, hb'⟩
    · exact hm b rfl j a ha' hab.symm
    · exact hn ha' hb' hab

theorem namesApart_step (hn : NamesApart s) (h : Step s i t)
    (hjoin : s.members i = none → ∀ m ∈ t.members i, ∀ j n, s.members j = some n →
      m.name ≠ n.name) : NamesApart t := by
  cases h with
  | added =>
    intro j k a b ha hb hab
    exact hn ha hb hab
  | @joined r name hnone =>
    have hfresh := hjoin hnone ⟨name, []⟩ (by simp [Consumers.next])
    refine namesApart_next hn fun a ha j b hb hab => ?_
    obtain rfl := Option.some.inj ha
    exact absurd hab (hfresh j b hb)
  | worked hmem _ hm =>
    refine namesApart_next hn fun a ha j b hb hab => hn hb hmem ?_
    rw [← hab, (hm a ha).1]
  | found hmem =>
    refine namesApart_next hn fun a ha j b hb hab => hn hb hmem ?_
    obtain rfl := Option.some.inj ha
    exact hab.symm
  | took hmem =>
    refine namesApart_next hn fun a ha j b hb hab => hn hb hmem ?_
    obtain rfl := Option.some.inj ha
    exact hab.symm
  | acked hmem =>
    refine namesApart_next hn fun a ha j b hb hab => hn hb hmem ?_
    obtain rfl := Option.some.inj ha
    exact hab.symm

/-- A step of `i` on entries that are acknowledged neither before nor by it. -/
theorem Settled.next (inv : Settled s) {r : GroupStream κ φ χ} {m : Option (Consumer κ χ)}
    {deeds : List (χ × Deed κ)} (hnodup : ∀ n ∈ m, n.hand.Nodup)
    (hpend : ∀ c d id, (c, .acked id) ∈ deeds ++ s.log → (id, d) ∉ r.pending)
    (hown : ∀ c id, (c, .acked id) ∈ deeds ++ s.log → ∀ n ∈ m, id ∉ n.hand)
    (hothers : ∀ c id, (c, .acked id) ∈ deeds → ∀ j n, j ≠ i → s.members j = some n →
      id ∉ n.hand)
    (hdeeds : deeds.Pairwise fun x y => y.2 = .acked y.2.id → x.2.id ≠ y.2.id)
    (hfinal : ∀ x ∈ deeds, ∀ c, (c, .acked x.2.id) ∉ s.log) :
    Settled (s.next i r m deeds) where
  nodup h := by
    rcases next_members h with ⟨-, hm⟩ | ⟨-, hold⟩
    · exact hnodup _ hm
    · exact inv.nodup hold
  pending := hpend _ _ _
  hands hack h := by
    rcases next_members h with ⟨-, hm⟩ | ⟨hj, hold⟩
    · exact hown _ _ hack _ hm
    · rcases List.mem_append.mp hack with hnew | hlog
      · exact hothers _ _ hnew _ _ hj hold
      · exact inv.hands hlog hold
  final := by
    refine List.pairwise_append.mpr ⟨hdeeds, inv.final, ?_⟩
    rintro x hx ⟨c, d⟩ hy hack heq
    simp only at hack heq
    refine hfinal x hx c ?_
    rw [heq, ← hack]
    exact hy

/-- What one step does to an entry, it does before the entry is acknowledged. -/
theorem Settled.step (inv : Settled s) (own : Owned s) (hn : NamesApart s) (h : Step s i t) :
    Settled t := by
  cases h with
  | added _ hp =>
    refine ⟨inv.nodup, fun hack => ?_, inv.hands, inv.final⟩
    rw [hp]
    exact inv.pending hack
  | joined _ hr =>
    refine inv.next (by simp) (fun c d id hack => ?_) (by simp) (by simp) (by simp) (by simp)
    rw [hr.pending]
    exact inv.pending hack
  | @worked r m m' ids hmem hr hm hids =>
    have hold : ∀ {c id}, (c, .acked id) ∈ ids.map (fun id => (m.name, Deed.worked id)) ++ s.log →
        (c, .acked id) ∈ s.log := by
      intro c id hack
      simpa using hack
    refine inv.next (fun n hn => ?_) (fun c d id hack => ?_) (fun c id hack n hn hid => ?_)
      (by simp) ?_ (fun x hx c hack => ?_)
    · exact (inv.nodup hmem).sublist (hm n hn).2
    · rw [hr.pending]
      exact inv.pending (hold hack)
    · exact inv.hands (hold hack) hmem ((hm n hn).2.subset hid)
    · refine List.pairwise_map.mpr (List.pairwise_of_forall fun x y hack => ?_)
      cases hack
    · obtain ⟨id, hid, rfl⟩ := List.mem_map.mp hx
      exact inv.hands hack hmem (hids id hid)
  | @found r m id₀ hmem hr hfound =>
    refine inv.next (by simp) (fun c d id hack => ?_) (fun c id hack n hn hid => ?_)
      (by simp) (by simp) (by simp)
    · rw [hr.pending]
      exact inv.pending hack
    · obtain rfl := Option.some.inj hn
      obtain rfl := List.mem_singleton.mp hid
      exact inv.pending hack hfound
  | @took r m e hand hmem hr hh =>
    -- what is acknowledged was delivered before
    have hnew : ∀ {c}, (c, Deed.acked e.id) ∉ s.log := fun hack =>
      absurd (own.reached (holds_log hack)) (not_le.mpr hr.behind)
    refine inv.next (fun n hn => ?_) (fun c d id hack hin => ?_) (fun c id hack n hn hid => ?_)
      (by simp) (by simp) (by simp)
    · obtain rfl := Option.some.inj hn
      rcases hh with rfl | rfl <;> simp
    · rw [hr.pending, List.mem_append, List.mem_singleton] at hin
      rcases hin with hin | heq
      · exact inv.pending hack hin
      · obtain ⟨rfl, -⟩ := Prod.mk.inj heq
        exact hnew hack
    · obtain rfl := Option.some.inj hn
      rcases hh with rfl | rfl
      · cases hid
      · obtain rfl := List.mem_singleton.mp hid
        exact hnew hack
  | @acked m id₀ rest hmem hh =>
    have hin : id₀ ∈ m.hand := by simp [hh]
    have hnd : id₀ ∉ rest := by
      have hnodup := inv.nodup hmem
      rw [hh] at hnodup
      exact (List.nodup_cons.mp hnodup).1
    refine inv.next (fun n hn => ?_) (fun c d id hack hpend => ?_) (fun c id hack n hn hid => ?_)
      (fun c id hack j n hj hother hid => ?_) (by simp) (fun x hx c hack => ?_)
    · obtain rfl := Option.some.inj hn
      have hnodup := inv.nodup hmem
      rw [hh] at hnodup
      exact (List.nodup_cons.mp hnodup).2
    · rw [xack_pending] at hpend
      obtain ⟨hpend, hne⟩ := List.mem_filter.mp hpend
      rcases List.mem_cons.mp hack with heq | hack
      · obtain ⟨-, hid⟩ := Prod.mk.inj heq
        cases hid
        simp at hne
      · exact inv.pending hack hpend
    · obtain rfl := Option.some.inj hn
      rcases List.mem_cons.mp hack with heq | hack
      · obtain ⟨-, heq⟩ := Prod.mk.inj heq
        cases heq
        exact hnd hid
      · exact inv.hands hack hmem (hh ▸ List.mem_cons_of_mem _ hid)
    · -- another hand with the entry would bear the same name
      obtain ⟨-, heq⟩ := Prod.mk.inj (List.mem_singleton.mp hack)
      cases heq
      exact hj (hn hother hmem (own.sole (holds_hand hother hid) (holds_hand hmem hin)))
    · obtain rfl := List.mem_singleton.mp hx
      exact inv.hands hack hmem hin

end Steps

end BifrostSocket.GroupConsumers
