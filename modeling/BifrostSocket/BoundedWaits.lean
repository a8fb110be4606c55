import BifrostSocket.SettledRequests
import Mathlib.Data.List.Count

/-!
# How long a request waits

A loop that runs on takes at most eight steps for an entry: the head of the iteration, two reads,
the entry's turn, its execution, the result, the acknowledgement, and the end of the batch. A
Redis call that fails costs another eight at most, and entries that are added later are behind.
-/

namespace BifrostSocket.BoundedWaits
open TransitionRuns ConsumerGroups ConsumerGroups.GroupStream OperatorProtocol OperatorLoops
  AnsweredRequests
open SettledRequests (held one_held)

variable {κ : Type}

/-- Nobody stops the loop, kills it or destroys the group. -/
def runsOn : LoopEvent κ → Bool
  | .xadd _ _ | .io _ _ _ => true
  | .destroyGroup | .start _ | .setStop | .crash => false

def isStep : LoopEvent κ → Bool
  | .io _ _ _ => true
  | .xadd _ _ | .destroyGroup | .start _ | .setStop | .crash => false

def isFaulty : LoopEvent κ → Bool
  | .io _ _ f => decide (f ≠ .none)
  | .xadd _ _ | .destroyGroup | .start _ | .setStop | .crash => false

/-- Steps to the end of the iteration in which an entry is found. -/
def rank : Pc κ → ℕ
  | .batch [] => 8
  | .top => 7
  | .pendingRead => 6
  | .newRead => 5
  | .batch (_ :: _) => 4
  | .execute _ _ _ => 3
  | .writeResult _ _ _ _ => 2
  | .ack _ _ => 1

theorem rank_pos (pc : Pc κ) : 0 < rank pc := by
  cases pc with
  | batch todo => cases todo <;> simp [rank]
  | _ => simp [rank]

variable [LinearOrder κ]

/-- The entry was given to that consumer name, or is yet to be given to one. -/
def Waits (r : Redis κ) (c : String) (id : κ) : Prop :=
  (id, c) ∈ r.pending ∨ r.cursor < id

/-- What the loop may do before the entry and with it: what it was given already, and the new
entries up to this one. -/
def ahead (r : Redis κ) (c : String) (id : κ) : ℕ :=
  r.pending.countP (fun q => decide (q.2 = c)) +
    r.entries.countP fun e => decide (r.cursor < e.id ∧ e.id ≤ id)

/-- An iteration more where the loop reads new entries while this one is pending, or has an
entry in hand that is not pending any more. -/
def detour (r : Redis κ) (c : String) (id : κ) : Pc κ → ℕ
  | .newRead => if (id, c) ∈ r.pending then 8 else 0
  | .batch (e :: _) | .execute e _ _ | .writeResult e _ _ _ | .ack e _ =>
    if (e.id, c) ∈ r.pending then 0 else 8
  | .batch [] | .top | .pendingRead => 0

def distance (r : Redis κ) (c : String) (id : κ) (pc : Pc κ) : ℕ :=
  8 * ahead r c id + rank pc + detour r c id pc

section Counts

variable {r r' : Redis κ} {c : String} {id : κ} {pc pc' : Pc κ}

theorem countP_lt {α : Type*} {p q : α → Bool} {l : List α} {x : α} (h : ∀ a ∈ l, p a → q a)
    (hx : x ∈ l) (hq : q x = true) (hp : p x = false) : l.countP p < l.countP q := by
  obtain ⟨l₁, l₂, rfl⟩ := List.append_of_mem hx
  have h₁ : l₁.countP p ≤ l₁.countP q := List.countP_mono_left fun a ha => h a (by simp [ha])
  have h₂ : l₂.countP p ≤ l₂.countP q := List.countP_mono_left fun a ha => h a (by simp [ha])
  simp only [List.countP_append, List.countP_cons, hq, hp]
  simp only [if_true, Bool.false_eq_true, if_false]
  omega

theorem ahead_pos {e : Request κ} (he : e ∈ r.entries) (hw : Waits r c e.id) :
    0 < ahead r c e.id := by
  unfold ahead
  rcases hw with hpend | hnew
  · have hpos : 0 < r.pending.countP fun q => decide (q.2 = c) :=
      List.countP_pos_iff.mpr ⟨_, hpend, by simp⟩
    omega
  · have hpos : 0 < r.entries.countP fun x => decide (r.cursor < x.id ∧ x.id ≤ e.id) :=
      List.countP_pos_iff.mpr ⟨e, he, by simpa using hnew⟩
    omega

theorem Waits.same (hw : Waits r c id) (h : Same r r') : Waits r' c id := by
  rcases hw with hpend | hnew
  · exact .inl (h.pending ▸ hpend)
  · exact .inr (h.cursor ▸ hnew)

theorem detour_congr (h : r'.pending = r.pending) : detour r' c id pc = detour r c id pc := by
  cases pc with
  | batch todo => cases todo <;> simp only [detour, h]
  | _ => simp only [detour, h]

/-- Where the entries, the cursor and the pending list stay, the loop's position decides. -/
theorem distance_same (h : Same r r') {n : ℕ}
    (hlt : rank pc' + detour r c id pc' < rank pc + detour r c id pc + n) :
    distance r' c id pc' < distance r c id pc + n := by
  have hahead : ahead r' c id = ahead r c id := by
    simp only [ahead, h.entries, h.cursor, h.pending]
  rw [distance, distance, hahead, detour_congr h.pending]
  omega

theorem distance_xadd {x : Request κ} (he : r'.entries = r.entries ++ [x])
    (hc : r'.cursor = r.cursor) (hp : r'.pending = r.pending) (hlt : id < x.id) :
    distance r' c id pc = distance r c id pc := by
  have hahead : ahead r' c id = ahead r c id := by simp [ahead, he, hc, hp, hlt]
  rw [distance, distance, hahead, detour_congr hp]

/-- Reading a new entry brings one more that was given, and one less that is new if the request
itself is new. -/
theorem ahead_newRead {x : Request κ} (hr : NewRead r c x r') :
    ahead r' c id ≤ ahead r c id + 1 ∧ (r.cursor < id → ∀ e ∈ r.entries, e.id = id →
      ahead r' c id ≤ ahead r c id) := by
  have hless : ∀ a ∈ r.entries, decide (r'.cursor < a.id ∧ a.id ≤ id) = true →
      decide (r.cursor < a.id ∧ a.id ≤ id) = true := by
    intro a _ ha
    rw [decide_eq_true_eq, hr.cursor] at ha
    exact decide_eq_true ⟨hr.behind.trans ha.1, ha.2⟩
  have hgiven : r'.pending.countP (fun q => decide (q.2 = c)) =
      r.pending.countP (fun q => decide (q.2 = c)) + 1 := by
    simp [hr.pending]
  have hmono := List.countP_mono_left hless
  constructor
  · simp only [ahead, hr.entries, hgiven]
    omega
  · rintro hid e he rfl
    have hlt := countP_lt hless hr.mem (by simpa using ⟨hr.behind, hr.first e he hid⟩)
      (by simp [hr.cursor])
    simp only [ahead, hr.entries, hgiven]
    omega

theorem Waits.newRead {x e : Request κ} (hw : Waits r c e.id) (hr : NewRead r c x r')
    (he : e ∈ r.entries) : Waits r' c e.id := by
  rcases hw with hpend | hnew
  · refine .inl ?_
    rw [hr.pending]
    exact List.mem_append_left _ hpend
  · rcases (hr.first e he hnew).eq_or_lt with heq | hlt
    · refine .inl ?_
      rw [hr.pending, ← heq]
      simp
    · refine .inr ?_
      rw [hr.cursor]
      exact WithBot.coe_lt_coe.mpr hlt

/-- A new entry is read, and comes into the loop's hand or is lost with the reply. -/
theorem distance_newRead {x e : Request κ} (hr : NewRead r c x r') (he : e ∈ r.entries)
    (hw : Waits r c e.id) {n : ℕ} (hlt : rank pc' < 5 + n) (hpc : detour r' c e.id pc' = 0) :
    distance r' c e.id pc' < distance r c e.id .newRead + n := by
  obtain ⟨hone, hnone⟩ := @ahead_newRead _ _ r r' c e.id x hr
  rw [distance, distance, hpc, rank, detour]
  by_cases hpend : (e.id, c) ∈ r.pending
  · rw [if_pos hpend]
    omega
  · have hnew := hnone (hw.resolve_left hpend) e he rfl
    rw [if_neg hpend]
    omega

theorem Waits.xack {x : κ} (hw : Waits r c id) (hne : x ≠ id) : Waits (r.xack x) c id := by
  rcases hw with hpend | hnew
  · refine .inl ?_
    rw [xack_pending]
    exact List.mem_filter.mpr ⟨hpend, by simpa using hne.symm⟩
  · exact .inr (by rwa [xack_cursor])

/-- An acknowledgement leaves one less, if the entry was given to the loop. -/
theorem ahead_xack {x : κ} : ahead (r.xack x) c id ≤ ahead r c id ∧
    ((x, c) ∈ r.pending → ahead (r.xack x) c id < ahead r c id) := by
  have hkeep : ∀ q ∈ r.pending, (decide (q.2 = c) && decide (q.1 ≠ x)) = true →
      decide (q.2 = c) = true := by
    intro q _ hq
    exact (Bool.and_eq_true_iff.mp hq).1
  have hentries : (r.xack x).entries = r.entries := rfl
  have hmono := List.countP_mono_left hkeep
  constructor
  · simp only [ahead, xack_pending, xack_cursor, hentries, List.countP_filter]
    omega
  · intro hx
    have hlt := countP_lt hkeep hx (by simp) (by simp)
    simp only [ahead, xack_pending, xack_cursor, hentries, List.countP_filter]
    omega

theorem distance_xack {x : Request κ} {rest : List (Request κ)} :
    distance (r.xack x.id) c id (.batch []) < distance r c id (.ack x rest) := by
  obtain ⟨hle, hlt⟩ := @ahead_xack _ _ r c id x.id
  simp only [distance, rank, detour]
  split
  · next hpend =>
    have hless := hlt hpend
    omega
  · omega

end Counts

section Steps

variable {S : OperatorSettings} {loads : String → Loads} {s t : Operator κ} {p q : Process κ}
  {e : Request κ} {es : List (LoopEvent κ)}

/-- What a fault may cost. -/
def faultCost (f : CallFault) : ℕ := if f = .none then 0 else 8

/-- The loop's own steps: without a fault each leaves a shorter way to the acknowledgement. -/
theorem io_nearer {r' : Redis κ} {f : CallFault} {evs : List (LogEvent κ)}
    (hio : IoStep S loads s.redis p f r' (some q) evs) (hone : (held p.pc).length ≤ 1)
    (hstop : p.stop = false) (hgo : p.pc = .pendingRead → q.pc ≠ .top)
    (he : e ∈ s.redis.entries) (hw : Waits s.redis p.consumer e.id)
    (hack : .acked e.id ∉ evs) :
    Waits r' p.consumer e.id ∧ distance r' p.consumer e.id q.pc <
      distance s.redis p.consumer e.id p.pc + faultCost f := by
  cases hio with
  | enter h =>
    refine ⟨hw, distance_same (.refl _) ?_⟩
    simp only [h, rank, detour]
    omega
  | pendingEmpty h hr hno hto =>
    refine ⟨hw.same hr, distance_same hr ?_⟩
    rcases hto with rfl | rfl
    · exact absurd rfl (hgo h)
    · simp only [h, rank, detour]
      by_cases hf : f = .none
      · rw [if_neg fun hpend => hno hf _ hpend rfl]
        omega
      · rw [faultCost, if_neg hf]
        split
        · omega
        · omega
  | pendingEntry h hr _ hpend =>
    refine ⟨hw.same hr, distance_same hr ?_⟩
    simp only [h, rank, detour, if_pos hpend]
    omega
  | newEmpty h hr hno =>
    refine ⟨hw.same hr, distance_same hr ?_⟩
    simp only [h, rank, detour]
    by_cases hf : f = .none
    · have hpend : (e.id, p.consumer) ∈ s.redis.pending :=
        hw.resolve_right (not_lt.mpr (hno hf e he))
      rw [if_pos hpend]
      omega
    · rw [faultCost, if_neg hf]
      omega
  | newLost h hr =>
    rw [h]
    exact ⟨hw.newRead hr he, distance_newRead hr he hw (by simp [rank, faultCost]) rfl⟩
  | newEntry h hr =>
    rw [h]
    refine ⟨hw.newRead hr he, distance_newRead hr he hw ?_ ?_⟩
    · simp only [rank]
      omega
    · simp [detour, hr.pending]
  | batchLeft h hs =>
    obtain rfl := hs.resolve_right (by simp [hstop])
    refine ⟨hw, distance_same (.refl _) ?_⟩
    simp only [h, rank, detour]
    omega
  | rejected h | expired h | began h | executed h | written h =>
    refine ⟨hw, distance_same (.refl _) ?_⟩
    simp only [h, rank, detour]
    omega
  | @acked _ x rest h =>
    have hne : x.id ≠ e.id := by
      rintro heq
      exact hack (by simp [heq])
    rw [h] at hone
    obtain rfl : rest = [] := by simpa [held] using hone
    rw [h]
    exact ⟨hw.xack hne, distance_xack.trans_le (Nat.le_add_right _ _)⟩
  | @ackRefused x rest h =>
    rw [h] at hone
    obtain rfl : rest = [] := by simpa [held] using hone
    refine ⟨hw, distance_same (.refl _) ?_⟩
    simp only [h, rank, detour, faultCost]
    split
    · simp
    · simp

/-- A loop that was not told to stop reads new entries after it found nothing pending. -/
theorem pendingRead_goes {r r' : Redis κ} {f : CallFault} {nowMs : ℤ} {outcome : Dumps}
    {evs : List (LogEvent κ)} (h : io S loads nowMs outcome f r p = some (r', some q, evs))
    (hstop : p.stop = false) (hpc : p.pc = .pendingRead) : q.pc ≠ .top := by
  simp only [io, hpc, Option.map_eq_some_iff] at h
  obtain ⟨a, -, h⟩ := h
  split at h
  · obtain ⟨-, rfl, -⟩ : _ ∧ { p with pc := _ } = q ∧ _ := by simpa using h
    simp
  · obtain ⟨-, rfl, -⟩ : _ ∧ { p with pc := _ } = q ∧ _ := by simpa using h
    simp [hstop]

theorem io_entries {r r' : Redis κ} {f : CallFault} {p' : Option (Process κ)}
    {evs : List (LogEvent κ)} (hio : IoStep S loads r p f r' p' evs) : r'.entries = r.entries := by
  cases hio with
  | pendingEmpty _ hr | pendingEntry _ hr | newEmpty _ hr => exact hr.entries
  | newLost _ hr | newEntry _ hr => exact hr.entries
  | _ => rfl

theorem io_keeps {r r' : Redis κ} {f : CallFault} {evs : List (LogEvent κ)}
    (hio : IoStep S loads r p f r' (some q) evs) : q.consumer = p.consumer ∧ q.stop = p.stop := by
  cases hio with
  | _ => exact ⟨rfl, rfl⟩

/-- While a request waits, a step of a loop that runs on acknowledges it or brings it nearer. -/
theorem step_nearer {ev : LoopEvent κ}
    (hs : Reachable InitialOperator (ofStep (step S loads)) s) (hp : s.process = some p)
    (hstop : p.stop = false) (he : e ∈ s.redis.entries) (hw : Waits s.redis p.consumer e.id)
    (hon : runsOn ev = true) (hstep : step S loads s ev = some t) (hq : t.process = some q) :
    q.consumer = p.consumer ∧ q.stop = false ∧
      ∃ new, t.history = new ++ s.history ∧ (.acked e.id ∈ new ∨
        Waits t.redis p.consumer e.id ∧
          distance t.redis p.consumer e.id q.pc + (if isStep ev then 1 else 0) ≤
            distance s.redis p.consumer e.id p.pc + 8 * if isFaulty ev then 1 else 0) := by
  cases ev with
  | xadd id fields =>
    obtain ⟨r, hr, rfl⟩ := Option.map_eq_some_iff.mp hstep
    obtain ⟨hlt, hent, hc, hpend, -⟩ := xadd_ok hr
    obtain rfl : p = q := Option.some.inj (hp.symm.trans hq)
    refine ⟨rfl, hstop, [], rfl, .inr ⟨?_, ?_⟩⟩
    · rcases hw with hgiven | hnew
      · exact .inl (hpend ▸ hgiven)
      · exact .inr (hc ▸ hnew)
    · rw [distance_xadd hent hc hpend (hlt e he)]
      exact Nat.le_add_right _ _
  | io nowMs outcome f =>
    obtain ⟨p', hp', h⟩ := Option.bind_eq_some_iff.mp hstep
    obtain rfl : p = p' := Option.some.inj (hp.symm.trans hp')
    obtain ⟨⟨r', p'', evs⟩, ha, rfl⟩ := Option.map_eq_some_iff.mp h
    obtain rfl : p'' = some q := hq
    have hio := io_cases ha
    obtain ⟨hconsumer, hstop'⟩ := io_keeps hio
    refine ⟨hconsumer, hstop'.trans hstop, evs, rfl, ?_⟩
    by_cases hack : .acked e.id ∈ evs
    · exact .inl hack
    · obtain ⟨hwaits, hlt⟩ := io_nearer hio (one_held hs p hp) hstop (pendingRead_goes ha hstop)
        he hw hack
      refine .inr ⟨hwaits, ?_⟩
      have hcost : faultCost f =
          8 * if isFaulty (.io nowMs outcome f : LoopEvent κ) then 1 else 0 := by
        cases f <;> rfl
      rw [← hcost]
      exact hlt
  | destroyGroup | start | setStop | crash => cases hon

theorem none_run (hr : Run (ofStep (step S loads)) s es t) (hon : ∀ ev ∈ es, runsOn ev = true)
    (hnone : s.process = none) : t.process = none := by
  induction hr with
  | nil => exact hnone
  | @cons s u _ ev es head _ ih =>
    obtain ⟨hev, hrest⟩ := List.forall_mem_cons.mp hon
    refine ih hrest ?_
    have hstep : step S loads s ev = some u := head
    cases ev with
    | xadd =>
      obtain ⟨r, -, rfl⟩ := Option.map_eq_some_iff.mp hstep
      exact hnone
    | io => simp [step, hnone] at hstep
    | destroyGroup | start | setStop | crash => cases hev

theorem history_run (hr : Run (ofStep (step S loads)) s es t) :
    ∃ new, t.history = new ++ s.history := by
  refine hr.preserves (P := fun u => ∃ new, u.history = new ++ s.history) ?_ ⟨[], rfl⟩
  rintro u ev v ⟨new, hnew⟩ hstep
  cases step_cases hstep with
  | xadd | destroyGroup | start | setStop => exact ⟨new, hnew⟩
  | @crash p => exact ⟨p.cutEvents ++ new, by rw [hnew, List.append_assoc]⟩
  | @io _ _ _ _ _ _ evs => exact ⟨evs ++ new, by rw [hnew, List.append_assoc]⟩

theorem entries_run (hr : Run (ofStep (step S loads)) s es t) (he : e ∈ s.redis.entries) :
    e ∈ t.redis.entries := by
  refine hr.preserves (P := fun u => e ∈ u.redis.entries) ?_ he
  intro u ev v hu hstep
  cases step_cases hstep with
  | xadd _ hent =>
    rw [hent]
    exact List.mem_append_left _ hu
  | io _ hio =>
    rw [io_entries hio]
    exact hu
  | destroyGroup | start | setStop | crash => exact hu

theorem run_nearer (hr : Run (ofStep (step S loads)) s es t)
    (hs : Reachable InitialOperator (ofStep (step S loads)) s) (hp : s.process = some p)
    (hstop : p.stop = false) (he : e ∈ s.redis.entries) (hw : Waits s.redis p.consumer e.id)
    (hon : ∀ ev ∈ es, runsOn ev = true) (hq : t.process = some q) :
    ∃ new, t.history = new ++ s.history ∧ (.acked e.id ∈ new ∨
      Waits t.redis p.consumer e.id ∧
        distance t.redis p.consumer e.id q.pc + es.countP isStep ≤
          distance s.redis p.consumer e.id p.pc + 8 * es.countP isFaulty) := by
  induction hr generalizing p with
  | nil s =>
    obtain rfl : p = q := Option.some.inj (hp.symm.trans hq)
    exact ⟨[], rfl, .inr ⟨hw, le_rfl⟩⟩
  | @cons s u t ev es head tail ih =>
    obtain ⟨hev, hrest⟩ := List.forall_mem_cons.mp hon
    cases hu : u.process with
    | none =>
      rw [none_run tail hrest hu] at hq
      cases hq
    | some p' =>
      have he' := entries_run (.single head) he
      obtain ⟨hconsumer, hstop', new, hnew, hcase⟩ :=
        step_nearer hs hp hstop he hw hev head hu
      rcases hcase with hack | ⟨hw', hle⟩
      · obtain ⟨later, hlater⟩ := history_run tail
        refine ⟨later ++ new, by rw [hlater, hnew, List.append_assoc], .inl ?_⟩
        exact List.mem_append_right _ hack
      · rw [← hconsumer] at hw' hle
        obtain ⟨later, hlater, hcase⟩ := ih (hs.run (.single head)) hu hstop' he' hw' hrest hq
        refine ⟨later ++ new, by rw [hlater, hnew, List.append_assoc], ?_⟩
        rcases hcase with hack | ⟨hw'', hle'⟩
        · exact .inl (List.mem_append_left _ hack)
        · rw [hconsumer] at hw'' hle hle'
          refine .inr ⟨hw'', ?_⟩
          rw [List.countP_cons, List.countP_cons]
          omega

theorem recover_ne_none {α : Type} {read : Redis κ → Option α} {r : Redis κ}
    (h : read r.createGroup ≠ none) : xreadgroupRecoverNogroup read r ≠ none := by
  unfold xreadgroupRecoverNogroup
  split
  · simp
  · exact h

theorem readNew_ne_none {r : Redis κ} {c : String} : r.createGroup.readNew c ≠ none := by
  unfold readNew
  split
  · next hg => cases hg
  · split
    · simp
    · simp

theorem io_ne_none (r : Redis κ) (p : Process κ) (nowMs : ℤ) (outcome : Dumps)
    (f : CallFault) : io S loads nowMs outcome f r p ≠ none := by
  cases hpc : p.pc with
  | top => simp [io, hpc]
  | pendingRead =>
    simp only [io, hpc, ne_eq, Option.map_eq_none_iff]
    exact recover_ne_none (by simp [readPending, createGroup])
  | newRead =>
    simp only [io, hpc, ne_eq, Option.map_eq_none_iff]
    exact recover_ne_none readNew_ne_none
  | batch todo =>
    cases todo with
    | nil => simp [io, hpc]
    | cons e rest =>
      simp only [io, hpc]
      split
      · simp
      · split
        all_goals simp
  | execute e msg rest =>
    simp only [io, hpc]
    split
    · simp
    · simp
  | writeResult => cases f <;> simp [io, hpc]
  | ack => cases f <;> simp [io, hpc]

/-- The next step of the loop is always possible: a read creates the group if it is missing. -/
theorem exists_io (hp : s.process = some p) (nowMs : ℤ) (outcome : Dumps) (f : CallFault) :
    ∃ t, step S loads s (.io nowMs outcome f) = some t := by
  obtain ⟨a, ha⟩ := Option.ne_none_iff_exists'.mp
    (@io_ne_none _ _ S loads s.redis p nowMs outcome f)
  simp [step, hp, ha]

theorem rank_add_detour_le (r : Redis κ) (c : String) (id : κ) (pc : Pc κ) :
    rank pc + detour r c id pc ≤ 13 := by
  cases pc with
  | batch todo =>
    cases todo with
    | nil => simp [rank, detour]
    | cons => simp only [rank, detour]; split <;> simp
  | top | pendingRead => simp [rank, detour]
  | newRead | execute | writeResult | ack => simp only [rank, detour]; split <;> simp

/-- An entry that waits is acknowledged within eight steps for itself, for each entry ahead of it
and for each call that fails, and five more, if the loop runs on; and it is answered if the parser
accepts it. -/
theorem answered_in_time (hs : Reachable InitialOperator (ofStep (step S loads)) s)
    (hp : s.process = some p) (hstop : p.stop = false) (he : e ∈ s.redis.entries)
    (hw : Waits s.redis p.consumer e.id) (hr : Run (ofStep (step S loads)) s es t)
    (hon : ∀ ev ∈ es, runsOn ev = true) (hlive : t.process ≠ none)
    (hsteps : 8 * (ahead s.redis p.consumer e.id + es.countP isFaulty) + 5 ≤ es.countP isStep) :
    ∃ later, t.history = later ++ s.history ∧ .acked e.id ∈ later ∧
      ((∃ m, Accepted loads e m) → Answered S t.history e) := by
  obtain ⟨q, hq⟩ := Option.ne_none_iff_exists'.mp hlive
  obtain ⟨later, hlater, hcase⟩ := run_nearer hr hs hp hstop he hw hon hq
  have he' := entries_run hr he
  rcases hcase with hack | ⟨hw', hle⟩
  · refine ⟨later, hlater, hack, fun hm => ?_⟩
    have ht := hs.run hr
    obtain ⟨l₁, l₂, hsplit⟩ := List.append_of_mem hack
    have hsuffix : .acked e.id :: (l₂ ++ s.history) <:+ t.history := by
      rw [hlater, hsplit, List.append_assoc]
      exact List.suffix_append _ _
    have hans := (answered_iff_accepted ht he' hsuffix).mpr hm
    exact hans.mono fun ev hev => hsuffix.subset (List.mem_cons_of_mem _ hev)
  · have hpos := ahead_pos he' hw'
    have hrank := rank_pos q.pc
    have hstart := rank_add_detour_le s.redis p.consumer e.id p.pc
    simp only [distance] at hle
    omega

end Steps

def pingAdded : Operator StreamId :=
  ((runOnce "ping" 0).foldlM (step defaultSettings noPayload) emptyOperator).getD emptyOperator

theorem pingAdded_reachable :
    Reachable InitialOperator (ofStep (step defaultSettings noPayload)) pingAdded := by
  obtain ⟨s, hs⟩ := Option.isSome_iff_exists.mp (show ((runOnce "ping" 0).foldlM
    (step defaultSettings noPayload) emptyOperator).isSome = true by decide +kernel)
  refine ⟨emptyOperator, runOnce "ping" 0, initialOperator_emptyOperator, .ofFold ?_⟩
  rw [pingAdded, hs, Option.getD_some]

/-- The first read fails, and the ping is acknowledged within the next twenty steps. -/
theorem answered_in_time_failed_read : ∃ t : Operator StreamId,
    Run (ofStep (step defaultSettings noPayload)) pingAdded
      (passes 1 (.text "1") ++ [.io 0 (.text "1") .before] ++ passes 19 (.text "1")) t ∧
      Answered defaultSettings t.history (requestEntry "ping") := by
  obtain ⟨t, hr, hlive⟩ := Run.ofFold_satisfies (step defaultSettings noPayload) pingAdded
    (passes 1 (.text "1") ++ [.io 0 (.text "1") .before] ++ passes 19 (.text "1"))
    (fun t => t.process.isSome = true) (by decide +kernel)
  obtain ⟨p, hp, hfresh⟩ := (Option.any_eq_true (fun p => decide (p.stop = false ∧
    p.consumer = "pod-7")) pingAdded.process).mp (by decide +kernel)
  obtain ⟨hstop, hconsumer⟩ := of_decide_eq_true hfresh
  have hwaits : Waits pingAdded.redis p.consumer (requestEntry "ping").id := by
    refine .inr ?_
    decide +kernel
  have hahead : ahead pingAdded.redis p.consumer (requestEntry "ping").id = 1 := by
    rw [hconsumer]
    decide +kernel
  obtain ⟨later, -, -, hanswered⟩ := answered_in_time pingAdded_reachable hp hstop
    (by decide +kernel) hwaits hr (by decide) (by simpa [Option.isSome_iff_ne_none] using hlive)
    (by rw [hahead]; decide)
  exact ⟨t, hr, hanswered ⟨_, rfl⟩⟩

end BifrostSocket.BoundedWaits
