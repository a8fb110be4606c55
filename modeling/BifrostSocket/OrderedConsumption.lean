import BifrostSocket.AnsweredRequests

/-!
# Order, reply before acknowledgement and exactly-once handling

With Redis calls that succeed, a group that stays and one consumer name, the loop works on
one entry at a time: at most the entry under the cursor is pending, every earlier one is
handled to the end, and what the history holds of an entry since the last crash is the
part of a single handling that the loop's position tells.
-/

namespace BifrostSocket.OrderedConsumption
open TransitionRuns ConsumerGroups ConsumerGroups.GroupStream OperatorProtocol OperatorLoops
open AnsweredRequests

variable {κ : Type}

/-- How far the handling of an entry has come. -/
inductive Point (κ : Type) where
  | fresh
  | execute (m : CommandMessage κ)
  | write (key body : String)
  | ack
  | done

/-- The events, newest first, of a handling that has come to a point. -/
inductive Progress (S : OperatorSettings) (loads : String → Loads) (e : Request κ) :
    Point κ → List (LogEvent κ) → Prop where
  | fresh : Progress S loads e .fresh []
  | began {m nowMs} (hm : Accepted loads e m) (hexp : m.isExpired nowMs = false) :
      Progress S loads e (.execute m) [.began e.id nowMs]
  | expired {m nowMs} (hm : Accepted loads e m) (hexp : m.isExpired nowMs = true) :
      Progress S loads e (.write (resultKeyOf S e) S.expiredBody) [.began e.id nowMs]
  | executed {m outcome body l} (hl : Progress S loads e (.execute m) l)
      (hb : S.outcomeBody outcome = .ok body) :
      Progress S loads e (.write (resultKeyOf S e) body) (.executed e.id outcome :: l)
  | answered {key body l} (hl : Progress S loads e (.write key body) l) :
      Progress S loads e .ack (.answered e.id key body :: l)
  | rejected {reason} (hno : ∀ m, ¬ Accepted loads e m) :
      Progress S loads e .ack [.rejected e.id reason]
  | acked {l} (hl : Progress S loads e .ack l) : Progress S loads e .done (.acked e.id :: l)

/-- A whole handling of an accepted entry: past its deadline it is answered with the
deadline's error and without execution, else executed and answered with the outcome. -/
inductive Handling (S : OperatorSettings) (e : Request κ) (m : CommandMessage κ) :
    List (LogEvent κ) → Prop where
  | expired {nowMs deadline} (hdeadline : m.deadlineMs = some deadline) (hlate : deadline < nowMs) :
      Handling S e m
        [.acked e.id, .answered e.id (resultKeyOf S e)
          "\x7b\"ok\":false,\"error\":\"deadline_expired\"\x7d", .began e.id nowMs]
  | executed {nowMs outcome body}
      (hintime : ∀ deadline, m.deadlineMs = some deadline → nowMs ≤ deadline)
      (hb : S.outcomeBody outcome = .ok body) : Handling S e m
      [.acked e.id, .answered e.id (resultKeyOf S e) body, .executed e.id outcome,
        .began e.id nowMs]

section Handlings

variable {S : OperatorSettings} {loads : String → Loads} {e : Request κ} {m : CommandMessage κ}
  {l : List (LogEvent κ)}

theorem Progress.fresh_nil (h : Progress S loads e .fresh l) : l = [] := by
  cases h
  rfl

theorem Handling.of_expired {nowMs : ℤ} (hexp : m.isExpired nowMs = true) : Handling S e m
    [.acked e.id, .answered e.id (resultKeyOf S e) S.expiredBody, .began e.id nowMs] := by
  obtain ⟨deadline, hdeadline, hlate⟩ := CommandMessage.isExpired_iff.mp hexp
  rw [OperatorSettings.expiredBody_eq]
  exact .expired hdeadline hlate

theorem Progress.execute_accepted (h : Progress S loads e (.execute m) l) : Accepted loads e m := by
  cases h with
  | began hm => exact hm

/-- The handling of an accepted entry that has come to the end is a whole one. -/
theorem Progress.handling (h : Progress S loads e .done l) (hm : Accepted loads e m) :
    Handling S e m l := by
  cases h with
  | acked hl => cases hl with
    | rejected hno => exact absurd hm (hno m)
    | answered hl => cases hl with
      | expired hm' hexp =>
        obtain rfl := hm.unique hm'
        exact .of_expired hexp
      | executed hl hb => cases hl with
        | began hm' hexp =>
          obtain rfl := hm.unique hm'
          exact .executed (CommandMessage.not_isExpired_iff.mp hexp) hb

theorem Progress.handling_suffix {pt : Point κ} (h : Progress S loads e pt l)
    (hm : Accepted loads e m) : ∃ l', Handling S e m l' ∧ l <:+ l' := by
  have hbody : ∃ body, S.outcomeBody (.encodeError "") = .ok body := ⟨_, rfl⟩
  obtain ⟨body, hb⟩ := hbody
  cases h with
  | fresh =>
    cases hexp : m.isExpired 0 with
    | true => exact ⟨_, .of_expired hexp, List.nil_suffix⟩
    | false =>
      have hintime := CommandMessage.not_isExpired_iff.mp hexp
      exact ⟨_, .executed hintime hb, List.nil_suffix⟩
  | began hm' hexp =>
    obtain rfl := hm.unique hm'
    have hintime := CommandMessage.not_isExpired_iff.mp hexp
    exact ⟨_, .executed hintime hb, List.suffix_append [_, _, _] [_]⟩
  | expired hm' hexp =>
    obtain rfl := hm.unique hm'
    exact ⟨_, .of_expired hexp, List.suffix_append [_, _] [_]⟩
  | executed hl hb' => cases hl with
    | began hm' hexp =>
      obtain rfl := hm.unique hm'
      have hintime := CommandMessage.not_isExpired_iff.mp hexp
      exact ⟨_, .executed hintime hb', List.suffix_append [_, _] [_, _]⟩
  | answered hl =>
    exact ⟨_, (Progress.acked (.answered hl)).handling hm, List.suffix_cons _ _⟩
  | rejected hno => exact absurd hm (hno m)
  | acked hl => exact ⟨_, (Progress.acked hl).handling hm, List.suffix_refl _⟩

theorem Handling.answered (h : Handling S e m l) : .acked e.id ∈ l ∧ Answered S l e := by
  cases h with
  | expired => exact ⟨by simp, _, List.mem_cons_of_mem _ List.mem_cons_self⟩
  | executed => exact ⟨by simp, _, List.mem_cons_of_mem _ List.mem_cons_self⟩

end Handlings

def pcPoint : Pc κ → Point κ
  | .execute _ m _ => .execute m
  | .writeResult _ key body _ => .write key body
  | .ack _ _ => .ack
  | .top | .pendingRead | .newRead | .batch _ => .fresh

def pointOf (p : Option (Process κ)) : Point κ := p.elim .fresh fun p => pcPoint p.pc

variable [LinearOrder κ]

section Traces

def eventsOf (id : κ) (history : List (LogEvent κ)) : List (LogEvent κ) :=
  history.filter fun ev => decide (ev.id = id)

/-- The events of one entry since its handling was last cut. -/
def sinceCut (id : κ) : List (LogEvent κ) → List (LogEvent κ)
  | [] => []
  | ev :: earlier =>
    if ev.id = id then
      if ev = .cut id then [] else ev :: sinceCut id earlier
    else sinceCut id earlier

variable {id : κ} {ev : LogEvent κ} {h : List (LogEvent κ)}

theorem sinceCut_other (hne : ev.id ≠ id) : sinceCut id (ev :: h) = sinceCut id h := by
  rw [sinceCut, if_neg hne]

theorem sinceCut_self (hid : ev.id = id) (hcut : ev ≠ .cut id) :
    sinceCut id (ev :: h) = ev :: sinceCut id h := by
  rw [sinceCut, if_pos hid, if_neg hcut]

@[simp] theorem sinceCut_cut : sinceCut id (.cut id :: h) = [] := by
  simp [sinceCut, LogEvent.id]

theorem sinceCut_append_other {evs : List (LogEvent κ)} (hne : ∀ ev ∈ evs, ev.id ≠ id) :
    sinceCut id (evs ++ h) = sinceCut id h := by
  induction evs with
  | nil => rfl
  | cons ev evs ih =>
    rw [List.cons_append, sinceCut_other (hne ev List.mem_cons_self)]
    exact ih fun x hx => hne x (List.mem_cons_of_mem _ hx)

theorem sinceCut_untouched (hne : ∀ ev ∈ h, ev.id ≠ id) : sinceCut id h = [] := by
  have happ := sinceCut_append_other (h := []) hne
  rwa [List.append_nil] at happ

theorem sinceCut_subset : sinceCut id h ⊆ h := by
  induction h with
  | nil => exact List.Subset.refl _
  | cons ev h ih =>
    rw [sinceCut]
    split
    · split
      · exact List.nil_subset _
      · exact List.cons_subset_cons _ ih
    · exact List.subset_cons_of_subset _ ih

/-- An entry whose handling was never cut keeps all its events. -/
theorem sinceCut_uncut (hcut : .cut id ∉ h) : sinceCut id h = eventsOf id h := by
  induction h with
  | nil => rfl
  | cons ev h ih =>
    obtain ⟨hne, hh⟩ : .cut id ≠ ev ∧ .cut id ∉ h := by simpa using hcut
    by_cases hid : ev.id = id
    · rw [sinceCut_self hid (Ne.symm hne), ih hh]
      simp [eventsOf, hid]
    · rw [sinceCut_other hid, ih hh]
      simp [eventsOf, hid]

end Traces

/-- At most one entry is pending, and the entry in hand is the pending one. -/
def InHand (r : Redis κ) : Pc κ → Prop
  | .top | .pendingRead => True
  | .newRead => r.pending = []
  | .batch todo => todo = [] ∨ ∃ e c, todo = [e] ∧ e ∈ r.entries ∧ r.pending = [(e.id, c)]
  | .execute e _ rest | .writeResult e _ _ rest | .ack e rest =>
    rest = [] ∧ e ∈ r.entries ∧ ∃ c, r.pending = [(e.id, c)]

/-- The pending entry is the last one delivered, not acknowledged, and its handling stands
where the process does. -/
structure PendingEntry (S : OperatorSettings) (loads : String → Loads) (c : String)
    (s : Operator κ) (e : Request κ) : Prop where
  mem : e ∈ s.redis.entries
  pending : s.redis.pending = [(e.id, c)]
  cursor : s.redis.cursor = e.id
  unacked : .acked e.id ∉ s.history
  progress : Progress S loads e (pointOf s.process) (sinceCut e.id s.history)

structure Invariant (S : OperatorSettings) (loads : String → Loads) (c : String)
    (s : Operator κ) : Prop where
  single : (s.redis.pending = [] ∧ pointOf s.process = .fresh) ∨
    ∃ e, PendingEntry S loads c s e
  handled : ∀ e ∈ s.redis.entries, (e.id : WithBot κ) ≤ s.redis.cursor →
    (∀ p ∈ s.redis.pending, p.1 ≠ e.id) → Progress S loads e .done (sinceCut e.id s.history)
  below : ∀ ev ∈ s.history, (ev.id : WithBot κ) ≤ s.redis.cursor
  ordered : (s.history.map LogEvent.id).Pairwise (· ≥ ·)
  process : ∀ p ∈ s.process, p.consumer = c ∧ InHand s.redis p.pc

/-- Redis calls succeed, the group stays, and every process takes the same consumer name. -/
def Uninterrupted (c : String) : Operator κ → LoopEvent κ → Prop
  | _, .io _ _ fault => fault = .none
  | _, .destroyGroup => False
  | _, .start consumer => consumer = c
  | _, .xadd _ _ | _, .setStop | _, .crash => True

section Steps

variable {S : OperatorSettings} {loads : String → Loads} {c : String} {s t : Operator κ}

theorem invariant_initial (h : InitialOperator s) : Invariant S loads c s := by
  obtain ⟨hr, hp, hh⟩ := h
  refine ⟨.inl ⟨by rw [hr]; rfl, by rw [hp]; rfl⟩, ?_, ?_, ?_, ?_⟩
  · simp [hr, GroupStream.empty]
  · simp [hh]
  · simp [hh]
  · simp [hp]

theorem InHand.same {r r' : Redis κ} (hr : Same r r') {pc : Pc κ} (h : InHand r pc) :
    InHand r' pc := by
  unfold InHand at h ⊢
  rw [hr.pending, hr.entries]
  exact h

/-- A step without events that leaves entries, cursor and pending list as they are. -/
theorem Invariant.move (inv : Invariant S loads c s) {r' : Redis κ} {p' : Option (Process κ)}
    (hr : Same s.redis r') (hpt : pointOf p' = pointOf s.process)
    (hproc : ∀ p ∈ p', p.consumer = c ∧ InHand s.redis p.pc) :
    Invariant S loads c ⟨r', p', s.history⟩ where
  single := by
    rcases inv.single with ⟨hnone, hfresh⟩ | ⟨e, he⟩
    · exact .inl ⟨by rw [hr.pending, hnone], by rw [hpt, hfresh]⟩
    · refine .inr ⟨e, ?_, ?_, ?_, he.unacked, ?_⟩
      · rw [hr.entries]
        exact he.mem
      · rw [hr.pending, he.pending]
      · rw [hr.cursor, he.cursor]
      · rw [hpt]
        exact he.progress
  handled := by
    rw [hr.entries, hr.cursor, hr.pending]
    exact inv.handled
  below := by
    rw [hr.cursor]
    exact inv.below
  ordered := inv.ordered
  process p hp := ⟨(hproc p hp).1, (hproc p hp).2.same hr⟩

theorem Invariant.log (inv : Invariant S loads c s) {e : Request κ}
    (he : PendingEntry S loads c s e)
    {evs : List (LogEvent κ)} (hid : ∀ ev ∈ evs, ev.id = e.id) (hack : .acked e.id ∉ evs)
    {p' : Option (Process κ)} (hproc : ∀ p ∈ p', p.consumer = c ∧ InHand s.redis p.pc)
    (hprog : Progress S loads e (pointOf p') (sinceCut e.id (evs ++ s.history))) :
    Invariant S loads c ⟨s.redis, p', evs ++ s.history⟩ where
  single := .inr ⟨e, he.mem, he.pending, he.cursor, by simp [hack, he.unacked], hprog⟩
  handled x hx hle hno := by
    have hne : e.id ≠ x.id := hno (e.id, c) (by simp [he.pending])
    rw [sinceCut_append_other fun ev hev => (hid ev hev).trans_ne hne]
    exact inv.handled x hx hle hno
  below ev hev := by
    rcases List.mem_append.mp hev with hev | hev
    · rw [hid ev hev, he.cursor]
    · exact inv.below ev hev
  ordered := by
    rw [List.map_append, List.pairwise_append]
    have heq : ∀ x ∈ evs.map LogEvent.id, x = e.id := by
      intro x hx
      obtain ⟨ev, hev, rfl⟩ := List.mem_map.mp hx
      exact hid ev hev
    refine ⟨?_, inv.ordered, ?_⟩
    · refine List.pairwise_of_forall_mem_list fun x hx y hy => ?_
      rw [heq x hx, heq y hy]
    · intro x hx y hy
      obtain ⟨ev, hev, rfl⟩ := List.mem_map.mp hy
      have hle := inv.below ev hev
      rw [he.cursor, WithBot.coe_le_coe] at hle
      rw [heq x hx]
      exact hle
  process := hproc

theorem Invariant.pendingEntry (inv : Invariant S loads c s) {e : Request κ} {d : String}
    (he : e ∈ s.redis.entries) (hp : (e.id, d) ∈ s.redis.pending) : PendingEntry S loads c s e := by
  rcases inv.single with ⟨hnone, -⟩ | ⟨x, hx⟩
  · simp [hnone] at hp
  · rw [hx.pending] at hp
    have hid : e.id = x.id := by simpa using congrArg Prod.fst (List.mem_singleton.mp hp)
    rwa [entry_unique he hx.mem hid]

theorem Invariant.batchEntry (inv : Invariant S loads c s) {e : Request κ}
    {rest : List (Request κ)} (h : InHand s.redis (.batch (e :: rest))) :
    PendingEntry S loads c s e ∧ rest = [] := by
  rcases h with hnil | ⟨x, d, htodo, hmem, hpend⟩
  · cases hnil
  · obtain ⟨rfl, rfl⟩ := List.cons.inj htodo
    exact ⟨inv.pendingEntry (d := d) hmem (by simp [hpend]), rfl⟩

theorem Invariant.handEntry (inv : Invariant S loads c s) {e : Request κ}
    {rest : List (Request κ)}
    (h : rest = [] ∧ e ∈ s.redis.entries ∧ ∃ d, s.redis.pending = [(e.id, d)]) :
    PendingEntry S loads c s e := by
  obtain ⟨-, hmem, d, hpend⟩ := h
  exact inv.pendingEntry (d := d) hmem (by simp [hpend])

/-- Logging one event of the pending entry moves its handling on. -/
theorem Invariant.logOne (inv : Invariant S loads c s) {e : Request κ}
    (he : PendingEntry S loads c s e) {ev : LogEvent κ} (hid : ev.id = e.id)
    (hack : ev ≠ .acked e.id) (hcut : ev ≠ .cut e.id) {p : Process κ} (hcons : p.consumer = c)
    (hin : InHand s.redis p.pc)
    (hprog : Progress S loads e (pcPoint p.pc) (ev :: sinceCut e.id s.history)) :
    Invariant S loads c ⟨s.redis, some p, ev :: s.history⟩ := by
  have hproc : ∀ q ∈ some p, q.consumer = c ∧ InHand s.redis q.pc := by
    intro q hq
    obtain rfl := Option.some.inj hq
    exact ⟨hcons, hin⟩
  have htrace : sinceCut e.id ([ev] ++ s.history) = ev :: sinceCut e.id s.history :=
    sinceCut_self hid hcut
  have hlogged : Invariant S loads c ⟨s.redis, some p, [ev] ++ s.history⟩ :=
    inv.log he (by simpa using hid) (by simpa using hack.symm) hproc (by rw [htrace]; exact hprog)
  exact hlogged

theorem invariant_xadd (inv : Invariant S loads c s) {id : κ} {fields : ReplyFields} {r : Redis κ}
    (hlt : ∀ e ∈ s.redis.entries, e.id < id)
    (he : r.entries = s.redis.entries ++ [⟨id, fields⟩]) (hc : r.cursor = s.redis.cursor)
    (hp : r.pending = s.redis.pending) : Invariant S loads c { s with redis := r } where
  single := by
    rcases inv.single with ⟨hnone, hfresh⟩ | ⟨e, hx⟩
    · exact .inl ⟨by rw [hp, hnone], hfresh⟩
    · refine .inr ⟨e, ?_, by rw [hp, hx.pending], by rw [hc, hx.cursor], hx.unacked, hx.progress⟩
      rw [he]
      exact List.mem_append_left _ hx.mem
  handled x hx hle hno := by
    rw [he] at hx
    rw [hc] at hle
    rw [hp] at hno
    rcases List.mem_append.mp hx with hx | hx
    · exact inv.handled x hx hle hno
    · obtain rfl := List.mem_singleton.mp hx
      exact absurd hle (not_le.mpr (cursor_lt_new hlt))
  below := by
    rw [hc]
    exact inv.below
  ordered := inv.ordered
  process p hpr := by
    obtain ⟨hcons, hin⟩ := inv.process p hpr
    refine ⟨hcons, ?_⟩
    have hsub : s.redis.entries ⊆ r.entries := by
      rw [he]
      exact List.subset_append_left _ _
    unfold InHand at hin ⊢
    rw [hp]
    cases hpc : p.pc with
    | top => trivial
    | pendingRead => trivial
    | newRead => simpa [hpc] using hin
    | batch todo =>
      simp only [hpc] at hin ⊢
      rcases hin with hnil | ⟨e, d, htodo, hmem, hpend⟩
      · exact .inl hnil
      · exact .inr ⟨e, d, htodo, hsub hmem, hpend⟩
    | execute e m rest =>
      simp only [hpc] at hin ⊢
      exact ⟨hin.1, hsub hin.2.1, hin.2.2⟩
    | writeResult e key body rest =>
      simp only [hpc] at hin ⊢
      exact ⟨hin.1, hsub hin.2.1, hin.2.2⟩
    | ack e rest =>
      simp only [hpc] at hin ⊢
      exact ⟨hin.1, hsub hin.2.1, hin.2.2⟩

/-- With nothing pending, the first entry behind the cursor is delivered: everything up to
it is handled, and nothing was logged of it. -/
theorem invariant_delivered (inv : Invariant S loads c s) {p : Process κ} (hp : s.process = some p)
    (hpc : p.pc = .newRead) {e : Request κ} {r : Redis κ} (hr : NewRead s.redis p.consumer e r) :
    Invariant S loads c ⟨r, some { p with pc := .batch [e] }, s.history⟩ := by
  obtain ⟨hcons, hin⟩ := inv.process p hp
  have hnone : s.redis.pending = [] := by simpa [InHand, hpc] using hin
  have hpend : r.pending = [(e.id, c)] := by rw [hr.pending, hnone, hcons, List.nil_append]
  have hnew : ∀ ev ∈ s.history, (ev.id : WithBot κ) < e.id := fun ev hev =>
    (inv.below ev hev).trans_lt hr.behind
  have huntouched : ∀ ev ∈ s.history, ev.id ≠ e.id := fun ev hev heq => by
    have hlt := hnew ev hev
    rw [heq] at hlt
    exact lt_irrefl _ hlt
  have hmem : e ∈ r.entries := by
    rw [hr.entries]
    exact hr.mem
  refine ⟨.inr ⟨e, hmem, hpend, hr.cursor, ?_, ?_⟩, ?_, ?_, inv.ordered, ?_⟩
  · exact fun hack => huntouched _ hack rfl
  · rw [sinceCut_untouched huntouched]
    exact .fresh
  · intro x hx hle hno
    rw [hr.entries] at hx
    rw [hr.cursor, WithBot.coe_le_coe] at hle
    have hne : e.id ≠ x.id := hno (e.id, c) (by simp [hpend])
    have hold : (x.id : WithBot κ) ≤ s.redis.cursor := by
      by_contra hlt
      exact hne (le_antisymm (hr.first x hx (not_le.mp hlt)) hle)
    exact inv.handled x hx hold (by simp [hnone])
  · intro ev hev
    rw [hr.cursor]
    exact (hnew ev hev).le
  · intro q hq
    obtain rfl := Option.some.inj hq
    exact ⟨hcons, .inr ⟨e, c, rfl, hmem, hpend⟩⟩

theorem invariant_acked (inv : Invariant S loads c s) {p : Process κ} (hp : s.process = some p)
    {e : Request κ} {rest : List (Request κ)} (hpc : p.pc = .ack e rest) :
    Invariant S loads c ⟨s.redis.xack e.id, some { p with pc := .batch rest },
      .acked e.id :: s.history⟩ := by
  obtain ⟨hcons, hin⟩ := inv.process p hp
  obtain ⟨rfl, hmem, d, hpend⟩ : rest = [] ∧ e ∈ s.redis.entries ∧
      ∃ d, s.redis.pending = [(e.id, d)] := by simpa [InHand, hpc] using hin
  have he := inv.pendingEntry hmem (d := d) (by simp [hpend])
  have hnone : (s.redis.xack e.id).pending = [] := by simp [hpend]
  have hprog := he.progress
  rw [hp, pointOf, Option.elim_some, hpc, pcPoint] at hprog
  have hcut : LogEvent.acked e.id ≠ .cut e.id := by simp
  refine ⟨.inl ⟨hnone, rfl⟩, ?_, ?_, ?_, ?_⟩
  · intro x hx hle hno
    by_cases hid : x.id = e.id
    · obtain rfl := entry_unique hx hmem hid
      have htrace : sinceCut x.id (.acked x.id :: s.history) =
          .acked x.id :: sinceCut x.id s.history := sinceCut_self rfl hcut
      simp only [htrace]
      exact .acked hprog
    · rw [sinceCut_other (Ne.symm hid)]
      refine inv.handled x hx (by simpa using hle) ?_
      intro q hq
      obtain rfl : q = (e.id, d) := by simpa [hpend] using hq
      exact Ne.symm hid
  · intro ev hev
    rw [xack_cursor]
    rcases List.mem_cons.mp hev with rfl | hev
    · exact he.cursor.ge
    · exact inv.below ev hev
  · rw [List.map_cons, List.pairwise_cons]
    refine ⟨fun y hy => ?_, inv.ordered⟩
    obtain ⟨ev, hev, rfl⟩ := List.mem_map.mp hy
    have hle := inv.below ev hev
    rwa [he.cursor, WithBot.coe_le_coe] at hle
  · intro q hq
    obtain rfl := Option.some.inj hq
    exact ⟨hcons, .inl rfl⟩

theorem invariant_crash (inv : Invariant S loads c s) {p : Process κ} (hp : s.process = some p) :
    Invariant S loads c { s with process := none, history := p.cutEvents ++ s.history } := by
  obtain ⟨-, hin⟩ := inv.process p hp
  have hpt : pointOf s.process = pcPoint p.pc := by rw [hp]; rfl
  have hcut : ∀ e : Request κ, p.cutEvents = [.cut e.id] → PendingEntry S loads c s e →
      Invariant S loads c { s with process := none, history := p.cutEvents ++ s.history } := by
    intro e hevs he
    rw [hevs]
    refine inv.log he ?_ ?_ (by simp) ?_
    · intro ev hev
      obtain rfl := List.mem_singleton.mp hev
      rfl
    · simp
    · rw [List.singleton_append, sinceCut_cut]
      exact .fresh
  have hidle : p.cutEvents = [] → pcPoint p.pc = .fresh →
      Invariant S loads c { s with process := none, history := p.cutEvents ++ s.history } := by
    intro hevs hfresh
    rw [hevs]
    exact inv.move (.refl _) (by rw [hpt, hfresh]; rfl) (by simp)
  cases hpc : p.pc with
  | top => exact hidle (by simp [Process.cutEvents, hpc]) (by rw [hpc]; rfl)
  | pendingRead => exact hidle (by simp [Process.cutEvents, hpc]) (by rw [hpc]; rfl)
  | newRead => exact hidle (by simp [Process.cutEvents, hpc]) (by rw [hpc]; rfl)
  | batch todo => exact hidle (by simp [Process.cutEvents, hpc]) (by rw [hpc]; rfl)
  | execute e m rest =>
    rw [hpc] at hin
    exact hcut e (by simp [Process.cutEvents, hpc]) (inv.handEntry hin)
  | writeResult e key body rest =>
    rw [hpc] at hin
    exact hcut e (by simp [Process.cutEvents, hpc]) (inv.handEntry hin)
  | ack e rest =>
    rw [hpc] at hin
    exact hcut e (by simp [Process.cutEvents, hpc]) (inv.handEntry hin)

/-- The loop's own steps while Redis calls succeed: each moves the handling of the entry in
hand on by one point. -/
theorem invariant_io (inv : Invariant S loads c s) {p : Process κ} (hp : s.process = some p)
    {r' : Redis κ} {p' : Option (Process κ)} {evs : List (LogEvent κ)}
    (hio : IoStep S loads s.redis p .none r' p' evs) :
    Invariant S loads c ⟨r', p', evs ++ s.history⟩ := by
  obtain ⟨hcons, hin⟩ := inv.process p hp
  have hpt : pointOf s.process = pcPoint p.pc := by rw [hp]; rfl
  have hgo : ∀ {pc : Pc κ}, InHand s.redis pc →
      ∀ q ∈ some { p with pc }, q.consumer = c ∧ InHand s.redis q.pc := by
    intro pc hpc q hq
    obtain rfl := Option.some.inj hq
    exact ⟨hcons, hpc⟩
  cases hio with
  | leave hpc => exact inv.move (.refl _) (by rw [hpt, hpc]; rfl) (by simp)
  | enter hpc => exact inv.move (.refl _) (by rw [hpt, hpc]; rfl) (hgo trivial)
  | pendingEmpty hpc hr hno hto =>
    rcases hto with rfl | rfl
    · exact inv.move hr (by rw [hpt, hpc]; rfl) (hgo trivial)
    · refine inv.move hr (by rw [hpt, hpc]; rfl) (hgo ?_)
      rcases inv.single with ⟨hnone, -⟩ | ⟨e, he⟩
      · exact hnone
      · exact absurd hcons.symm (hno rfl (e.id, c) (by simp [he.pending]))
  | pendingEntry hpc hr hmem hpend =>
    have he := inv.pendingEntry hmem hpend
    exact inv.move hr (by rw [hpt, hpc]; rfl) (hgo (.inr ⟨_, c, rfl, hmem, he.pending⟩))
  | newEmpty hpc hr => exact inv.move hr (by rw [hpt, hpc]; rfl) (hgo trivial)
  | newEntry hpc hr => exact invariant_delivered inv hp hpc hr
  | batchLeft hpc => exact inv.move (.refl _) (by rw [hpt, hpc]; rfl) (hgo trivial)
  | parseRaised hpc => exact inv.move (.refl _) (by rw [hpt, hpc]; rfl) (by simp)
  | rejected hpc hno =>
    rw [hpc] at hin hpt
    obtain ⟨he, rfl⟩ := inv.batchEntry hin
    have htrace := (hpt ▸ he.progress).fresh_nil
    exact inv.logOne he rfl (by simp) (by simp) hcons ⟨rfl, he.mem, c, he.pending⟩
      (htrace ▸ .rejected hno)
  | expired hpc hm hexp =>
    rw [hpc] at hin hpt
    obtain ⟨he, rfl⟩ := inv.batchEntry hin
    have htrace := (hpt ▸ he.progress).fresh_nil
    rw [Accepted.key hm]
    exact inv.logOne he rfl (by simp) (by simp) hcons ⟨rfl, he.mem, c, he.pending⟩
      (htrace ▸ .expired hm hexp)
  | began hpc hm hexp =>
    rw [hpc] at hin hpt
    obtain ⟨he, rfl⟩ := inv.batchEntry hin
    have htrace := (hpt ▸ he.progress).fresh_nil
    exact inv.logOne he rfl (by simp) (by simp) hcons ⟨rfl, he.mem, c, he.pending⟩
      (htrace ▸ .began hm hexp)
  | encodeRaised hpc =>
    rw [hpc] at hin
    have he := inv.handEntry hin
    refine inv.log he (by simp [LogEvent.id]) (by simp) (by simp) ?_
    rw [List.cons_append, sinceCut_cut]
    exact .fresh
  | executed hpc hb =>
    rw [hpc] at hin hpt
    have he := inv.handEntry hin
    have hprog := hpt ▸ he.progress
    rw [Accepted.key hprog.execute_accepted]
    exact inv.logOne he rfl (by simp) (by simp) hcons hin (.executed hprog hb)
  | written hpc =>
    rw [hpc] at hin hpt
    have he := inv.handEntry hin
    have hprog := hpt ▸ he.progress
    exact inv.logOne he rfl (by simp) (by simp) hcons hin (.answered hprog)
  | acked hpc => exact invariant_acked inv hp hpc

theorem invariant_step {ev : LoopEvent κ} (inv : Invariant S loads c s)
    (hs : guarded (Uninterrupted c) (ofStep (step S loads)) s ev t) : Invariant S loads c t := by
  obtain ⟨hok, hs⟩ := hs
  cases step_cases hs with
  | xadd hlt he hc hp => exact invariant_xadd inv hlt he hc hp
  | destroyGroup => exact hok.elim
  | start hp =>
    refine inv.move (same_createGroup _) (by rw [hp]; rfl) ?_
    intro p hp
    obtain rfl := Option.some.inj hp
    exact ⟨hok, trivial⟩
  | setStop hp =>
    have hproc := inv.process _ hp
    refine inv.move (.refl _) (by rw [hp]; rfl) ?_
    intro q hq
    obtain rfl := Option.some.inj hq
    exact hproc
  | crash hp => exact invariant_crash inv hp
  | io hp hio =>
    obtain rfl : _ = CallFault.none := hok
    exact invariant_io inv hp hio

theorem invariant_reachable
    (h : Reachable InitialOperator (guarded (Uninterrupted c) (ofStep (step S loads))) s) :
    Invariant S loads c s :=
  h.invariant (fun _ => invariant_initial) fun _ _ _ hi hs => invariant_step hi hs

end Steps

section Results

variable {S : OperatorSettings} {loads : String → Loads} {c : String} {s : Operator κ}

/-- The id of an event that executes or answers an entry. -/
def touched : LogEvent κ → Option κ
  | .executed id _ | .answered id _ _ => some id
  | .rejected _ _ | .began _ _ | .acked _ | .cut _ => none

theorem Invariant.touched_ordered (inv : Invariant S loads c s) :
    (s.history.filterMap touched).Pairwise (· ≥ ·) := by
  rw [List.pairwise_filterMap]
  refine (List.pairwise_map.mp inv.ordered).imp ?_
  intro x y hle i hi j hj
  have hx : x.id = i := by cases x <;> simp_all [touched, LogEvent.id]
  have hy : y.id = j := by cases y <;> simp_all [touched, LogEvent.id]
  rwa [← hx, ← hy]

theorem Invariant.newRead_alone (inv : Invariant S loads c s) {p : Process κ}
    (hp : s.process = some p) (hpc : p.pc = .newRead) : s.redis.pending = [] := by
  obtain ⟨-, hin⟩ := inv.process p hp
  rwa [hpc] at hin

theorem Invariant.acked_done (inv : Invariant S loads c s) {e : Request κ}
    (he : e ∈ s.redis.entries) (hack : .acked e.id ∈ s.history) :
    Progress S loads e .done (sinceCut e.id s.history) := by
  apply inv.handled e he (inv.below _ hack)
  intro p hp heq
  rcases inv.single with ⟨hnone, -⟩ | ⟨x, hx⟩
  · simp [hnone] at hp
  · obtain rfl : p = (x.id, c) := by simpa [hx.pending] using hp
    exact hx.unacked (by rwa [entry_unique hx.mem he heq])

/-- Whatever is known of an entry since its last cut belongs to one handling. -/
theorem Invariant.progress (inv : Invariant S loads c s) {e : Request κ}
    (he : e ∈ s.redis.entries) : ∃ pt, Progress S loads e pt (sinceCut e.id s.history) := by
  by_cases hle : (e.id : WithBot κ) ≤ s.redis.cursor
  · by_cases hno : ∀ p ∈ s.redis.pending, p.1 ≠ e.id
    · exact ⟨_, inv.handled e he hle hno⟩
    · push Not at hno
      obtain ⟨⟨i, d⟩, hp, rfl⟩ := hno
      exact ⟨_, (inv.pendingEntry he hp).progress⟩
  · have huntouched : ∀ ev ∈ s.history, ev.id ≠ e.id := fun ev hev heq =>
      hle (heq ▸ inv.below ev hev)
    rw [sinceCut_untouched huntouched]
    exact ⟨_, .fresh⟩

theorem Invariant.quiescent (inv : Invariant S loads c s) (hq : BothReadsEmpty s) {e : Request κ}
    (he : e ∈ s.redis.entries) : Progress S loads e .done (sinceCut e.id s.history) := by
  obtain ⟨p, r, hp, hpc, hr⟩ := hq
  have hnone := inv.newRead_alone hp hpc
  rcases readNew_cases hr with ⟨-, -, hle⟩ | ⟨x, hx, -⟩
  · exact inv.handled e he (hle e he) (by simp [hnone])
  · cases hx

/-- Consumption without interruption by Redis, over any stops, crashes and restarts:
(a) entries are executed or answered in the order of their ids; (b) the loop reads new
entries only with nothing pending; (c) an acknowledged accepted entry was answered before,
with the deadline error and without execution past its deadline; (d) an accepted entry whose
handling was not cut has at most one handling, and a whole one once acknowledged; (e) when
both reads come back empty every accepted entry is answered. -/
theorem ordered_consumption
    (h : Reachable InitialOperator (guarded (Uninterrupted c) (ofStep (step S loads))) s) :
    (s.history.filterMap touched).Pairwise (· ≥ ·) ∧
    (∀ p, s.process = some p → p.pc = .newRead → s.redis.pending = []) ∧
    (∀ e ∈ s.redis.entries, ∀ m, Accepted loads e m → .acked e.id ∈ s.history →
      Handling S e m (sinceCut e.id s.history)) ∧
    (∀ e ∈ s.redis.entries, ∀ m, Accepted loads e m → .cut e.id ∉ s.history →
      (∃ l, Handling S e m l ∧ eventsOf e.id s.history <:+ l) ∧
      (.acked e.id ∈ s.history → Handling S e m (eventsOf e.id s.history))) ∧
    (BothReadsEmpty s → ∀ e ∈ s.redis.entries, ∀ m, Accepted loads e m →
      .acked e.id ∈ s.history ∧ Answered S s.history e) := by
  have inv := invariant_reachable h
  refine ⟨inv.touched_ordered, fun p => inv.newRead_alone, ?_, ?_, ?_⟩
  · intro e he m hm hack
    exact (inv.acked_done he hack).handling hm
  · intro e he m hm hcut
    rw [← sinceCut_uncut hcut]
    obtain ⟨pt, hprog⟩ := inv.progress he
    exact ⟨hprog.handling_suffix hm, fun hack => (inv.acked_done he hack).handling hm⟩
  · intro hq e he m hm
    obtain ⟨hack, hans⟩ := ((inv.quiescent hq he).handling hm).answered
    exact ⟨sinceCut_subset hack, hans.mono sinceCut_subset⟩

end Results

instance (c : String) (s : Operator κ) (e : LoopEvent κ) : Decidable (Uninterrupted c s e) :=
  match e with
  | .io _ _ _ | .start _ => inferInstanceAs (Decidable (_ = _))
  | .destroyGroup => isFalse id
  | .xadd _ _ | .setStop | .crash => isTrue trivial

/-- A ping with blanks around its request id and a deadline at 100 ms. -/
def lateEntry : Request StreamId :=
  ⟨toLex (2, 0), .dict [("req_id", " u2 "), ("op", "ping"), ("deadline_ms", "100")]⟩

/-- The first process is killed while it executes a ping. The second one handles the ping to
its end, and answers the entry that it reads after its deadline with the deadline's error. -/
theorem ordered_consumption_restart :
    ∃ s m m', Reachable InitialOperator
        (guarded (Uninterrupted "pod-7") (ofStep (step defaultSettings noPayload))) s ∧
      .cut (requestEntry "ping").id ∈ s.history ∧
      Handling defaultSettings (requestEntry "ping") m
        (sinceCut (requestEntry "ping").id s.history) ∧
      sinceCut (requestEntry "ping").id s.history =
        [.acked (toLex (1, 0)), .answered (toLex (1, 0)) "ib:operator:result:u1" "1",
          .executed (toLex (1, 0)) (.text "1"), .began (toLex (1, 0)) 0] ∧
      Handling defaultSettings lateEntry m' (sinceCut lateEntry.id s.history) ∧
      sinceCut lateEntry.id s.history =
        [.acked (toLex (2, 0)), .answered (toLex (2, 0)) "ib:operator:result:u2"
            "\x7b\"ok\":false,\"error\":\"deadline_expired\"\x7d", .began (toLex (2, 0)) 200] := by
  obtain ⟨s, hr, he, hcut, hping, hlate⟩ := Run.ofGuardedFold_satisfies
    (step defaultSettings noPayload) (Uninterrupted "pod-7") emptyOperator
    (runOnce "ping" 4 ++ [.crash, .start "pod-7", .xadd lateEntry.id lateEntry.fields] ++
      passes 10 (.text "1") ++ List.replicate 3 (.io 200 (.text "1") .none))
    (fun s => s.redis.entries = [requestEntry "ping", lateEntry] ∧
      .cut (requestEntry "ping").id ∈ s.history ∧
      sinceCut (requestEntry "ping").id s.history =
        [.acked (toLex (1, 0)), .answered (toLex (1, 0)) "ib:operator:result:u1" "1",
          .executed (toLex (1, 0)) (.text "1"), .began (toLex (1, 0)) 0] ∧
      sinceCut lateEntry.id s.history =
        [.acked (toLex (2, 0)), .answered (toLex (2, 0)) "ib:operator:result:u2"
            "\x7b\"ok\":false,\"error\":\"deadline_expired\"\x7d", .began (toLex (2, 0)) 200])
    (by decide +kernel)
  have hreach : Reachable InitialOperator
      (guarded (Uninterrupted "pod-7") (ofStep (step defaultSettings noPayload))) s :=
    ⟨emptyOperator, _, initialOperator_emptyOperator, hr⟩
  obtain ⟨-, -, hacked, -, -⟩ := ordered_consumption hreach
  have hackPing : .acked (requestEntry "ping").id ∈ s.history :=
    sinceCut_subset (hping ▸ List.mem_cons_self)
  have hackLate : .acked lateEntry.id ∈ s.history := sinceCut_subset (hlate ▸ List.mem_cons_self)
  exact ⟨s, _, _, hreach, hcut, hacked _ (by simp [he]) _ rfl hackPing, hping,
    hacked _ (by simp [he]) _ rfl hackLate, hlate⟩

end BifrostSocket.OrderedConsumption
