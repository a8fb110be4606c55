import BifrostSocket.OrderedConsumption

/-!
# How long a written result stands

From the write of its result a request is left alone until a read delivers it again: its
acknowledgement is all that is still to come. A request whose acknowledgement took effect,
in a group that remembers its delivery, is not delivered again: it is behind the cursor, not
pending and not in hand. This lasts until the group is destroyed, which a recreated group at
`0` reads as a stream of new entries.
-/

namespace BifrostSocket.SettledRequests
open TransitionRuns ConsumerGroups ConsumerGroups.GroupStream OperatorProtocol OperatorLoops
  AnsweredRequests
open OrderedConsumption (Handling Progress pcPoint)

variable {κ : Type}

/-- The entries of the last reply that the loop is not done with. -/
def held : Pc κ → List (Request κ)
  | .top | .pendingRead | .newRead => []
  | .batch todo => todo
  | .execute e _ rest | .writeResult e _ _ rest | .ack e rest => e :: rest

/-- The entry whose result is written next, with its key and body. -/
def writing : Pc κ → Option (Request κ × String × String)
  | .writeResult e key body _ => some (e, key, body)
  | .top | .pendingRead | .newRead | .batch _ | .execute _ _ _ | .ack _ _ => none

theorem writing_eq {pc : Pc κ} {e : Request κ} {key body : String}
    (h : writing pc = some (e, key, body)) : ∃ rest, pc = .writeResult e key body rest := by
  cases pc with
  | writeResult => simpa [writing] using h
  | _ => simp [writing] at h

variable {S : OperatorSettings} {loads : String → Loads}

theorem resultKeyOf_inj {e x : Request κ} (h : resultKeyOf S e = resultKeyOf S x) :
    e.fields.toFields.reqId = x.fields.toFields.reqId := by
  have hlist := congrArg String.toList h
  simp only [resultKeyOf, String.toList_append] at hlist
  exact String.toList_inj.mp (List.append_cancel_left hlist)

/-- The newest events are the part of a handling that the loop's position tells. -/
def Trailing (S : OperatorSettings) (loads : String → Loads) (history : List (LogEvent κ))
    (pc : Pc κ) : Prop :=
  ∀ e ∈ (held pc).head?, ∃ l, l <+: history ∧ Progress S loads e (pcPoint pc) l

theorem trailing_fresh {history : List (LogEvent κ)} {pc : Pc κ}
    (h : pcPoint pc = .fresh) : Trailing S loads history pc := by
  intro e _
  rw [h]
  exact ⟨[], List.nil_prefix, .fresh⟩

/-- Nothing but an acknowledgement or a cut was logged of the entry. -/
def OnlyClosed (id : κ) (evs : List (LogEvent κ)) : Prop :=
  ∀ ev ∈ evs, ev.id = id → ev = .acked id ∨ ev = .cut id

theorem OnlyClosed.of_other {id : κ} {evs : List (LogEvent κ)} (h : ∀ ev ∈ evs, ev.id ≠ id) :
    OnlyClosed id evs := fun ev hev hid => absurd hid (h ev hev)

variable [LinearOrder κ]

/-- The group is not taken away. -/
def GroupKept (_ : Operator κ) : LoopEvent κ → Prop
  | .destroyGroup => False
  | .xadd _ _ | .start _ | .setStop | .crash | .io _ _ _ => True

instance (s : Operator κ) (ev : LoopEvent κ) : Decidable (GroupKept s ev) := by
  cases ev <;> unfold GroupKept <;> infer_instance

structure Settled (id : κ) (s : Operator κ) : Prop where
  delivered : (id : WithBot κ) ≤ s.redis.cursor
  acknowledged : ∀ q ∈ s.redis.pending, q.1 ≠ id
  released : ∀ p ∈ s.process, ∀ x ∈ held p.pc, x.id ≠ id

/-- What one step of the loop reaches: it logs only what was in hand, and what it takes in
hand or makes pending was pending or lay behind the cursor. -/
structure Reaches (r r' : Redis κ) (p : Process κ) (p' : Option (Process κ))
    (evs : List (LogEvent κ)) : Prop where
  logged : ∀ ev ∈ evs, ∃ x ∈ held p.pc, x.id = ev.id
  held : ∀ q ∈ p', ∀ x ∈ held q.pc,
    x ∈ held p.pc ∨ (∃ c, (x.id, c) ∈ r.pending) ∨ r.cursor < x.id
  cursor : r.cursor ≤ r'.cursor
  pending : ∀ q ∈ r'.pending, q ∈ r.pending ∨ r.cursor < q.1

theorem io_reaches {r r' : Redis κ} {p : Process κ} {p' : Option (Process κ)} {f : CallFault}
    {evs : List (LogEvent κ)} (hio : IoStep S loads r p f r' p' evs) :
    Reaches r r' p p' evs := by
  have hkeep : ∀ {r' : Redis κ}, Same r r' → ∀ q ∈ r'.pending, q ∈ r.pending ∨ r.cursor < q.1 := by
    intro r' hr q hq
    exact .inl (hr.pending ▸ hq)
  have hread : ∀ {r' : Redis κ} {e : Request κ}, NewRead r p.consumer e r' →
      ∀ q ∈ r'.pending, q ∈ r.pending ∨ r.cursor < q.1 := by
    intro r' e hr q hq
    rw [hr.pending, List.mem_append, List.mem_singleton] at hq
    rcases hq with hq | rfl
    · exact .inl hq
    · exact .inr hr.behind
  cases hio with
  | leave => exact ⟨by simp, by simp, le_rfl, hkeep (.refl r)⟩
  | enter => exact ⟨by simp, by simp [SettledRequests.held], le_rfl, hkeep (.refl r)⟩
  | pendingEmpty _ hr _ hto =>
    refine ⟨by simp, ?_, hr.cursor.ge, hkeep hr⟩
    rcases hto with rfl | rfl <;> simp [SettledRequests.held]
  | pendingEntry _ hr _ hpend =>
    refine ⟨by simp, ?_, hr.cursor.ge, hkeep hr⟩
    intro q hq x hx
    obtain rfl := Option.some.inj hq
    obtain rfl := List.mem_singleton.mp hx
    exact .inr (.inl ⟨_, hpend⟩)
  | newEmpty _ hr =>
    exact ⟨by simp, by simp [SettledRequests.held], hr.cursor.ge, hkeep hr⟩
  | newLost _ hr =>
    exact ⟨by simp, by simp [SettledRequests.held], hr.cursor ▸ hr.behind.le, hread hr⟩
  | newEntry _ hr =>
    refine ⟨by simp, ?_, hr.cursor ▸ hr.behind.le, hread hr⟩
    intro q hq x hx
    obtain rfl := Option.some.inj hq
    obtain rfl := List.mem_singleton.mp hx
    exact .inr (.inr hr.behind)
  | batchLeft => exact ⟨by simp, by simp [SettledRequests.held], le_rfl, hkeep (.refl r)⟩
  | parseRaised => exact ⟨by simp, by simp, le_rfl, hkeep (.refl r)⟩
  | rejected h | expired h | began h | encodeRaised h | executed h | written h | writeRefused h
  | writeLost h =>
    constructor
    · simp [h, SettledRequests.held, LogEvent.id]
    · simp_all [SettledRequests.held]
    · exact le_rfl
    · exact hkeep (.refl r)
  | acked h =>
    constructor
    · simp [h, SettledRequests.held, LogEvent.id]
    · simp_all [SettledRequests.held]
    · exact (xack_cursor _).ge
    · intro q hq
      rw [xack_pending] at hq
      exact .inl (List.mem_filter.mp hq).1
  | ackRefused h =>
    constructor
    · simp
    · simp_all [SettledRequests.held]
    · exact le_rfl
    · exact hkeep (.refl r)

/-- A settled request stays settled, and a step logs nothing about it. -/
theorem settled_step {id : κ} {s t : Operator κ} {ev : LoopEvent κ} (hset : Settled id s)
    (hkept : GroupKept s ev) (hs : Step S loads s ev t) :
    Settled id t ∧ ∃ new, t.history = new ++ s.history ∧ ∀ x ∈ new, x.id ≠ id := by
  cases hs with
  | xadd _ _ hc hp =>
    refine ⟨⟨?_, ?_, hset.released⟩, [], rfl, by simp⟩
    · exact hc ▸ hset.delivered
    · exact hp ▸ hset.acknowledged
  | destroyGroup => exact hkept.elim
  | start =>
    have hsame := same_createGroup s.redis
    refine ⟨⟨?_, ?_, by simp [held]⟩, [], rfl, by simp⟩
    · exact hsame.cursor ▸ hset.delivered
    · exact hsame.pending ▸ hset.acknowledged
  | @setStop p h =>
    refine ⟨⟨hset.delivered, hset.acknowledged, fun q hq => ?_⟩, [], rfl, by simp⟩
    obtain rfl := Option.some.inj hq
    exact hset.released p h
  | @crash p h =>
    refine ⟨⟨hset.delivered, hset.acknowledged, by simp⟩, _, rfl, fun x hx => ?_⟩
    have hrel := hset.released p h
    cases hpc : p.pc <;> simp_all [Process.cutEvents, held, LogEvent.id]
  | @io p _ _ _ r' p' evs h hio =>
    have hrel := hset.released p h
    have hre := io_reaches hio
    refine ⟨⟨hset.delivered.trans hre.cursor, ?_, ?_⟩, evs, rfl, ?_⟩
    · intro q hq heq
      rcases hre.pending q hq with hold | hnew
      · exact hset.acknowledged q hold heq
      · exact absurd (heq ▸ hnew) hset.delivered.not_gt
    · intro q hq x hx heq
      rcases hre.held q hq x hx with hold | ⟨c, hpend⟩ | hnew
      · exact hrel x hold heq
      · exact hset.acknowledged _ hpend heq
      · exact absurd (heq ▸ hnew) hset.delivered.not_gt
    · intro x hx heq
      obtain ⟨y, hy, hid⟩ := hre.logged x hx
      exact hrel y hy (hid.trans heq)

theorem settled_run {id : κ} {s t : Operator κ} {evs : List (LoopEvent κ)}
    (hset : Settled id s) (hr : Run (guarded GroupKept (ofStep (step S loads))) s evs t) :
    Settled id t ∧ ∃ new, t.history = new ++ s.history ∧ ∀ x ∈ new, x.id ≠ id :=
  hr.logs Operator.history (fun _ _ _ h hs => settled_step h hs.1 (step_cases hs.2)) hset

/-- Both reads ask for one entry, so the loop has at most one in hand. -/
theorem one_held {s : Operator κ} (hs : Reachable InitialOperator (ofStep (step S loads)) s) :
    ∀ p ∈ s.process, (held p.pc).length ≤ 1 := by
  refine hs.invariant (P := fun s => ∀ p ∈ s.process, (held p.pc).length ≤ 1) ?_ ?_
  · rintro s ⟨-, hp, -⟩
    simp [hp]
  · intro s ev t hone hst
    cases step_cases hst with
    | xadd => exact hone
    | destroyGroup => exact hone
    | start => simp [held]
    | @setStop p h =>
      intro q hq
      obtain rfl := Option.some.inj hq
      exact hone p h
    | crash => simp
    | @io p _ _ _ _ _ _ h hio =>
      have hle := hone p h
      intro q hq
      cases hio with
      | leave | parseRaised | encodeRaised | writeRefused | writeLost => simp at hq
      | enter | pendingEntry | newEmpty | newLost | newEntry | batchLeft =>
        obtain rfl := Option.some.inj hq
        simp [held]
      | pendingEmpty _ _ _ hto =>
        obtain rfl := Option.some.inj hq
        rcases hto with rfl | rfl <;> simp [held]
      | rejected h | expired h | began h | executed h | written h =>
        obtain rfl := Option.some.inj hq
        simpa [h, held] using hle
      | acked h | ackRefused h =>
        obtain rfl := Option.some.inj hq
        rw [h] at hle
        exact (Nat.le_succ _).trans hle

section Trails

variable {history : List (LogEvent κ)}

theorem io_trailing {r r' : Redis κ} {p : Process κ} {p' : Option (Process κ)} {f : CallFault}
    {evs : List (LogEvent κ)} (htrail : Trailing S loads history p.pc)
    (hio : IoStep S loads r p f r' p' evs) : ∀ q ∈ p', Trailing S loads (evs ++ history) q.pc := by
  intro q hq
  cases hio with
  | leave | parseRaised | encodeRaised | writeRefused | writeLost => simp at hq
  | enter | pendingEntry | newEmpty | newLost | newEntry | batchLeft | acked | ackRefused =>
    obtain rfl := Option.some.inj hq
    exact trailing_fresh rfl
  | pendingEmpty _ _ _ hto =>
    obtain rfl := Option.some.inj hq
    rcases hto with rfl | rfl
    · exact trailing_fresh rfl
    · exact trailing_fresh rfl
  | rejected h hno =>
    obtain rfl := Option.some.inj hq
    intro x hx
    obtain rfl := Option.some.inj hx
    exact ⟨[_], List.prefix_append _ _, .rejected hno⟩
  | expired h hm hexp =>
    obtain rfl := Option.some.inj hq
    intro x hx
    obtain rfl := Option.some.inj hx
    refine ⟨[_], List.prefix_append _ _, ?_⟩
    have hkey := Accepted.key (S := S) hm
    simp only [pcPoint, hkey]
    exact .expired hm hexp
  | began h hm hexp =>
    obtain rfl := Option.some.inj hq
    intro x hx
    obtain rfl := Option.some.inj hx
    exact ⟨[_], List.prefix_append _ _, .began hm hexp⟩
  | executed h hb =>
    obtain rfl := Option.some.inj hq
    intro x hx
    obtain rfl := Option.some.inj hx
    obtain ⟨l, hl, hprog⟩ := htrail _ (by rw [h]; rfl)
    rw [h] at hprog
    have hkey := Accepted.key (S := S) hprog.execute_accepted
    refine ⟨_ :: l, (List.prefix_append_right_inj [_]).mpr hl, ?_⟩
    simp only [pcPoint, hkey]
    exact .executed hprog hb
  | written h =>
    obtain rfl := Option.some.inj hq
    intro x hx
    obtain rfl := Option.some.inj hx
    obtain ⟨l, hl, hprog⟩ := htrail _ (by rw [h]; rfl)
    rw [h] at hprog
    exact ⟨_ :: l, (List.prefix_append_right_inj [_]).mpr hl, .answered hprog⟩

theorem trailing_reachable {s : Operator κ}
    (hs : Reachable InitialOperator (ofStep (step S loads)) s) :
    ∀ p ∈ s.process, Trailing S loads s.history p.pc := by
  refine hs.invariant (P := fun s => ∀ p ∈ s.process, Trailing S loads s.history p.pc) ?_ ?_
  · rintro s ⟨-, hp, -⟩
    simp [hp]
  · intro s ev t htrail hst
    cases step_cases hst with
    | xadd => exact htrail
    | destroyGroup => exact htrail
    | start =>
      intro q hq
      obtain rfl := Option.some.inj hq
      exact trailing_fresh rfl
    | @setStop p h =>
      intro q hq
      obtain rfl := Option.some.inj hq
      exact htrail p h
    | crash => simp
    | @io p _ _ _ _ _ _ h hio => exact io_trailing (htrail p h) hio

end Trails

section Results

/-- The loop has the entry in hand. -/
def Holds (id : κ) (s : Operator κ) : Prop := ∃ p ∈ s.process, ∃ x ∈ held p.pc, x.id = id

/-- The step does not take the entry in hand: no read returns it. -/
def NotDelivered (S : OperatorSettings) (loads : String → Loads) (id : κ) (s : Operator κ)
    (ev : LoopEvent κ) : Prop :=
  ∀ t, step S loads s ev = some t → Holds id t → Holds id s

/-- The entry is not in hand, or it waits for its acknowledgement. -/
def Closing (id : κ) (s : Operator κ) : Prop :=
  ∀ p ∈ s.process, (∀ x ∈ held p.pc, x.id ≠ id) ∨ ∃ x, x.id = id ∧ p.pc = .ack x []

theorem closing_io {id : κ} {r r' : Redis κ} {p : Process κ} {p' : Option (Process κ)}
    {f : CallFault} {evs : List (LogEvent κ)} {x : Request κ} (hid : x.id = id)
    (hpc : p.pc = .ack x []) (hio : IoStep S loads r p f r' p' evs) :
    (∀ q ∈ p', ∀ y ∈ held q.pc, y.id ≠ id) ∧ OnlyClosed id evs := by
  cases hio with
  | acked h =>
    obtain ⟨rfl, rfl⟩ : x = _ ∧ [] = _ := by simpa [hpc] using h
    refine ⟨?_, by simp [OnlyClosed, hid]⟩
    intro q hq
    obtain rfl := Option.some.inj hq
    simp [held]
  | ackRefused h =>
    obtain ⟨rfl, rfl⟩ : x = _ ∧ [] = _ := by simpa [hpc] using h
    refine ⟨?_, by simp [OnlyClosed]⟩
    intro q hq
    obtain rfl := Option.some.inj hq
    simp [held]
  | _ h => simp [hpc] at h

theorem closing_step {id : κ} {s t : Operator κ} {ev : LoopEvent κ} (hcl : Closing id s)
    (hnot : NotDelivered S loads id s ev) (hs : step S loads s ev = some t) :
    Closing id t ∧ ∃ new, t.history = new ++ s.history ∧ OnlyClosed id new := by
  have hnone : OnlyClosed id ([] : List (LogEvent κ)) := by simp [OnlyClosed]
  have htaken := hnot t hs
  cases step_cases hs with
  | xadd => exact ⟨hcl, [], rfl, hnone⟩
  | destroyGroup => exact ⟨hcl, [], rfl, hnone⟩
  | start =>
    refine ⟨?_, [], rfl, hnone⟩
    intro q hq
    obtain rfl := Option.some.inj hq
    exact .inl (by simp [held])
  | @setStop p h =>
    refine ⟨?_, [], rfl, hnone⟩
    intro q hq
    obtain rfl := Option.some.inj hq
    exact hcl p h
  | @crash p h =>
    refine ⟨by simp [Closing], _, rfl, ?_⟩
    rcases hcl p h with hfree | ⟨x, hid, hpc⟩
    · apply OnlyClosed.of_other
      cases hpc : p.pc <;> simp_all [Process.cutEvents, held, LogEvent.id]
    · simp [Process.cutEvents, hpc, OnlyClosed, hid]
  | @io p _ _ _ r' p' evs h hio =>
    rcases hcl p h with hfree | ⟨x, hid, hpc⟩
    · -- what is not in hand is neither logged nor taken in hand
      refine ⟨?_, evs, rfl, .of_other ?_⟩
      · intro q hq
        refine .inl fun y hy hid => ?_
        obtain ⟨p₀, hp₀, z, hz, hzid⟩ := htaken ⟨q, hq, y, hy, hid⟩
        obtain rfl : p₀ = p := by simpa [h, eq_comm] using hp₀
        exact hfree z hz hzid
      · intro ev hev heq
        obtain ⟨y, hy, hyid⟩ := (io_reaches hio).logged ev hev
        exact hfree y hy (hyid.trans heq)
    · obtain ⟨hfree, hclosed⟩ := closing_io hid hpc hio
      exact ⟨fun q hq => .inl (hfree q hq), evs, rfl, hclosed⟩

theorem closing_run {id : κ} {s t : Operator κ} {evs : List (LoopEvent κ)} (hcl : Closing id s)
    (hr : Run (guarded (NotDelivered S loads id) (ofStep (step S loads))) s evs t) :
    ∃ new, t.history = new ++ s.history ∧ OnlyClosed id new :=
  (hr.logs Operator.history (fun _ _ _ h hs => closing_step h hs.1 hs.2) hcl).2

/-- The result key of the entry is written no more, unless for another entry that carries the
same request id. -/
def KeyKept (S : OperatorSettings) (e : Request κ) (entries : List (Request κ))
    (later : List (LogEvent κ)) : Prop :=
  (∀ x ∈ entries, x.fields.toFields.reqId = e.fields.toFields.reqId → x = e) →
    ∀ id body, .answered id (resultKeyOf S e) body ∉ later

theorem OnlyClosed.keyKept {u : Operator κ} {e : Request κ} {later earlier : List (LogEvent κ)}
    (hu : Reachable InitialOperator (ofStep (step S loads)) u)
    (hlater : u.history = later ++ earlier) (hclosed : OnlyClosed e.id later) :
    KeyKept S e u.redis.entries later := by
  intro honly id body hmem
  have hev : .answered id (resultKeyOf S e) body ∈ u.history := by
    rw [hlater]
    exact List.mem_append_left _ hmem
  obtain ⟨_, x, hx, hid, -, hkey⟩ := (invariant_reachable hu).history.of_mem hev
  obtain rfl := honly x hx (resultKeyOf_inj hkey).symm
  rcases hclosed _ hmem hid.symm with hack | hcut
  · cases hack
  · cases hcut

theorem hand_alone {s : Operator κ} {p : Process κ} {e : Request κ} {rest : List (Request κ)}
    (hs : Reachable InitialOperator (ofStep (step S loads)) s) (hp : s.process = some p)
    (hheld : held p.pc = e :: rest) : rest = [] := by
  have hone := one_held hs p hp
  rw [hheld] at hone
  simpa using hone

/-- The write of a result takes effect: it is the outcome of the handling, and what follows
is the acknowledgement. -/
theorem closing_written {s t : Operator κ} {p : Process κ} {e : Request κ} {key body : String}
    {rest : List (Request κ)} {nowMs : ℤ} {outcome : Dumps} {fault : CallFault}
    (hs : Reachable InitialOperator (ofStep (step S loads)) s) (hp : s.process = some p)
    (hpc : p.pc = .writeResult e key body rest) (hfault : fault ≠ .before)
    (hstep : step S loads s (.io nowMs outcome fault) = some t) :
    .answered e.id key body :: s.history <:+ t.history ∧ Closing e.id t := by
  obtain rfl := hand_alone hs hp (by rw [hpc]; rfl)
  simp only [step, hp, Option.bind_some, io, hpc] at hstep
  cases fault with
  | before => exact absurd rfl hfault
  | none =>
    obtain rfl := Option.some.inj hstep
    refine ⟨List.suffix_refl _, ?_⟩
    intro q hq
    obtain rfl := Option.some.inj hq
    exact .inr ⟨e, rfl, rfl⟩
  | after =>
    obtain rfl := Option.some.inj hstep
    exact ⟨List.suffix_cons _ _, by simp [Closing]⟩

theorem settled_acked {s t : Operator κ} {p : Process κ} {e : Request κ}
    {rest : List (Request κ)} {nowMs : ℤ} {outcome : Dumps} {fault : CallFault}
    (hs : Reachable InitialOperator (ofStep (step S loads)) s) (hp : s.process = some p)
    (hpc : p.pc = .ack e rest) (hknown : (e.id : WithBot κ) ≤ s.redis.cursor)
    (hfault : fault ≠ .before) (hstep : step S loads s (.io nowMs outcome fault) = some t) :
    Settled e.id t := by
  obtain rfl := hand_alone hs hp (by rw [hpc]; rfl)
  simp only [step, hp, Option.bind_some, io, hpc] at hstep
  cases fault with
  | before => exact absurd rfl hfault
  | none | after =>
    obtain rfl := Option.some.inj hstep
    refine ⟨by simpa using hknown, ?_, ?_⟩
    · intro q hq
      rw [xack_pending] at hq
      simpa using (List.mem_filter.mp hq).2
    · intro q hq x hx
      obtain rfl := Option.some.inj hq
      simp [held] at hx

/-- When the write of a result takes effect, it is what the entry's handling came to (its
outcome, or the deadline's error), and until a read delivers the entry again no step begins,
executes or answers it. When its acknowledgement takes effect in a group that remembers the
delivery, that result is the newest event, and no later step touches the entry as long as
the group is kept. Its result key is written for another entry only. -/
theorem written_result_final {s t : Operator κ} {p : Process κ} {nowMs : ℤ} {outcome : Dumps}
    {fault : CallFault} (hs : Reachable InitialOperator (ofStep (step S loads)) s)
    (hp : s.process = some p) (hfault : fault ≠ .before)
    (hstep : step S loads s (.io nowMs outcome fault) = some t) :
    (∀ e key body rest, p.pc = .writeResult e key body rest →
      .answered e.id key body :: s.history <:+ t.history ∧
      (∃ m l, Accepted loads e m ∧ l <+: s.history ∧
        Handling S e m (.acked e.id :: .answered e.id key body :: l)) ∧
      ∀ evs u, Run (guarded (NotDelivered S loads e.id) (ofStep (step S loads))) t evs u →
        ∃ later, u.history = later ++ t.history ∧ OnlyClosed e.id later ∧
          KeyKept S e u.redis.entries later) ∧
    (∀ e rest, p.pc = .ack e rest → (e.id : WithBot κ) ≤ s.redis.cursor →
      (∀ m, Accepted loads e m → ∃ l, l <+: s.history ∧ Handling S e m (.acked e.id :: l)) ∧
      ∀ evs u, Run (guarded GroupKept (ofStep (step S loads))) t evs u →
        ∃ later, u.history = later ++ t.history ∧ (∀ ev ∈ later, ev.id ≠ e.id) ∧
          KeyKept S e u.redis.entries later) := by
  have htrail := trailing_reachable hs p hp
  constructor
  · intro e key body rest hpc
    obtain ⟨hans, hcl⟩ := closing_written hs hp hpc hfault hstep
    obtain ⟨-, -, ⟨m, hm⟩, -⟩ := hpc ▸ (invariant_reachable hs).pc p hp
    obtain ⟨l, hl, hprog⟩ := htrail e (by simp [hpc, held])
    rw [hpc] at hprog
    refine ⟨hans, ⟨m, l, hm, hl, (Progress.acked (.answered hprog)).handling hm⟩, ?_⟩
    intro evs u hrun
    obtain ⟨later, hlater, hclosed⟩ := closing_run hcl hrun
    have hu := (hs.snoc hstep).run (hrun.mono fun _ _ _ h => h.2)
    exact ⟨later, hlater, hclosed, hclosed.keyKept hu hlater⟩
  · intro e rest hpc hknown
    obtain ⟨l, hl, hprog⟩ := htrail e (by simp [hpc, held])
    rw [hpc] at hprog
    refine ⟨fun m hm => ⟨l, hl, (Progress.acked hprog).handling hm⟩, ?_⟩
    intro evs u hrun
    obtain ⟨-, later, hlater, hno⟩ := settled_run (settled_acked hs hp hpc hknown hfault hstep) hrun
    have hu := (hs.snoc hstep).run (hrun.mono fun _ _ _ h => h.2)
    exact ⟨later, hlater, hno, (OnlyClosed.of_other hno).keyKept hu hlater⟩

end Results

/-- A ping, with a deadline at 100 ms. -/
def deadlineEntry : Request StreamId :=
  ⟨toLex (1, 0), .dict [("req_id", "u1"), ("op", "ping"), ("deadline_ms", "100")]⟩

/-- The ping is executed before its deadline, and its result written by the last pass. -/
def answeredInTime : List (LoopEvent StreamId) :=
  [.xadd deadlineEntry.id deadlineEntry.fields, .start "pod-7"] ++ passes 6 (.text "1")

/-- The result of a ping is its outcome. It stands when the acknowledgement is refused; and
when it takes effect, the process may be killed then. -/
theorem written_result_final_ping :
    ∃ s t u v w : Operator StreamId, ∃ m l later later',
      step defaultSettings noPayload s (.io 0 (.text "1") .none) = some t ∧
      Handling defaultSettings deadlineEntry m (.acked deadlineEntry.id ::
        .answered deadlineEntry.id "ib:operator:result:u1" "1" :: l) ∧
      step defaultSettings noPayload t (.io 0 (.text "1") .before) = some u ∧
      u.history = later ++ t.history ∧ OnlyClosed deadlineEntry.id later ∧
      step defaultSettings noPayload t (.io 0 (.text "1") .none) = some v ∧
      step defaultSettings noPayload v .crash = some w ∧
      w.history = later' ++ v.history ∧ ∀ ev ∈ later', ev.id ≠ deadlineEntry.id := by
  obtain ⟨s, hr, hwriting, hcur⟩ := Run.ofFold_satisfies (step defaultSettings noPayload)
    emptyOperator (answeredInTime.take 7)
    (fun s => (s.process.bind fun p => writing p.pc) =
        some (deadlineEntry, "ib:operator:result:u1", "1") ∧
      s.redis.cursor = (deadlineEntry.id : WithBot StreamId))
    (by decide +kernel)
  obtain ⟨p, hp, hpc⟩ := Option.bind_eq_some_iff.mp hwriting
  obtain ⟨rest, hpc⟩ := writing_eq hpc
  have hreach : Reachable InitialOperator (ofStep (step defaultSettings noPayload)) s :=
    ⟨emptyOperator, _, initialOperator_emptyOperator, hr⟩
  obtain ⟨t, ht, htp, htr⟩ : ∃ t, step defaultSettings noPayload s (.io 0 (.text "1") .none) =
      some t ∧ t.process = some { p with pc := .ack deadlineEntry rest } ∧
      t.redis = s.redis := by
    simp [step, hp, io, hpc]
  obtain ⟨u, hu⟩ : ∃ u, step defaultSettings noPayload t (.io 0 (.text "1") .before) = some u := by
    simp [step, htp, io]
  obtain ⟨v, hv, hvp⟩ : ∃ v, step defaultSettings noPayload t (.io 0 (.text "1") .none) =
      some v ∧ v.process = some { p with pc := .batch rest } := by
    simp [step, htp, io]
  obtain ⟨w, hw⟩ : ∃ w, step defaultSettings noPayload v .crash = some w := by
    simp [step, hvp]
  have hfault : CallFault.none ≠ .before := by decide
  obtain ⟨-, ⟨m, l, -, -, hhandling⟩, hstands⟩ :=
    (written_result_final hreach hp hfault ht).1 _ _ _ _ hpc
  obtain ⟨-, hsettled⟩ :=
    (written_result_final (hreach.snoc ht) htp hfault hv).2 _ _ rfl (htr ▸ hcur.ge)
  have hhand : Holds deadlineEntry.id t := ⟨_, htp, deadlineEntry, List.mem_cons_self, rfl⟩
  obtain ⟨later, hlater, hclosed, -⟩ := hstands _ _ (.single ⟨fun _ _ _ => hhand, hu⟩)
  obtain ⟨later', hlater', hno, -⟩ := hsettled [.crash] _ (.single ⟨trivial, hw⟩)
  exact ⟨s, t, u, v, w, m, l, later, later', ht, hhandling, hu, hlater, hclosed, hv, hw, hlater',
    hno⟩

/-- The acknowledgement fails, and the entry is read again after its deadline. -/
def lateRedelivery : List (LoopEvent StreamId) :=
  [.io 0 (.text "1") .before, .io 0 (.text "1") .none, .io 0 (.text "1") .none,
    .io 0 (.text "1") .none, .io 200 (.text "1") .none, .io 200 (.text "1") .none]

/-- After an executed entry was answered it is not executed again, nor answered otherwise. -/
def ResultFinal (history : List (LogEvent κ)) : Prop :=
  ∀ later earlier id outcome key body,
    history = later ++ .answered id key body :: .executed id outcome :: earlier →
      (∀ outcome', .executed id outcome' ∉ later) ∧
      ∀ body', .answered id key body' ∈ later → body' = body

/-- A ping that was executed and answered is answered once more, by the deadline's error. -/
theorem late_redelivery_overwrites :
    ¬ ∀ t : Operator StreamId,
      Reachable InitialOperator (ofStep (step defaultSettings noPayload)) t →
        ResultFinal t.history := by
  intro hall
  obtain ⟨t, hr, hh⟩ := Run.ofFold_satisfies (step defaultSettings noPayload) emptyOperator
    (answeredInTime ++ lateRedelivery)
    (fun t => t.history =
      [.answered (toLex (1, 0)) "ib:operator:result:u1" defaultSettings.expiredBody,
        .began (toLex (1, 0)) 200, .answered (toLex (1, 0)) "ib:operator:result:u1" "1",
        .executed (toLex (1, 0)) (.text "1"), .began (toLex (1, 0)) 0])
    (by decide +kernel)
  have hfinal := (hall t ⟨emptyOperator, _, initialOperator_emptyOperator, hr⟩
    [_, _] _ _ _ _ _ hh).2 _ List.mem_cons_self
  exact absurd hfinal (by decide)

end BifrostSocket.SettledRequests
