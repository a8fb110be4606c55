import BifrostSocket.AnsweredRequests
import BifrostSocket.GroupConsumers
import Mathlib.Data.Fintype.Basic

/-!
# Operator loops that run at once on one consumer group

Nothing but the leadership lease keeps two `run_ib_operator_loop`s from running at once, and
an old loop may still unwind when the next one starts. Here any number of them read the
command stream together, each under its own `consumer_name`, and die and start again in any
order. They are consumers of one group, so an entry stays with the name it was delivered to,
and while no two live loops share a name no entry is in the hands of two.
-/

namespace BifrostSocket.ConcurrentOperators
open TransitionRuns ConsumerGroups ConsumerGroups.GroupStream OperatorProtocol OperatorLoops
open AnsweredRequests GroupConsumers

/-- The loops by the place they run in. What a loop does with an entry is logged under its
consumer name, newest first. -/
structure Operators (ι κ : Type) [LinearOrder κ] where
  redis : Redis κ
  processes : ι → Option (Process κ)
  history : List (String × LogEvent κ)

variable {ι κ : Type} [LinearOrder κ]

/-- Operator `i` has come to `t`, and what it logged is logged under its name. -/
def Operators.next [DecidableEq ι] (s : Operators ι κ) (i : ι) (t : Operator κ) :
    Operators ι κ where
  redis := t.redis
  processes := Function.update s.processes i t.process
  history := t.history.map (((s.processes i).elim "" Process.consumer), ·) ++ s.history

/-- An event of one operator, or of the stream. -/
def step [DecidableEq ι] (S : OperatorSettings) (loads : String → Loads) (s : Operators ι κ)
    (e : ι × LoopEvent κ) : Option (Operators ι κ) :=
  (OperatorLoops.step S loads ⟨s.redis, s.processes e.1, []⟩ e.2).map (s.next e.1)

def InitialOperators (s : Operators ι κ) : Prop :=
  s.redis = .empty ∧ (∀ i, s.processes i = none) ∧ s.history = []

/-- Nobody destroys the group. -/
def GroupStays (_ : Operators ι κ) (e : ι × LoopEvent κ) : Prop :=
  match e.2 with
  | .destroyGroup => False
  | .xadd _ _ | .start _ | .setStop | .crash | .io _ _ _ => True

/-- Nobody destroys the group, and a loop starts under a name that no live one has. -/
def OwnNames (s : Operators ι κ) (e : ι × LoopEvent κ) : Prop :=
  match e.2 with
  | .destroyGroup => False
  | .start c => ∀ i, ∀ p ∈ s.processes i, p.consumer ≠ c
  | .xadd _ _ | .setStop | .crash | .io _ _ _ => True

/-- The entry went to that consumer name: it is pending under it, or something was done with
it under that name. -/
def Operators.Delivered (s : Operators ι κ) (id : κ) (c : String) : Prop :=
  (id, c) ∈ s.redis.pending ∨ ∃ ev, (c, ev) ∈ s.history ∧ ev.id = id

/-- The entries a loop has been given and is not done with. -/
def hand : Pc κ → List κ
  | .top | .pendingRead | .newRead => []
  | .batch todo => todo.map (·.id)
  | .execute e _ rest | .writeResult e _ _ rest | .ack e rest => e.id :: rest.map (·.id)

def deed : LogEvent κ → Deed κ
  | .acked id => .acked id
  | .rejected id _ | .began id _ | .executed id _ | .answered id _ _ | .cut id => .worked id

def member (p : Process κ) : Consumer κ String := ⟨p.consumer, hand p.pc⟩

/-- The operators as consumers of the group. -/
def Operators.consumers (s : Operators ι κ) : Consumers ι κ ReplyFields String :=
  ⟨s.redis, fun i => (s.processes i).map member, s.history.map fun x => (x.1, deed x.2)⟩

@[simp] theorem deed_id {κ : Type} (ev : LogEvent κ) : (deed ev).id = ev.id := by
  cases ev <;> rfl

theorem members_update {ι κ : Type} [DecidableEq ι] (processes : ι → Option (Process κ))
    (i : ι) (p : Option (Process κ)) :
    (fun j => (Function.update processes i p j).map member) =
      Function.update (fun j => (processes j).map member) i (p.map member) := by
  funext j
  by_cases hj : j = i
  · subst hj
    simp
  · simp [hj]

section Refinement

variable {S : OperatorSettings} {loads : String → Loads} {s t : Operators ι κ} {i : ι}

theorem consumers_members {p : Process κ} (hp : s.processes i = some p) :
    s.consumers.members i = some (member p) := by
  simp [Operators.consumers, hp]

theorem OwnNames.stays {e : ι × LoopEvent κ} (h : OwnNames s e) : GroupStays s e := by
  unfold OwnNames at h
  unfold GroupStays
  cases he : e.2 with
  | destroyGroup => simp only [he] at h
  | xadd => trivial
  | start => trivial
  | setStop => trivial
  | crash => trivial
  | io => trivial

theorem consumers_delivered {id : κ} {c : String} :
    s.Delivered id c ↔ s.consumers.Taken c id := by
  refine or_congr Iff.rfl ⟨?_, ?_⟩
  · rintro ⟨ev, hev, rfl⟩
    exact ⟨deed ev, List.mem_map.mpr ⟨_, hev, rfl⟩, deed_id ev⟩
  · rintro ⟨d, hd, rfl⟩
    obtain ⟨⟨c', ev⟩, hev, heq⟩ := List.mem_map.mp hd
    obtain ⟨rfl, rfl⟩ := Prod.mk.inj heq
    exact ⟨ev, hev, (deed_id ev).symm⟩

theorem consumers_acked {id : κ} {c : String} :
    (c, Deed.acked id) ∈ s.consumers.log ↔ (c, .acked id) ∈ s.history := by
  constructor
  · intro h
    obtain ⟨⟨c', ev⟩, hev, heq⟩ := List.mem_map.mp h
    obtain ⟨rfl, hd⟩ := Prod.mk.inj heq
    cases ev with
    | acked id' =>
      cases hd
      exact hev
    | rejected => cases hd
    | began => cases hd
    | executed => cases hd
    | answered => cases hd
    | cut => cases hd
  · intro h
    exact List.mem_map.mpr ⟨_, h, rfl⟩

theorem owned_initial (h : InitialOperators s) : Owned s.consumers := by
  obtain ⟨hr, hp, hh⟩ := h
  have hnone : ∀ {c id}, ¬ s.consumers.Holds c id := by
    rintro c id ((hpend | ⟨d, hd, -⟩) | ⟨i, m, hm, -⟩)
    · simp [Operators.consumers, hr, GroupStream.empty, GroupStream.pending] at hpend
    · simp [Operators.consumers, hh] at hd
    · simp [Operators.consumers, hp] at hm
  exact ⟨fun hc => absurd hc hnone, fun hc => absurd hc hnone⟩

variable [DecidableEq ι]

theorem consumers_next {p : Process κ} (hp : s.processes i = some p) (t : Operator κ) :
    (s.next i t).consumers = s.consumers.next i t.redis (t.process.map member)
      (t.history.map fun ev => (p.consumer, deed ev)) := by
  simp [Operators.next, Operators.consumers, Consumers.next, hp, members_update, Function.comp_def]

/-- A step that leaves the group alone, gives no entry and acknowledges none. -/
theorem worked_next {p : Process κ} (hp : s.processes i = some p) {r : Redis κ}
    {p' : Option (Process κ)} {evs : List (LogEvent κ)} (hr : Same s.redis r)
    (hp' : ∀ q ∈ p', q.consumer = p.consumer ∧ (hand q.pc).Sublist (hand p.pc))
    (hev : ∀ ev ∈ evs, deed ev = .worked ev.id ∧ ev.id ∈ hand p.pc) :
    GroupConsumers.Step s.consumers i (s.next i ⟨r, p', evs⟩).consumers := by
  have hdeeds : evs.map (fun ev => (p.consumer, deed ev)) =
      (evs.map (·.id)).map fun id => (p.consumer, Deed.worked id) := by
    rw [List.map_map]
    refine List.map_congr_left fun ev hev' => ?_
    rw [(hev ev hev').1]
    rfl
  rw [consumers_next hp]
  simp only [hdeeds]
  refine .worked (consumers_members hp) hr (fun n hn => ?_) (fun id hid => ?_)
  · obtain ⟨q, hq, rfl⟩ := Option.map_eq_some_iff.mp hn
    exact hp' q hq
  · obtain ⟨ev, hev', rfl⟩ := List.mem_map.mp hid
    exact (hev ev hev').2

theorem io_refines {p : Process κ} (hp : s.processes i = some p) {f : CallFault} {r : Redis κ}
    {p' : Option (Process κ)} {evs : List (LogEvent κ)}
    (hio : IoStep S loads s.redis p f r p' evs) :
    GroupConsumers.Step s.consumers i (s.next i ⟨r, p', evs⟩).consumers := by
  have hgo : ∀ {pc : Pc κ} {r : Redis κ} {evs : List (LogEvent κ)}, Same s.redis r →
      (hand pc).Sublist (hand p.pc) →
      (∀ ev ∈ evs, deed ev = .worked ev.id ∧ ev.id ∈ hand p.pc) →
      GroupConsumers.Step s.consumers i (s.next i ⟨r, some { p with pc }, evs⟩).consumers := by
    intro pc r evs hr hsub hev
    refine worked_next hp hr (fun q hq => ?_) hev
    obtain rfl := Option.some.inj hq
    exact ⟨rfl, hsub⟩
  have hend : ∀ {evs : List (LogEvent κ)},
      (∀ ev ∈ evs, deed ev = .worked ev.id ∧ ev.id ∈ hand p.pc) →
      GroupConsumers.Step s.consumers i (s.next i ⟨s.redis, none, evs⟩).consumers :=
    worked_next hp (.refl _) (by simp)
  cases hio with
  | leave => exact hend (by simp)
  | enter => exact hgo (.refl _) (by simp [hand]) (by simp)
  | pendingEmpty h hr hno hpc =>
    rcases hpc with rfl | rfl
    · exact hgo hr (by simp [hand]) (by simp)
    · exact hgo hr (by simp [hand]) (by simp)
  | pendingEntry h hr he hpend =>
    rw [consumers_next hp]
    exact .found (consumers_members hp) hr hpend
  | newEmpty h hr => exact hgo hr (by simp [hand]) (by simp)
  | @newLost r' e h hr =>
    rw [consumers_next hp]
    exact .took (consumers_members hp) hr (.inl rfl)
  | newEntry h hr =>
    rw [consumers_next hp]
    exact .took (consumers_members hp) hr (.inr rfl)
  | batchLeft => exact hgo (.refl _) (by simp [hand]) (by simp)
  | parseRaised => exact hend (by simp)
  | rejected h => exact hgo (.refl _) (by simp [hand, h]) (by simp [deed, LogEvent.id, hand, h])
  | expired h => exact hgo (.refl _) (by simp [hand, h]) (by simp [deed, LogEvent.id, hand, h])
  | began h => exact hgo (.refl _) (by simp [hand, h]) (by simp [deed, LogEvent.id, hand, h])
  | encodeRaised h => exact hend (by simp [deed, LogEvent.id, hand, h])
  | executed h => exact hgo (.refl _) (by simp [hand, h]) (by simp [deed, LogEvent.id, hand, h])
  | written h => exact hgo (.refl _) (by simp [hand, h]) (by simp [deed, LogEvent.id, hand, h])
  | writeRefused h => exact hend (by simp [deed, LogEvent.id, hand, h])
  | writeLost h => exact hend (by simp [deed, LogEvent.id, hand, h])
  | acked h =>
    rw [consumers_next hp]
    exact .acked (consumers_members hp) (by simp [member, hand, h])
  | ackRefused h => exact hgo (.refl _) (by simp [hand, h]) (by simp)

/-- While the group stays, the operators take steps of its consumers. -/
theorem step_refines {e : ι × LoopEvent κ}
    (hs : guarded GroupStays (ofStep (step S loads)) s e t) :
    GroupConsumers.Step s.consumers e.1 t.consumers := by
  obtain ⟨hok, hs⟩ := hs
  obtain ⟨i, e⟩ := e
  obtain ⟨u, hu, rfl⟩ := Option.map_eq_some_iff.mp hs
  cases step_cases hu with
  | @xadd id fields r hlt he hc hp =>
    have hsame :
        (s.next i ⟨r, s.processes i, []⟩).consumers = { s.consumers with stream := r } := by
      simp [Operators.next, Operators.consumers]
    exact hsame ▸ .added hc hp
  | destroyGroup => exact hok.elim
  | @start c hp =>
    have hnone : s.processes i = none := hp
    have hnext : (s.next i ⟨s.redis.createGroup, some { consumer := c }, []⟩).consumers =
        s.consumers.next i s.redis.createGroup (some ⟨c, []⟩) [] := by
      simp [Operators.next, Operators.consumers, Consumers.next, members_update, member, hand]
    exact hnext ▸ .joined (by simp [Operators.consumers, hnone]) (same_createGroup _)
  | @setStop p hp =>
    refine worked_next hp (.refl _) (fun q hq => ?_) (by simp)
    obtain rfl := Option.some.inj hq
    exact ⟨rfl, .refl _⟩
  | @crash p hp =>
    refine worked_next hp (.refl _) (by simp) ?_
    rw [List.append_nil]
    intro ev hev
    cases hpc : p.pc <;> simp_all [Process.cutEvents, deed, LogEvent.id, hand]
  | io hp hio =>
    rw [List.append_nil]
    exact io_refines hp hio

theorem owned_reachable
    (h : Reachable InitialOperators (guarded GroupStays (ofStep (step S loads))) s) :
    Owned s.consumers :=
  h.invariant (P := fun s => Owned s.consumers) (fun _ => owned_initial)
    fun _ _ _ inv hs => inv.step (step_refines hs)

theorem namesApart_ownNames {e : ι × LoopEvent κ} (hn : NamesApart s.consumers)
    (hs : guarded OwnNames (ofStep (step S loads)) s e t) : NamesApart t.consumers := by
  obtain ⟨hok, hs⟩ := hs
  refine namesApart_step hn (step_refines ⟨hok.stays, hs⟩) fun hnone m hm j n hj heq => ?_
  obtain ⟨i, e⟩ := e
  obtain ⟨u, hu, rfl⟩ := Option.map_eq_some_iff.mp hs
  have hfree : s.processes i = none := by simpa [Operators.consumers] using hnone
  obtain ⟨q, hq, rfl⟩ := Option.map_eq_some_iff.mp hj
  have hm' : u.process.map member = some m := by
    simpa [Operators.consumers, Operators.next] using hm
  -- only a start turns no process into one
  cases step_cases hu with
  | xadd => simp [hfree] at hm'
  | destroyGroup => exact hok.elim
  | start h =>
    obtain rfl := Option.some.inj hm'
    exact hok j q hq heq.symm
  | setStop h => exact absurd (hfree.symm.trans h) (by simp)
  | crash h => exact absurd (hfree.symm.trans h) (by simp)
  | io h => exact absurd (hfree.symm.trans h) (by simp)

structure Apart (s : Operators ι κ) : Prop where
  owned : Owned s.consumers
  names : NamesApart s.consumers
  settled : Settled s.consumers

theorem apart_reachable
    (h : Reachable InitialOperators (guarded OwnNames (ofStep (step S loads))) s) : Apart s := by
  refine h.invariant (fun s hs => ?_) (fun s e t inv hs => ?_)
  · obtain ⟨hr, hp, hh⟩ := id hs
    refine ⟨owned_initial hs, ?_, ?_⟩
    · intro i j m n hm
      simp [Operators.consumers, hp] at hm
    · constructor
      · simp [Operators.consumers, hp]
      · simp [Operators.consumers, hh]
      · simp [Operators.consumers, hh]
      · simp [Operators.consumers, hh]
  · have hstep := step_refines ⟨hs.1.stays, hs.2⟩
    exact ⟨inv.owned.step hstep, namesApart_ownNames inv.names hs,
      inv.settled.step inv.owned inv.names hstep⟩

end Refinement

section Results

variable [DecidableEq ι] {S : OperatorSettings} {loads : String → Loads} {s t : Operators ι κ}

/-- Once an entry went to a consumer name, it goes to no other, and nothing is ever done with
it under another. -/
theorem entry_stays_with_its_consumer
    (h : Reachable InitialOperators (guarded GroupStays (ofStep (step S loads))) s)
    {es : List (ι × LoopEvent κ)} (hr : Run (guarded GroupStays (ofStep (step S loads))) s es t)
    {id : κ} {c d : String} (hc : s.Delivered id c) (hd : t.Delivered id d) : d = c := by
  have hkept : Owned t.consumers ∧ t.consumers.Taken c id :=
    hr.preserves (P := fun u => Owned u.consumers ∧ u.consumers.Taken c id)
      (fun u e v hu hs =>
        ⟨hu.1.step (step_refines hs), taken_step hu.1 (step_refines hs) hu.2⟩)
      ⟨owned_reachable h, consumers_delivered.mp hc⟩
  exact hkept.1.sole (.inl (consumers_delivered.mp hd)) (.inl hkept.2)

/-- With names of their own, no two loops have one entry in hand, and nothing is pending, in
hand or done of an entry once it is acknowledged. -/
theorem concurrent_operators_apart
    (h : Reachable InitialOperators (guarded OwnNames (ofStep (step S loads))) s) :
    (∀ i j p q id, s.processes i = some p → s.processes j = some q → id ∈ hand p.pc →
      id ∈ hand q.pc → i = j) ∧
    (∀ c id, (c, .acked id) ∈ s.history → (∀ d, (id, d) ∉ s.redis.pending) ∧
      ∀ i p, s.processes i = some p → id ∉ hand p.pc) ∧
    s.history.Pairwise fun later earlier =>
      earlier.2 = .acked earlier.2.id → later.2.id ≠ earlier.2.id := by
  have inv := apart_reachable h
  refine ⟨fun i j p q id hp hq hid hid' => ?_, fun c id hack => ⟨fun d => ?_, fun i p hp => ?_⟩, ?_⟩
  · exact hands_apart inv.owned inv.names (consumers_members hp) (consumers_members hq) hid hid'
  · exact inv.settled.pending (consumers_acked.mpr hack)
  · exact inv.settled.hands (consumers_acked.mpr hack) (consumers_members hp)
  · refine (List.pairwise_map.mp inv.settled.final).imp fun {x y} hlast hack => ?_
    have hlast' := hlast (by rw [deed_id, hack]; rfl)
    simpa using hlast'

end Results

section Runs

instance (s : Operators ι κ) (e : ι × LoopEvent κ) : Decidable (GroupStays s e) :=
  match e with
  | (_, .destroyGroup) => isFalse id
  | (_, .xadd _ _) | (_, .start _) | (_, .setStop) | (_, .crash) | (_, .io _ _ _) => isTrue trivial

instance [Fintype ι] (s : Operators ι κ) (e : ι × LoopEvent κ) : Decidable (OwnNames s e) :=
  match e with
  | (_, .destroyGroup) => isFalse id
  | (_, .start c) => inferInstanceAs (Decidable (∀ i, ∀ p ∈ s.processes i, p.consumer ≠ c))
  | (_, .xadd _ _) | (_, .setStop) | (_, .crash) | (_, .io _ _ _) => isTrue trivial

/-- Two places for a loop, on an empty server. -/
def twoOperators : Operators Bool StreamId := ⟨.empty, fun _ => none, []⟩

theorem initialOperators_twoOperators : InitialOperators twoOperators := ⟨rfl, fun _ => rfl, rfl⟩

/-- A ping goes to `pod-7`, which is killed while it executes it. Another loop comes and finds
nothing, and the ping waits until `pod-7` runs again, in the other place. -/
theorem entry_stays_with_its_consumer_restarted :
    ∃ s t es, Reachable InitialOperators
        (guarded GroupStays (ofStep (step defaultSettings noPayload))) s ∧
      Run (guarded GroupStays (ofStep (step defaultSettings noPayload))) s es t ∧
      s.Delivered (requestEntry "ping").id "pod-7" ∧ (t.processes true).isSome ∧
      ("pod-7", .acked (requestEntry "ping").id) ∈ t.history ∧
      ∀ d, t.Delivered (requestEntry "ping").id d → d = "pod-7" := by
  let later : List (Bool × LoopEvent StreamId) :=
    ((.start "pod-8" :: passes 3 (.text "1")).map (true, ·)) ++
      ((.start "pod-7" :: passes 9 (.text "1")).map (false, ·))
  obtain ⟨s, hs, hp, ht⟩ := Run.ofGuardedFold_satisfies (step defaultSettings noPayload)
    GroupStays twoOperators ((runOnce "ping" 4 ++ [LoopEvent.crash]).map (false, ·))
    (fun s => ((requestEntry "ping").id, "pod-7") ∈ s.redis.pending ∧
      (later.foldlM (fun s e => if GroupStays s e then step defaultSettings noPayload s e else none)
        s).any (fun t => decide ((t.processes true).isSome ∧
          ("pod-7", .acked (requestEntry "ping").id) ∈ t.history)) = true)
    (by decide +kernel)
  obtain ⟨t, ht, hother, hack⟩ := Run.ofGuardedFold_satisfies (step defaultSettings noPayload)
    GroupStays s later _ ht
  have hreach : Reachable InitialOperators
      (guarded GroupStays (ofStep (step defaultSettings noPayload))) s :=
    ⟨twoOperators, _, initialOperators_twoOperators, hs⟩
  exact ⟨s, t, later, hreach, ht, .inl hp, hother, hack, fun d hd =>
    entry_stays_with_its_consumer hreach ht (.inl hp) hd⟩

theorem concurrent_operators_apart_two :
    ∃ s p q, Reachable InitialOperators
        (guarded OwnNames (ofStep (step defaultSettings noPayload))) s ∧
      s.processes true = some p ∧ s.processes false = some q ∧
      hand p.pc = [toLex (3, 0)] ∧ hand q.pc = [toLex (2, 0)] ∧
      ("pod-7", .acked (requestEntry "ping").id) ∈ s.history ∧
      s.history.Pairwise fun later earlier =>
        earlier.2 = .acked earlier.2.id → later.2.id ≠ earlier.2.id := by
  obtain ⟨s, hs, hfalse, htrue, hack⟩ := Run.ofGuardedFold_satisfies
    (step defaultSettings noPayload) OwnNames twoOperators
    ((runOnce "ping" 7 ++ [LoopEvent.xadd (toLex (2, 0)) (requestEntry "ping").fields,
        .xadd (toLex (3, 0)) (requestEntry "ping").fields] ++
          passes 4 (.text "1")).map (false, ·) ++
      ((.start "pod-8" :: passes 4 (.text "1")).map (true, ·)))
    (fun s => ((s.processes false).map fun q => hand q.pc) = some [toLex (2, 0)] ∧
      ((s.processes true).map fun p => hand p.pc) = some [toLex (3, 0)] ∧
      ("pod-7", .acked (requestEntry "ping").id) ∈ s.history)
    (by decide +kernel)
  obtain ⟨q, hq, hqh⟩ := Option.map_eq_some_iff.mp hfalse
  obtain ⟨p, hp, hph⟩ := Option.map_eq_some_iff.mp htrue
  have hreach : Reachable InitialOperators
      (guarded OwnNames (ofStep (step defaultSettings noPayload))) s :=
    ⟨twoOperators, _, initialOperators_twoOperators, hs⟩
  exact ⟨s, p, q, hreach, hp, hq, hph, hqh, hack, (concurrent_operators_apart hreach).2.2⟩

end Runs

end BifrostSocket.ConcurrentOperators
