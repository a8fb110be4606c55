import BifrostSocket.ConsumerGroups
import BifrostSocket.OperatorProtocol
import BifrostSocket.TransitionRuns

/-!
# The operator's main loop

`run_ib_operator_loop` over the command stream: it reads its own pending entry, then a new
one, rejects, answers or executes it, writes the result and acknowledges. A process may be
stopped or killed between any two steps and be started again, and every Redis call may fail
before or after it took effect. What is done with each entry is kept in a history, newest
first.
-/

namespace BifrostSocket.OperatorLoops
open TransitionRuns ConsumerGroups ConsumerGroups.GroupStream OperatorProtocol

abbrev Request (κ : Type) := Entry κ ReplyFields

abbrev Redis (κ : Type) [LinearOrder κ] := GroupStream κ ReplyFields String

/-- Where the loop stands; `rest` are the entries of the reply still to come. -/
inductive Pc (κ : Type) where
  | top
  | pendingRead
  | newRead
  | batch (todo : List (Request κ))
  | execute (e : Request κ) (msg : CommandMessage κ) (rest : List (Request κ))
  | writeResult (e : Request κ) (key body : String) (rest : List (Request κ))
  | ack (e : Request κ) (rest : List (Request κ))

structure Process (κ : Type) where
  consumer : String
  pc : Pc κ := .top
  stop : Bool := false

/-- `consumer_name`. -/
def consumerName (host : String) (pid : ℕ) : String := host ++ "-" ++ toString pid

inductive LogEvent (κ : Type) where
  | rejected (id : κ) (reason : String)
  | began (id : κ) (nowMs : ℤ)
  | executed (id : κ) (outcome : Dumps)
  | answered (id : κ) (key body : String)
  | acked (id : κ)
  | cut (id : κ)
  deriving DecidableEq

def LogEvent.id {κ : Type} : LogEvent κ → κ
  | .rejected i _ | .began i _ | .executed i _ | .answered i _ _ | .acked i | .cut i => i

/-- The handling of an entry that ends with the process. -/
def Process.cutEvents {κ : Type} (p : Process κ) : List (LogEvent κ) :=
  match p.pc with
  | .execute e _ _ | .writeResult e _ _ _ | .ack e _ => [.cut e.id]
  | .top | .pendingRead | .newRead | .batch _ => []

structure Operator (κ : Type) [LinearOrder κ] where
  redis : Redis κ
  process : Option (Process κ)
  history : List (LogEvent κ)

inductive LoopEvent (κ : Type) where
  | xadd (id : κ) (fields : ReplyFields)
  | destroyGroup
  | start (consumer : String)
  | setStop
  | crash
  | io (nowMs : ℤ) (outcome : Dumps) (fault : CallFault)

variable {κ : Type} [LinearOrder κ]

/-- A read that finds no group creates it and tries once more. -/
def xreadgroupRecoverNogroup {α : Type} (read : Redis κ → Option α) (r : Redis κ) : Option α :=
  match read r with
  | some a => some a
  | none => read r.createGroup

/-- A read under a fault: the reply, unless the call raised, and the server after it. -/
def readWith (fault : CallFault) (r : Redis κ) (answer : Option (Request κ) × Redis κ) :
    Option (Option (Request κ)) × Redis κ :=
  match fault with
  | .none => (some answer.1, answer.2)
  | .before => (none, r)
  | .after => (none, answer.2)

/-- One step of the loop: the server, the process (`none` once the loop is left) and what
was done with an entry. -/
def io (S : OperatorSettings) (loads : String → Loads) (nowMs : ℤ) (outcome : Dumps)
    (fault : CallFault) (r : Redis κ) (p : Process κ) :
    Option (Redis κ × Option (Process κ) × List (LogEvent κ)) :=
  let goto (pc : Pc κ) : Option (Process κ) := some { p with pc }
  match p.pc with
  | .top => some (r, if p.stop then none else goto .pendingRead, [])
  | .pendingRead =>
    (xreadgroupRecoverNogroup (fun r => (r.readPending p.consumer).map (·, r)) r).map fun a =>
      match readWith fault r a with
      -- a read that raises counts as an empty one here
      | (some (some e), r') => (r', goto (.batch [e]), [])
      | (_, r') => (r', goto (if p.stop then .top else .newRead), [])
  | .newRead =>
    (xreadgroupRecoverNogroup (·.readNew p.consumer) r).map fun a =>
      match readWith fault r a with
      | (some (some e), r') => (r', goto (.batch [e]), [])
      | (_, r') => (r', goto .top, [])
  | .batch [] => some (r, goto .top, [])
  | .batch (e :: rest) =>
    if p.stop then some (r, goto .top, [])
    else match parseStreamFields loads e.fields.toFields e.id with
      | .error _ => some (r, none, [])
      | .ok (none, reason) => some (r, goto (.ack e rest), [.rejected e.id (reason.getD "parse")])
      | .ok (some msg, some reason) =>
        let key := resultKey S.resultPrefix msg.reqId
        let body := orDefault (S.errorBody (orDefault (some reason) "parse")) "\x7b\x7d"
        some (r, goto (if msg.reqId = "" then .ack e rest else .writeResult e key body rest),
          [.rejected e.id reason])
      | .ok (some msg, none) =>
        let key := resultKey S.resultPrefix msg.reqId
        some (r, goto (if msg.isExpired nowMs then .writeResult e key S.expiredBody rest
          else .execute e msg rest), [.began e.id nowMs])
  | .execute e msg rest =>
    match S.outcomeBody outcome with
    | .error _ => some (r, none, [.cut e.id, .executed e.id outcome])
    | .ok body =>
      let key := resultKey S.resultPrefix msg.reqId
      some (r, goto (.writeResult e key body rest), [.executed e.id outcome])
  | .writeResult e key body rest =>
    match fault with
    | .none => some (r, goto (.ack e rest), [.answered e.id key body])
    | .before => some (r, none, [.cut e.id])
    | .after => some (r, none, [.cut e.id, .answered e.id key body])
  | .ack e rest =>
    -- `ack_message` swallows what the call raises
    match fault with
    | .before => some (r, goto (.batch rest), [])
    | .none | .after => some (r.xack e.id, goto (.batch rest), [.acked e.id])

def step (S : OperatorSettings) (loads : String → Loads) (s : Operator κ) :
    LoopEvent κ → Option (Operator κ)
  | .xadd id fields => (s.redis.xadd id fields).map ({ s with redis := · })
  | .destroyGroup => some { s with redis := s.redis.destroyGroup }
  | .start consumer =>
    match s.process with
    | none => some { s with redis := s.redis.createGroup, process := some { consumer } }
    | some _ => none
  | .setStop => s.process.map fun p => { s with process := some { p with stop := true } }
  | .crash => s.process.map fun p =>
      { s with process := none, history := p.cutEvents ++ s.history }
  | .io nowMs outcome fault => s.process.bind fun p =>
      (io S loads nowMs outcome fault s.redis p).map fun a =>
        ⟨a.1, a.2.1, a.2.2 ++ s.history⟩

/-- No process has run yet on an empty server. -/
def InitialOperator (s : Operator κ) : Prop :=
  s.redis = .empty ∧ s.process = none ∧ s.history = []

/-- The running process found nothing pending and finds no new entry either. -/
def BothReadsEmpty (s : Operator κ) : Prop :=
  ∃ p r, s.process = some p ∧ p.pc = .newRead ∧ s.redis.readNew p.consumer = some (none, r)

def Pc.isNewRead {κ : Type} : Pc κ → Bool
  | .newRead => true
  | .top | .pendingRead | .batch _ | .execute _ _ _ | .writeResult _ _ _ _ | .ack _ _ => false

instance (s : Operator κ) : Decidable (BothReadsEmpty s) :=
  decidable_of_iff (s.process.any fun p => p.pc.isNewRead &&
    ((s.redis.readNew p.consumer).any fun a => a.1.isNone)) <| by
    constructor
    · intro h
      cases hp : s.process with
      | none => simp [hp] at h
      | some p =>
        rw [hp, Option.any_some, Bool.and_eq_true] at h
        cases hr : s.redis.readNew p.consumer with
        | none => simp [hr] at h
        | some a =>
          obtain ⟨x, r⟩ := a
          obtain rfl : x = none := by simpa [hr] using h.2
          refine ⟨p, r, hp, ?_, hr⟩
          cases hpc : p.pc <;> simp_all [Pc.isNewRead]
    · rintro ⟨p, r, hp, hpc, hr⟩
      simp [hp, hpc, hr, Pc.isNewRead]

/-- What a step of the loop can do to the server and the process, and what it logs. -/
inductive IoStep (S : OperatorSettings) (loads : String → Loads) (r : Redis κ) (p : Process κ) :
    CallFault → Redis κ → Option (Process κ) → List (LogEvent κ) → Prop where
  | leave {f} (h : p.pc = .top) : IoStep S loads r p f r none []
  | enter {f} (h : p.pc = .top) : IoStep S loads r p f r (some { p with pc := .pendingRead }) []
  | pendingEmpty {f r'} (h : p.pc = .pendingRead) (hr : Same r r')
      (hno : f = .none → ∀ q ∈ r.pending, q.2 ≠ p.consumer) {pc} (hpc : pc = .top ∨ pc = .newRead) :
      IoStep S loads r p f r' (some { p with pc }) []
  | pendingEntry {f r' e} (h : p.pc = .pendingRead) (hr : Same r r') (he : e ∈ r.entries)
      (hp : (e.id, p.consumer) ∈ r.pending) :
      IoStep S loads r p f r' (some { p with pc := .batch [e] }) []
  | newEmpty {f r'} (h : p.pc = .newRead) (hr : Same r r')
      (hno : f = .none → ∀ e ∈ r.entries, (e.id : WithBot κ) ≤ r.cursor) :
      IoStep S loads r p f r' (some { p with pc := .top }) []
  | newLost {r' e} (h : p.pc = .newRead) (hr : NewRead r p.consumer e r') :
      IoStep S loads r p .after r' (some { p with pc := .top }) []
  | newEntry {f r' e} (h : p.pc = .newRead) (hr : NewRead r p.consumer e r') :
      IoStep S loads r p f r' (some { p with pc := .batch [e] }) []
  | batchLeft {f todo} (h : p.pc = .batch todo) (hs : todo = [] ∨ p.stop = true) :
      IoStep S loads r p f r (some { p with pc := .top }) []
  | parseRaised {f e rest} (h : p.pc = .batch (e :: rest)) : IoStep S loads r p f r none []
  | rejected {f e rest reason} (h : p.pc = .batch (e :: rest))
      (hno : ∀ m, ¬ Accepts loads e.fields.toFields e.id m) :
      IoStep S loads r p f r (some { p with pc := .ack e rest }) [.rejected e.id reason]
  | expired {f nowMs e rest m} (h : p.pc = .batch (e :: rest))
      (hm : Accepts loads e.fields.toFields e.id m) (hexp : m.isExpired nowMs = true) :
      IoStep S loads r p f r (some { p with
        pc := .writeResult e (resultKey S.resultPrefix m.reqId) S.expiredBody rest })
        [.began e.id nowMs]
  | began {f nowMs e rest m} (h : p.pc = .batch (e :: rest))
      (hm : Accepts loads e.fields.toFields e.id m) (hexp : m.isExpired nowMs = false) :
      IoStep S loads r p f r (some { p with pc := .execute e m rest }) [.began e.id nowMs]
  | encodeRaised {f e m rest outcome} (h : p.pc = .execute e m rest) :
      IoStep S loads r p f r none [.cut e.id, .executed e.id outcome]
  | executed {f e m rest outcome body} (h : p.pc = .execute e m rest)
      (hb : S.outcomeBody outcome = .ok body) :
      IoStep S loads r p f r (some { p with
        pc := .writeResult e (resultKey S.resultPrefix m.reqId) body rest })
        [.executed e.id outcome]
  | written {f e key body rest} (h : p.pc = .writeResult e key body rest) :
      IoStep S loads r p f r (some { p with pc := .ack e rest }) [.answered e.id key body]
  | writeRefused {e key body rest} (h : p.pc = .writeResult e key body rest) :
      IoStep S loads r p .before r none [.cut e.id]
  | writeLost {e key body rest} (h : p.pc = .writeResult e key body rest) :
      IoStep S loads r p .after r none [.cut e.id, .answered e.id key body]
  | acked {f e rest} (h : p.pc = .ack e rest) :
      IoStep S loads r p f (r.xack e.id) (some { p with pc := .batch rest }) [.acked e.id]
  | ackRefused {e rest} (h : p.pc = .ack e rest) :
      IoStep S loads r p .before r (some { p with pc := .batch rest }) []

section Inversion

variable {S : OperatorSettings} {loads : String → Loads} {r r' : Redis κ} {p : Process κ}
  {p' : Option (Process κ)} {evs : List (LogEvent κ)} {fault : CallFault}

theorem recoverPending_cases {c : String} {a : Option (Request κ) × Redis κ}
    (h : xreadgroupRecoverNogroup (fun r => (r.readPending c).map (·, r)) r = some a) :
    Same r a.2 ∧ ((a.1 = none ∧ ∀ q ∈ r.pending, q.2 ≠ c) ∨
      ∃ e, a.1 = some e ∧ e ∈ r.entries ∧ (e.id, c) ∈ r.pending) := by
  simp only [xreadgroupRecoverNogroup] at h
  split at h
  · next b hb =>
    obtain rfl := Option.some.inj h
    obtain ⟨x, hx, rfl⟩ := Option.map_eq_some_iff.mp hb
    exact ⟨.refl r, readPending_cases hx⟩
  · obtain ⟨x, hx, rfl⟩ := Option.map_eq_some_iff.mp h
    have hcase := readPending_cases (s := r.createGroup) hx
    exact ⟨same_createGroup r, hcase⟩

theorem recoverNew_cases {c : String} {a : Option (Request κ) × Redis κ}
    (h : xreadgroupRecoverNogroup (·.readNew c) r = some a) :
    (a.1 = none ∧ Same r a.2 ∧ ∀ e ∈ r.entries, (e.id : WithBot κ) ≤ r.cursor) ∨
      ∃ e, a.1 = some e ∧ NewRead r c e a.2 := by
  simp only [xreadgroupRecoverNogroup] at h
  split at h
  · next b hb =>
    obtain rfl := Option.some.inj h
    exact readNew_cases hb
  · rcases readNew_cases h with ⟨hn, hs, hle⟩ | ⟨e, he, hn⟩
    · exact .inl ⟨hn, ⟨hs.entries, hs.cursor, hs.pending⟩, hle⟩
    · exact .inr ⟨e, he, ⟨hn.mem, hn.behind, hn.first, hn.entries, hn.cursor, hn.pending⟩⟩

theorem readWith_cases (fault : CallFault) (r : Redis κ) (a : Option (Request κ) × Redis κ) :
    (fault = .none ∧ readWith fault r a = (some a.1, a.2)) ∨
      (fault = .before ∧ readWith fault r a = (none, r)) ∨
      (fault = .after ∧ readWith fault r a = (none, a.2)) := by
  cases fault with
  | none => exact .inl ⟨rfl, rfl⟩
  | before => exact .inr (.inl ⟨rfl, rfl⟩)
  | after => exact .inr (.inr ⟨rfl, rfl⟩)

theorem io_cases {nowMs : ℤ} {outcome : Dumps}
    (h : io S loads nowMs outcome fault r p = some (r', p', evs)) :
    IoStep S loads r p fault r' p' evs := by
  cases hpc : p.pc with
  | top =>
    simp only [io, hpc, Option.some.injEq, Prod.mk.injEq] at h
    obtain ⟨rfl, rfl, rfl⟩ := h
    split
    · exact .leave hpc
    · exact .enter hpc
  | pendingRead =>
    simp only [io, hpc, Option.map_eq_some_iff] at h
    obtain ⟨a, ha, h⟩ := h
    obtain ⟨hsame, hcase⟩ := recoverPending_cases ha
    have hgo : (if p.stop then Pc.top else Pc.newRead : Pc κ) = .top ∨
        (if p.stop then Pc.top else Pc.newRead : Pc κ) = .newRead := by
      split
      · exact .inl rfl
      · exact .inr rfl
    rcases readWith_cases fault r a with ⟨hf, hw⟩ | ⟨hf, hw⟩ | ⟨hf, hw⟩
    · rcases hcase with ⟨hnone, hno⟩ | ⟨e, he, hmem, hpend⟩
      · simp only [hw, hnone, Prod.mk.injEq] at h
        obtain ⟨rfl, rfl, rfl⟩ := h
        exact .pendingEmpty hpc hsame (fun _ => hno) hgo
      · simp only [hw, he, Prod.mk.injEq] at h
        obtain ⟨rfl, rfl, rfl⟩ := h
        exact .pendingEntry hpc hsame hmem hpend
    · simp only [hw, Prod.mk.injEq] at h
      obtain ⟨rfl, rfl, rfl⟩ := h
      exact .pendingEmpty hpc (.refl _) (by simp [hf]) hgo
    · simp only [hw, Prod.mk.injEq] at h
      obtain ⟨rfl, rfl, rfl⟩ := h
      exact .pendingEmpty hpc hsame (by simp [hf]) hgo
  | newRead =>
    simp only [io, hpc, Option.map_eq_some_iff] at h
    obtain ⟨a, ha, h⟩ := h
    rcases readWith_cases fault r a with ⟨hf, hw⟩ | ⟨hf, hw⟩ | ⟨hf, hw⟩
    · rcases recoverNew_cases ha with ⟨hnone, hsame, hle⟩ | ⟨e, he, hnew⟩
      · simp only [hw, hnone, Prod.mk.injEq] at h
        obtain ⟨rfl, rfl, rfl⟩ := h
        exact .newEmpty hpc hsame fun _ => hle
      · simp only [hw, he, Prod.mk.injEq] at h
        obtain ⟨rfl, rfl, rfl⟩ := h
        exact .newEntry hpc hnew
    · simp only [hw, Prod.mk.injEq] at h
      obtain ⟨rfl, rfl, rfl⟩ := h
      exact .newEmpty hpc (.refl _) (by simp [hf])
    · simp only [hw, Prod.mk.injEq] at h
      obtain ⟨rfl, rfl, rfl⟩ := h
      -- the reply is lost, but the server may have delivered an entry
      rcases recoverNew_cases ha with ⟨-, hsame, -⟩ | ⟨e, -, hnew⟩
      · exact .newEmpty hpc hsame (by simp [hf])
      · subst hf
        exact .newLost hpc hnew
  | batch todo =>
    cases todo with
    | nil =>
      simp only [io, hpc, Option.some.injEq, Prod.mk.injEq] at h
      obtain ⟨rfl, rfl, rfl⟩ := h
      exact .batchLeft hpc (.inl rfl)
    | cons e rest =>
      simp only [io, hpc] at h
      split at h
      · next hs =>
        simp only [Option.some.injEq, Prod.mk.injEq] at h
        obtain ⟨rfl, rfl, rfl⟩ := h
        exact .batchLeft hpc (.inr hs)
      · rcases parseStreamFields_cases loads e.fields.toFields e.id with
          ⟨err, he⟩ | ⟨reason, hr⟩ | ⟨m, hm, -⟩
        · simp only [he, Option.some.injEq, Prod.mk.injEq] at h
          obtain ⟨rfl, rfl, rfl⟩ := h
          exact .parseRaised hpc
        · simp only [hr, Option.some.injEq, Prod.mk.injEq] at h
          obtain ⟨rfl, rfl, rfl⟩ := h
          exact .rejected hpc fun m hacc => by simp [Accepts, hr] at hacc
        · simp only [hm, Option.some.injEq, Prod.mk.injEq] at h
          obtain ⟨rfl, rfl, rfl⟩ := h
          cases hexp : m.isExpired nowMs with
          | true => exact .expired hpc hm hexp
          | false => exact .began hpc hm hexp
  | execute e m rest =>
    simp only [io, hpc] at h
    split at h
    · simp only [Option.some.injEq, Prod.mk.injEq] at h
      obtain ⟨rfl, rfl, rfl⟩ := h
      exact .encodeRaised hpc
    · next body hb =>
      simp only [Option.some.injEq, Prod.mk.injEq] at h
      obtain ⟨rfl, rfl, rfl⟩ := h
      exact .executed hpc hb
  | writeResult e key body rest =>
    cases fault with
    | none =>
      simp only [io, hpc, Option.some.injEq, Prod.mk.injEq] at h
      obtain ⟨rfl, rfl, rfl⟩ := h
      exact .written hpc
    | before =>
      simp only [io, hpc, Option.some.injEq, Prod.mk.injEq] at h
      obtain ⟨rfl, rfl, rfl⟩ := h
      exact .writeRefused hpc
    | after =>
      simp only [io, hpc, Option.some.injEq, Prod.mk.injEq] at h
      obtain ⟨rfl, rfl, rfl⟩ := h
      exact .writeLost hpc
  | ack e rest =>
    cases fault with
    | none =>
      simp only [io, hpc, Option.some.injEq, Prod.mk.injEq] at h
      obtain ⟨rfl, rfl, rfl⟩ := h
      exact .acked hpc
    | before =>
      simp only [io, hpc, Option.some.injEq, Prod.mk.injEq] at h
      obtain ⟨rfl, rfl, rfl⟩ := h
      exact .ackRefused hpc
    | after =>
      simp only [io, hpc, Option.some.injEq, Prod.mk.injEq] at h
      obtain ⟨rfl, rfl, rfl⟩ := h
      exact .acked hpc

end Inversion

/-- The steps of the loop, of its producers and of its environment. -/
inductive Step (S : OperatorSettings) (loads : String → Loads) (s : Operator κ) :
    LoopEvent κ → Operator κ → Prop where
  | xadd {id fields r} (hlt : ∀ e ∈ s.redis.entries, e.id < id)
      (he : r.entries = s.redis.entries ++ [⟨id, fields⟩]) (hc : r.cursor = s.redis.cursor)
      (hp : r.pending = s.redis.pending) : Step S loads s (.xadd id fields) { s with redis := r }
  | destroyGroup : Step S loads s .destroyGroup { s with redis := s.redis.destroyGroup }
  | start {c} (h : s.process = none) : Step S loads s (.start c)
      { s with redis := s.redis.createGroup, process := some { consumer := c } }
  | setStop {p} (h : s.process = some p) :
      Step S loads s .setStop { s with process := some { p with stop := true } }
  | crash {p} (h : s.process = some p) :
      Step S loads s .crash { s with process := none, history := p.cutEvents ++ s.history }
  | io {p nowMs outcome f r' p' evs} (h : s.process = some p)
      (hio : IoStep S loads s.redis p f r' p' evs) :
      Step S loads s (.io nowMs outcome f) ⟨r', p', evs ++ s.history⟩

theorem step_cases {S : OperatorSettings} {loads : String → Loads} {s t : Operator κ}
    {e : LoopEvent κ} (h : step S loads s e = some t) : Step S loads s e t := by
  cases e with
  | xadd id fields =>
    obtain ⟨r, hr, rfl⟩ := Option.map_eq_some_iff.mp h
    obtain ⟨hlt, he, hc, hp, -⟩ := xadd_ok hr
    exact .xadd hlt he hc hp
  | destroyGroup => exact Option.some.inj h ▸ .destroyGroup
  | start c =>
    simp only [step] at h
    split at h
    · next hp => exact Option.some.inj h ▸ .start hp
    · cases h
  | setStop =>
    obtain ⟨p, hp, rfl⟩ := Option.map_eq_some_iff.mp h
    exact .setStop hp
  | crash =>
    obtain ⟨p, hp, rfl⟩ := Option.map_eq_some_iff.mp h
    exact .crash hp
  | io nowMs outcome f =>
    obtain ⟨p, hp, h⟩ := Option.bind_eq_some_iff.mp h
    obtain ⟨a, ha, rfl⟩ := Option.map_eq_some_iff.mp h
    exact .io hp (io_cases ha)

end BifrostSocket.OperatorLoops
