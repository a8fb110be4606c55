import BifrostSocket.OperatorLoops
import Mathlib.Data.Prod.Lex

/-!
# Which acknowledged requests are answered

Along every run a result is written for accepted requests only, and an accepted request is
acknowledged only after its result was written. Rejected requests are acknowledged without
a result: the branch that would write one needs a message, and a rejection carries none.
-/

namespace BifrostSocket.AnsweredRequests
open TransitionRuns ConsumerGroups ConsumerGroups.GroupStream OperatorProtocol OperatorLoops

variable {κ : Type}

/-- The parser accepts the entry as the message `m`. -/
def Accepted (loads : String → Loads) (e : Request κ) (m : CommandMessage κ) : Prop :=
  Accepts loads e.fields.toFields e.id m

/-- The key under which the entry's result is expected: the prefix and its stripped
request id. -/
def resultKeyOf (S : OperatorSettings) (e : Request κ) : String :=
  S.resultPrefix ++ strip ((e.fields.toFields.get "req_id").getD "")

/-- A result was written for this entry under its request id. -/
def Answered (S : OperatorSettings) (history : List (LogEvent κ)) (e : Request κ) : Prop :=
  ∃ body, .answered e.id (resultKeyOf S e) body ∈ history

variable {S : OperatorSettings} {loads : String → Loads}

theorem Accepted.unique {e : Request κ} {m m' : CommandMessage κ} (h : Accepted loads e m)
    (h' : Accepted loads e m') : m = m' := by
  unfold Accepted Accepts at h h'
  rw [h] at h'
  simpa using h'

theorem Accepted.key {e : Request κ} {m : CommandMessage κ} (h : Accepted loads e m) :
    resultKey S.resultPrefix m.reqId = resultKeyOf S e := by
  rw [resultKey, (Accepts.reqId h).1, Fields.reqId, resultKeyOf]

theorem Answered.mono {h h' : List (LogEvent κ)} {e : Request κ} (ha : Answered S h e)
    (hsub : h ⊆ h') : Answered S h' e := by
  obtain ⟨body, hb⟩ := ha
  exact ⟨body, hsub hb⟩

/-- What the loop knows about the entries it has in hand. -/
def PcSound (S : OperatorSettings) (loads : String → Loads) (entries : List (Request κ))
    (history : List (LogEvent κ)) : Pc κ → Prop
  | .top | .pendingRead | .newRead => True
  | .batch todo => todo ⊆ entries
  | .execute e m rest => e ∈ entries ∧ rest ⊆ entries ∧ Accepted loads e m
  | .writeResult e key _ rest => e ∈ entries ∧ rest ⊆ entries ∧ (∃ m, Accepted loads e m) ∧
      key = resultKeyOf S e
  | .ack e rest => e ∈ entries ∧ rest ⊆ entries ∧ ∀ m, Accepted loads e m → Answered S history e

/-- A log event that keeps the account: answers go to accepted entries, acknowledged
accepted entries are answered before. -/
def EventSound (S : OperatorSettings) (loads : String → Loads) (entries : List (Request κ))
    (earlier : List (LogEvent κ)) : LogEvent κ → Prop
  | .answered id key _ => ∃ e ∈ entries, e.id = id ∧ (∃ m, Accepted loads e m) ∧
      key = resultKeyOf S e
  | .acked id => ∃ e ∈ entries, e.id = id ∧ ∀ m, Accepted loads e m → Answered S earlier e
  | _ => True

def HistorySound (S : OperatorSettings) (loads : String → Loads) (entries : List (Request κ)) :
    List (LogEvent κ) → Prop
  | [] => True
  | ev :: earlier => EventSound S loads entries earlier ev ∧ HistorySound S loads entries earlier

section Entries

variable {entries entries' : List (Request κ)} {h h' : List (LogEvent κ)}

theorem PcSound.mono {pc : Pc κ} (hpc : PcSound S loads entries h pc)
    (hsub : entries ⊆ entries') (hh : h ⊆ h') : PcSound S loads entries' h' pc := by
  cases pc with
  | top => trivial
  | pendingRead => trivial
  | newRead => trivial
  | batch todo => exact List.Subset.trans hpc hsub
  | execute e m rest => exact ⟨hsub hpc.1, List.Subset.trans hpc.2.1 hsub, hpc.2.2⟩
  | writeResult e key body rest => exact ⟨hsub hpc.1, List.Subset.trans hpc.2.1 hsub, hpc.2.2⟩
  | ack e rest =>
    exact ⟨hsub hpc.1, List.Subset.trans hpc.2.1 hsub, fun m hm => (hpc.2.2 m hm).mono hh⟩

theorem EventSound.mono {ev : LogEvent κ} (hev : EventSound S loads entries h ev)
    (hsub : entries ⊆ entries') : EventSound S loads entries' h ev := by
  cases ev with
  | answered id key body =>
    obtain ⟨e, he, hrest⟩ := hev
    exact ⟨e, hsub he, hrest⟩
  | acked id =>
    obtain ⟨e, he, hrest⟩ := hev
    exact ⟨e, hsub he, hrest⟩
  | rejected => trivial
  | began => trivial
  | executed => trivial
  | cut => trivial

theorem HistorySound.mono (hh : HistorySound S loads entries h) (hsub : entries ⊆ entries') :
    HistorySound S loads entries' h := by
  induction h with
  | nil => trivial
  | cons ev earlier ih => exact ⟨hh.1.mono hsub, ih hh.2⟩

theorem HistorySound.of_suffix {ev : LogEvent κ} {earlier : List (LogEvent κ)}
    (hh : HistorySound S loads entries h) (hsuf : ev :: earlier <:+ h) :
    EventSound S loads entries earlier ev := by
  induction h with
  | nil => simp at hsuf
  | cons x xs ih =>
    rcases List.suffix_cons_iff.mp hsuf with heq | hsuf
    · obtain ⟨rfl, rfl⟩ := List.cons.inj heq
      exact hh.1
    · exact ih hh.2 hsuf

theorem HistorySound.of_mem {ev : LogEvent κ} (hh : HistorySound S loads entries h)
    (hmem : ev ∈ h) : ∃ earlier, EventSound S loads entries earlier ev := by
  obtain ⟨later, earlier, rfl⟩ := List.append_of_mem hmem
  exact ⟨earlier, hh.of_suffix (List.suffix_append later _)⟩

end Entries

variable [LinearOrder κ]

structure Invariant (S : OperatorSettings) (loads : String → Loads) (s : Operator κ) : Prop where
  pc : ∀ p ∈ s.process, PcSound S loads s.redis.entries s.history p.pc
  history : HistorySound S loads s.redis.entries s.history

theorem invariant_initial {s : Operator κ} (h : InitialOperator s) : Invariant S loads s := by
  obtain ⟨-, hp, hh⟩ := h
  constructor
  · simp [hp]
  · rw [hh]
    trivial

/-- The loop's own steps: what is logged is sound, and so is what stays in hand. -/
theorem io_sound {r r' : Redis κ} {p : Process κ} {p' : Option (Process κ)} {f : CallFault}
    {evs h : List (LogEvent κ)} (hpc : PcSound S loads r.entries h p.pc)
    (hh : HistorySound S loads r.entries h) (hio : IoStep S loads r p f r' p' evs) :
    r'.entries = r.entries ∧ HistorySound S loads r.entries (evs ++ h) ∧
      ∀ q ∈ p', PcSound S loads r.entries (evs ++ h) q.pc := by
  have hgo : ∀ {pc' : Pc κ} {evs : List (LogEvent κ)}, PcSound S loads r.entries (evs ++ h) pc' →
      ∀ q ∈ some { p with pc := pc' }, PcSound S loads r.entries (evs ++ h) q.pc := by
    intro pc' evs hp q hq
    obtain rfl := Option.some.inj hq
    exact hp
  cases hio with
  | leave => exact ⟨rfl, hh, by simp⟩
  | enter => exact ⟨rfl, hh, hgo trivial⟩
  | pendingEmpty _ hr _ hto =>
    refine ⟨hr.entries, hh, hgo ?_⟩
    rcases hto with rfl | rfl <;> trivial
  | pendingEntry _ hr he => exact ⟨hr.entries, hh, hgo (by simpa [PcSound] using he)⟩
  | newEmpty _ hr => exact ⟨hr.entries, hh, hgo trivial⟩
  | newLost _ hr => exact ⟨hr.entries, hh, hgo trivial⟩
  | newEntry _ hr => exact ⟨hr.entries, hh, hgo (by simpa [PcSound] using hr.mem)⟩
  | batchLeft => exact ⟨rfl, hh, hgo trivial⟩
  | parseRaised => exact ⟨rfl, hh, by simp⟩
  | rejected hp hno =>
    rw [hp] at hpc
    obtain ⟨he, hrest⟩ := List.cons_subset.mp hpc
    exact ⟨rfl, ⟨trivial, hh⟩, hgo ⟨he, hrest, fun m hm => absurd hm (hno m)⟩⟩
  | expired hp hm =>
    rw [hp] at hpc
    obtain ⟨he, hrest⟩ := List.cons_subset.mp hpc
    exact ⟨rfl, ⟨trivial, hh⟩, hgo ⟨he, hrest, ⟨_, hm⟩, Accepted.key hm⟩⟩
  | began hp hm =>
    rw [hp] at hpc
    obtain ⟨he, hrest⟩ := List.cons_subset.mp hpc
    exact ⟨rfl, ⟨trivial, hh⟩, hgo ⟨he, hrest, hm⟩⟩
  | encodeRaised => exact ⟨rfl, ⟨trivial, trivial, hh⟩, by simp⟩
  | executed hp =>
    rw [hp] at hpc
    obtain ⟨he, hrest, hm⟩ := hpc
    exact ⟨rfl, ⟨trivial, hh⟩, hgo ⟨he, hrest, ⟨_, hm⟩, Accepted.key hm⟩⟩
  | @written _ e key body rest hp =>
    rw [hp] at hpc
    obtain ⟨he, hrest, hm, rfl⟩ := hpc
    refine ⟨rfl, ⟨⟨e, he, rfl, hm, rfl⟩, hh⟩, hgo ⟨he, hrest, fun _ _ => ⟨body, ?_⟩⟩⟩
    exact List.mem_cons_self
  | writeRefused => exact ⟨rfl, ⟨trivial, hh⟩, by simp⟩
  | @writeLost e key body rest hp =>
    rw [hp] at hpc
    obtain ⟨he, -, hm, rfl⟩ := hpc
    exact ⟨rfl, ⟨trivial, ⟨e, he, rfl, hm, rfl⟩, hh⟩, by simp⟩
  | @acked _ e rest hp =>
    rw [hp] at hpc
    obtain ⟨he, hrest, hans⟩ := hpc
    exact ⟨rfl, ⟨⟨e, he, rfl, hans⟩, hh⟩, hgo hrest⟩
  | ackRefused hp =>
    rw [hp] at hpc
    exact ⟨rfl, hh, hgo hpc.2.1⟩

theorem invariant_step {s t : Operator κ} {ev : LoopEvent κ} (inv : Invariant S loads s)
    (hs : Step S loads s ev t) : Invariant S loads t := by
  cases hs with
  | xadd _ he =>
    have hsub : s.redis.entries ⊆ _ := he ▸ List.subset_append_left s.redis.entries _
    constructor
    · intro p hp
      exact (inv.pc p hp).mono hsub (List.Subset.refl _)
    · exact inv.history.mono hsub
  | destroyGroup => exact ⟨inv.pc, inv.history⟩
  | start =>
    refine ⟨fun p hp => ?_, inv.history⟩
    obtain rfl := Option.some.inj hp
    trivial
  | @setStop p h =>
    have hpc := inv.pc p h
    refine ⟨fun q hq => ?_, inv.history⟩
    obtain rfl := Option.some.inj hq
    exact hpc
  | @crash p =>
    refine ⟨by simp, ?_⟩
    have hcut : ∀ l : List (LogEvent κ), (∀ x ∈ l, ∃ i, x = .cut i) →
        HistorySound S loads s.redis.entries (l ++ s.history) := by
      intro l hl
      induction l with
      | nil => exact inv.history
      | cons x xs ih =>
        obtain ⟨i, rfl⟩ := hl x List.mem_cons_self
        exact ⟨trivial, ih fun y hy => hl y (List.mem_cons_of_mem _ hy)⟩
    apply hcut
    intro x hx
    unfold Process.cutEvents at hx
    split at hx <;> simp_all
  | io h hio =>
    obtain ⟨hent, hhist, hpc⟩ := io_sound (inv.pc _ h) inv.history hio
    constructor
    · rw [hent]
      exact hpc
    · rw [hent]
      exact hhist

theorem invariant_reachable {s : Operator κ}
    (h : Reachable InitialOperator (ofStep (step S loads)) s) : Invariant S loads s :=
  h.invariant (fun _ => invariant_initial) fun _ _ _ hi hs => invariant_step hi (step_cases hs)

/-- An acknowledged entry was answered before exactly when the parser accepts it. -/
theorem answered_iff_accepted {s : Operator κ}
    (h : Reachable InitialOperator (ofStep (step S loads)) s) {e : Request κ}
    (he : e ∈ s.redis.entries) {earlier : List (LogEvent κ)}
    (ha : .acked e.id :: earlier <:+ s.history) :
    Answered S earlier e ↔ ∃ m, Accepted loads e m := by
  have inv := invariant_reachable h
  constructor
  · rintro ⟨body, hb⟩
    have hmem : .answered e.id (resultKeyOf S e) body ∈ s.history :=
      ha.subset (List.mem_cons_of_mem _ hb)
    obtain ⟨-, x, hx, hid, hm, -⟩ := inv.history.of_mem hmem
    rwa [entry_unique hx he hid] at hm
  · rintro ⟨m, hm⟩
    obtain ⟨x, hx, hid, hans⟩ := inv.history.of_suffix ha
    obtain rfl := entry_unique hx he hid
    exact hans m hm

/-- An acknowledged entry with a request id was answered before it was acknowledged, if and
only if the parser accepts it. -/
theorem acked_request_answered_iff {s : Operator κ}
    (h : Reachable InitialOperator (ofStep (step S loads)) s) {e : Request κ}
    (he : e ∈ s.redis.entries) {earlier : List (LogEvent κ)}
    (ha : .acked e.id :: earlier <:+ s.history) :
    (e.fields.toFields.reqId ≠ "" → Answered S earlier e) ↔
      e.fields.toFields.reqId = "" ∨ ∃ m, Accepted loads e m := by
  rw [← answered_iff_accepted h he ha]
  constructor
  · intro hans
    by_cases hreq : e.fields.toFields.reqId = ""
    · exact .inl hreq
    · exact .inr (hans hreq)
  · rintro (hreq | hans) hne
    · exact absurd hreq hne
    · exact hans

/-- Milliseconds and sequence number. -/
abbrev StreamId := ℕ ×ₗ ℕ

/-- The default result prefix and size limit. -/
def defaultSettings : OperatorSettings := ⟨"ib:operator:result:", 4194304⟩

def noPayload (_ : String) : Loads := .value (.object [])

def emptyOperator : Operator StreamId := ⟨.empty, none, []⟩

theorem initialOperator_emptyOperator : InitialOperator emptyOperator := ⟨rfl, rfl, rfl⟩

/-- An entry with this operation under the request id `u1`. -/
def requestEntry (op : String) : Request StreamId :=
  ⟨toLex (1, 0), .dict [("req_id", "u1"), ("op", op)]⟩

/-- One pass of the loop over an entry, with the clock at zero. -/
def passes (n : ℕ) (outcome : Dumps) : List (LoopEvent StreamId) :=
  List.replicate n (.io 0 outcome .none)

def runOnce (op : String) (n : ℕ) : List (LoopEvent StreamId) :=
  [.xadd (requestEntry op).id (requestEntry op).fields, .start "pod-7"] ++ passes n (.text "1")

theorem acked_request_answered_ping :
    ∃ s earlier, Reachable InitialOperator (ofStep (step defaultSettings noPayload)) s ∧
      ((requestEntry "ping").fields.toFields.reqId ≠ "" →
        Answered defaultSettings earlier (requestEntry "ping")) ∧
      .acked (requestEntry "ping").id :: earlier <:+ s.history := by
  obtain ⟨s, hr, he, hh⟩ := Run.ofFold_satisfies (step defaultSettings noPayload) emptyOperator
    (runOnce "ping" 7)
    (fun s => s.redis.entries = [requestEntry "ping"] ∧ s.history =
      [.acked (toLex (1, 0)), .answered (toLex (1, 0)) "ib:operator:result:u1" "1",
        .executed (toLex (1, 0)) (.text "1"), .began (toLex (1, 0)) 0])
    (by decide +kernel)
  have hreach : Reachable InitialOperator (ofStep (step defaultSettings noPayload)) s :=
    ⟨emptyOperator, _, initialOperator_emptyOperator, hr⟩
  have hmem : requestEntry "ping" ∈ s.redis.entries := by simp [he]
  have hsuf : .acked (requestEntry "ping").id :: s.history.tail <:+ s.history := by
    rw [hh]
    exact List.suffix_refl _
  exact ⟨s, _, hreach, (acked_request_answered_iff hreach hmem hsuf).mpr (.inr ⟨_, rfl⟩), hsuf⟩

/-- An unknown operation under the request id `u1` is acknowledged, and nothing at all is
written under that id. -/
theorem unknown_op_acked_unanswered :
    ∃ s, Run (ofStep (step defaultSettings noPayload)) emptyOperator (runOnce "nope" 5) s ∧
      requestEntry "nope" ∈ s.redis.entries ∧ (requestEntry "nope").fields.toFields.reqId = "u1" ∧
      .acked (requestEntry "nope").id ∈ s.history ∧
      ∀ id body, .answered id (resultKey defaultSettings.resultPrefix "u1") body ∉ s.history := by
  obtain ⟨s, hr, he, hh⟩ := Run.ofFold_satisfies (step defaultSettings noPayload) emptyOperator
    (runOnce "nope" 5)
    (fun s => s.redis.entries = [requestEntry "nope"] ∧ s.history =
      [.acked (toLex (1, 0)), .rejected (toLex (1, 0)) "unknown_op:nope"])
    (by decide +kernel)
  refine ⟨s, hr, by simp [he], by decide, ?_, ?_⟩
  · rw [hh]
    exact List.mem_cons_self
  · simp [hh]

end BifrostSocket.AnsweredRequests
