import BifrostSocket.AnsweredRequests

/-!
# Requests across restarts under other consumer names

A process finds only its own pending entries again. A request that an earlier process took
and never answered is answered after a restart exactly if it is pending under the name of
the process that runs now, so no request is lost as long as no start leaves one behind.
-/

namespace BifrostSocket.RestartedConsumers
open TransitionRuns ConsumerGroups ConsumerGroups.GroupStream OperatorProtocol OperatorLoops
open AnsweredRequests

variable {κ : Type} [LinearOrder κ]

/-- No accepted request without an answer is pending under another consumer name. -/
def NoneLeftBehind (S : OperatorSettings) (loads : String → Loads) (s : Operator κ) (c : String) :
    Prop :=
  ∀ q ∈ s.redis.pending, q.2 ≠ c → ∀ e ∈ s.redis.entries, e.id = q.1 →
    (∃ m, Accepted loads e m) → Answered S s.history e

/-- Redis calls succeed, the group stays, and a process starts under a name that leaves no
request behind. -/
def KeepsRequests (S : OperatorSettings) (loads : String → Loads) :
    Operator κ → LoopEvent κ → Prop
  | _, .io _ _ fault => fault = .none
  | _, .destroyGroup => False
  | s, .start consumer => NoneLeftBehind S loads s consumer
  | _, .xadd _ _ | _, .setStop | _, .crash => True

/-- A delivered request is answered or pending, under the running process's own name if
there is one. -/
def Kept (S : OperatorSettings) (process : Option (Process κ)) (pending : List (κ × String))
    (history : List (LogEvent κ)) (e : Request κ) : Prop :=
  Answered S history e ∨ ∃ d, (e.id, d) ∈ pending ∧ ∀ p ∈ process, d = p.consumer

structure Invariant (S : OperatorSettings) (loads : String → Loads) (s : Operator κ) : Prop where
  kept : ∀ e ∈ s.redis.entries, (e.id : WithBot κ) ≤ s.redis.cursor →
    (∃ m, Accepted loads e m) → Kept S s.process s.redis.pending s.history e
  drained : ∀ p ∈ s.process, p.pc = .newRead → ∀ q ∈ s.redis.pending, q.2 ≠ p.consumer

variable {S : OperatorSettings} {loads : String → Loads} {s t : Operator κ}

theorem invariant_initial (h : InitialOperator s) : Invariant S loads s := by
  obtain ⟨hr, hp, -⟩ := h
  constructor
  · simp [hr, GroupStream.empty]
  · simp [hp]

/-- A step that leaves entries, cursor and pending list as they are and goes on under the
same name, if at all. -/
theorem Invariant.move (inv : Invariant S loads s) {r' : Redis κ} {p' : Option (Process κ)}
    {evs : List (LogEvent κ)} (hr : Same s.redis r')
    (hname : ∀ q ∈ p', ∃ p ∈ s.process, q.consumer = p.consumer)
    (hdrained : ∀ q ∈ p', q.pc = .newRead → ∀ x ∈ s.redis.pending, x.2 ≠ q.consumer) :
    Invariant S loads ⟨r', p', evs ++ s.history⟩ := by
  constructor
  · intro e he hle hm
    rw [hr.entries] at he
    rw [hr.cursor] at hle
    rcases inv.kept e he hle hm with hans | ⟨d, hd, hown⟩
    · exact .inl (hans.mono (List.subset_append_right _ _))
    · refine .inr ⟨d, by rwa [hr.pending], fun q hq => ?_⟩
      obtain ⟨p, hp, hcons⟩ := hname q hq
      rw [hcons]
      exact hown p hp
  · intro q hq hpc x hx
    rw [hr.pending] at hx
    exact hdrained q hq hpc x hx

theorem Invariant.delivered (inv : Invariant S loads s) {p : Process κ} (hp : s.process = some p)
    {e : Request κ} {r : Redis κ} (hr : NewRead s.redis p.consumer e r) :
    Invariant S loads ⟨r, some { p with pc := .batch [e] }, s.history⟩ := by
  constructor
  · intro x hx hle hm
    rw [hr.entries] at hx
    rw [hr.cursor, WithBot.coe_le_coe] at hle
    by_cases hold : (x.id : WithBot κ) ≤ s.redis.cursor
    · rcases inv.kept x hx hold hm with hans | ⟨d, hd, hown⟩
      · exact .inl hans
      · refine .inr ⟨d, ?_, fun q hq => ?_⟩
        · rw [hr.pending]
          exact List.mem_append_left _ hd
        · obtain rfl := Option.some.inj hq
          exact hown p hp
    · have hid : x.id = e.id := le_antisymm hle (hr.first x hx (not_le.mp hold))
      refine .inr ⟨p.consumer, ?_, fun q hq => ?_⟩
      · rw [hr.pending, hid]
        simp
      · obtain rfl := Option.some.inj hq
        rfl
  · intro q hq hpc
    obtain rfl := Option.some.inj hq
    cases hpc

theorem Invariant.acked (inv : Invariant S loads s) {p : Process κ} (hp : s.process = some p)
    {e : Request κ} {rest : List (Request κ)} (he : e ∈ s.redis.entries)
    (hans : ∀ m, Accepted loads e m → Answered S s.history e) :
    Invariant S loads ⟨s.redis.xack e.id, some { p with pc := .batch rest },
      .acked e.id :: s.history⟩ := by
  constructor
  · intro x hx hle hm
    by_cases hid : x.id = e.id
    · obtain rfl := entry_unique hx he hid
      obtain ⟨m, hm⟩ := hm
      exact .inl ((hans m hm).mono (List.subset_cons_self _ _))
    · rw [xack_cursor] at hle
      rcases inv.kept x hx hle hm with hans' | ⟨d, hd, hown⟩
      · exact .inl (hans'.mono (List.subset_cons_self _ _))
      · refine .inr ⟨d, ?_, fun q hq => ?_⟩
        · rw [xack_pending]
          exact List.mem_filter.mpr ⟨hd, by simpa using hid⟩
        · obtain rfl := Option.some.inj hq
          exact hown p hp
  · intro q hq hpc
    obtain rfl := Option.some.inj hq
    cases hpc

theorem invariant_io (inv : Invariant S loads s) (sound : AnsweredRequests.Invariant S loads s)
    {p : Process κ} (hp : s.process = some p) {r' : Redis κ} {p' : Option (Process κ)}
    {evs : List (LogEvent κ)} (hio : IoStep S loads s.redis p .none r' p' evs) :
    Invariant S loads ⟨r', p', evs ++ s.history⟩ := by
  have hgo : ∀ {pc : Pc κ} {evs : List (LogEvent κ)} {r' : Redis κ}, pc ≠ .newRead →
      Same s.redis r' → Invariant S loads ⟨r', some { p with pc }, evs ++ s.history⟩ := by
    intro pc evs r' hpc hr
    refine inv.move hr (fun q hq => ⟨p, hp, ?_⟩) (fun q hq hnew => ?_)
    · obtain rfl := Option.some.inj hq
      rfl
    · obtain rfl := Option.some.inj hq
      exact absurd hnew hpc
  have hend : ∀ {evs : List (LogEvent κ)}, Invariant S loads ⟨s.redis, none, evs ++ s.history⟩ :=
    inv.move (.refl _) (by simp) (by simp)
  cases hio with
  | leave => exact hend
  | enter => exact hgo (by simp) (.refl _)
  | pendingEmpty hpc hr hno hto =>
    rcases hto with rfl | rfl
    · exact hgo (by simp) hr
    · refine inv.move hr (fun q hq => ⟨p, hp, ?_⟩) (fun q hq _ => ?_)
      · obtain rfl := Option.some.inj hq
        rfl
      · obtain rfl := Option.some.inj hq
        exact hno rfl
  | pendingEntry hpc hr => exact hgo (by simp) hr
  | newEmpty hpc hr => exact hgo (by simp) hr
  | newEntry hpc hr => exact inv.delivered hp hr
  | batchLeft => exact hgo (by simp) (.refl _)
  | parseRaised => exact hend
  | rejected => exact hgo (by simp) (.refl _)
  | expired => exact hgo (by simp) (.refl _)
  | began => exact hgo (by simp) (.refl _)
  | encodeRaised => exact hend
  | executed => exact hgo (by simp) (.refl _)
  | written => exact hgo (by simp) (.refl _)
  | acked hpc =>
    have hsound := sound.pc p hp
    rw [hpc] at hsound
    exact inv.acked hp hsound.1 hsound.2.2

theorem invariant_step {ev : LoopEvent κ} (inv : Invariant S loads s)
    (sound : AnsweredRequests.Invariant S loads s)
    (hs : guarded (KeepsRequests S loads) (ofStep (step S loads)) s ev t) :
    Invariant S loads t := by
  obtain ⟨hok, hs⟩ := hs
  cases step_cases hs with
  | @xadd id fields r hlt he hc hp =>
    constructor
    · intro x hx hle hm
      simp only [he, List.mem_append, List.mem_singleton] at hx
      simp only [hc] at hle
      simp only [hp]
      rcases hx with hx | rfl
      · exact inv.kept x hx hle hm
      · exact absurd hle (not_le.mpr (cursor_lt_new hlt))
    · intro p hpr hpc q hq
      simp only [hp] at hq
      exact inv.drained p hpr hpc q hq
  | destroyGroup => exact hok.elim
  | @start c hp =>
    constructor
    · intro x hx hle hm
      rcases inv.kept x hx hle hm with hans | ⟨d, hd, -⟩
      · exact .inl hans
      · by_cases hdc : d = c
        · refine .inr ⟨d, hd, fun p hp => ?_⟩
          obtain rfl := Option.some.inj hp
          exact hdc
        · exact .inl (hok _ hd hdc x hx rfl hm)
    · intro p hp hpc
      obtain rfl := Option.some.inj hp
      cases hpc
  | @setStop p hp =>
    have hmoved : Invariant S loads ⟨s.redis, some { p with stop := true }, [] ++ s.history⟩ := by
      refine inv.move (.refl _) (fun q hq => ⟨p, hp, ?_⟩) (fun q hq hpc => ?_)
      · obtain rfl := Option.some.inj hq
        rfl
      · obtain rfl := Option.some.inj hq
        exact inv.drained p hp hpc
    exact hmoved
  | crash => exact inv.move (.refl _) (by simp) (by simp)
  | io hp hio =>
    obtain rfl : _ = CallFault.none := hok
    exact invariant_io inv sound hp hio

theorem invariant_reachable
    (h : Reachable InitialOperator (guarded (KeepsRequests S loads) (ofStep (step S loads))) s) :
    Invariant S loads s := by
  have hboth := h.invariant
    (P := fun s => Invariant S loads s ∧ AnsweredRequests.Invariant S loads s)
    (fun s hs => ⟨invariant_initial hs, AnsweredRequests.invariant_initial hs⟩)
    fun s e t hi hs => ⟨invariant_step hi.1 hi.2 hs,
      AnsweredRequests.invariant_step hi.2 (step_cases hs.2)⟩
  exact hboth.1

/-- If no start left a request behind, every request is answered by the time both reads of
the running process come back empty. -/
theorem restarts_keep_requests
    (h : Reachable InitialOperator (guarded (KeepsRequests S loads) (ofStep (step S loads))) s)
    (hq : BothReadsEmpty s) {e : Request κ} (he : e ∈ s.redis.entries) {m : CommandMessage κ}
    (hm : Accepted loads e m) : Answered S s.history e := by
  have inv := invariant_reachable h
  obtain ⟨p, r, hp, hpc, hr⟩ := hq
  rcases readNew_cases hr with ⟨-, -, hle⟩ | ⟨x, hx, -⟩
  · rcases inv.kept e he (hle e he) ⟨m, hm⟩ with hans | ⟨d, hd, hown⟩
    · exact hans
    · exact absurd (hown p hp) (inv.drained p hp hpc _ hd)
  · cases hx

instance (loads : String → Loads) (e : Request κ) : Decidable (∃ m, Accepted loads e m) :=
  match h : parseStreamFields loads e.fields.toFields e.id with
  | .ok (some m, none) => isTrue ⟨m, h⟩
  | .ok (some _, some _) | .ok (none, _) | .error _ =>
    isFalse (by rintro ⟨m, hm⟩; simp [Accepted, Accepts, h] at hm)

instance (S : OperatorSettings) (history : List (LogEvent κ)) (e : Request κ) :
    Decidable (Answered S history e) :=
  decidable_of_iff (history.any fun ev => match ev with
    | .answered id key _ => decide (id = e.id ∧ key = resultKeyOf S e)
    | _ => false) <| by
    constructor
    · intro h
      obtain ⟨ev, hmem, hev⟩ := List.any_eq_true.mp h
      cases ev with
      | answered id key body =>
        obtain ⟨rfl, rfl⟩ := of_decide_eq_true hev
        exact ⟨body, hmem⟩
      | rejected => cases hev
      | began => cases hev
      | executed => cases hev
      | acked => cases hev
      | cut => cases hev
    · rintro ⟨body, hmem⟩
      exact List.any_eq_true.mpr ⟨_, hmem, by simp⟩

instance (S : OperatorSettings) (loads : String → Loads) (s : Operator κ) (e : LoopEvent κ) :
    Decidable (KeepsRequests S loads s e) :=
  match e with
  | .io _ _ _ => inferInstanceAs (Decidable (_ = _))
  | .start _ => inferInstanceAs (Decidable (∀ q ∈ _, _))
  | .destroyGroup => isFalse id
  | .xadd _ _ | .setStop | .crash => isTrue trivial

/-- The process is killed while it executes a ping and started again under its old name,
and finds the ping again. -/
theorem restarts_keep_requests_same_name :
    ∃ s, Reachable InitialOperator
        (guarded (KeepsRequests defaultSettings noPayload)
          (ofStep (step defaultSettings noPayload))) s ∧
      BothReadsEmpty s ∧ .cut (requestEntry "ping").id ∈ s.history ∧
      Answered defaultSettings s.history (requestEntry "ping") := by
  obtain ⟨s, hr, hq, he, hcut⟩ := Run.ofGuardedFold_satisfies (step defaultSettings noPayload)
    (KeepsRequests defaultSettings noPayload) emptyOperator
    (runOnce "ping" 4 ++ [.crash, .start "pod-7"] ++ passes 9 (.text "1"))
    (fun s => BothReadsEmpty s ∧ s.redis.entries = [requestEntry "ping"] ∧
      .cut (requestEntry "ping").id ∈ s.history)
    (by decide +kernel)
  have hreach : Reachable InitialOperator (guarded (KeepsRequests defaultSettings noPayload)
      (ofStep (step defaultSettings noPayload))) s :=
    ⟨emptyOperator, _, initialOperator_emptyOperator, hr⟩
  have hmem : requestEntry "ping" ∈ s.redis.entries := by simp [he]
  exact ⟨s, hreach, hq, hcut, restarts_keep_requests hreach hq hmem rfl⟩

/-- A ping is delivered, the process is killed, and the next one has another process id. -/
def renamedRestart : List (LoopEvent StreamId) :=
  [.xadd (requestEntry "ping").id (requestEntry "ping").fields, .start (consumerName "pod" 7)] ++
    passes 3 (.text "1") ++ [.crash, .start (consumerName "pod" 8)] ++ passes 2 (.text "1")

/-- The accepted ping, delivered to the first process, is never answered: both reads of the
second process are empty. -/
theorem renamed_restart_loses_request :
    ∃ s, Run (ofStep (step defaultSettings noPayload)) emptyOperator renamedRestart s ∧
      BothReadsEmpty s ∧ requestEntry "ping" ∈ s.redis.entries ∧
      (∃ m, Accepted noPayload (requestEntry "ping") m) ∧
      s.redis.pending = [((requestEntry "ping").id, consumerName "pod" 7)] ∧
      ¬ Answered defaultSettings s.history (requestEntry "ping") := by
  obtain ⟨s, hr, hq, he, hp, hans⟩ := Run.ofFold_satisfies (step defaultSettings noPayload)
    emptyOperator renamedRestart
    (fun s => BothReadsEmpty s ∧ s.redis.entries = [requestEntry "ping"] ∧
      s.redis.pending = [((requestEntry "ping").id, consumerName "pod" 7)] ∧
      ¬ Answered defaultSettings s.history (requestEntry "ping"))
    (by decide +kernel)
  exact ⟨s, hr, hq, by simp [he], ⟨_, rfl⟩, hp, hans⟩

end BifrostSocket.RestartedConsumers
