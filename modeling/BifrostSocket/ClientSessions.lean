import BifrostSocket.IbClients

/-!
# Sessions opened on behalf of one client

As long as connector methods reconnect only the client's current connector, and only while
no call of the client is connecting or replacing it, every open session belongs to the
current connector. A disconnected client then stays without a session until the next
`ensure_connected`.
-/

namespace BifrostSocket.ClientSessions
open TransitionRuns ConnectScans IbClients

/-- A method that has to reconnect is called on the current connector while nothing else
connects, and the client's calls enter their locked part only after it has finished. -/
def Disciplined (w : World) : Event → Prop
  | .methodCall ref _ => (w.heap ref).isConnected = true ∨
      (w.client.connector = some ref ∧ w.holder = none ∧ w.reconnecting = [])
  | .grant _ => w.reconnecting = []
  | _ => True

instance (w : World) (e : Event) : Decidable (Disciplined w e) :=
  match e with
  | .methodCall _ _ => inferInstanceAs (Decidable (_ ∨ _))
  | .grant _ => inferInstanceAs (Decidable (_ = _))
  | .ensureCall _ | .disconnectCall | .attemptOpens | .attemptEnds _ _ | .reconnectOpens _
  | .reconnectEnds _ _ _ | .drop _ _ | .markDropped _ _ | .connectedSnapshot _ => isTrue trivial

/-- Only the current connector has a session, and unless an attempt is under way its flag
is up, so that a disconnect closes it. -/
structure Invariant (w : World) : Prop where
  current : ∀ i, (w.heap i).ibConnected = true → w.client.connector = some i
  covered : ∀ i, (w.heap i).ibConnected = true → (w.heap i).connected = true ∨
    (∃ a, w.holder = some a ∧ a.ref = i) ∨ ∃ a ∈ w.reconnecting, a.ref = i
  holder : ∀ a, w.holder = some a → w.client.connector = some a.ref ∧ w.reconnecting = []
  reconnecting : ∀ a ∈ w.reconnecting, w.client.connector = some a.ref

section Operations

variable {w w' : World} {i j : ℕ} {now : ℚ} {a : Attempt} {o : AttemptOutcome}

theorem invariant_initial (port clientId : ℤ) : Invariant (initialWorld port clientId) := by
  refine ⟨?_, ?_, ?_, ?_⟩
  · simp [initialWorld]
  · simp [initialWorld]
  · simp [initialWorld]
  · simp [initialWorld]

/-- Nothing is open: then only the tasks matter. -/
theorem Invariant.of_closed (hclosed : ∀ i, (w.heap i).ibConnected = false)
    (hholder : ∀ a, w.holder = some a → w.client.connector = some a.ref)
    (hreconnecting : w.reconnecting = []) : Invariant w where
  current i hi := by simp [hclosed i] at hi
  covered i hi := by simp [hclosed i] at hi
  holder a ha := ⟨hholder a ha, hreconnecting⟩
  reconnecting a ha := by simp [hreconnecting] at ha

/-- A step that opens nothing and leaves the flags of open sessions up. -/
theorem Invariant.frame (h : Invariant w) (hf : Frame w w')
    (hheap : ∀ i, (w'.heap i).ibConnected = true → (w.heap i).ibConnected = true ∧
      ((w.heap i).connected = true → (w'.heap i).connected = true)) : Invariant w' where
  current i hi := by
    rw [hf.connector]
    exact h.current i (hheap i hi).1
  covered i hi := by
    rw [hf.holder, hf.reconnecting]
    exact (h.covered i (hheap i hi).1).imp_left (hheap i hi).2
  holder a ha := by
    rw [hf.holder] at ha
    rw [hf.connector, hf.reconnecting]
    exact h.holder a ha
  reconnecting a ha := by
    rw [hf.reconnecting] at ha
    rw [hf.connector]
    exact h.reconnecting a ha

theorem Invariant.closeSession (h : Invariant w) (i : ℕ) (now : ℚ) :
    Invariant (w.closeSession i now) := by
  refine h.frame (frame_closeSession w i now) fun j hj => ?_
  by_cases hij : j = i
  · subst hij
    simp [closeSession_closed] at hj
  · rw [closeSession_other now hij] at hj ⊢
    exact ⟨hj, fun hc => hc⟩

theorem Invariant.markDropped (h : Invariant w) (i : ℕ) (now : ℚ) :
    Invariant ((w.closeSession i now).connectGivenUp i) := by
  refine (h.closeSession i now).frame (frame_set _ i _) fun j hj => ?_
  by_cases hij : j = i
  · subst hij
    simp [World.connectGivenUp, closeSession_closed] at hj
  · rw [World.connectGivenUp, set_heap_other _ hij] at hj ⊢
    exact ⟨hj, fun hc => hc⟩

theorem Invariant.waiting (h : Invariant w) (waiting : List LockedCall) :
    Invariant { w with waiting } :=
  ⟨h.current, h.covered, h.holder, h.reconnecting⟩

theorem Invariant.snapshot (h : Invariant w) (now : ℚ) : Invariant (w.snapshot now) := by
  unfold World.snapshot
  split
  · exact h
  · split
    · exact h
    · dsimp only
      split
      · exact h
      · exact ⟨h.current, h.covered, h.holder, h.reconnecting⟩

theorem Invariant.disconnected (h : Invariant w) (hholder : w.holder = none)
    (hrec : w.reconnecting = []) {i : ℕ} (hi : w.client.connector = some i) (now : ℚ) (j : ℕ) :
    ((w.connectorDisconnect i now).heap j).ibConnected = false := by
  rw [Bool.eq_false_iff]
  intro hj
  by_cases hij : j = i
  · subst hij
    cases hc : (w.heap j).connected with
    | true => simp [connectorDisconnect_closed now hc] at hj
    | false =>
      rw [connectorDisconnect_down now hc] at hj
      rcases h.covered j hj with hup | ⟨a, ha, -⟩ | ⟨a, ha, -⟩
      · simp [hc] at hup
      · simp [hholder] at ha
      · simp [hrec] at ha
  · rw [connectorDisconnect_other now hij] at hj
    have hcur := h.current j hj
    rw [hi] at hcur
    exact hij (Option.some.inj hcur).symm

theorem Invariant.closed_of_none (h : Invariant w) (hnone : w.client.connector = none) (i : ℕ) :
    (w.heap i).ibConnected = false := by
  rw [Bool.eq_false_iff]
  intro hi
  simp [h.current i hi] at hnone

theorem Invariant.ensureLocked (h : Invariant w) (hholder : w.holder = none)
    (hrec : w.reconnecting = []) (m : Option ℤ) (now : ℚ) : Invariant (w.ensureLocked m now) := by
  unfold World.ensureLocked
  split
  · exact h
  · dsimp only
    cases hconn : w.client.connector with
    | none =>
      refine .of_closed (fun j => ?_) (by simp) hrec
      by_cases hj : j = w.fresh
      · simp [hj]
      · simpa [set_heap_other _ hj] using h.closed_of_none hconn j
    | some i =>
      refine .of_closed (fun j => ?_) (by simp) ?_
      · by_cases hj : j = w.fresh
        · simp [hj]
        · simpa [World.set, hj] using h.disconnected hholder hrec hconn now j
      · exact (frame_connectorDisconnect w i now).reconnecting.trans hrec

theorem Invariant.disconnectLocked (h : Invariant w) (hholder : w.holder = none)
    (hrec : w.reconnecting = []) (now : ℚ) : Invariant (w.disconnectLocked now) := by
  unfold World.disconnectLocked
  split
  · exact ⟨h.current, h.covered, h.holder, h.reconnecting⟩
  · next i hi =>
    have hf := frame_connectorDisconnect w i now
    refine .of_closed (h.disconnected hholder hrec hi now) ?_ (hf.reconnecting.trans hrec)
    intro a ha
    simp only [hf.holder, hholder] at ha
    cases ha

theorem Invariant.opens (h : Invariant w) {r : ℕ} (hr : w.client.connector = some r)
    {holder : Option Attempt} {reconnecting : List Attempt}
    (hcov : (∃ a, holder = some a ∧ a.ref = r) ∨ ∃ a ∈ reconnecting, a.ref = r)
    (hholder : ∀ a, holder = some a → a.ref = r ∧ reconnecting = [])
    (hrec : ∀ a ∈ reconnecting, a.ref = r) :
    Invariant { w.openSession r with holder, reconnecting } where
  current i hi := by
    by_cases hir : i = r
    · rw [hir]
      exact hr
    · simp only [World.openSession, set_heap_other _ hir] at hi
      exact h.current i hi
  covered i hi := by
    by_cases hir : i = r
    · subst hir
      exact .inr hcov
    · simp only [World.openSession, set_heap_other _ hir] at hi
      have hcur := h.current i hi
      rw [hr] at hcur
      exact absurd (Option.some.inj hcur).symm hir
  holder a ha := by
    obtain ⟨href, hnil⟩ := hholder a ha
    exact ⟨hr.trans (congrArg some href.symm), hnil⟩
  reconnecting a ha := hr.trans (congrArg some (hrec a ha).symm)

theorem Invariant.attemptOutcome (h : Invariant w) (hr : w.client.connector = some a.ref)
    (now : ℚ) {holder : Option Attempt} {reconnecting : List Attempt}
    (hholder : ∀ b, holder = some b → b.ref = a.ref ∧ reconnecting = [])
    (hrec : ∀ b ∈ reconnecting, b.ref = a.ref) :
    Invariant { w.attemptOutcome a o now with holder, reconnecting } := by
  have hf := frame_attemptOutcome w a o now
  have hconn : (w.attemptOutcome a o now).client.connector = some a.ref := hf.connector.trans hr
  have honly : ∀ i, ((w.attemptOutcome a o now).heap i).ibConnected = true → i = a.ref := by
    intro i hi
    by_contra hne
    rw [attemptOutcome_other a o now hne] at hi
    have hcur := h.current i hi
    rw [hr] at hcur
    exact hne (Option.some.inj hcur).symm
  refine ⟨fun i hi => ?_, fun i hi => ?_, fun b hb => ?_, fun b hb => ?_⟩
  · rw [honly i hi]
    exact hconn
  · obtain rfl := honly i hi
    exact .inl (attemptOutcome_session a o now hi).2.1
  · obtain ⟨href, hnil⟩ := hholder b hb
    exact ⟨hconn.trans (congrArg some href.symm), hnil⟩
  · exact hconn.trans (congrArg some (hrec b hb).symm)

theorem Invariant.ensureEnds (h : Invariant w) (hr : w.client.connector = some a.ref)
    (hrec : w.reconnecting = []) (now : ℚ) {ok : Bool} (ho : a.scan.next o = .ended ok) :
    Invariant ((w.attemptOutcome a o now).ensureEnds a.ref ok now) := by
  have hend : Invariant { w.attemptOutcome a o now with holder := none, reconnecting := [] } :=
    h.attemptOutcome hr now (by simp) (by simp)
  have hrec' : (w.attemptOutcome a o now).reconnecting = [] :=
    (frame_attemptOutcome w a o now).reconnecting.trans hrec
  cases ok with
  | true =>
    have hheap : ∀ i, (((w.attemptOutcome a o now).ensureEnds a.ref true now).heap i).ibConnected =
          ((w.attemptOutcome a o now).heap i).ibConnected ∧
        (((w.attemptOutcome a o now).ensureEnds a.ref true now).heap i).connected =
          ((w.attemptOutcome a o now).heap i).connected := by
      intro i
      by_cases hi : i = a.ref
      · simp [World.ensureEnds, World.set, hi]
      · simp [World.ensureEnds, World.set, hi]
    refine ⟨fun i hi => ?_, fun i hi => ?_, by simp [World.ensureEnds], ?_⟩
    · rw [(hheap i).1] at hi
      exact hend.current i hi
    · rw [(hheap i).1] at hi
      rcases hend.covered i hi with hup | ⟨b, hb, -⟩ | ⟨b, hb, -⟩
      · exact .inl ((hheap i).2.trans hup)
      · simp at hb
      · simp at hb
    · simp [World.ensureEnds, World.set, hrec']
  | false =>
    refine .of_closed (fun i => ?_) (by simp [World.ensureEnds]) hrec'
    rw [Bool.eq_false_iff]
    intro hi
    have hcur := hend.current i hi
    have hconn : (w.attemptOutcome a o now).client.connector = some a.ref :=
      (frame_attemptOutcome w a o now).connector.trans hr
    obtain rfl : a.ref = i := Option.some.inj (hconn.symm.trans hcur)
    have hses := (attemptOutcome_session a o now hi).1
    simp [ho] at hses

end Operations

section Runs

variable {w w' : World} {port clientId : ℤ}

/-- A reconnecting method is alone: it reconnects the current connector while nobody else
connects. -/
theorem Invariant.alone (h : Invariant w) {a : Attempt} (ha : a ∈ w.reconnecting) :
    w.client.connector = some a.ref ∧ w.holder = none := by
  refine ⟨h.reconnecting a ha, ?_⟩
  rw [Option.eq_none_iff_forall_not_mem]
  intro b hb
  have hnil := (h.holder b hb).2
  simp [hnil] at ha

theorem Invariant.same_ref (h : Invariant w) {a b : Attempt} (ha : a ∈ w.reconnecting)
    (hb : b ∈ w.reconnecting) : b.ref = a.ref := by
  have hconn := h.reconnecting a ha
  rw [h.reconnecting b hb] at hconn
  exact Option.some.inj hconn

theorem Invariant.no_holder (h : Invariant w) {a : Attempt} (ha : a ∈ w.reconnecting)
    (o : AttemptOutcome) (now : ℚ) (b : Attempt) :
    (w.attemptOutcome a o now).holder ≠ some b := by
  rw [(frame_attemptOutcome w a o now).holder, (h.alone ha).2]
  intro hb
  cases hb

theorem mem_of_mem_set {l : List Attempt} {k : ℕ} {a b : Attempt} (h : b ∈ l.set k a) :
    b ∈ l ∨ b = a := by
  rcases List.mem_or_eq_of_mem_set h with hb | rfl
  · exact .inl hb
  · exact .inr rfl

theorem invariant_step {e : Event} (h : Invariant w)
    (hs : guarded Disciplined (ofStep step) w e w') : Invariant w' := by
  obtain ⟨hok, hs⟩ := hs
  cases step_cases hs with
  | ensureConnected => exact h
  | ensureQueued => exact h.waiting _
  | disconnectQueued => exact h.waiting _
  | @grantEnsure m rest now hholder =>
    have hrec : w.reconnecting = [] := hok
    exact (h.waiting rest).ensureLocked hholder hrec m now
  | @grantDisconnect rest now hholder =>
    have hrec : w.reconnecting = [] := hok
    exact (h.waiting rest).disconnectLocked hholder hrec now
  | @attemptOpens a ha =>
    obtain ⟨hconn, hrec⟩ := h.holder a ha
    refine h.opens hconn (.inl ⟨_, rfl, rfl⟩) ?_ ?_
    · rintro b hb
      obtain rfl := Option.some.inj hb
      exact ⟨rfl, hrec⟩
    · intro b hb
      have hmem : b ∈ w.reconnecting := hb
      simp [hrec] at hmem
  | @attemptAgain a o now scan ha =>
    obtain ⟨hconn, hrec⟩ := h.holder a ha
    have hf := frame_attemptOutcome w a o now
    refine h.attemptOutcome hconn now ?_ ?_
    · rintro b hb
      obtain rfl := Option.some.inj hb
      exact ⟨rfl, hf.reconnecting.trans hrec⟩
    · intro b hb
      have hmem : b ∈ (w.attemptOutcome a o now).reconnecting := hb
      simp [hf.reconnecting, hrec] at hmem
  | @attemptEnded a o now ok ha hnext =>
    obtain ⟨hconn, hrec⟩ := h.holder a ha
    exact h.ensureEnds hconn hrec now hnext
  | methodConnected => exact h
  | @methodReconnects ref barsOnly hdown =>
    rcases hok with hup | ⟨hconn, hholder, hrec⟩
    · rw [hdown] at hup
      cases hup
    · refine ⟨h.current, fun i hi => ?_, fun a ha => ?_, fun a ha => ?_⟩
      · rcases h.covered i hi with hc | hc | ⟨a, ha, href⟩
        · exact .inl hc
        · exact .inr (.inl hc)
        · exact .inr (.inr ⟨a, List.mem_append_left _ ha, href⟩)
      · rw [hholder] at ha
        cases ha
      · rcases List.mem_append.mp ha with ha | ha
        · exact h.reconnecting a ha
        · obtain rfl := List.mem_singleton.mp ha
          exact hconn
  | @reconnectOpens k a ha =>
    have hmem := List.mem_of_getElem? ha
    obtain ⟨hconn, hholder⟩ := h.alone hmem
    have hlt : k < w.reconnecting.length := (List.getElem?_eq_some_iff.mp ha).1
    refine h.opens hconn (.inr ⟨{ a with opened := true }, ?_, rfl⟩) ?_ ?_
    · exact List.mem_set hlt _
    · intro b hb
      have hb' : w.holder = some b := hb
      simp [hholder] at hb'
    · intro b hb
      rcases mem_of_mem_set hb with hb | rfl
      · exact h.same_ref hmem hb
      · rfl
  | @reconnectAgain k a o now scan ha =>
    have hmem := List.mem_of_getElem? ha
    have hnone := h.no_holder hmem o now
    refine h.attemptOutcome (h.alone hmem).1 now (fun b hb => absurd hb (hnone b)) fun b hb => ?_
    rcases mem_of_mem_set hb with hb | rfl
    · exact h.same_ref hmem hb
    · rfl
  | @reconnectEnded k a o now ok ha =>
    have hmem := List.mem_of_getElem? ha
    have hnone := h.no_holder hmem o now
    refine h.attemptOutcome (h.alone hmem).1 now (fun b hb => absurd hb (hnone b)) fun b hb => ?_
    exact h.same_ref hmem (List.mem_of_mem_eraseIdx hb)
  | @drop ref now => exact h.closeSession ref now
  | @markDropped ref now => exact h.markDropped ref now
  | @connectedSnapshot now => exact h.snapshot now

/-- Disconnected, with no `ensure_connected` under way. -/
structure Idle (w : World) : Prop where
  connector : w.client.connector = none
  holder : w.holder = none
  waiting : ∀ m, .ensure m ∉ w.waiting

theorem Idle.frame (h : Idle w) (hf : Frame w w') : Idle w' :=
  ⟨hf.connector.trans h.connector, hf.holder.trans h.holder, by
    rw [hf.waiting]
    exact h.waiting⟩

theorem Idle.no_reconnecting (h : Idle w) (inv : Invariant w) : w.reconnecting = [] := by
  rw [List.eq_nil_iff_forall_not_mem]
  intro a ha
  have hconn := inv.reconnecting a ha
  rw [h.connector] at hconn
  cases hconn

/-- Only a new call of `ensure_connected` ends this. -/
theorem idle_step {e : Event} (h : Idle w) (inv : Invariant w)
    (hs : guarded Disciplined (ofStep step) w e w') (he : ∀ m, e ≠ .ensureCall m) : Idle w' := by
  obtain ⟨hok, hs⟩ := hs
  cases step_cases hs with
  | ensureConnected => exact absurd rfl (he _)
  | ensureQueued => exact absurd rfl (he _)
  | disconnectQueued =>
    refine ⟨h.connector, h.holder, fun m hm => ?_⟩
    rcases List.mem_append.mp hm with hm | hm
    · exact h.waiting m hm
    · simp at hm
  | @grantEnsure m rest now hholder hwait => exact absurd (by simp [hwait]) (h.waiting m)
  | @grantDisconnect rest now hholder hwait =>
    obtain ⟨hconn, hh, hw⟩ := disconnectLocked_connector { w with waiting := rest } now
    refine ⟨hconn, hh.trans h.holder, fun m hm => ?_⟩
    rw [hw] at hm
    exact h.waiting m (by simp [hwait, show .ensure m ∈ rest from hm])
  | attemptOpens ha => exact absurd ha (by simp [h.holder])
  | attemptAgain ha => exact absurd ha (by simp [h.holder])
  | attemptEnded ha => exact absurd ha (by simp [h.holder])
  | methodConnected => exact h
  | methodReconnects hdown =>
    rcases hok with hup | ⟨hconn, -⟩
    · rw [hdown] at hup
      cases hup
    · rw [h.connector] at hconn
      cases hconn
  | reconnectOpens ha => exact absurd ha (by simp [h.no_reconnecting inv])
  | reconnectAgain ha => exact absurd ha (by simp [h.no_reconnecting inv])
  | reconnectEnded ha => exact absurd ha (by simp [h.no_reconnecting inv])
  | @drop ref now => exact h.frame (frame_closeSession w ref now)
  | @markDropped ref now =>
    exact h.frame ((frame_closeSession w ref now).trans (frame_set _ ref _))
  | @connectedSnapshot now =>
    have hsame : w.snapshot now = w := by simp [World.snapshot, h.connector]
    rwa [hsame]

theorem invariant_reachable
    (h : Reachable (· = initialWorld port clientId) (guarded Disciplined (ofStep step)) w) :
    Invariant w :=
  h.invariant (fun _ hw => hw ▸ invariant_initial port clientId) fun _ _ _ hi hs =>
    invariant_step hi hs

theorem idle_run {es : List Event} (h : Idle w) (inv : Invariant w)
    (hr : Run (guarded Disciplined (ofStep step)) w es w') (hes : ∀ m, .ensureCall m ∉ es) :
    Idle w' ∧ Invariant w' := by
  induction hr with
  | nil => exact ⟨h, inv⟩
  | @cons s t u e es head tail ih =>
    have he : ∀ m, e ≠ .ensureCall m := fun m heq => hes m (by simp [heq])
    exact ih (idle_step h inv head he) (invariant_step inv head) fun m hm =>
      hes m (List.mem_cons_of_mem _ hm)

/-- In every disciplined run at most one session is open at any moment; and once a call of
`disconnect` has returned and no `ensure_connected` follows, none is or becomes open. -/
theorem one_session_per_client
    (h : Reachable (· = initialWorld port clientId) (guarded Disciplined (ofStep step)) w) :
    (∀ i j, (w.heap i).ibConnected = true → (w.heap j).ibConnected = true → i = j) ∧
    ∀ now rest t es u, w.waiting = .disconnect :: rest → (∀ m, .ensure m ∉ rest) →
      guarded Disciplined (ofStep step) w (.grant now) t →
      Run (guarded Disciplined (ofStep step)) t es u → (∀ m, .ensureCall m ∉ es) →
      ∀ i, (u.heap i).ibConnected = false := by
  have inv := invariant_reachable h
  constructor
  · intro i j hi hj
    have hconn := inv.current i hi
    rw [inv.current j hj] at hconn
    exact (Option.some.inj hconn).symm
  · intro now rest t es u hwait hrest hgrant hrun hes i
    have hidle : Idle t := by
      obtain ⟨-, hs⟩ := hgrant
      simp only [ofStep, step, hwait] at hs
      cases hholder : w.holder with
      | some a => simp [hholder] at hs
      | none =>
        simp only [hholder, Option.some.injEq] at hs
        obtain rfl := hs
        obtain ⟨hconn, hh, hw⟩ :=
          disconnectLocked_connector { w with holder := none, waiting := rest } now
        refine ⟨hconn, hh, fun m hm => ?_⟩
        rw [hw] at hm
        exact hrest m hm
    obtain ⟨hidle', inv'⟩ := idle_run hidle (invariant_step inv hgrant) hrun hes
    exact inv'.closed_of_none hidle'.connector i

end Runs

/-- An `ensure_connected` whose first attempt succeeds. -/
def connects : List Event :=
  [.ensureCall none, .grant 0, .attemptOpens, .attemptEnds .success 0]

/-- A drop after which a method reconnects the current connector, then a disconnect. -/
theorem one_session_per_client_drop :
    ∃ w t, Reachable (· = initialWorld 7497 10) (guarded Disciplined (ofStep step)) w ∧
      (w.heap 0).ibConnected = true ∧
      guarded Disciplined (ofStep step) w (.grant 3) t ∧ ∀ i, (t.heap i).ibConnected = false := by
  obtain ⟨w, hr, hopen, hwait, hok, hsome⟩ := Run.ofGuardedFold_satisfies step Disciplined
    (initialWorld 7497 10)
    (connects ++ [.drop 0 1, .methodCall 0 false, .reconnectOpens 0, .reconnectEnds 0 .success 2,
      .disconnectCall])
    (fun w => (w.heap 0).ibConnected = true ∧ w.waiting = [.disconnect] ∧
      Disciplined w (.grant 3) ∧ (step w (.grant 3)).isSome = true)
    (by decide +kernel)
  obtain ⟨t, ht⟩ := Option.isSome_iff_exists.mp hsome
  have hreach : Reachable (· = initialWorld 7497 10) (guarded Disciplined (ofStep step)) w :=
    ⟨_, _, rfl, hr⟩
  exact ⟨w, t, hreach, hopen, ⟨hok, ht⟩, (one_session_per_client hreach).2 3 [] t [] t hwait
    (by simp) ⟨hok, ht⟩ (.nil t) (by simp)⟩

/-- A method called through a reference read before the client was disconnected. -/
def staleMethod : List Event :=
  connects ++ [.disconnectCall, .grant 1, .methodCall 0 false, .reconnectOpens 0,
    .reconnectEnds 0 .success 2]

/-- An `ensure_connected` whose first attempt is refused, since its client id is in use, and whose
second attempt succeeds. -/
def connectsWithNextId : List Event :=
  [.ensureCall none, .grant 0, .attemptEnds .failed 0, .attemptOpens, .attemptEnds .success 0]

/-- The stale connector opens a session of its own after the disconnect, and the next
`ensure_connected` opens a second one beside it, under the next client id. -/
theorem stale_method_opens_second_session :
    (∃ w, Run (ofStep step) (initialWorld 7497 10) staleMethod w ∧
      w.client.connector = none ∧ (w.heap 0).ibConnected = true) ∧
    ∃ w, Run (ofStep step) (initialWorld 7497 10) (staleMethod ++ connectsWithNextId) w ∧
      (w.heap 0).ibConnected = true ∧ (w.heap 0).clientId = 10 ∧
      (w.heap 1).ibConnected = true ∧ (w.heap 1).clientId = 11 := by
  constructor
  · exact Run.ofFold_satisfies step (initialWorld 7497 10) staleMethod
      (fun w => w.client.connector = none ∧ (w.heap 0).ibConnected = true) (by decide +kernel)
  · exact Run.ofFold_satisfies step (initialWorld 7497 10) (staleMethod ++ connectsWithNextId)
      (fun w => (w.heap 0).ibConnected = true ∧ (w.heap 0).clientId = 10 ∧
        (w.heap 1).ibConnected = true ∧ (w.heap 1).clientId = 11) (by decide +kernel)

end BifrostSocket.ClientSessions
