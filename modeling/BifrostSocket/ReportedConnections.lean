import BifrostSocket.IbClients

/-!
# The connection state a client reports

`ensure_connected` decides on the connector's two flags, while health and heartbeat read the
client's own `_connected_state`. The two agree until a connector gets its session back
without the client, a connector that the client no longer uses reports its drop to it, or a session
is lost before the client listens.
-/

namespace BifrostSocket.ReportedConnections
open TransitionRuns ConnectScans IbClients

/-- A client whose connector is connected reports it. -/
def Restored (w : World) : Prop := w.clientConnected = true → w.client.connectedState = true

/-- In this step a call of `ensure_connected` returns without raising. -/
def Returns (w : World) : Event → Prop
  | .ensureCall _ => w.clientConnected = true
  | .grant _ => w.holder = none ∧ w.clientConnected = true ∧ ∃ m rest, w.waiting = .ensure m :: rest
  | .attemptEnds outcome _ => ∃ a, w.holder = some a ∧ a.scan.next outcome = .ended true
  | _ => False

/-- The end of this connector's session, which still reports to the client, would clear the
state of a client that is connected through another one. -/
def Clears (w : World) (i : ℕ) : Prop :=
  (w.heap i).ibConnected = true ∧ (w.heap i).clientHandlers ≠ 0 ∧
    ∃ r ∈ w.client.connector, r ≠ i ∧ (w.heap r).isConnected = true

/-- The client's own connector, whose state the client has cleared. -/
def Unreported (w : World) (i : ℕ) : Prop :=
  w.client.connector = some i ∧ w.client.connectedState = false

/-- The steps that part the reported state from the connection: the client's own connector
gets both flags back while the state is cleared, another connector's drop clears the state,
or a connection attempt whose session is lost again counts as a success. -/
def Parts (w : World) : Event → Prop
  | .attemptOpens => ∃ a ∈ w.holder, Unreported w a.ref ∧ (w.heap a.ref).connected = true
  | .reconnectOpens k =>
    ∃ a ∈ w.reconnecting[k]?, Unreported w a.ref ∧ (w.heap a.ref).connected = true
  | .reconnectEnds k outcome _ => ∃ a ∈ w.reconnecting[k]?,
    if a.scan.next outcome = .ended true then
      Unreported w a.ref ∧ (w.heap a.ref).ibConnected = true
    else Clears w a.ref
  | .attemptEnds outcome _ => ∃ a ∈ w.holder,
    a.scan.next outcome = .ended true ∧ (w.heap a.ref).ibConnected = false
  | .drop ref _ | .markDropped ref _ => Clears w ref
  | _ => False

/-- The steps that end a session of the client's own connector. -/
def Drops (w : World) : Event → Prop
  | .grant _ => w.holder = none ∧ ∃ rest, w.waiting = .disconnect :: rest
  | .attemptEnds outcome _ => ∃ a ∈ w.holder, a.scan.next outcome ≠ .ended true
  | .reconnectEnds k outcome _ => ∃ a ∈ w.reconnecting[k]?,
    w.client.connector = some a.ref ∧ a.scan.next outcome ≠ .ended true
  | .drop ref _ | .markDropped ref _ => w.client.connector = some ref
  | _ => False

section Steps

variable {w w' : World} {i : ℕ} {now : ℚ}

theorem Restored.set (h : Restored w) {c : IbConnector}
    (hc : w.client.connector = some i → c.isConnected = true → w.client.connectedState = true) :
    Restored (w.set i c) := by
  intro hup
  cases hconn : w.client.connector with
  | none =>
    apply h
    simpa [World.clientConnected, World.set, hconn] using hup
  | some r =>
    by_cases hr : r = i
    · subst hr
      apply hc hconn
      simpa [World.clientConnected, World.set, hconn] using hup
    · apply h
      simpa [World.clientConnected, World.set, hconn, hr] using hup

theorem Restored.closeSession (h : Restored w) (hclears : ¬ Clears w i) :
    Restored (w.closeSession i now) := by
  cases hses : (w.heap i).ibConnected with
  | false => simpa [World.closeSession, hses] using h
  | true =>
    have hset := h.set (i := i)
      (c := { w.heap i with
        ibConnected := false, connected := (w.heap i).connected && (w.heap i).ownHandlers == 0 })
      (by simp [IbConnector.isConnected])
    by_cases hzero : (w.heap i).clientHandlers = 0
    · simp only [World.closeSession, hses, if_true]
      rw [if_pos hzero]
      exact hset
    · intro hup
      exfalso
      simp only [World.closeSession, hses, if_true, hzero, if_false, World.clientConnected,
        World.set] at hup
      cases hconn : w.client.connector with
      | none => simp [hconn] at hup
      | some r =>
        by_cases hr : r = i
        · simp [hconn, hr, IbConnector.isConnected] at hup
        · apply hclears
          refine ⟨hses, hzero, r, hconn, hr, ?_⟩
          simpa [hconn, hr] using hup

theorem Restored.connectGivenUp (h : Restored w) : Restored (w.connectGivenUp i) :=
  h.set (by simp [IbConnector.isConnected])

theorem Restored.openSession (h : Restored w)
    (hopen : ¬ (Unreported w i ∧ (w.heap i).connected = true)) : Restored (w.openSession i) := by
  refine h.set fun hconn hup => ?_
  by_contra hstate
  apply hopen
  exact ⟨⟨hconn, Bool.eq_false_iff.mpr hstate⟩, by simpa [IbConnector.isConnected] using hup⟩

theorem restored_of_none (hconn : w.client.connector = none) : Restored w := by
  intro hup
  simpa [World.clientConnected, hconn] using hup

/-- The locked part leaves a connected client alone, and gives another one a connector that
has no session yet. -/
theorem Restored.ensureLocked (h : Restored w) (m : Option ℤ) :
    Restored (w.ensureLocked m now) := by
  unfold World.ensureLocked
  split
  · exact h
  · intro hup
    simp [World.clientConnected, IbConnector.isConnected] at hup

theorem restored_disconnectLocked (w : World) : Restored (w.disconnectLocked now) :=
  restored_of_none (by unfold World.disconnectLocked; split <;> simp [*])

theorem restored_ensureEnds (w : World) (ref : ℕ) (ok : Bool) :
    Restored (w.ensureEnds ref ok now) := by
  cases ok with
  | true => exact fun _ => rfl
  | false => exact restored_of_none rfl

theorem Restored.snapshot (h : Restored w) : Restored (w.snapshot now) := by
  unfold World.snapshot
  split
  · exact h
  · next r hconn =>
    split
    · exact h
    · next hdown =>
      dsimp only
      split
      · exact h
      · intro hup
        exact absurd (by simpa [World.clientConnected, hconn] using hup) hdown

theorem Restored.attemptFails (h : Restored w) {a : Attempt} {o : AttemptOutcome}
    (hno : a.scan.next o ≠ .ended true) (hclears : ¬ Clears w a.ref) :
    Restored (w.attemptOutcome a o now) := by
  unfold World.attemptOutcome
  split
  · exact h.closeSession hclears
  · next hyes => exact absurd hyes hno
  · exact (h.closeSession hclears).connectGivenUp

/-- Only the tasks and the counters of calls differ. -/
theorem Restored.of_eq (h : Restored w) (hheap : w'.heap = w.heap)
    (hclient : w'.client = w.client) :
    Restored w' := by
  unfold Restored World.clientConnected at h ⊢
  rw [hheap, hclient]
  exact h

/-- The `ensure_connected` that is connecting works on the client's own connector. -/
def HolderCurrent (w : World) : Prop := ∀ a ∈ w.holder, w.client.connector = some a.ref

theorem HolderCurrent.frame (h : HolderCurrent w) (hf : Frame w w') : HolderCurrent w' := by
  intro a ha
  rw [hf.holder] at ha
  rw [hf.connector]
  exact h a ha

theorem HolderCurrent.not_clears (h : HolderCurrent w) {a : Attempt} (ha : w.holder = some a) :
    ¬ Clears w a.ref := by
  rintro ⟨-, -, r, hr, hne, -⟩
  rw [h a ha] at hr
  exact hne (Option.some.inj hr).symm

theorem holderCurrent_step {e : Event} (h : HolderCurrent w) (hs : Step w e w') :
    HolderCurrent w' := by
  cases hs with
  | ensureConnected | methodConnected => exact h
  | ensureQueued | disconnectQueued | methodReconnects => exact h
  | @grantEnsure m rest now hholder =>
    simp only [World.ensureLocked]
    split
    · exact h
    · intro a ha
      obtain rfl := Option.some.inj ha
      rfl
  | @grantDisconnect rest now hholder =>
    intro a ha
    rw [(disconnectLocked_connector _ now).2.1] at ha
    exact absurd (hholder.symm.trans ha) (by simp)
  | @attemptOpens a ha =>
    intro b hb
    obtain rfl := Option.some.inj hb
    exact h a ha
  | @attemptAgain a o now scan ha =>
    intro b hb
    obtain rfl := Option.some.inj hb
    exact (frame_attemptOutcome w a o now).connector.trans (h a ha)
  | @attemptEnded a o now ok ha =>
    cases ok <;> simp [HolderCurrent, World.ensureEnds]
  | reconnectOpens => exact h
  | @reconnectAgain k a o now =>
    have hmoved := h.frame (frame_attemptOutcome w a o now)
    exact hmoved
  | @reconnectEnded k a o now =>
    have hmoved := h.frame (frame_attemptOutcome w a o now)
    exact hmoved
  | @drop ref now => exact h.frame (frame_closeSession w ref now)
  | @markDropped ref now =>
    exact h.frame ((frame_closeSession w ref now).trans (frame_set _ ref _))
  | @connectedSnapshot now => exact h.frame (frame_snapshot w now)

/-- The reported state is true only while the client's own connector is connected and its
drops reach the client. -/
def Backed (w : World) : Prop := w.client.connectedState = true →
  ∃ r ∈ w.client.connector, (w.heap r).isConnected = true ∧ (w.heap r).clientHandlers ≠ 0

theorem backed_of_cleared (h : w.client.connectedState = false) : Backed w := by
  intro hup
  rw [h] at hup
  cases hup

theorem Backed.of_eq (h : Backed w) (hheap : w'.heap = w.heap) (hclient : w'.client = w.client) :
    Backed w' := by
  unfold Backed at h ⊢
  rw [hheap, hclient]
  exact h

theorem Backed.set (h : Backed w) {c : IbConnector}
    (hc : w.client.connector = some i → (w.heap i).isConnected = true →
      (w.heap i).clientHandlers ≠ 0 → c.isConnected = true ∧ c.clientHandlers ≠ 0) :
    Backed (w.set i c) := by
  intro hup
  obtain ⟨r, hr, hses, hhand⟩ := h hup
  refine ⟨r, hr, ?_⟩
  by_cases hri : r = i
  · subst hri
    rw [set_heap_self]
    exact hc hr hses hhand
  · rw [set_heap_other _ hri]
    exact ⟨hses, hhand⟩

/-- A session's end clears the state of the client whose connector it is. -/
theorem Backed.closeSession_own (h : Backed w) (hi : w.client.connector = some i) :
    (w.closeSession i now).client.connectedState = false := by
  rw [Bool.eq_false_iff]
  intro hup
  cases hses : (w.heap i).ibConnected with
  | false =>
    simp only [World.closeSession, hses] at hup
    obtain ⟨r, hr, hr', -⟩ := h hup
    obtain rfl := Option.some.inj (hi.symm.trans hr)
    simp [IbConnector.isConnected, hses] at hr'
  | true =>
    by_cases hzero : (w.heap i).clientHandlers = 0
    · simp only [World.closeSession, hses, if_true, hzero] at hup
      obtain ⟨r, hr, -, hr'⟩ := h hup
      obtain rfl := Option.some.inj (hi.symm.trans hr)
      exact hr' hzero
    · simp [World.closeSession, hses, hzero] at hup

theorem Backed.closeSession (h : Backed w) : Backed (w.closeSession i now) := by
  by_cases hi : w.client.connector = some i
  · exact backed_of_cleared (h.closeSession_own hi)
  · cases hses : (w.heap i).ibConnected with
    | false => simpa [World.closeSession, hses] using h
    | true =>
      by_cases hzero : (w.heap i).clientHandlers = 0
      · simp only [World.closeSession, hses, if_true, hzero]
        exact h.set fun hi' => absurd hi' hi
      · exact backed_of_cleared (by simp [World.closeSession, hses, hzero])

/-- Giving up comes after the end of the session, so the state is cleared by then. -/
theorem Backed.connectGivenUp (h : Backed w) :
    Backed ((w.closeSession i now).connectGivenUp i) := by
  by_cases hi : w.client.connector = some i
  · exact backed_of_cleared (h.closeSession_own hi)
  · refine h.closeSession.set fun hi' => ?_
    rw [(frame_closeSession w i now).connector] at hi'
    exact absurd hi' hi

theorem Backed.openSession (h : Backed w) : Backed (w.openSession i) := by
  refine h.set fun _ hup hhand => ⟨?_, hhand⟩
  simp only [IbConnector.isConnected, Bool.and_eq_true] at hup ⊢
  exact ⟨hup.1, trivial⟩

theorem Backed.attemptOutcome (h : Backed w) (a : Attempt) (o : AttemptOutcome) :
    Backed (w.attemptOutcome a o now) := by
  unfold World.attemptOutcome
  split
  · exact h.closeSession
  · refine h.set fun _ hup hhand => ⟨?_, hhand⟩
    simp only [IbConnector.isConnected, Bool.and_eq_true] at hup ⊢
    exact ⟨trivial, hup.2⟩
  · exact h.connectGivenUp

theorem Backed.ensureLocked (h : Backed w) (m : Option ℤ) : Backed (w.ensureLocked m now) := by
  unfold World.ensureLocked
  split
  · exact h
  · apply backed_of_cleared
    cases hconn : w.client.connector with
    | some r => rfl
    | none =>
      rw [Bool.eq_false_iff]
      intro hup
      obtain ⟨r, hr, -⟩ := h hup
      rw [hconn] at hr
      cases hr

theorem backed_disconnectLocked (w : World) : Backed (w.disconnectLocked now) := by
  apply backed_of_cleared
  unfold World.disconnectLocked
  split
  · rfl
  · rfl

theorem Backed.snapshot (h : Backed w) : Backed (w.snapshot now) := by
  unfold World.snapshot
  split
  · exact h
  · split
    · exact h
    · dsimp only
      split
      · exact h
      · exact backed_of_cleared rfl

structure Invariant (w : World) : Prop where
  holder : HolderCurrent w
  restored : Restored w
  backed : Backed w

/-- What the client reports is what its connector's flags say. -/
theorem Invariant.agrees (h : Invariant w) : w.client.connectedState = w.clientConnected := by
  rw [Bool.eq_iff_iff]
  refine ⟨fun hup => ?_, h.restored⟩
  obtain ⟨r, hr, hses, -⟩ := h.backed hup
  have hconn : w.client.connector = some r := hr
  simpa [World.clientConnected, hconn] using hses

theorem restored_step {e : Event} (hcur : HolderCurrent w) (h : Restored w)
    (hparts : ¬ Parts w e) (hs : Step w e w') : Restored w' := by
  cases hs with
  | ensureConnected | methodConnected => exact h
  | ensureQueued | disconnectQueued | methodReconnects => exact h.of_eq rfl rfl
  | @grantEnsure m rest now =>
    have hrest : Restored { w with waiting := rest } := h.of_eq rfl rfl
    exact hrest.ensureLocked m
  | grantDisconnect => exact restored_disconnectLocked _
  | @attemptOpens a ha =>
    have hopened := h.openSession (i := a.ref) fun hbad => hparts ⟨a, ha, hbad⟩
    exact hopened.of_eq rfl rfl
  | @attemptAgain a o now scan ha hnext =>
    have hfailed : Restored (w.attemptOutcome a o now) :=
      h.attemptFails (by simp [hnext]) (hcur.not_clears ha)
    exact hfailed.of_eq rfl rfl
  | attemptEnded => exact restored_ensureEnds _ _ _
  | @reconnectOpens k a ha =>
    have hopened := h.openSession (i := a.ref) fun hbad => hparts ⟨a, ha, hbad⟩
    exact hopened.of_eq rfl rfl
  | @reconnectAgain k a o now scan ha hnext =>
    have hno : a.scan.next o ≠ .ended true := by simp [hnext]
    have hclears : ¬ Clears w a.ref := fun hbad => hparts ⟨a, ha, by rwa [if_neg hno]⟩
    exact (h.attemptFails hno hclears).of_eq rfl rfl
  | @reconnectEnded k a o now ok ha hnext =>
    by_cases hyes : a.scan.next o = .ended true
    · have hquiet : ¬ (Unreported w a.ref ∧ (w.heap a.ref).ibConnected = true) :=
        fun hbad => hparts ⟨a, ha, by rwa [if_pos hyes]⟩
      have hset : Restored (w.connectSucceeded a) := by
        refine h.set fun hconn hup => ?_
        by_contra hstate
        apply hquiet
        exact ⟨⟨hconn, Bool.eq_false_iff.mpr hstate⟩, by simpa [IbConnector.isConnected] using hup⟩
      refine hset.of_eq ?_ ?_
      · simp [World.attemptOutcome, hyes]
      · simp [World.attemptOutcome, hyes]
    · have hclears : ¬ Clears w a.ref := fun hbad => hparts ⟨a, ha, by rwa [if_neg hyes]⟩
      exact (h.attemptFails hyes hclears).of_eq rfl rfl
  | drop => exact h.closeSession hparts
  | markDropped => exact (h.closeSession hparts).connectGivenUp
  | connectedSnapshot => exact h.snapshot

theorem backed_step {e : Event} (hcur : HolderCurrent w) (h : Backed w)
    (hparts : ¬ Parts w e) (hs : Step w e w') : Backed w' := by
  cases hs with
  | ensureConnected | methodConnected => exact h
  | ensureQueued | disconnectQueued | methodReconnects => exact h.of_eq rfl rfl
  | @grantEnsure m rest now =>
    have hrest : Backed { w with waiting := rest } := h.of_eq rfl rfl
    exact hrest.ensureLocked m
  | grantDisconnect => exact backed_disconnectLocked _
  | attemptOpens | reconnectOpens => exact h.openSession.of_eq rfl rfl
  | @attemptAgain a o | @reconnectAgain k a o | @reconnectEnded k a o =>
    exact (h.attemptOutcome a o).of_eq rfl rfl
  | @attemptEnded a o now ok ha hnext =>
    cases ok with
    | false => exact backed_of_cleared rfl
    | true =>
      have hup : (w.heap a.ref).ibConnected = true := by
        rw [← Bool.not_eq_false]
        exact fun hlost => hparts ⟨a, ha, hnext, hlost⟩
      refine fun _ => ⟨a.ref, ?_, ?_⟩
      · exact (frame_attemptOutcome w a o now).connector.trans (hcur a ha)
      · simp [World.ensureEnds, World.attemptOutcome, hnext, World.connectSucceeded,
          IbConnector.isConnected, World.set, hup]
  | drop => exact h.closeSession
  | markDropped => exact h.connectGivenUp
  | connectedSnapshot => exact h.snapshot

theorem invariant_step {e : Event} (h : Invariant w) (hparts : ¬ Parts w e) (hs : Step w e w') :
    Invariant w' :=
  ⟨holderCurrent_step h.holder hs, restored_step h.holder h.restored hparts hs,
    backed_step h.holder h.backed hparts hs⟩

/-- The end of another connector's session takes the state of a connected client away. -/
theorem Clears.closeSession (h : Clears w i) (now : ℚ) :
    ¬ Restored (w.closeSession i now) ∧ ¬ Restored ((w.closeSession i now).connectGivenUp i) := by
  obtain ⟨hses, hhand, r, hr, hne, hup⟩ := h
  have hconn : w.client.connector = some r := hr
  have hstate : (w.closeSession i now).client.connectedState = false := by
    simp [World.closeSession, hses, hhand]
  have hconn' : (w.closeSession i now).client.connector = some r :=
    (frame_closeSession w i now).connector.trans hconn
  have hheap := closeSession_other (w := w) now hne
  constructor
  · intro hrest
    rw [hrest (by simpa [World.clientConnected, hconn', hheap] using hup)] at hstate
    cases hstate
  · intro hrest
    have hup' : ((w.closeSession i now).connectGivenUp i).clientConnected = true := by
      simpa [World.clientConnected, World.connectGivenUp, World.set, hconn', hne, hheap] using hup
    rw [show (w.closeSession i now).client.connectedState = true from hrest hup'] at hstate
    cases hstate

theorem Unreported.not_restored (h : Unreported w i) (hclient : w'.client = w.client)
    (hup : (w'.heap i).isConnected = true) : ¬ Restored w' := by
  intro hrest
  have hconn : w'.clientConnected = true := by
    simpa [World.clientConnected, hclient, h.1] using hup
  have hstate := hrest hconn
  rw [hclient, h.2] at hstate
  cases hstate

theorem parts_disagree {e : Event} (h : Invariant w) (hparts : Parts w e) (hs : Step w e w') :
    w'.client.connectedState ≠ w'.clientConnected := by
  suffices hbad : ¬ Restored w' ∨
      w'.client.connectedState = true ∧ w'.clientConnected = false by
    intro heq
    rcases hbad with hbad | ⟨hup, hdown⟩
    · exact hbad fun hconn => heq.trans hconn
    · rw [hup, hdown] at heq
      cases heq
  cases hs with
  | ensureConnected | ensureQueued | disconnectQueued | grantEnsure | grantDisconnect |
    methodConnected | methodReconnects | connectedSnapshot => exact hparts.elim
  | @attemptOpens a ha =>
    obtain ⟨b, hb, hun, hflag⟩ := hparts
    obtain rfl := Option.some.inj (ha.symm.trans hb)
    refine .inl (hun.not_restored rfl ?_)
    simp [World.openSession, IbConnector.isConnected, World.set, hflag]
  | @attemptAgain a o now scan ha hnext =>
    obtain ⟨b, hb, hyes, -⟩ := hparts
    obtain rfl := Option.some.inj (ha.symm.trans hb)
    simp [hnext] at hyes
  | @attemptEnded a o now ok ha hnext =>
    obtain ⟨b, hb, hyes, hlost⟩ := hparts
    obtain rfl := Option.some.inj (ha.symm.trans hb)
    obtain rfl : ok = true := by simpa [hnext] using hyes
    refine .inr ⟨rfl, ?_⟩
    have hconn : (w.attemptOutcome a o now).client.connector = some a.ref :=
      (frame_attemptOutcome w a o now).connector.trans (h.holder a ha)
    simp only [World.clientConnected, World.ensureEnds, if_true, hconn, World.set,
      Function.update_self, IbConnector.isConnected, Bool.and_eq_false_iff]
    right
    simp [World.attemptOutcome, hnext, World.connectSucceeded, hlost]
  | @reconnectOpens k a ha =>
    obtain ⟨b, hb, hun, hflag⟩ := hparts
    obtain rfl := Option.some.inj (ha.symm.trans hb)
    refine .inl (hun.not_restored rfl ?_)
    simp [World.openSession, IbConnector.isConnected, World.set, hflag]
  | @reconnectAgain k a o now scan ha hnext =>
    obtain ⟨b, hb, hclears⟩ := hparts
    obtain rfl := Option.some.inj (ha.symm.trans hb)
    rw [if_neg (by simp [hnext])] at hclears
    left
    intro hrest
    apply (hclears.closeSession now).1
    refine hrest.of_eq ?_ ?_
    · simp [World.attemptOutcome, hnext]
    · simp [World.attemptOutcome, hnext]
  | @reconnectEnded k a o now ok ha hnext =>
    obtain ⟨b, hb, hcase⟩ := hparts
    obtain rfl := Option.some.inj (ha.symm.trans hb)
    left
    cases ok with
    | true =>
      rw [if_pos hnext] at hcase
      refine hcase.1.not_restored ?_ ?_
      · simp [World.attemptOutcome, hnext, World.connectSucceeded, World.set]
      · simp [World.attemptOutcome, hnext, World.connectSucceeded, IbConnector.isConnected,
          hcase.2]
    | false =>
      rw [if_neg (by simp [hnext])] at hcase
      intro hrest
      apply (hcase.closeSession now).2
      refine hrest.of_eq ?_ ?_
      · simp [World.attemptOutcome, hnext]
      · simp [World.attemptOutcome, hnext]
  | @drop ref now => exact .inl (Clears.closeSession hparts now).1
  | @markDropped ref now => exact .inl (Clears.closeSession hparts now).2

theorem connected_of_eq (hheap : w'.heap = w.heap) (hclient : w'.client = w.client) :
    w'.clientConnected = w.clientConnected := by
  unfold World.clientConnected
  rw [hheap, hclient]

/-- A change to another connector is not seen by the client. -/
theorem connected_of_other (hconn : w'.client.connector = w.client.connector)
    (hheap : ∀ r, w.client.connector = some r → w'.heap r = w.heap r)
    (hne : w.client.connector ≠ none) : w'.clientConnected = w.clientConnected := by
  unfold World.clientConnected
  rw [hconn]
  cases hr : w.client.connector with
  | none => exact absurd hr hne
  | some r =>
    dsimp only
    rw [hheap r hr]

theorem Invariant.connector_ne (h : Invariant w) (hup : w.clientConnected = true) :
    w.client.connector ≠ none := by
  obtain ⟨r, hr, -⟩ := h.backed (h.restored hup)
  have hconn : w.client.connector = some r := hr
  simp [hconn]

theorem connected_openSession (hup : w.clientConnected = true) :
    (w.openSession i).clientConnected = true := by
  unfold World.clientConnected at hup ⊢
  cases hconn : w.client.connector with
  | none => simpa [World.openSession, World.set, hconn] using hup
  | some r =>
    rw [hconn] at hup
    simp only [World.openSession, World.set, hconn]
    by_cases hr : r = i
    · subst hr
      simp only [IbConnector.isConnected, Bool.and_eq_true] at hup
      simp [IbConnector.isConnected, hup.1]
    · simpa [hr] using hup

theorem connected_step {e : Event} (h : Invariant w) (hup : w.clientConnected = true)
    (hparts : ¬ Parts w e) (hdrops : ¬ Drops w e) (hs : Step w e w') :
    w'.clientConnected = true := by
  have hne := h.connector_ne hup
  cases hs with
  | ensureConnected | methodConnected => exact hup
  | ensureQueued | disconnectQueued | methodReconnects =>
    exact (connected_of_eq rfl rfl).trans hup
  | @grantEnsure m rest now =>
    have hup' : ({ w with waiting := rest } : World).clientConnected = true :=
      (connected_of_eq rfl rfl).trans hup
    unfold World.ensureLocked
    rw [if_pos hup']
    exact hup'
  | @grantDisconnect rest now hholder hwait => exact absurd ⟨hholder, rest, hwait⟩ hdrops
  | attemptOpens | reconnectOpens =>
    exact (connected_of_eq rfl rfl).trans (connected_openSession hup)
  | @attemptAgain a o now scan ha hnext => exact absurd ⟨a, ha, by simp [hnext]⟩ hdrops
  | @attemptEnded a o now ok ha hnext =>
    cases ok with
    | false => exact absurd ⟨a, ha, by simp [hnext]⟩ hdrops
    | true =>
      have h' := invariant_step h hparts (.attemptEnded ha hnext)
      exact h'.agrees.symm.trans rfl
  | @reconnectAgain k a o now scan ha hnext =>
    have hother : w.client.connector ≠ some a.ref :=
      fun hconn => hdrops ⟨a, ha, hconn, by simp [hnext]⟩
    refine (connected_of_other (frame_attemptOutcome w a o now).connector ?_ hne).trans hup
    intro r hr
    exact attemptOutcome_other a o now fun heq => hother (heq ▸ hr)
  | @reconnectEnded k a o now ok ha hnext =>
    by_cases hconn : w.client.connector = some a.ref
    · cases ok with
      | false => exact absurd ⟨a, ha, hconn, by simp [hnext]⟩ hdrops
      | true =>
        have hses : (w.heap a.ref).isConnected = true := by
          simpa [World.clientConnected, hconn] using hup
        simp only [IbConnector.isConnected, Bool.and_eq_true] at hses
        simp [World.clientConnected, World.attemptOutcome, hnext, World.connectSucceeded,
          World.set, hconn, IbConnector.isConnected, hses.2]
    · refine (connected_of_other (frame_attemptOutcome w a o now).connector ?_ hne).trans hup
      intro r hr
      exact attemptOutcome_other a o now fun heq => hconn (heq ▸ hr)
  | @drop ref now =>
    refine (connected_of_other (frame_closeSession w ref now).connector ?_ hne).trans hup
    intro r hr
    exact closeSession_other now fun heq => hdrops (heq ▸ hr)
  | @markDropped ref now =>
    refine (connected_of_other ?_ ?_ hne).trans hup
    · exact (frame_closeSession w ref now).connector
    · intro r hr
      have hrne : r ≠ ref := fun heq => hdrops (heq ▸ hr)
      rw [World.connectGivenUp, set_heap_other _ hrne, closeSession_other now hrne]
  | @connectedSnapshot now =>
    unfold World.snapshot
    split
    · exact hup
    · next r hr =>
      rw [if_pos (by simpa [World.clientConnected, hr] using hup)]
      exact hup

theorem connected_returns {e : Event} (h : Invariant w) (hret : Returns w e)
    (hparts : ¬ Parts w e) (hs : Step w e w') : w'.clientConnected = true := by
  cases hs with
  | ensureConnected hup => exact hup
  | ensureQueued => exact (connected_of_eq rfl rfl).trans hret
  | @grantEnsure m rest now =>
    have hup' : ({ w with waiting := rest } : World).clientConnected = true :=
      (connected_of_eq rfl rfl).trans hret.2.1
    unfold World.ensureLocked
    rw [if_pos hup']
    exact hup'
  | @grantDisconnect rest now hholder hwait =>
    obtain ⟨-, -, m, rest', hwait'⟩ := hret
    rw [hwait] at hwait'
    cases hwait'
  | @attemptAgain a o now scan ha hnext =>
    obtain ⟨b, hb, hyes⟩ := hret
    obtain rfl := Option.some.inj (ha.symm.trans hb)
    simp [hnext] at hyes
  | @attemptEnded a o now ok ha hnext =>
    obtain ⟨b, hb, hyes⟩ := hret
    obtain rfl := Option.some.inj (ha.symm.trans hb)
    obtain rfl : ok = true := by simpa [hnext] using hyes
    have h' := invariant_step h hparts (.attemptEnded ha hnext)
    exact h'.agrees.symm.trans rfl
  | disconnectQueued | attemptOpens | methodConnected | methodReconnects | reconnectOpens |
    reconnectAgain | reconnectEnded | drop | markDropped | connectedSnapshot => exact hret.elim

theorem agrees_iff {e : Event} (h : Invariant w) (hs : Step w e w') :
    w'.client.connectedState = w'.clientConnected ↔ ¬ Parts w e :=
  ⟨fun heq hparts => parts_disagree h hparts hs heq,
    fun hparts => (invariant_step h hparts hs).agrees⟩

end Steps

section Runs

theorem invariant_initial (port clientId : ℤ) : Invariant (initialWorld port clientId) where
  holder a ha := by cases ha
  restored := restored_of_none rfl
  backed := backed_of_cleared rfl

variable {port clientId : ℤ} {es later : List Event} {w w' u : World} {e : Event}

theorem invariant_run (h : Invariant w)
    (hr : Run (guarded (fun v d => ¬ Parts v d) (ofStep step)) w es w') : Invariant w' :=
  hr.preserves (P := Invariant) (fun _ _ _ hinv hs => invariant_step hinv hs.1 (step_cases hs.2)) h

/-- As long as no step parts them, a client that `ensure_connected` returned to reports its
connection until a session of its connector ends, and these steps alone would part the two. -/
theorem returned_reported
    (hr : Run (guarded (fun v d => ¬ Parts v d) (ofStep step)) (initialWorld port clientId) es w)
    (hs : step w e = some w') (hret : Returns w e) (hparts : ¬ Parts w e)
    (hlater : Run (guarded (fun v d => ¬ Parts v d ∧ ¬ Drops v d) (ofStep step)) w' later u) :
    u.client.connectedState = true ∧
      ∀ d u', step u d = some u' →
        (u'.client.connectedState = u'.clientConnected ↔ ¬ Parts u d) := by
  have hinv := invariant_run (invariant_initial port clientId) hr
  have hret' : Invariant w' ∧ w'.clientConnected = true :=
    ⟨invariant_step hinv hparts (step_cases hs), connected_returns hinv hret hparts (step_cases hs)⟩
  have hlast : Invariant u ∧ u.clientConnected = true := by
    refine hlater.preserves (P := fun v => Invariant v ∧ v.clientConnected = true) ?_ hret'
    intro v d v' hv hd
    have hstep := step_cases hd.2
    exact ⟨invariant_step hv.1 hd.1.1 hstep, connected_step hv.1 hv.2 hd.1.1 hd.1.2 hstep⟩
  constructor
  · exact hlast.1.agrees.trans hlast.2
  · intro d u' hd
    exact agrees_iff hlast.1 (step_cases hd)

end Runs

section Instances

instance (w : World) (e : Event) : Decidable (Returns w e) :=
  match e with
  | .ensureCall _ => inferInstanceAs (Decidable (_ = _))
  | .grant _ =>
    have : Decidable (∃ m rest, w.waiting = .ensure m :: rest) :=
      match h : w.waiting with
      | .ensure m :: rest => isTrue ⟨m, rest, rfl⟩
      | .disconnect :: _ | [] => isFalse (by simp)
    inferInstanceAs (Decidable (_ ∧ _ ∧ _))
  | .attemptEnds outcome _ =>
    inferInstanceAs (Decidable (∃ a ∈ w.holder, a.scan.next outcome = .ended true))
  | .disconnectCall | .attemptOpens | .methodCall _ _ | .reconnectOpens _ | .reconnectEnds _ _ _
  | .drop _ _ | .markDropped _ _ | .connectedSnapshot _ => isFalse not_false

instance (w : World) (i : ℕ) : Decidable (Clears w i) :=
  inferInstanceAs (Decidable (_ ∧ _ ∧ ∃ r ∈ w.client.connector, _ ∧ _))

instance (w : World) (i : ℕ) : Decidable (Unreported w i) := inferInstanceAs (Decidable (_ ∧ _))

instance (w : World) (e : Event) : Decidable (Parts w e) :=
  match e with
  | .attemptOpens => inferInstanceAs (Decidable (∃ a ∈ w.holder, _ ∧ _))
  | .reconnectOpens k => inferInstanceAs (Decidable (∃ a ∈ w.reconnecting[k]?, _ ∧ _))
  | .reconnectEnds k _ _ => inferInstanceAs (Decidable (∃ a ∈ w.reconnecting[k]?, ite _ _ _))
  | .attemptEnds _ _ => inferInstanceAs (Decidable (∃ a ∈ w.holder, _ ∧ _))
  | .drop ref _ | .markDropped ref _ => inferInstanceAs (Decidable (Clears w ref))
  | .ensureCall _ | .disconnectCall | .grant _ | .methodCall _ _ | .connectedSnapshot _ =>
    isFalse not_false

instance (w : World) (e : Event) : Decidable (Drops w e) :=
  match e with
  | .grant _ =>
    have : Decidable (∃ rest, w.waiting = .disconnect :: rest) :=
      match h : w.waiting with
      | .disconnect :: rest => isTrue ⟨rest, rfl⟩
      | .ensure _ :: _ | [] => isFalse (by simp)
    inferInstanceAs (Decidable (_ ∧ _))
  | .attemptEnds _ _ => inferInstanceAs (Decidable (∃ a ∈ w.holder, _))
  | .reconnectEnds k _ _ => inferInstanceAs (Decidable (∃ a ∈ w.reconnecting[k]?, _ ∧ _))
  | .drop _ _ | .markDropped _ _ => inferInstanceAs (Decidable (_ = _))
  | .ensureCall _ | .disconnectCall | .attemptOpens | .methodCall _ _ | .reconnectOpens _
  | .connectedSnapshot _ => isFalse not_false

/-- A first `ensure_connected` of a client whose first attempt goes through. -/
def firstConnect : List Event :=
  [.ensureCall none, .grant 0, .attemptOpens, .attemptEnds .success 0]

/-- The session drops, `ensure_connected` gives the client a new connector and later calls
find it connected. -/
theorem returned_reported_reconnect : ∃ u : World, u.client.connectedState = true ∧
    u.client.reconnects = 1 ∧ u.client.connector = some 1 := by
  obtain ⟨w, hr, w', hs, hret, hparts, hlater⟩ : ∃ w,
      Run (guarded (fun v d => ¬ Parts v d) (ofStep step)) (initialWorld 4001 7)
        (firstConnect ++ [.drop 0 1, .ensureCall none, .grant 2, .attemptOpens]) w ∧
      ∃ w' ∈ step w (.attemptEnds .success 3), Returns w (.attemptEnds .success 3) ∧
        ¬ Parts w (.attemptEnds .success 3) ∧
        (([.ensureCall none, .connectedSnapshot 4, .methodCall 1 false] : List Event).foldlM
          (fun v d => if ¬ Parts v d ∧ ¬ Drops v d then step v d else none) w').any
          (fun u => decide (u.client.reconnects = 1 ∧ u.client.connector = some 1)) = true :=
    Run.ofGuardedFold_satisfies step (fun v d => ¬ Parts v d) _ _ _ (by decide +kernel)
  obtain ⟨u, hr', hu⟩ := Run.ofGuardedFold_satisfies step (fun v d => ¬ Parts v d ∧ ¬ Drops v d)
    w' _ (fun u => u.client.reconnects = 1 ∧ u.client.connector = some 1) hlater
  have hreported := returned_reported hr hs hret hparts hr'
  exact ⟨u, hreported.1, hu⟩

/-- The session drops between two accounts, a method of the connector reconnects it, and the
next `ensure_connected` returns at once. -/
theorem reconnected_in_place_unreported :
    ¬ ∀ (port clientId : ℤ) (es later : List Event) (w w' u : World) (e : Event),
      Run (ofStep step) (initialWorld port clientId) es w → step w e = some w' → Returns w e →
      Run (guarded (fun v d => ¬ Drops v d) (ofStep step)) w' later u →
      u.client.connectedState = true := by
  intro hall
  obtain ⟨w, hr, hup, hdown⟩ := Run.ofFold_satisfies step (initialWorld 4001 7)
    (firstConnect ++ [.drop 0 1, .methodCall 0 false, .reconnectOpens 0,
      .reconnectEnds 0 .success 2])
    (fun w => w.clientConnected = true ∧ w.client.connectedState = false) (by decide +kernel)
  have hstep : step w (.ensureCall none) = some w := by simp [step, hup]
  have hstate := hall 4001 7 _ [] w w w (.ensureCall none) hr hstep hup (.nil w)
  rw [hdown] at hstate
  cases hstate

end Instances

end BifrostSocket.ReportedConnections
