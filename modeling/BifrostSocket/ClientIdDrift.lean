import BifrostSocket.IbClients

/-!
# The client id over any number of reconnects

A scan that succeeds writes the id it found back to the client, and the next scan starts from
there. Over a run the client's id is the configured one and the steps of the scans that
succeeded; calls that find the client connected, and scans that fail, do not move it. A
connector method that reconnects moves its own connector's id only.
-/

namespace BifrostSocket.ClientIdDrift
open TransitionRuns ConnectScans ConnectScans.ConnectScan IbClients

/-- The attempts on one port that a call of `ensure_connected` is allowed. -/
def attemptLimit : Option ℤ → ℕ
  | none => 10
  | some n => (max 1 n).toNat

/-- How far above its base a scan of `ensure_connected` found its id in this step. -/
def foundBy (w : World) : Event → List ℕ
  | .attemptEnds outcome _ =>
    match w.holder with
    | some a => if a.scan.next outcome = .ended true then [a.scan.attempt] else []
    | none => []
  | _ => []

/-- How far above its base a method that reconnects found its id in this step. -/
def reconnectedBy (w : World) : Event → List ℕ
  | .reconnectEnds k outcome _ =>
    match w.reconnecting[k]? with
    | some a => if a.scan.next outcome = .ended true then [a.scan.attempt] else []
    | none => []
  | _ => []

/-- The `max_connect_attempts` of the call that has got the lock last. -/
def servedAfter (w : World) (served : Option ℤ) : Event → Option ℤ
  | .grant _ =>
    match w.holder, w.waiting with
    | none, .ensure m :: _ => m
    | _, _ => served
  | _ => served

def servedCall : World → Option ℤ → List Event → Option ℤ
  | _, served, [] => served
  | w, served, e :: es =>
    (step w e).elim served fun w' => servedCall w' (servedAfter w served e) es

/-- The scans of a run that succeeded: the `max_connect_attempts` of the call and how far above
its base the id was found. -/
def scansFound : World → Option ℤ → List Event → List (Option ℤ × ℕ)
  | _, _, [] => []
  | w, served, e :: es => (foundBy w e).map (served, ·) ++
      (step w e).elim [] fun w' => scansFound w' (servedAfter w served e) es

/-- The same of the methods that reconnect. -/
def methodsFound : World → List Event → List ℕ
  | _, [] => []
  | w, e :: es => reconnectedBy w e ++ (step w e).elim [] fun w' => methodsFound w' es

/-- The account of the ids, with the call that has got the lock last and the scans that
succeeded. -/
structure Ledger (configured : ℤ) (served : Option ℤ) (found : List (Option ℤ × ℕ))
    (reconnected : List ℕ) (w : World) : Prop where
  client : w.client.clientId = configured + (found.map Prod.snd).sum
  offsets : ∀ f ∈ found, f.2 < attemptLimit f.1
  holder : ∀ a, w.holder = some a → a.scan.baseId = w.client.clientId ∧ a.scan.Valid ∧
    a.scan.limit = attemptLimit served
  reconnecting : ∀ a ∈ w.reconnecting, configured ≤ a.scan.baseId ∧
    a.scan.baseId ≤ configured + (found.map Prod.snd).sum + reconnected.sum
  connectors : ∀ i, configured ≤ (w.heap i).clientId ∧
    (w.heap i).clientId ≤ configured + (found.map Prod.snd).sum + reconnected.sum

section Frames

variable {w w' : World} {i j : ℕ}

theorem closeSession_clientId (w : World) (i : ℕ) (now : ℚ) :
    ((w.closeSession i now).heap j).clientId = (w.heap j).clientId := by
  by_cases hij : j = i
  · subst hij
    cases hc : (w.heap j).ibConnected with
    | true => simp [World.closeSession, hc]
    | false => simp [World.closeSession, hc]
  · rw [closeSession_other now hij]

theorem set_clientId {c : IbConnector} (hc : c.clientId = (w.heap i).clientId) :
    ((w.set i c).heap j).clientId = (w.heap j).clientId := by
  by_cases hij : j = i
  · subst hij
    rw [set_heap_self, hc]
  · rw [set_heap_other c hij]

theorem connectorDisconnect_clientId (w : World) (i : ℕ) (now : ℚ) :
    ((w.connectorDisconnect i now).heap j).clientId = (w.heap j).clientId := by
  unfold World.connectorDisconnect
  dsimp only
  split
  · refine (set_clientId ?_).trans ((closeSession_clientId _ i now).trans (set_clientId ?_))
    · rfl
    · rfl
  · rfl

/-- An attempt gives its connector the id that was tried, if it succeeds. -/
theorem attemptOutcome_clientId (w : World) (a : Attempt) (o : AttemptOutcome) (now : ℚ) :
    ((w.attemptOutcome a o now).heap j).clientId =
      if a.scan.next o = .ended true ∧ j = a.ref then a.scan.tryId else (w.heap j).clientId := by
  unfold World.attemptOutcome
  split
  · next hnext => simp [hnext, closeSession_clientId]
  · next hnext =>
    by_cases hj : j = a.ref
    · subst hj
      simp [hnext, World.connectSucceeded]
    · simp [hnext, hj, World.connectSucceeded, set_heap_other _ hj]
  · next hnext =>
    rw [if_neg (by simp [hnext])]
    refine (set_clientId ?_).trans (closeSession_clientId w a.ref now)
    rfl

theorem ensureEnds_clientId (w : World) (ref : ℕ) (ok : Bool) (now : ℚ) :
    ((w.ensureEnds ref ok now).heap j).clientId = (w.heap j).clientId ∧
      (w.ensureEnds ref ok now).client.clientId =
        if ok then (w.heap ref).clientId else w.client.clientId := by
  cases ok with
  | false => exact ⟨rfl, rfl⟩
  | true => exact ⟨set_clientId rfl, rfl⟩

theorem ensureEnds_tasks (w : World) (ref : ℕ) (ok : Bool) (now : ℚ) :
    (w.ensureEnds ref ok now).holder = none ∧
      (w.ensureEnds ref ok now).reconnecting = w.reconnecting := by
  cases ok with
  | true => exact ⟨rfl, rfl⟩
  | false => exact ⟨rfl, rfl⟩

theorem snapshot_heap (w : World) (now : ℚ) : (w.snapshot now).heap = w.heap := by
  unfold World.snapshot
  split
  · rfl
  · split
    · rfl
    · dsimp only
      split
      · rfl
      · rfl

end Frames

section Steps

variable {configured : ℤ} {served : Option ℤ} {found : List (Option ℤ × ℕ)}
  {reconnected : List ℕ} {w w' : World}

theorem ledger_initial (port configured : ℤ) :
    Ledger configured none [] [] (initialWorld port configured) := by
  refine ⟨?_, ?_, ?_, ?_, ?_⟩
  all_goals simp [initialWorld]

/-- A step that ends no scan and leaves the ids of the connectors. -/
theorem Ledger.move (h : Ledger configured served found reconnected w)
    (hclient : w'.client.clientId = w.client.clientId)
    (hholder : ∀ a, w'.holder = some a → ∃ b, w.holder = some b ∧ a.scan.baseId = b.scan.baseId ∧
      a.scan.limit = b.scan.limit ∧ a.scan.Valid)
    (hreconnecting : ∀ a ∈ w'.reconnecting, (∃ b ∈ w.reconnecting, a.scan.baseId = b.scan.baseId) ∨
      ∃ i, a.scan.baseId = (w.heap i).clientId)
    (hheap : ∀ i, (w'.heap i).clientId = (w.heap i).clientId) :
    Ledger configured served found reconnected w' where
  client := hclient.trans h.client
  offsets := h.offsets
  holder a ha := by
    obtain ⟨b, hb, hbase, hlimit, hvalid⟩ := hholder a ha
    obtain ⟨hbase', -, hlimit'⟩ := h.holder b hb
    exact ⟨hbase.trans (hbase'.trans hclient.symm), hvalid, hlimit.trans hlimit'⟩
  reconnecting a ha := by
    rcases hreconnecting a ha with ⟨b, hb, heq⟩ | ⟨i, heq⟩
    · rw [heq]
      exact h.reconnecting b hb
    · rw [heq]
      exact h.connectors i
  connectors i := by
    rw [hheap i]
    exact h.connectors i

theorem Ledger.frame (h : Ledger configured served found reconnected w) (hf : Frame w w')
    (hheap : ∀ i, (w'.heap i).clientId = (w.heap i).clientId) :
    Ledger configured served found reconnected w' := by
  refine h.move hf.clientId ?_ ?_ hheap
  · intro a ha
    rw [hf.holder] at ha
    exact ⟨a, ha, rfl, rfl, (h.holder a ha).2.1⟩
  · intro a ha
    exact .inl ⟨a, hf.reconnecting ▸ ha, rfl⟩

/-- A granted `ensure_connected` is already connected, or starts a scan at the client's id
within its limit. -/
theorem ensureLocked_cases (w : World) (m : Option ℤ) (now : ℚ) :
    w.ensureLocked m now = w ∨ ∃ a, (w.ensureLocked m now).holder = some a ∧
      (w.ensureLocked m now).reconnecting = w.reconnecting ∧
      (w.ensureLocked m now).client.clientId = w.client.clientId ∧
      a.scan.baseId = w.client.clientId ∧ a.scan.limit = attemptLimit m ∧ a.scan.Valid ∧
      ∀ i, ((w.ensureLocked m now).heap i).clientId = (w.heap i).clientId ∨
        ((w.ensureLocked m now).heap i).clientId = w.client.clientId := by
  unfold World.ensureLocked
  split
  · exact .inl rfl
  · right
    have hlimit : (1 : ℤ) ≤ match m with | none => 10 | some n => max 1 n := by
      cases m with
      | none => decide
      | some n => exact le_max_left 1 n
    refine ⟨_, rfl, ?_, ?_, rfl, ?_, valid_start hlimit, ?_⟩
    · cases hconn : w.client.connector with
      | none => rfl
      | some i => exact (frame_connectorDisconnect w i now).reconnecting
    · cases hconn : w.client.connector with
      | none => rfl
      | some i => exact (frame_connectorDisconnect w i now).clientId
    · cases m with
      | none => rfl
      | some n => rfl
    · intro j
      by_cases hj : j = w.fresh
      · subst hj
        exact .inr (by simp)
      · refine .inl ?_
        cases hconn : w.client.connector with
        | none => simp [set_heap_other _ hj]
        | some i =>
          simp only [World.set, Function.update_of_ne hj]
          exact connectorDisconnect_clientId w i now

theorem disconnectLocked_frame (w : World) (now : ℚ) :
    (w.disconnectLocked now).client.clientId = w.client.clientId ∧
      (w.disconnectLocked now).holder = w.holder ∧
      (w.disconnectLocked now).reconnecting = w.reconnecting ∧
      ∀ i, ((w.disconnectLocked now).heap i).clientId = (w.heap i).clientId := by
  unfold World.disconnectLocked
  split
  · exact ⟨rfl, rfl, rfl, fun _ => rfl⟩
  · next i hi =>
    have hf := frame_connectorDisconnect w i now
    exact ⟨hf.clientId, hf.holder, hf.reconnecting,
      fun j => connectorDisconnect_clientId w i now⟩

theorem ledger_grantEnsure (h : Ledger configured served found reconnected w) (m : Option ℤ)
    (waiting : List LockedCall) (now : ℚ) (hholder : w.holder = none) :
    Ledger configured m found reconnected ({ w with waiting }.ensureLocked m now) := by
  rcases ensureLocked_cases { w with waiting } m now with
    hsame | ⟨a, ha, hrec, hid, hbase, hlimit, hvalid, hheap⟩
  · rw [hsame]
    refine ⟨h.client, h.offsets, ?_, h.reconnecting, h.connectors⟩
    simp [hholder]
  · refine ⟨hid.trans h.client, h.offsets, ?_, ?_, ?_⟩
    · intro b hb
      rw [ha] at hb
      obtain rfl := Option.some.inj hb
      exact ⟨hbase.trans hid.symm, hvalid, hlimit⟩
    · rw [hrec]
      exact h.reconnecting
    · intro i
      have hclient := h.client
      rcases hheap i with heq | heq
      · rw [heq]
        exact h.connectors i
      · rw [heq]
        dsimp only
        omega

/-- The end of a scan of `ensure_connected`: on success the id is the one tried last. -/
theorem ledger_attemptEnded (h : Ledger configured served found reconnected w) {a : Attempt}
    {o : AttemptOutcome} {now : ℚ} {ok : Bool} (ha : w.holder = some a)
    (hnext : a.scan.next o = .ended ok) :
    Ledger configured served (found ++ (foundBy w (.attemptEnds o now)).map (served, ·))
      reconnected ((w.attemptOutcome a o now).ensureEnds a.ref ok now) := by
  have hf := frame_attemptOutcome w a o now
  obtain ⟨hnone, hrec⟩ := ensureEnds_tasks (w.attemptOutcome a o now) a.ref ok now
  have hheap : ∀ i, (((w.attemptOutcome a o now).ensureEnds a.ref ok now).heap i).clientId =
      ((w.attemptOutcome a o now).heap i).clientId :=
    fun i => (ensureEnds_clientId _ a.ref ok now).1
  have hclient := (ensureEnds_clientId (j := 0) (w.attemptOutcome a o now) a.ref ok now).2
  simp only [attemptOutcome_clientId, hnext] at hheap hclient
  cases ok with
  | false =>
    have hfound : foundBy w (.attemptEnds o now) = [] := by simp [foundBy, ha, hnext]
    rw [hfound, List.map_nil, List.append_nil]
    refine h.move (hclient.trans hf.clientId) (by simp [hnone]) ?_ (by simpa using hheap)
    intro b hb
    rw [hrec, hf.reconnecting] at hb
    exact .inl ⟨b, hb, rfl⟩
  | true =>
    obtain ⟨hbase, hvalid, hlimit⟩ := h.holder a ha
    have hid := h.client
    have hfound : foundBy w (.attemptEnds o now) = [a.scan.attempt] := by
      simp [foundBy, ha, hnext]
    simp only [if_true, true_and, and_self] at hclient hheap
    have hsum : (((found ++ [(served, a.scan.attempt)]).map Prod.snd).sum : ℤ) =
        (found.map Prod.snd).sum + a.scan.attempt := by
      simp
    rw [hfound, List.map_cons, List.map_nil]
    refine ⟨?_, ?_, by simp [hnone], ?_, ?_⟩
    · rw [hclient, hsum, tryId]
      omega
    · intro f hmem
      rcases List.mem_append.mp hmem with hold | hnew
      · exact h.offsets f hold
      · obtain rfl := List.mem_singleton.mp hnew
        exact hlimit ▸ hvalid.attempt
    · intro b hb
      rw [hrec, hf.reconnecting] at hb
      obtain ⟨hlow, hhigh⟩ := h.reconnecting b hb
      rw [hsum]
      omega
    · intro i
      rw [hheap i, hsum]
      obtain ⟨hlow, hhigh⟩ := h.connectors i
      split
      · rw [tryId]
        omega
      · omega

/-- The end of a method's reconnect: on success its connector has the id tried last. -/
theorem ledger_reconnectEnded (h : Ledger configured served found reconnected w) {a : Attempt}
    {k : ℕ} {o : AttemptOutcome} {now : ℚ} {ok : Bool} (ha : w.reconnecting[k]? = some a)
    (hnext : a.scan.next o = .ended ok) :
    Ledger configured served found (reconnected ++ reconnectedBy w (.reconnectEnds k o now))
      { w.attemptOutcome a o now with reconnecting := w.reconnecting.eraseIdx k } := by
  have hf := frame_attemptOutcome w a o now
  have hheap : ∀ i, ((w.attemptOutcome a o now).heap i).clientId =
      if ok = true ∧ i = a.ref then a.scan.tryId else (w.heap i).clientId := by
    intro i
    simp [attemptOutcome_clientId, hnext]
  obtain ⟨hlow, hhigh⟩ := h.reconnecting a (List.mem_of_getElem? ha)
  have hsum : ((reconnected ++ reconnectedBy w (.reconnectEnds k o now)).sum : ℤ) =
      reconnected.sum + if ok = true then a.scan.attempt else 0 := by
    cases ok with
    | true => simp [reconnectedBy, ha, hnext]
    | false => simp [reconnectedBy, ha, hnext]
  refine ⟨hf.clientId.trans h.client, h.offsets, ?_, ?_, ?_⟩
  · intro b hb
    have hb' : w.holder = some b := hf.holder.symm.trans hb
    obtain ⟨hbase, hvalid, hlimit⟩ := h.holder b hb'
    exact ⟨hbase.trans hf.clientId.symm, hvalid, hlimit⟩
  · intro b hb
    obtain ⟨hlow', hhigh'⟩ := h.reconnecting b (List.mem_of_mem_eraseIdx hb)
    rw [hsum]
    split
    · omega
    · omega
  · intro i
    obtain ⟨hlow', hhigh'⟩ := h.connectors i
    rw [hheap i, hsum]
    cases ok with
    | true =>
      simp only [true_and, if_true]
      split
      · rw [tryId]
        omega
      · omega
    | false =>
      simp only [Bool.false_eq_true, false_and, if_false]
      omega

theorem ledger_attemptAgain (h : Ledger configured served found reconnected w) {a : Attempt}
    {o : AttemptOutcome} {scan : ConnectScan} (now : ℚ) (ha : w.holder = some a)
    (hnext : a.scan.next o = .again scan) :
    Ledger configured served found reconnected { w.attemptOutcome a o now with
      holder := some { a with scan, opened := false } } := by
  have hf := frame_attemptOutcome w a o now
  obtain ⟨-, hbase, hlimit, -⟩ := next_again hnext
  refine h.move hf.clientId ?_ ?_ ?_
  · intro b hb
    obtain rfl := Option.some.inj hb
    exact ⟨a, ha, hbase, hlimit, (h.holder a ha).2.1.next hnext⟩
  · intro b hb
    exact .inl ⟨b, hf.reconnecting ▸ hb, rfl⟩
  · intro i
    simp [attemptOutcome_clientId, hnext]

theorem Ledger.reconnecting_set (h : Ledger configured served found reconnected w)
    (hf : Frame w w') (hheap : ∀ i, (w'.heap i).clientId = (w.heap i).clientId) {k : ℕ}
    {a b : Attempt} (ha : w.reconnecting[k]? = some a) (hbase : b.scan.baseId = a.scan.baseId) :
    Ledger configured served found reconnected
      { w' with reconnecting := w.reconnecting.set k b } := by
  refine h.move hf.clientId ?_ ?_ hheap
  · intro c hc
    have hc' : w.holder = some c := hf.holder.symm.trans hc
    exact ⟨c, hc', rfl, rfl, (h.holder c hc').2.1⟩
  · intro c hc
    rcases List.mem_or_eq_of_mem_set hc with hc | rfl
    · exact .inl ⟨c, hc, rfl⟩
    · exact .inl ⟨a, List.mem_of_getElem? ha, hbase⟩

theorem ledger_step {e : Event} (h : Ledger configured served found reconnected w)
    (hs : step w e = some w') : Ledger configured (servedAfter w served e)
      (found ++ (foundBy w e).map (served, ·)) (reconnected ++ reconnectedBy w e) w' := by
  cases step_cases hs with
  | attemptEnded ha hnext =>
    simpa only [servedAfter, reconnectedBy, List.append_nil] using ledger_attemptEnded h ha hnext
  | @attemptAgain a o now scan ha hnext =>
    have hnone : foundBy w (.attemptEnds o now) = [] := by simp [foundBy, ha, hnext]
    simp only [hnone, reconnectedBy, List.map_nil, List.append_nil]
    exact ledger_attemptAgain h now ha hnext
  | reconnectEnded ha hnext =>
    simpa only [servedAfter, foundBy, List.map_nil, List.append_nil] using
      ledger_reconnectEnded h ha hnext
  | @reconnectAgain k a o now scan ha hnext =>
    have hnone : reconnectedBy w (.reconnectEnds k o now) = [] := by
      simp [reconnectedBy, ha, hnext]
    simp only [hnone, foundBy, List.map_nil, List.append_nil]
    refine h.reconnecting_set (frame_attemptOutcome w a o now) ?_ ha (next_again hnext).2.1
    intro i
    simp [attemptOutcome_clientId, hnext]
  | @grantEnsure m rest now hnone hwait =>
    have hserved : servedAfter w served (.grant now) = m := by simp [servedAfter, hnone, hwait]
    simp only [hserved, foundBy, reconnectedBy, List.map_nil, List.append_nil]
    exact ledger_grantEnsure h m rest now hnone
  | @grantDisconnect rest now hnone hwait =>
    have hserved : servedAfter w served (.grant now) = served := by
      simp [servedAfter, hnone, hwait]
    obtain ⟨hid, hh, hrec, hheap⟩ := disconnectLocked_frame { w with waiting := rest } now
    simp only [hserved, foundBy, reconnectedBy, List.map_nil, List.append_nil]
    refine h.move hid ?_ ?_ hheap
    · intro b hb
      exact absurd (hh.symm.trans hb) (by simp [hnone])
    · intro b hb
      exact .inl ⟨b, hrec ▸ hb, rfl⟩
  | ensureConnected | methodConnected =>
    simpa only [servedAfter, foundBy, reconnectedBy, List.map_nil, List.append_nil] using h
  | ensureQueued | disconnectQueued =>
    simp only [foundBy, reconnectedBy, List.map_nil, List.append_nil]
    exact ⟨h.client, h.offsets, h.holder, h.reconnecting, h.connectors⟩
  | @attemptOpens a ha =>
    simp only [foundBy, reconnectedBy, List.map_nil, List.append_nil]
    refine h.move rfl ?_ (fun b hb => .inl ⟨b, hb, rfl⟩) fun _ => set_clientId rfl
    intro b hb
    obtain rfl := Option.some.inj hb
    exact ⟨a, ha, rfl, rfl, (h.holder a ha).2.1⟩
  | @methodReconnects ref barsOnly =>
    simp only [foundBy, reconnectedBy, List.map_nil, List.append_nil]
    refine h.move rfl (fun b hb => ⟨b, hb, rfl, rfl, (h.holder b hb).2.1⟩) ?_ fun _ => rfl
    intro b hb
    rcases List.mem_append.mp hb with hb | hb
    · exact .inl ⟨b, hb, rfl⟩
    · obtain rfl := List.mem_singleton.mp hb
      exact .inr ⟨ref, rfl⟩
  | @reconnectOpens k a ha =>
    simp only [foundBy, reconnectedBy, List.map_nil, List.append_nil]
    refine h.reconnecting_set (frame_set w a.ref _) (fun i => set_clientId ?_) ha ?_
    · rfl
    · rfl
  | @drop ref now =>
    simp only [foundBy, reconnectedBy, List.map_nil, List.append_nil]
    exact h.frame (frame_closeSession w ref now) fun i => closeSession_clientId w ref now
  | @markDropped ref now =>
    simp only [foundBy, reconnectedBy, List.map_nil, List.append_nil]
    refine h.frame ((frame_closeSession w ref now).trans (frame_set _ ref _)) fun i => ?_
    refine (set_clientId ?_).trans (closeSession_clientId w ref now)
    rfl
  | @connectedSnapshot now =>
    simp only [foundBy, reconnectedBy, List.map_nil, List.append_nil]
    refine h.frame (frame_snapshot w now) fun i => ?_
    rw [snapshot_heap]

theorem ledger_run {es : List Event} (h : Ledger configured served found reconnected w)
    (hr : Run (ofStep step) w es w') : Ledger configured (servedCall w served es)
      (found ++ scansFound w served es) (reconnected ++ methodsFound w es) w' := by
  induction hr generalizing served found reconnected with
  | nil => simpa [servedCall, scansFound, methodsFound] using h
  | @cons s t u e es head tail ih =>
    have hhead : step s e = some t := head
    have hrest := ih (ledger_step h hhead)
    simpa only [servedCall, scansFound, methodsFound, hhead, Option.elim_some, List.append_assoc]
      using hrest

end Steps

/-- Over any run the client's id is the configured one and the steps of the scans of
`ensure_connected` that succeeded, each below its call's limit; a scan under way tries ids
from the client's one on, within the limit of its call; and no connector's id is below the
configured one, or above it by more than the scans that succeeded, those of the methods that
reconnect included. -/
theorem client_id_window {port configured : ℤ} {es : List Event} {w : World}
    (h : Run (ofStep step) (initialWorld port configured) es w) :
    let found := scansFound (initialWorld port configured) none es
    w.client.clientId = configured + (found.map Prod.snd).sum ∧
    (∀ f ∈ found, f.2 < attemptLimit f.1) ∧
    (∀ a, w.holder = some a → w.client.clientId ≤ a.scan.tryId ∧ a.scan.tryId <
      w.client.clientId + attemptLimit (servedCall (initialWorld port configured) none es)) ∧
    ∀ i, configured ≤ (w.heap i).clientId ∧
      (w.heap i).clientId ≤ configured + (found.map Prod.snd).sum +
        (methodsFound (initialWorld port configured) es).sum := by
  have hledger := ledger_run (ledger_initial port configured) h
  simp only [List.nil_append] at hledger
  refine ⟨hledger.client, hledger.offsets, ?_, hledger.connectors⟩
  intro a ha
  obtain ⟨hbase, hvalid, hlimit⟩ := hledger.holder a ha
  obtain ⟨hlow, hhigh⟩ := hvalid.tryId_mem
  have hattempt := hvalid.attempt
  rw [hlimit] at hattempt hhigh
  constructor
  · omega
  · omega

/-- A full scan from the client's id whose first `n` attempts fail. -/
def scanWithFailures (n : ℕ) : List Event :=
  [.ensureCall none, .grant 0] ++ List.replicate n (.attemptEnds .failed 0) ++
    [.attemptOpens, .attemptEnds .success 0]

/-- A scan that finds the third id, a call that finds the client connected, a method that
reconnects with the fourth id from there, and after another drop a heartbeat's attempt. -/
def driftingEvents : List Event :=
  scanWithFailures 2 ++ [.ensureCall none, .drop 0 1, .methodCall 0 false] ++
    List.replicate 3 (.reconnectEnds 0 .failed 1) ++
    [.reconnectOpens 0, .reconnectEnds 0 .success 1, .drop 0 2, .ensureCall (some 1), .grant 3,
      .attemptOpens, .attemptEnds .success 3]

theorem client_id_window_heartbeat :
    ∃ w, Run (ofStep step) (initialWorld 7497 10) driftingEvents w ∧
      scansFound (initialWorld 7497 10) none driftingEvents = [(none, 2), (some 1, 0)] ∧
      w.client.clientId = 12 ∧ (w.heap 0).clientId = 15 ∧
      (w.heap 0).clientId ≤
        10 + 2 + (methodsFound (initialWorld 7497 10) driftingEvents).sum := by
  obtain ⟨w, hr, hid⟩ := Run.ofFold_satisfies step (initialWorld 7497 10) driftingEvents
    (fun w => (w.heap 0).clientId = 15) (by decide +kernel)
  have hfound : scansFound (initialWorld 7497 10) none driftingEvents =
      [(none, 2), (some 1, 0)] := by
    decide +kernel
  obtain ⟨hclient, -, -, hconnectors⟩ := client_id_window hr
  rw [hfound] at hclient hconnectors
  exact ⟨w, hr, hfound, hclient, hid, (hconnectors 0).2⟩

/-- Two scans drift out of the window of one: the first finds the tenth id, and the second
starts from there. -/
theorem client_id_leaves_window :
    ∃ w, Run (ofStep step) (initialWorld 7497 10)
        (scanWithFailures 9 ++ [.drop 0 1] ++ scanWithFailures 1) w ∧
      w.client.clientId > 10 + 9 :=
  Run.ofFold_satisfies step (initialWorld 7497 10)
    (scanWithFailures 9 ++ [.drop 0 1] ++ scanWithFailures 1)
    (fun w => w.client.clientId > 10 + 9) (by decide +kernel)

end BifrostSocket.ClientIdDrift
