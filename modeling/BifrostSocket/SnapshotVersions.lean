import BifrostSocket.AccountFills

/-!
# Versions of the account snapshots

`write_snapshot` makes its calls one by one: `SET`, `PUBLISH`, `XADD`. Other processes read in
between, any call may fail, and the stream may lose its oldest entries. A reader that is notified
of a version finds that snapshot or a newer one under the key, and a version names one snapshot.
-/

namespace BifrostSocket.SnapshotVersions
open TransitionRuns AccountFills

section Steps

/-- The call that `write_snapshot` makes next. -/
inductive WritePhase (ρ : Type) where
  | idle
  | setting (body : Snapshot ρ) (publishNotify : Bool)
  | publishing (body : Snapshot ρ)
  | adding (body : Snapshot ρ)

/-- The writer's counter and the call it is at. The notifications and the stream are those since
the writer was made, the key may hold what another one left. -/
structure Writer (ρ : Type) where
  rds : AccountRedis ρ
  version : ℕ
  phase : WritePhase ρ

/-- The payloads of the agent name no version and no time of their own. -/
inductive WriteEvent (ρ : Type) where
  | begin (payload : Payload ρ) (publishNotify : Bool) (now : ℚ) (encodes : Bool)
  | set (fault : CallFault)
  | publish (fault : CallFault)
  | xadd (fault : CallFault)
  | trim (oldest : ℕ)

variable {ρ : Type}

/-- Where an encoding fails, the first `try` ends, and the second one has no `raw` to add. -/
def step (w : Writer ρ) : WriteEvent ρ → Option (Writer ρ)
  | .begin payload publishNotify now encodes => match w.phase with
    | .idle =>
      let body : Snapshot ρ := ⟨payload, w.version + 1, now⟩
      some { w with
        version := w.version + 1
        phase := if encodes then .setting body publishNotify else .idle }
    | _ => none
  | .set fault => match w.phase with
    | .setting body publishNotify => match fault with
      | .before => some { w with phase := .adding body }
      | .after => some { w with rds.snapshot := some body, phase := .adding body }
      | .none => some { w with
          rds.snapshot := some body
          phase := if publishNotify then .publishing body else .adding body }
    | _ => none
  | .publish fault => match w.phase with
    | .publishing body => match fault with
      | .before => some { w with phase := .adding body }
      | .none | .after => some { w with
          rds.notified := w.rds.notified ++ [body.version]
          phase := .adding body }
    | _ => none
  | .xadd fault => match w.phase with
    | .adding body => match fault with
      | .before => some { w with phase := .idle }
      | .none | .after => some { w with rds.stream := w.rds.stream ++ [body], phase := .idle }
    | _ => none
  | .trim oldest => some { w with rds.stream := w.rds.stream.drop oldest }

/-- The calls that one `write_snapshot` comes to. -/
def writeEvents (payload : Payload ρ) (publishNotify : Bool) (now : ℚ) (calls : WriteCalls) :
    List (WriteEvent ρ) :=
  .begin payload publishNotify now calls.encodes ::
    if calls.encodes then
      .set calls.set ::
        ((if publishNotify && decide (calls.set = .none) then [.publish calls.publish] else []) ++
          [.xadd calls.xadd])
    else []

/-- With nothing in between, the calls are the whole write of the agent's iteration. -/
theorem uninterrupted_write (rds : AccountRedis ρ) (version : ℕ) (payload : Payload ρ)
    (publishNotify : Bool) (now : ℚ) (calls : WriteCalls) :
    Run (ofStep step) ⟨rds, version, .idle⟩ (writeEvents payload publishNotify now calls)
      ⟨rds.writeSnapshot (version + 1) payload publishNotify now calls, version + 1, .idle⟩ := by
  apply Run.ofFold
  obtain ⟨encodes, set, publish, xadd⟩ := calls
  cases encodes with
  | false => rfl
  | true => cases publishNotify <;> cases set <;> cases publish <;> cases xadd <;> rfl

end Steps

section Invariants

variable {ρ : Type} {left : Option (Snapshot ρ)} {w w' : Writer ρ} {e : WriteEvent ρ}

/-- What the key holds: still what was left there, and then nobody was notified; or a snapshot of
this writer that every notified reader may expect. -/
def KeySound (left : Option (Snapshot ρ)) (rds : AccountRedis ρ) (bound : ℕ) : Prop :=
  (rds.snapshot = left ∧ rds.notified = []) ∨
    ∃ own, rds.snapshot = some own ∧ own.version < bound ∧
      (∀ v ∈ rds.notified, v ≤ own.version) ∧
      ∀ entry ∈ rds.stream, entry.version = own.version → entry = own

/-- The stream holds older snapshots than the one under way, and the key holds an older one or
that one. -/
def PhaseSound (left : Option (Snapshot ρ)) (w : Writer ρ) : Prop :=
  match w.phase with
  | .idle => KeySound left w.rds (w.version + 1)
  | .setting body _ => body.version = w.version ∧ KeySound left w.rds w.version ∧
      (∀ entry ∈ w.rds.stream, entry.version < w.version) ∧ ∀ v ∈ w.rds.notified, v < w.version
  | .publishing body => body.version = w.version ∧ w.rds.snapshot = some body ∧
      (∀ entry ∈ w.rds.stream, entry.version < w.version) ∧ ∀ v ∈ w.rds.notified, v < w.version
  | .adding body => body.version = w.version ∧
      (KeySound left w.rds w.version ∨ w.rds.snapshot = some body) ∧
      ∀ entry ∈ w.rds.stream, entry.version < w.version

structure Invariant (left : Option (Snapshot ρ)) (w : Writer ρ) : Prop where
  stream : w.rds.stream.Pairwise fun a b => a.version < b.version
  streamLe : ∀ entry ∈ w.rds.stream, entry.version ≤ w.version
  notified : w.rds.notified.Pairwise (· < ·)
  notifiedLe : ∀ v ∈ w.rds.notified, v ≤ w.version
  phase : PhaseSound left w

/-- A new writer, over a key with any content. -/
def Initial (left : Option (Snapshot ρ)) (w : Writer ρ) : Prop :=
  w = ⟨⟨left, [], []⟩, 0, .idle⟩

theorem invariant_initial (h : Initial left w) : Invariant left w := by
  subst h
  exact ⟨.nil, nofun, .nil, nofun, .inl ⟨rfl, rfl⟩⟩

theorem pairwise_concat {α : Type} {r : α → α → Prop} {xs : List α} {x : α}
    (h : xs.Pairwise r) (hx : ∀ y ∈ xs, r y x) : (xs ++ [x]).Pairwise r := by
  rw [List.pairwise_append]
  refine ⟨h, List.pairwise_singleton r x, fun y hy z hz => ?_⟩
  rw [List.mem_singleton.mp hz]
  exact hx y hy

theorem KeySound.mono {rds : AccountRedis ρ} {m n : ℕ} (h : KeySound left rds m) (hle : m ≤ n) :
    KeySound left rds n :=
  h.imp_right fun ⟨own, hown, hlt, hrest⟩ => ⟨own, hown, hlt.trans_le hle, hrest⟩

/-- Under the snapshot under way, which is newer than the stream. -/
theorem keySound_own {rds : AccountRedis ρ} {body : Snapshot ρ} (hkey : rds.snapshot = some body)
    (hnotified : ∀ v ∈ rds.notified, v ≤ body.version)
    (hstream : ∀ entry ∈ rds.stream, entry.version < body.version) :
    KeySound left rds (body.version + 1) := by
  refine .inr ⟨body, hkey, Nat.lt_succ_self _, hnotified, fun entry he heq => ?_⟩
  have hlt := hstream entry he
  omega

theorem Invariant.keySound (h : Invariant left w) : KeySound left w.rds (w.version + 1) := by
  have hphase := h.phase
  unfold PhaseSound at hphase
  split at hphase
  · exact hphase
  · exact hphase.2.1.mono (Nat.le_succ _)
  · obtain ⟨hbody, hkey, hstream, -⟩ := hphase
    rw [← hbody] at hstream ⊢
    exact keySound_own hkey (hbody ▸ h.notifiedLe) hstream
  · obtain ⟨hbody, hkey | hkey, hstream⟩ := hphase
    · exact hkey.mono (Nat.le_succ _)
    · rw [← hbody] at hstream ⊢
      exact keySound_own hkey (hbody ▸ h.notifiedLe) hstream

theorem Invariant.begin (h : Invariant left w) (hidle : w.phase = .idle) (body : Snapshot ρ)
    (hbody : body.version = w.version + 1) (publishNotify encodes : Bool) :
    Invariant left { w with
      version := w.version + 1
      phase := if encodes then .setting body publishNotify else .idle } := by
  have hkey := h.phase
  rw [PhaseSound, hidle] at hkey
  refine ⟨h.stream, fun entry he => (h.streamLe entry he).trans (Nat.le_succ _), h.notified,
    fun v hv => (h.notifiedLe v hv).trans (Nat.le_succ _), ?_⟩
  cases encodes with
  | false => exact hkey.mono (Nat.le_succ _)
  | true =>
    exact ⟨hbody, hkey, fun entry he => Nat.lt_succ_of_le (h.streamLe entry he),
      fun v hv => Nat.lt_succ_of_le (h.notifiedLe v hv)⟩

theorem Invariant.set (h : Invariant left w) {body : Snapshot ρ} {publishNotify : Bool}
    (hphase : w.phase = .setting body publishNotify) {fault : CallFault}
    (hs : step w (.set fault) = some w') : Invariant left w' := by
  have hsound := h.phase
  rw [PhaseSound, hphase] at hsound
  obtain ⟨hbody, hkey, hstream, hnotified⟩ := hsound
  simp only [step, hphase] at hs
  cases fault with
  | before =>
    obtain rfl := Option.some.inj hs
    exact ⟨h.stream, h.streamLe, h.notified, h.notifiedLe, hbody, .inl hkey, hstream⟩
  | after =>
    obtain rfl := Option.some.inj hs
    exact ⟨h.stream, h.streamLe, h.notified, h.notifiedLe, hbody, .inr rfl, hstream⟩
  | none =>
    obtain rfl := Option.some.inj hs
    refine ⟨h.stream, h.streamLe, h.notified, h.notifiedLe, ?_⟩
    cases publishNotify with
    | false => exact ⟨hbody, .inr rfl, hstream⟩
    | true => exact ⟨hbody, rfl, hstream, hnotified⟩

theorem Invariant.publish (h : Invariant left w) {body : Snapshot ρ}
    (hphase : w.phase = .publishing body) {fault : CallFault}
    (hs : step w (.publish fault) = some w') : Invariant left w' := by
  have hsound := h.phase
  rw [PhaseSound, hphase] at hsound
  obtain ⟨hbody, hkey, hstream, hnotified⟩ := hsound
  have hpublished : Invariant left { w with
      rds.notified := w.rds.notified ++ [body.version], phase := .adding body } := by
    refine ⟨h.stream, h.streamLe, ?_, fun v hv => ?_, hbody, .inr hkey, hstream⟩
    · exact pairwise_concat h.notified fun v hv => hbody ▸ hnotified v hv
    · rcases List.mem_append.mp hv with hv | hv
      · exact h.notifiedLe v hv
      · rw [List.mem_singleton.mp hv]
        exact hbody.le
  simp only [step, hphase] at hs
  cases fault with
  | before =>
    obtain rfl := Option.some.inj hs
    exact ⟨h.stream, h.streamLe, h.notified, h.notifiedLe, hbody, .inr hkey, hstream⟩
  | after => exact Option.some.inj hs ▸ hpublished
  | none => exact Option.some.inj hs ▸ hpublished

/-- The entry added to the stream is the one the key holds under its version. -/
theorem KeySound.add {rds : AccountRedis ρ} {body : Snapshot ρ} {bound : ℕ}
    (h : KeySound left rds bound)
    (hbody : ∀ own, rds.snapshot = some own → body.version = own.version → body = own) :
    KeySound left { rds with stream := rds.stream ++ [body] } bound := by
  refine h.imp_right fun ⟨own, hown, hlt, hnotified, hstream⟩ => ?_
  refine ⟨own, hown, hlt, hnotified, fun entry he heq => ?_⟩
  rcases List.mem_append.mp he with he | he
  · exact hstream entry he heq
  · rw [List.mem_singleton.mp he] at heq ⊢
    exact hbody own hown heq

theorem Invariant.xadd (h : Invariant left w) {body : Snapshot ρ}
    (hphase : w.phase = .adding body) {fault : CallFault}
    (hs : step w (.xadd fault) = some w') : Invariant left w' := by
  have hsound := h.phase
  rw [PhaseSound, hphase] at hsound
  obtain ⟨hbody, hkey, hstream⟩ := hsound
  have hadded : Invariant left { w with rds.stream := w.rds.stream ++ [body], phase := .idle } := by
    refine ⟨?_, fun entry he => ?_, h.notified, h.notifiedLe, ?_⟩
    · exact pairwise_concat h.stream fun entry he => hbody ▸ hstream entry he
    · rcases List.mem_append.mp he with he | he
      · exact h.streamLe entry he
      · rw [List.mem_singleton.mp he]
        exact hbody.le
    · rcases hkey with hkey | hkey
      · rcases hkey with hleft | ⟨own, hown, hlt, hrest⟩
        · exact .inl hleft
        · refine KeySound.add (.inr ⟨own, hown, hlt.trans (Nat.lt_succ_self _), hrest⟩) ?_
          intro own' hown' heq
          obtain rfl : own = own' := Option.some.inj (hown.symm.trans hown')
          omega
      · refine h.keySound.add fun own hown _ => ?_
        exact Option.some.inj (hkey.symm.trans hown)
  simp only [step, hphase] at hs
  cases fault with
  | before =>
    obtain rfl := Option.some.inj hs
    exact ⟨h.stream, h.streamLe, h.notified, h.notifiedLe, h.keySound⟩
  | after => exact Option.some.inj hs ▸ hadded
  | none => exact Option.some.inj hs ▸ hadded

theorem Invariant.trim (h : Invariant left w) (oldest : ℕ) :
    Invariant left { w with rds.stream := w.rds.stream.drop oldest } := by
  have hmem : ∀ entry ∈ w.rds.stream.drop oldest, entry ∈ w.rds.stream :=
    fun entry he => List.mem_of_mem_drop he
  have hkey : ∀ bound, KeySound left w.rds bound →
      KeySound left { w.rds with stream := w.rds.stream.drop oldest } bound := by
    intro bound hkey
    refine hkey.imp_right fun ⟨own, hown, hlt, hnotified, hstream⟩ => ?_
    exact ⟨own, hown, hlt, hnotified, fun entry he => hstream entry (hmem entry he)⟩
  refine ⟨h.stream.sublist (List.drop_sublist ..), fun entry he => h.streamLe entry (hmem entry he),
    h.notified, h.notifiedLe, ?_⟩
  have hsound := h.phase
  unfold PhaseSound at hsound ⊢
  dsimp only
  split at hsound
  · exact hkey _ hsound
  · obtain ⟨hbody, hold, hstream, hnotified⟩ := hsound
    exact ⟨hbody, hkey _ hold, fun entry he => hstream entry (hmem entry he), hnotified⟩
  · obtain ⟨hbody, hold, hstream, hnotified⟩ := hsound
    exact ⟨hbody, hold, fun entry he => hstream entry (hmem entry he), hnotified⟩
  · obtain ⟨hbody, hold, hstream⟩ := hsound
    exact ⟨hbody, hold.imp_left (hkey _), fun entry he => hstream entry (hmem entry he)⟩

theorem invariant_step (h : Invariant left w) (hs : step w e = some w') : Invariant left w' := by
  cases e with
  | begin payload publishNotify now encodes =>
    simp only [step] at hs
    split at hs
    · next hidle => exact Option.some.inj hs ▸ h.begin hidle _ rfl publishNotify encodes
    · cases hs
  | set fault =>
    cases hphase : w.phase with
    | setting body publishNotify => exact h.set hphase hs
    | idle => simp [step, hphase] at hs
    | publishing body => simp [step, hphase] at hs
    | adding body => simp [step, hphase] at hs
  | publish fault =>
    cases hphase : w.phase with
    | publishing body => exact h.publish hphase hs
    | idle => simp [step, hphase] at hs
    | setting body publishNotify => simp [step, hphase] at hs
    | adding body => simp [step, hphase] at hs
  | xadd fault =>
    cases hphase : w.phase with
    | adding body => exact h.xadd hphase hs
    | idle => simp [step, hphase] at hs
    | setting body publishNotify => simp [step, hphase] at hs
    | publishing body => simp [step, hphase] at hs
  | trim oldest => exact Option.some.inj hs ▸ h.trim oldest

/-- Between any two calls: versions ascend in the stream and in the notifications, and who was
notified of a version finds a snapshot under the key that is as new, the very one that the stream
holds under its version. -/
theorem snapshot_versions (h : Reachable (Initial left) (ofStep step) w) :
    w.rds.stream.Pairwise (fun a b => a.version < b.version) ∧
      w.rds.notified.Pairwise (· < ·) ∧
      ∀ v ∈ w.rds.notified, ∃ own, w.rds.snapshot = some own ∧ v ≤ own.version ∧
        ∀ entry ∈ w.rds.stream, entry.version = own.version → entry = own := by
  have inv : Invariant left w :=
    h.invariant (fun _ => invariant_initial) fun _ _ _ hi hs => invariant_step hi hs
  refine ⟨inv.stream, inv.notified, fun v hv => ?_⟩
  rcases inv.keySound with ⟨-, hnone⟩ | ⟨own, hown, -, hnotified, hstream⟩
  · rw [hnone] at hv
    cases hv
  · exact ⟨own, hown, hnotified v hv, hstream⟩

/-- The first snapshot is announced, the second one reaches the key and not the stream yet. -/
theorem snapshot_versions_between_calls :
    ∃ w : Writer ℕ, w.rds.notified = [1] ∧ w.rds.stream.length = 1 ∧
      ∃ own, w.rds.snapshot = some own ∧ 1 ≤ own.version := by
  let payload : Payload ℕ := ⟨[], true, false⟩
  let calls : WriteCalls := ⟨true, .none, .none, .none⟩
  have hrun : Run (ofStep step) (⟨⟨none, [], []⟩, 0, .idle⟩ : Writer ℕ)
      (writeEvents payload true 5 calls ++ [.begin payload true 6 true, .set .after]) _ :=
    (uninterrupted_write _ 0 payload true 5 calls).append (.cons rfl (.single rfl))
  have hreach : Reachable (Initial none) (ofStep step) _ := ⟨_, _, rfl, hrun⟩
  obtain ⟨own, hown, hle, -⟩ := (snapshot_versions hreach).2.2 1 (List.mem_singleton.mpr rfl)
  exact ⟨_, rfl, rfl, own, hown, hle⟩

end Invariants

end BifrostSocket.SnapshotVersions
