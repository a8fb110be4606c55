import BifrostSocket.TransitionRuns
import Mathlib.Data.List.Nodup
import Mathlib.Data.Rat.Defs

/-!
# Fills on their way into the account stream

The secondary connection appends a row for each fill to the agent's buffer, from its own
thread. A snapshot iteration copies the buffer, empties it, and hands the copy to the writer,
which logs what goes wrong at Redis and goes on.
-/

namespace BifrostSocket.AccountFills
open TransitionRuns

section Writers

/-- A row object of the buffer, with its position in the order of all appended rows. -/
structure FillRow (ρ : Type) where
  seq : ℕ
  row : ρ
  deriving DecidableEq

/-- What an iteration hands to the writer. -/
structure Payload (ρ : Type) where
  lastExecutionRows : List (FillRow ρ)
  hostConnected : Bool
  secondaryConnected : Bool

structure Snapshot (ρ : Type) where
  payload : Payload ρ
  version : ℕ
  updatedAt : ℚ

/-- The snapshot key, the versions that were published and the entries of the stream. -/
structure AccountRedis (ρ : Type) where
  snapshot : Option (Snapshot ρ)
  notified : List ℕ
  stream : List (Snapshot ρ)

/-- How the calls of one `write_snapshot` go. `json.dumps` may raise as well. -/
structure WriteCalls where
  encodes : Bool
  set : CallFault
  publish : CallFault
  xadd : CallFault

/-- The snapshot reaches the stream. Without its encoding there is no `raw` to add. -/
def WriteCalls.adds (calls : WriteCalls) : Bool :=
  calls.encodes && decide (calls.xadd ≠ .before)

variable {ρ : Type}

/-- The first `try` of `write_snapshot`. -/
def AccountRedis.setAndNotify (rds : AccountRedis ρ) (body : Snapshot ρ) (publishNotify : Bool)
    (calls : WriteCalls) : AccountRedis ρ :=
  if !calls.encodes then rds
  else
    match calls.set with
    | .before => rds
    | .after => { rds with snapshot := some body }
    | .none =>
      { rds with
        snapshot := some body
        notified :=
          if publishNotify && decide (calls.publish ≠ .before) then rds.notified ++ [body.version]
          else rds.notified }

def AccountRedis.writeSnapshot (rds : AccountRedis ρ) (version : ℕ) (payload : Payload ρ)
    (publishNotify : Bool) (now : ℚ) (calls : WriteCalls) : AccountRedis ρ :=
  let body : Snapshot ρ := ⟨payload, version, now⟩
  let rds := rds.setAndNotify body publishNotify calls
  if calls.adds then { rds with stream := rds.stream ++ [body] } else rds

theorem writeSnapshot_stream (rds : AccountRedis ρ) (version : ℕ) (payload : Payload ρ)
    (publishNotify : Bool) (now : ℚ) (calls : WriteCalls) :
    (rds.writeSnapshot version payload publishNotify now calls).stream =
      if calls.adds then rds.stream ++ [⟨payload, version, now⟩] else rds.stream := by
  have hfirst : (rds.setAndNotify ⟨payload, version, now⟩ publishNotify calls).stream =
      rds.stream := by
    unfold AccountRedis.setAndNotify
    split
    · rfl
    · split
      · rfl
      · rfl
      · rfl
  unfold AccountRedis.writeSnapshot
  dsimp only
  split
  · rw [hfirst]
  · exact hfirst

end Writers

section Agents

/-- Where `run` and `_run_session` are. An iteration remembers how many rows had been
appended when it began, and what it read. -/
inductive Phase (ρ : Type) where
  | outside
  | connecting
  | looping
  | reading (begun : ℕ) (hostOk secOk : Bool)
  | copied (begun : ℕ) (hostOk secOk : Bool) (fills : List (FillRow ρ))
  | cleared (begun : ℕ) (hostOk secOk : Bool) (fills : List (FillRow ρ))
  | written (begun : ℕ)

/-- `appended` records every row that was ever appended, `completed` how many of them were
there when the last iteration that completed began. -/
structure Agent (ρ : Type) where
  redis : AccountRedis ρ
  version : ℕ
  fillRows : List (FillRow ρ)
  sessionDisconnected : Bool
  hostFailStreak : ℕ
  phase : Phase ρ
  appended : List (FillRow ρ)
  completed : ℕ

/-- How a part of an iteration ends; only a `ConnectionError` leaves the loop. -/
inductive CallEnd where
  | returns | raises | connectionError

/-- A secondary fill may come at any time. `secFill none` is one without a row. -/
inductive Event (ρ : Type) where
  | sessionStarts
  | connected (ok : Bool)
  | secFill (row : Option ρ)
  | disconnected
  | iterationBegins (hostOk secOk : Bool)
  | collected (result : CallEnd)
  | cleared
  | written (now : ℚ) (calls : WriteCalls)
  | healthPushed (result : CallEnd)
  | stops

def hostFailIterationsBeforeSessionReset : ℕ := 15

variable {ρ : Type}

def Agent.leaves (s : Agent ρ) : CallEnd → Phase ρ → Agent ρ
  | .returns, next => { s with phase := next }
  | .raises, _ => { s with phase := .looping }
  | .connectionError, _ => { s with phase := .outside }

def step (s : Agent ρ) : Event ρ → Option (Agent ρ)
  | .sessionStarts =>
    match s.phase with
    | .outside =>
      some { s with phase := .connecting, sessionDisconnected := false, fillRows := [] }
    | _ => none
  | .connected ok =>
    match s.phase with
    | .connecting =>
      some (if ok then { s with phase := .looping, hostFailStreak := 0 }
        else { s with phase := .outside })
    | _ => none
  | .secFill none => some s
  | .secFill (some row) =>
    let r : FillRow ρ := ⟨s.appended.length, row⟩
    some { s with fillRows := s.fillRows ++ [r], appended := s.appended ++ [r] }
  | .disconnected => some { s with sessionDisconnected := true }
  | .iterationBegins hostOk secOk =>
    match s.phase with
    | .looping =>
      if s.sessionDisconnected then some { s with phase := .outside }
      else
        let streak := if hostOk then 0 else s.hostFailStreak + 1
        some { s with
          hostFailStreak := streak
          phase :=
            if hostOk = false ∧ hostFailIterationsBeforeSessionReset ≤ streak then .outside
            else .reading s.appended.length hostOk secOk }
    | _ => none
  | .collected result =>
    match s.phase with
    | .reading begun hostOk secOk => some (s.leaves result (.copied begun hostOk secOk s.fillRows))
    | _ => none
  | .cleared =>
    match s.phase with
    | .copied begun hostOk secOk fills =>
      some { s with phase := .cleared begun hostOk secOk fills, fillRows := [] }
    | _ => none
  | .written now calls =>
    match s.phase with
    | .cleared begun hostOk secOk fills =>
      some { s with
        phase := .written begun
        version := s.version + 1
        redis := s.redis.writeSnapshot (s.version + 1) ⟨fills, hostOk, secOk⟩ true now calls }
    | _ => none
  | .healthPushed result =>
    match s.phase with
    | .written begun =>
      match result with
      | .returns => some { s with phase := .looping, completed := begun }
      | result => some (s.leaves result .looping)
    | _ => none
  | .stops =>
    match s.phase with
    | .connecting | .looping | .reading .. => some { s with phase := .outside }
    | _ => none

def initialAgent : Agent ρ where
  redis := { snapshot := none, notified := [], stream := [] }
  version := 0
  fillRows := []
  sessionDisconnected := false
  hostFailStreak := 0
  phase := .outside
  appended := []
  completed := 0

def Phase.inFlight : Phase ρ → List (FillRow ρ)
  | .cleared _ _ _ fills => fills
  | _ => []

/-- No iteration is under way. -/
def Phase.Idle : Phase ρ → Prop
  | .outside | .connecting | .looping => True
  | _ => False

/-- The two states differ in nothing that holds rows. -/
structure SameRows (s s' : Agent ρ) : Prop where
  redis : s'.redis = s.redis
  fillRows : s'.fillRows = s.fillRows
  appended : s'.appended = s.appended
  completed : s'.completed = s.completed

/-- The events that leave all rows where they are. -/
def Event.Quiet : Event ρ → Prop
  | .sessionStarts | .secFill (some _) | .cleared | .written .. => False
  | _ => True

/-- What each event can do. -/
inductive Step (s : Agent ρ) : Event ρ → Agent ρ → Prop where
  | sessionStarts (hphase : s.phase = .outside) :
      Step s .sessionStarts
        { s with phase := .connecting, sessionDisconnected := false, fillRows := [] }
  | appends {row} : Step s (.secFill (some row))
      { s with
        fillRows := s.fillRows ++ [⟨s.appended.length, row⟩]
        appended := s.appended ++ [⟨s.appended.length, row⟩] }
  | unmoved {e s'} (hquiet : e.Quiet) (hsame : SameRows s s') (hphase : s'.phase = s.phase) :
      Step s e s'
  | idles {e s'} (hquiet : e.Quiet) (hsame : SameRows s s') (hfrom : s.phase.inFlight = [])
      (hidle : s'.phase.Idle) : Step s e s'
  | begins {hostOk secOk s'} (hsame : SameRows s s') (hfrom : s.phase = .looping)
      (hphase : s'.phase = .reading s.appended.length hostOk secOk) :
      Step s (.iterationBegins hostOk secOk) s'
  | copies {begun hostOk secOk} (hphase : s.phase = .reading begun hostOk secOk) :
      Step s (.collected .returns) { s with phase := .copied begun hostOk secOk s.fillRows }
  | clears {begun hostOk secOk fills} (hphase : s.phase = .copied begun hostOk secOk fills) :
      Step s .cleared { s with phase := .cleared begun hostOk secOk fills, fillRows := [] }
  | writes {begun hostOk secOk fills now calls}
      (hphase : s.phase = .cleared begun hostOk secOk fills) :
      Step s (.written now calls) { s with
        phase := .written begun
        version := s.version + 1
        redis := s.redis.writeSnapshot (s.version + 1) ⟨fills, hostOk, secOk⟩ true now calls }
  | completes {begun} (hphase : s.phase = .written begun) :
      Step s (.healthPushed .returns) { s with phase := .looping, completed := begun }

theorem step_cases {s s' : Agent ρ} {e : Event ρ} (h : step s e = some s') : Step s e s' := by
  cases e with
  | sessionStarts =>
    simp only [step] at h
    split at h
    · next hphase =>
      obtain rfl := Option.some.inj h
      exact .sessionStarts hphase
    · cases h
  | connected ok =>
    simp only [step] at h
    split at h
    · next hphase =>
      obtain rfl := Option.some.inj h
      cases ok with
      | true => exact .idles trivial ⟨rfl, rfl, rfl, rfl⟩ (by rw [hphase]; rfl) trivial
      | false => exact .idles trivial ⟨rfl, rfl, rfl, rfl⟩ (by rw [hphase]; rfl) trivial
    · cases h
  | secFill row =>
    cases row with
    | none =>
      obtain rfl := Option.some.inj h
      exact .unmoved trivial ⟨rfl, rfl, rfl, rfl⟩ rfl
    | some row =>
      obtain rfl := Option.some.inj h
      exact .appends
  | disconnected =>
    obtain rfl := Option.some.inj h
    exact .unmoved trivial ⟨rfl, rfl, rfl, rfl⟩ rfl
  | iterationBegins hostOk secOk =>
    simp only [step] at h
    split at h
    · next hphase =>
      have hfrom : s.phase.inFlight = [] := by rw [hphase]; rfl
      split at h
      · obtain rfl := Option.some.inj h
        exact .idles trivial ⟨rfl, rfl, rfl, rfl⟩ hfrom trivial
      · obtain rfl := Option.some.inj h
        by_cases hreset : hostOk = false ∧ hostFailIterationsBeforeSessionReset ≤
            if hostOk = true then 0 else s.hostFailStreak + 1
        · exact .idles trivial ⟨rfl, rfl, rfl, rfl⟩ hfrom (by simp only [if_pos hreset, Phase.Idle])
        · exact .begins ⟨rfl, rfl, rfl, rfl⟩ hphase (if_neg hreset)
    · cases h
  | collected result =>
    simp only [step] at h
    split at h
    · next begun hostOk secOk hphase =>
      have hfrom : s.phase.inFlight = [] := by rw [hphase]; rfl
      obtain rfl := Option.some.inj h
      cases result with
      | returns => exact .copies hphase
      | raises => exact .idles trivial ⟨rfl, rfl, rfl, rfl⟩ hfrom trivial
      | connectionError => exact .idles trivial ⟨rfl, rfl, rfl, rfl⟩ hfrom trivial
    · cases h
  | cleared =>
    simp only [step] at h
    split at h
    · next hphase =>
      obtain rfl := Option.some.inj h
      exact .clears hphase
    · cases h
  | written now calls =>
    simp only [step] at h
    split at h
    · next hphase =>
      obtain rfl := Option.some.inj h
      exact .writes hphase
    · cases h
  | healthPushed result =>
    simp only [step] at h
    split at h
    · next begun hphase =>
      have hfrom : s.phase.inFlight = [] := by rw [hphase]; rfl
      cases result with
      | returns =>
        obtain rfl := Option.some.inj h
        exact .completes hphase
      | raises =>
        obtain rfl := Option.some.inj h
        exact .idles trivial ⟨rfl, rfl, rfl, rfl⟩ hfrom trivial
      | connectionError =>
        obtain rfl := Option.some.inj h
        exact .idles trivial ⟨rfl, rfl, rfl, rfl⟩ hfrom trivial
    · cases h
  | stops =>
    have hidle : ∀ p : Phase ρ, s.phase = p → p.inFlight = [] →
        Step s .stops { s with phase := .outside } :=
      fun p hp hfrom => .idles trivial ⟨rfl, rfl, rfl, rfl⟩ (hp ▸ hfrom) trivial
    simp only [step] at h
    split at h
    · next hphase =>
      obtain rfl := Option.some.inj h
      exact hidle _ hphase rfl
    · next hphase =>
      obtain rfl := Option.some.inj h
      exact hidle _ hphase rfl
    · next hphase =>
      obtain rfl := Option.some.inj h
      exact hidle _ hphase rfl
    · cases h

end Agents

section Places

variable {ρ : Type} {s s' : Agent ρ} {e : Event ρ} {r : FillRow ρ}

/-- The rows of the snapshots in the stream. -/
def Agent.added (s : Agent ρ) : List (FillRow ρ) :=
  s.redis.stream.flatMap fun snap => snap.payload.lastExecutionRows

/-- The rows that are in the stream, on their way to the writer, or in the buffer. -/
def Agent.kept (s : Agent ρ) : List (FillRow ρ) := s.added ++ s.phase.inFlight ++ s.fillRows

theorem SameRows.added (h : SameRows s s') : s'.added = s.added := by
  rw [Agent.added, Agent.added, h.redis]

theorem SameRows.kept (h : SameRows s s') (hflight : s'.phase.inFlight = s.phase.inFlight) :
    s'.kept = s.kept := by
  rw [Agent.kept, Agent.kept, h.added, h.fillRows, hflight]

theorem Phase.Idle.inFlight {p : Phase ρ} (h : p.Idle) : p.inFlight = [] := by
  cases p with
  | outside | connecting | looping => rfl
  | reading | copied | cleared | written => exact h.elim

theorem added_writes (begun : ℕ) (hostOk secOk : Bool) (fills : List (FillRow ρ)) (now : ℚ)
    (calls : WriteCalls) (version : ℕ) :
    ({ s with
      phase := .written begun
      version
      redis := s.redis.writeSnapshot version ⟨fills, hostOk, secOk⟩ true now calls } :
        Agent ρ).added = if calls.adds then s.added ++ fills else s.added := by
  unfold Agent.added
  rw [writeSnapshot_stream]
  split
  · simp
  · rfl

/-- Rows are appended in order, and are only moved on or dropped. -/
structure Sound (s : Agent ρ) : Prop where
  seqs : s.appended.map FillRow.seq = List.range s.appended.length
  kept : s.kept.Sublist s.appended
  copied : ∀ begun hostOk secOk fills, s.phase = .copied begun hostOk secOk fills →
    fills <+: s.fillRows

theorem Sound.nodup (h : Sound s) : s.appended.Nodup := by
  apply List.Nodup.of_map FillRow.seq
  rw [h.seqs]
  exact List.nodup_range

theorem sound_initial : Sound (initialAgent : Agent ρ) where
  seqs := rfl
  kept := List.Sublist.refl _
  copied _ _ _ _ h := by cases h

theorem sound_step (h : Sound s) (hs : Step s e s') : Sound s' := by
  cases hs with
  | sessionStarts hphase =>
    refine ⟨h.seqs, ?_, fun _ _ _ _ hc => by cases hc⟩
    refine List.Sublist.trans ?_ h.kept
    have hflight : s.phase.inFlight = [] := by rw [hphase]; rfl
    simp only [Agent.kept, hflight]
    exact List.Sublist.append_left (List.nil_sublist _) _
  | @appends row =>
    refine ⟨?_, ?_, fun begun hostOk secOk fills hc => ?_⟩
    · rw [List.map_append, h.seqs, List.length_append, List.range_add]
      simp
    · have hkept := h.kept
      rw [show s.kept = s.added ++ s.phase.inFlight ++ s.fillRows from rfl] at hkept
      have happ := List.Sublist.append hkept (List.Sublist.refl [FillRow.mk s.appended.length row])
      rw [List.append_assoc] at happ
      exact happ
    · exact (h.copied begun hostOk secOk fills hc).trans (List.prefix_append _ _)
  | unmoved _ hsame hphase =>
    refine ⟨?_, ?_, fun begun hostOk secOk fills hc => ?_⟩
    · rw [hsame.appended, h.seqs]
    · rw [hsame.kept (by rw [hphase]), hsame.appended]
      exact h.kept
    · rw [hsame.fillRows]
      exact h.copied begun hostOk secOk fills (hphase ▸ hc)
  | idles _ hsame hfrom hidle =>
    refine ⟨?_, ?_, fun begun hostOk secOk fills hc => ?_⟩
    · rw [hsame.appended, h.seqs]
    · rw [hsame.kept (by rw [hfrom, hidle.inFlight]), hsame.appended]
      exact h.kept
    · rw [hc] at hidle
      exact hidle.elim
  | begins hsame hfrom hphase =>
    refine ⟨?_, ?_, fun begun hostOk secOk fills hc => ?_⟩
    · rw [hsame.appended, h.seqs]
    · rw [hsame.kept (by rw [hfrom, hphase]; rfl), hsame.appended]
      exact h.kept
    · rw [hphase] at hc
      cases hc
  | copies hphase =>
    refine ⟨h.seqs, ?_, fun begun hostOk secOk fills hc => ?_⟩
    · have hflight : s.phase.inFlight = [] := by rw [hphase]; rfl
      have hkept := h.kept
      rw [Agent.kept, hflight] at hkept
      exact hkept
    · cases hc
      exact List.prefix_rfl
  | @clears begun hostOk secOk fills hphase =>
    refine ⟨h.seqs, ?_, fun _ _ _ _ hc => by cases hc⟩
    refine List.Sublist.trans ?_ h.kept
    have hflight : s.phase.inFlight = [] := by rw [hphase]; rfl
    have hpre := (h.copied begun hostOk secOk fills hphase).sublist
    simp only [Agent.kept, hflight, List.append_nil]
    exact List.Sublist.append_left hpre _
  | @writes begun hostOk secOk fills now calls hphase =>
    refine ⟨h.seqs, ?_, fun _ _ _ _ hc => by cases hc⟩
    refine List.Sublist.trans ?_ h.kept
    have hflight : s.phase.inFlight = fills := by rw [hphase]; rfl
    rw [Agent.kept, Agent.kept, hflight, added_writes]
    refine List.Sublist.append_right ?_ _
    split
    · simp only [Phase.inFlight, List.append_nil, List.Sublist.refl]
    · exact List.Sublist.append_left (List.nil_sublist _) _
  | completes hphase =>
    refine ⟨h.seqs, ?_, fun _ _ _ _ hc => by cases hc⟩
    have hkept := h.kept
    rw [Agent.kept, hphase] at hkept
    exact hkept

/-- The bound on what an iteration still has to bring into the stream. -/
def Phase.Bound (added appended : ℕ) : Phase ρ → Prop
  | .reading begun _ _ => begun ≤ appended
  | .copied begun _ _ fills | .cleared begun _ _ fills => begun ≤ added + fills.length
  | .written begun => begun ≤ added
  | _ => True

/-- The steps that move rows on without dropping any: the buffer is empty when a session
starts, no row came in between the copy and the emptying of the buffer, and a snapshot with
rows is added. -/
def Keeps (s : Agent ρ) : Event ρ → Prop
  | .sessionStarts => s.fillRows = []
  | .cleared =>
    match s.phase with
    | .copied _ _ _ fills => s.fillRows = fills
    | _ => True
  | .written _ calls =>
    match s.phase with
    | .cleared _ _ _ fills => fills = [] ∨ calls.adds = true
    | _ => True
  | _ => True

theorem keeps_of_quiet (h : e.Quiet) : Keeps s e := by
  cases e with
  | sessionStarts | cleared | written => exact h.elim
  | connected | secFill | disconnected | iterationBegins | collected | healthPushed | stops =>
    trivial

/-- Nothing was dropped. -/
structure Invariant (s : Agent ρ) : Prop where
  sound : Sound s
  all : s.kept = s.appended
  completed : s.completed ≤ s.added.length
  bound : s.phase.Bound s.added.length s.appended.length

theorem invariant_initial : Invariant (initialAgent : Agent ρ) :=
  ⟨sound_initial, rfl, le_rfl, trivial⟩

theorem Phase.Idle.bound {p : Phase ρ} (h : p.Idle) (m n : ℕ) : p.Bound m n := by
  cases p with
  | outside | connecting | looping => trivial
  | reading | copied | cleared | written => exact h.elim

theorem Phase.Bound.mono {p : Phase ρ} {m n k : ℕ} (h : p.Bound m n) (hk : n ≤ k) :
    p.Bound m k := by
  cases p with
  | reading => exact le_trans h hk
  | outside | connecting | looping => trivial
  | copied | cleared | written => exact h

theorem invariant_step (h : Invariant s) (hkeeps : Keeps s e) (hs : Step s e s') :
    Invariant s' := by
  have hsound := sound_step h.sound hs
  have hall := h.all
  have hbound := h.bound
  cases hs with
  | sessionStarts hphase =>
    refine ⟨hsound, ?_, h.completed, trivial⟩
    have hempty : s.fillRows = [] := hkeeps
    rw [Agent.kept, hphase, hempty] at hall
    exact hall
  | @appends row =>
    refine ⟨hsound, ?_, h.completed, hbound.mono (by simp)⟩
    rw [Agent.kept] at hall
    simp only [Agent.kept, ← List.append_assoc]
    exact congrArg (· ++ [FillRow.mk s.appended.length row]) hall
  | unmoved _ hsame hphase =>
    refine ⟨hsound, ?_, ?_, ?_⟩
    · rw [hsame.kept (by rw [hphase]), hsame.appended]
      exact hall
    · rw [hsame.completed, hsame.added]
      exact h.completed
    · rw [hphase, hsame.added, hsame.appended]
      exact hbound
  | idles _ hsame hfrom hidle =>
    refine ⟨hsound, ?_, ?_, hidle.bound _ _⟩
    · rw [hsame.kept (by rw [hfrom, hidle.inFlight]), hsame.appended]
      exact hall
    · rw [hsame.completed, hsame.added]
      exact h.completed
  | begins hsame hfrom hphase =>
    refine ⟨hsound, ?_, ?_, ?_⟩
    · rw [hsame.kept (by rw [hfrom, hphase]; rfl), hsame.appended]
      exact hall
    · rw [hsame.completed, hsame.added]
      exact h.completed
    · rw [hphase, hsame.appended]
      exact le_rfl
  | copies hphase =>
    rw [Agent.kept, hphase] at hall
    rw [hphase] at hbound
    refine ⟨hsound, hall, h.completed, ?_⟩
    have hlen := congrArg List.length hall
    simp only [Phase.inFlight, List.append_nil, List.length_append] at hlen
    simp only [Phase.Bound] at hbound ⊢
    exact hbound.trans hlen.ge
  | @clears begun hostOk secOk fills hphase =>
    rw [hphase] at hbound
    have hsame : s.fillRows = fills := by simpa [Keeps, hphase] using hkeeps
    refine ⟨hsound, ?_, h.completed, hbound⟩
    rw [Agent.kept, hphase, hsame] at hall
    simpa [Agent.kept, Agent.added, Phase.inFlight] using hall
  | @writes begun hostOk secOk fills now calls hphase =>
    rw [hphase] at hbound
    rw [Agent.kept, hphase] at hall
    have hadded : (if calls.adds then s.added ++ fills else s.added) = s.added ++ fills := by
      have hcase : fills = [] ∨ calls.adds = true := by simpa [Keeps, hphase] using hkeeps
      rcases hcase with rfl | hadds
      · simp
      · rw [if_pos hadds]
    refine ⟨hsound, ?_, ?_, ?_⟩
    · rw [Agent.kept, added_writes, hadded]
      simpa [Phase.inFlight] using hall
    · rw [added_writes, hadded, List.length_append]
      exact h.completed.trans (Nat.le_add_right _ _)
    · rw [added_writes, hadded, List.length_append]
      exact hbound
  | completes hphase =>
    rw [hphase] at hbound
    rw [Agent.kept, hphase] at hall
    exact ⟨hsound, hall, hbound, trivial⟩

/-- A row that has left the buffer without reaching the stream or the writer. -/
def Lost (s : Agent ρ) (r : FillRow ρ) : Prop := r ∈ s.appended ∧ r ∉ s.kept

theorem lost_step (h : Sound s) (hlost : Lost s r) (hs : Step s e s') : Lost s' r := by
  obtain ⟨hmem, hnot⟩ := hlost
  simp only [Agent.kept, List.mem_append, not_or, and_assoc] at hnot
  obtain ⟨hadded, hflight, hfills⟩ := hnot
  cases hs with
  | sessionStarts hphase =>
    refine ⟨hmem, ?_⟩
    simp only [Agent.kept, Phase.inFlight, List.append_nil]
    exact hadded
  | @appends row =>
    refine ⟨List.mem_append_left _ hmem, ?_⟩
    have hne : r ≠ ⟨s.appended.length, row⟩ := by
      rintro rfl
      have hseq : s.appended.length ∈ s.appended.map FillRow.seq :=
        List.mem_map.mpr ⟨_, hmem, rfl⟩
      rw [h.seqs] at hseq
      exact absurd (List.mem_range.mp hseq) (Nat.lt_irrefl _)
    simp only [Agent.kept, List.mem_append, List.mem_singleton, not_or]
    exact ⟨⟨hadded, hflight⟩, hfills, hne⟩
  | unmoved _ hsame hphase =>
    rw [Lost, hsame.appended, hsame.kept (by rw [hphase])]
    exact ⟨hmem, by simp [Agent.kept, hadded, hflight, hfills]⟩
  | idles _ hsame hfrom hidle =>
    rw [Lost, hsame.appended, hsame.kept (by rw [hfrom, hidle.inFlight])]
    exact ⟨hmem, by simp [Agent.kept, hadded, hflight, hfills]⟩
  | begins hsame hfrom hphase =>
    rw [Lost, hsame.appended, hsame.kept (by rw [hfrom, hphase]; rfl)]
    exact ⟨hmem, by simp [Agent.kept, hadded, hflight, hfills]⟩
  | copies hphase =>
    refine ⟨hmem, ?_⟩
    simp only [Agent.kept, Phase.inFlight, List.append_nil, List.mem_append, not_or]
    exact ⟨hadded, hfills⟩
  | @clears begun hostOk secOk fills hphase =>
    refine ⟨hmem, ?_⟩
    have hpre := (h.copied begun hostOk secOk fills hphase).subset
    simp only [Agent.kept, Phase.inFlight, List.append_nil, List.mem_append, not_or]
    exact ⟨hadded, fun hr => hfills (hpre hr)⟩
  | @writes begun hostOk secOk fills now calls hphase =>
    refine ⟨hmem, ?_⟩
    rw [hphase] at hflight
    rw [Agent.kept, added_writes]
    simp only [Phase.inFlight, List.append_nil, List.mem_append, not_or]
    refine ⟨?_, hfills⟩
    split
    · exact fun hr => (List.mem_append.mp hr).elim hadded hflight
    · exact hadded
  | completes hphase =>
    refine ⟨hmem, ?_⟩
    simp only [Agent.kept, Phase.inFlight, List.append_nil, List.mem_append, not_or]
    exact ⟨hadded, hfills⟩

theorem lost_of_not_keeps (h : Invariant s) (hs : Step s e s') (hnot : ¬ Keeps s e) :
    ∃ r, Lost s' r := by
  have hnodup := h.sound.nodup
  rw [← h.all, Agent.kept] at hnodup
  have hmem : ∀ r, r ∈ s.kept → r ∈ s.appended := fun r hr => h.all ▸ hr
  cases hs with
  | sessionStarts hphase =>
    obtain ⟨r, hr⟩ := List.exists_mem_of_ne_nil _ hnot
    have hout := (List.nodup_append.mp hnodup).2.2
    refine ⟨r, hmem r (List.mem_append_right _ hr), ?_⟩
    intro hkept
    simp only [Agent.kept, Phase.inFlight, List.append_nil] at hkept
    exact hout r (List.mem_append_left _ hkept) r hr rfl
  | appends | copies | completes => exact absurd trivial hnot
  | unmoved hquiet | idles hquiet => exact absurd (keeps_of_quiet hquiet) hnot
  | begins => exact absurd trivial hnot
  | @clears begun hostOk secOk fills hphase =>
    obtain ⟨late, hlate⟩ := h.sound.copied begun hostOk secOk fills hphase
    have hne : late ≠ [] := by
      rintro rfl
      apply hnot
      rw [List.append_nil] at hlate
      simp [Keeps, hphase, hlate]
    obtain ⟨r, hr⟩ := List.exists_mem_of_ne_nil _ hne
    rw [hphase, ← hlate] at hnodup
    obtain ⟨-, hbuffer, hout⟩ := List.nodup_append.mp hnodup
    refine ⟨r, hmem r (List.mem_append_right _ (hlate ▸ List.mem_append_right _ hr)), ?_⟩
    intro hkept
    simp only [Agent.kept, Phase.inFlight, List.append_nil, List.mem_append] at hkept
    rcases hkept with hkept | hkept
    · exact hout r (List.mem_append_left _ hkept) r (List.mem_append_right _ hr) rfl
    · exact (List.nodup_append.mp hbuffer).2.2 r hkept r hr rfl
  | @writes begun hostOk secOk fills now calls hphase =>
    have hcase : ¬ (fills = [] ∨ calls.adds = true) := by simpa [Keeps, hphase] using hnot
    obtain ⟨hne, hadds⟩ := not_or.mp hcase
    obtain ⟨r, hr⟩ := List.exists_mem_of_ne_nil _ hne
    rw [hphase] at hnodup
    obtain ⟨hfirst, -, hout⟩ := List.nodup_append.mp hnodup
    have hflight : r ∈ s.phase.inFlight := by rw [hphase]; exact hr
    refine ⟨r, hmem r (List.mem_append_left _ (List.mem_append_right _ hflight)), ?_⟩
    rw [Agent.kept, added_writes, if_neg hadds]
    simp only [Phase.inFlight, List.append_nil, List.mem_append, not_or]
    exact ⟨fun hr' => (List.nodup_append.mp hfirst).2.2 r hr' r hr rfl,
      fun hr' => hout r (List.mem_append_right _ hr) r hr' rfl⟩

theorem keeps_iff (h : Invariant s) (hs : Step s e s') :
    Keeps s e ↔ ∀ r ∈ s'.appended, r ∈ s'.kept := by
  constructor
  · intro hkeeps r hr
    rw [(invariant_step h hkeeps hs).all]
    exact hr
  · intro hall
    by_contra hnot
    obtain ⟨r, hr, hlost⟩ := lost_of_not_keeps h hs hnot
    exact hlost (hall r hr)

theorem sound_run {es : List (Event ρ)} {t : Agent ρ} (h : Sound s)
    (hr : Run (ofStep step) s es t) : Sound t :=
  hr.preserves (P := Sound) (fun _ _ _ hinv hs => sound_step hinv (step_cases hs)) h

end Places

section Runs

variable {ρ : Type} [DecidableEq ρ] {s t : Agent ρ} {es : List (Event ρ)}

/-- The snapshots in the stream that contain a row. -/
def snapshotsWith (s : Agent ρ) (r : FillRow ρ) : List (Snapshot ρ) :=
  s.redis.stream.filter fun snap => decide (r ∈ snap.payload.lastExecutionRows)

/-- Where no row occurs twice, one occurrence is in one batch. -/
theorem length_filter_mem {α β : Type} [DecidableEq β] {f : α → List β} {as : List α} {b : β}
    (hnodup : (as.flatMap f).Nodup) (hb : b ∈ as.flatMap f) :
    (as.filter fun a => decide (b ∈ f a)).length = 1 := by
  induction as with
  | nil => cases hb
  | cons a as ih =>
    rw [List.flatMap_cons] at hnodup hb
    obtain ⟨-, hrest, hout⟩ := List.nodup_append.mp hnodup
    by_cases ha : b ∈ f a
    · have hnone : (as.filter fun a => decide (b ∈ f a)) = [] := by
        apply List.filter_eq_nil_iff.mpr
        intro a' ha' hb'
        have hmem : b ∈ as.flatMap f := List.mem_flatMap.mpr ⟨a', ha', of_decide_eq_true hb'⟩
        exact hout b ha b hmem rfl
      rw [List.filter_cons_of_pos (by simpa using ha), hnone]
      rfl
    · have hmem : b ∈ as.flatMap f := (List.mem_append.mp hb).resolve_left ha
      rw [List.filter_cons_of_neg (by simpa using ha)]
      exact ih hrest hmem

/-- Every row that was there when the last completed iteration began is in one snapshot. -/
def Delivered (s : Agent ρ) : Prop :=
  ∀ r ∈ s.appended.take s.completed, (snapshotsWith s r).length = 1

/-- A lost row never comes into the stream, whatever happens later. -/
theorem lost_run (h : Sound s) {r : FillRow ρ} (hlost : Lost s r)
    (hr : Run (ofStep step) s es t) : Lost t r ∧ snapshotsWith t r = [] := by
  have hlast : Sound t ∧ Lost t r := by
    refine hr.preserves (P := fun s => Sound s ∧ Lost s r) ?_ ⟨h, hlost⟩
    intro u e v hu hs
    exact ⟨sound_step hu.1 (step_cases hs), lost_step hu.1 hu.2 (step_cases hs)⟩
  refine ⟨hlast.2, List.filter_eq_nil_iff.mpr fun snap hsnap hmem => ?_⟩
  apply hlast.2.2
  refine List.mem_append_left _ (List.mem_append_left _ ?_)
  exact List.mem_flatMap.mpr ⟨snap, hsnap, of_decide_eq_true hmem⟩

/-- In every run a row is added at most once. -/
theorem added_at_most_once (hr : Run (ofStep step) initialAgent es s) (r : FillRow ρ) :
    (snapshotsWith s r).length ≤ 1 := by
  have hsound := sound_run sound_initial hr
  have hnodup : s.added.Nodup := by
    have hkept := hsound.kept.nodup hsound.nodup
    exact (List.nodup_append.mp (List.nodup_append.mp hkept).1).1
  by_cases hmem : r ∈ s.added
  · exact (length_filter_mem hnodup hmem).le
  · have hnone : snapshotsWith s r = [] := by
      apply List.filter_eq_nil_iff.mpr
      intro snap hsnap hin
      exact hmem (List.mem_flatMap.mpr ⟨snap, hsnap, of_decide_eq_true hin⟩)
    rw [hnone]
    exact Nat.zero_le 1

/-- A run that keeps its rows at every step delivers those of completed iterations, and from
there a step keeps all rows only if it is one of these. -/
theorem fills_delivered (hr : Run (guarded Keeps (ofStep step)) initialAgent es s) :
    Delivered s ∧ ∀ e t, step s e = some t → (Keeps s e ↔ ∀ r ∈ t.appended, r ∈ t.kept) := by
  have hinv : Invariant s := hr.preserves (P := Invariant)
    (fun _ _ _ h hs => invariant_step h hs.1 (step_cases hs.2)) invariant_initial
  refine ⟨fun r hr => ?_, fun e t hs => keeps_iff hinv (step_cases hs)⟩
  have hnodup := hinv.sound.nodup
  rw [← hinv.all, Agent.kept, List.append_assoc] at hnodup hr
  rw [List.take_append_of_le_length hinv.completed] at hr
  exact length_filter_mem (List.nodup_append.mp hnodup).1 (List.mem_of_mem_take hr)

end Runs

section Instances

variable {ρ : Type} [DecidableEq ρ]

instance (s : Agent ρ) (e : Event ρ) : Decidable (Keeps s e) :=
  match e with
  | .sessionStarts => inferInstanceAs (Decidable (s.fillRows = []))
  | .cleared =>
    match h : s.phase with
    | .copied _ _ _ fills => decidable_of_iff (s.fillRows = fills) (by simp [Keeps, h])
    | .outside | .connecting | .looping | .reading .. | .cleared .. | .written _ =>
      isTrue (by simp [Keeps, h])
  | .written _ calls =>
    match h : s.phase with
    | .cleared _ _ _ fills =>
      decidable_of_iff (fills = [] ∨ calls.adds = true) (by simp [Keeps, h])
    | .outside | .connecting | .looping | .reading .. | .copied .. | .written _ =>
      isTrue (by simp [Keeps, h])
  | .connected _ | .secFill _ | .disconnected | .iterationBegins _ _ | .collected _
  | .healthPushed _ | .stops => isTrue trivial

instance (s : Agent ρ) : Decidable (Delivered s) := List.decidableBAll _ _

/-- An iteration that goes through. -/
def wholeIteration : List (Event String) :=
  [.iterationBegins true true, .collected .returns, .cleared,
    .written 1 ⟨true, .none, .none, .none⟩, .healthPushed .returns]

/-- Two fills, and a reply to the second iteration's `xadd` that is lost. -/
theorem fills_delivered_two : ∃ s : Agent String,
    (Delivered s ∧ ∀ e t, step s e = some t → (Keeps s e ↔ ∀ r ∈ t.appended, r ∈ t.kept)) ∧
      s.completed = 2 := by
  obtain ⟨s, hr, hcompleted⟩ := Run.ofGuardedFold_satisfies step Keeps initialAgent
    ([.sessionStarts, .connected true, .secFill (some "first")] ++ wholeIteration ++
      [.secFill (some "second"), .iterationBegins true false, .collected .returns, .cleared,
        .written 3 ⟨true, .before, .none, .after⟩, .healthPushed .returns])
    (fun s : Agent String => s.completed = 2) (by decide +kernel)
  exact ⟨s, fills_delivered hr, hcompleted⟩

/-- A fill comes in while the session ends, and the next session empties the buffer. -/
theorem fill_lost_at_session_start : ¬ ∀ (es : List (Event String)) (s : Agent String),
    Run (ofStep step) initialAgent es s → Delivered s := by
  intro hall
  obtain ⟨s, hr, hlost⟩ := Run.ofFold_satisfies step initialAgent
    ([.sessionStarts, .connected true, .disconnected, .secFill (some "fill"),
      .iterationBegins true true, .sessionStarts, .connected true] ++ wholeIteration)
    (fun s : Agent String => ¬ Delivered s) (by decide +kernel)
  exact hlost (hall _ s hr)

end Instances

end BifrostSocket.AccountFills
