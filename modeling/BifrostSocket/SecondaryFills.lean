import BifrostSocket.IbClients
import Mathlib.Data.List.Nodup

/-!
# Which fills of the secondary connection are recorded

A session of the account agent registers `on_sec_fill` once, on the connector that the secondary
client has when the session begins. A service heartbeat may replace that connector later on, and
registers nothing on the new one; the handlers of earlier sessions stay on their connectors.
-/

namespace BifrostSocket.SecondaryFills
open TransitionRuns IbClients

section Model

/-- `on_sec_fill` of one session, on `execDetailsEvent` of one connector's `IB`. -/
structure Handler where
  session : ℕ
  ref : ℕ
  deriving DecidableEq

/-- Where `_run_session` is: outside, connecting, about to subscribe to a connector, or in the
loop. -/
inductive Phase where
  | outside
  | connecting
  | subscribing (ref : ℕ)
  | looping
  deriving DecidableEq

/-- The secondary client's world, the number of sessions so far, and the rows in `_fill_rows`
and those taken from there. -/
structure Agent (ρ : Type) where
  world : World
  session : ℕ
  phase : Phase
  handlers : List Handler
  rows : List ρ

inductive Event (ρ : Type) where
  | client (e : IbClients.Event)
  | cancels (closes : Bool) (now : ℚ)
  | withdraws (k : ℕ)
  | begins
  | settles (secOk : Bool)
  | subscribes (raises : Bool)
  | raises
  | ends (now : ℚ)
  | fill (ref : ℕ) (row : Option ρ)

variable {ρ : Type}

/-- A connector's handlers each append the row of a fill, if it has one. -/
def Agent.onFill (s : Agent ρ) (ref : ℕ) (row : Option ρ) : Agent ρ :=
  { s with rows := s.rows ++ (s.handlers.filter (·.ref = ref)).flatMap fun _ => row.toList }

/-- `sc = secondary.connector`, to be subscribed to where the snapshot found it connected. -/
def Agent.settled (s : Agent ρ) (secOk : Bool) : Agent ρ :=
  match s.world.client.connector, secOk with
  | some ref, true => { s with phase := .subscribing ref }
  | _, _ => { s with phase := .looping }

/-- `subscribe_fills` does nothing on a connector that is not connected; a subscription before it
may raise. -/
def Agent.subscribed (s : Agent ρ) (ref : ℕ) (raises : Bool) : Agent ρ :=
  { s with
    phase := .looping
    handlers :=
      if (s.world.heap ref).isConnected && !raises then s.handlers ++ [⟨s.session, ref⟩]
      else s.handlers }

/-- A timed out heartbeat, or the end of the probe loop, cancels an `ensure_connected`. -/
def cancelled (w : World) (a : Attempt) (closes : Bool) (now : ℚ) : World :=
  { if closes then w.closeSession a.ref now else w with holder := none }

/-- The client moves on its own thread at any time. Only a session in its loop disconnects it. -/
inductive Step (s : Agent ρ) : Event ρ → Agent ρ → Prop where
  | client {e w} (h : IbClients.step s.world e = some w) : Step s (.client e) { s with world := w }
  | cancels {closes now a} (h : s.world.holder = some a) :
      Step s (.cancels closes now) { s with world := cancelled s.world a closes now }
  | withdraws {k} : Step s (.withdraws k)
      { s with world := { s.world with waiting := s.world.waiting.eraseIdx k } }
  | begins (h : s.phase = .outside) :
      Step s .begins { s with phase := .connecting, session := s.session + 1 }
  | settles {secOk} (h : s.phase = .connecting) : Step s (.settles secOk) (s.settled secOk)
  | subscribes {ref raises} (h : s.phase = .subscribing ref) :
      Step s (.subscribes raises) (s.subscribed ref raises)
  | raises (h : s.phase = .connecting ∨ ∃ ref, s.phase = .subscribing ref) :
      Step s .raises { s with phase := .outside }
  | ends {now} (h : s.phase = .looping) (hlock : s.world.holder = none) :
      Step s (.ends now)
        { s with phase := .outside, world := s.world.disconnectLocked now }
  | fill {ref row} (h : (s.world.heap ref).ibConnected = true) :
      Step s (.fill ref row) (s.onFill ref row)

def Initial (port clientId : ℤ) (s : Agent ρ) : Prop :=
  s = ⟨initialWorld port clientId, 0, .outside, [], []⟩

end Model

section Connectors

variable {w w' w'' : World}

/-- The client keeps its connector, drops it, or has a connector that did not exist before. -/
structure Renewed (w w' : World) : Prop where
  fresh : w.fresh ≤ w'.fresh
  connector : ∀ r, w'.client.connector = some r →
    w.client.connector = some r ∨ (w.fresh ≤ r ∧ r < w'.fresh)

theorem Renewed.of_frame (h : Frame w w') : Renewed w w' := by
  refine ⟨h.fresh.ge, fun r hr => .inl ?_⟩
  rwa [h.connector] at hr

theorem renewed_ensureLocked (w : World) (m : Option ℤ) (now : ℚ) :
    Renewed w (w.ensureLocked m now) := by
  unfold World.ensureLocked
  split
  · exact .of_frame (.refl w)
  · refine ⟨Nat.le_succ _, fun r hr => .inr ?_⟩
    obtain rfl := Option.some.inj hr
    exact ⟨le_rfl, Nat.lt_succ_self _⟩

theorem renewed_disconnectLocked (w : World) (now : ℚ) : Renewed w (w.disconnectLocked now) := by
  obtain ⟨hnone, -, -⟩ := disconnectLocked_connector w now
  refine ⟨?_, fun r hr => ?_⟩
  · unfold World.disconnectLocked
    split
    · exact le_rfl
    · exact (frame_connectorDisconnect w _ now).fresh.ge
  · rw [hnone] at hr
    cases hr

theorem renewed_ensureEnds (w : World) (ref : ℕ) (ok : Bool) (now : ℚ) :
    Renewed w (w.ensureEnds ref ok now) := by
  cases ok with
  | true => exact ⟨le_rfl, fun r hr => .inl hr⟩
  | false => exact ⟨le_rfl, fun r hr => absurd hr nofun⟩

theorem Renewed.trans (h : Renewed w w') (h' : Renewed w' w'') : Renewed w w'' := by
  refine ⟨h.fresh.trans h'.fresh, fun r hr => ?_⟩
  rcases h'.connector r hr with hkept | ⟨hle, hlt⟩
  · rcases h.connector r hkept with hold | ⟨hle, hlt⟩
    · exact .inl hold
    · exact .inr ⟨hle, hlt.trans_le h'.fresh⟩
  · exact .inr ⟨h.fresh.trans hle, hlt⟩

theorem renewed_step {e : IbClients.Event} (h : IbClients.step w e = some w') : Renewed w w' := by
  have hsame : ∀ v : World, v.fresh = w.fresh → v.client.connector = w.client.connector →
      Renewed w v := fun v hf hc => ⟨hf.ge, fun r hr => .inl (hc ▸ hr)⟩
  have houtcome : ∀ a o now, Renewed w (w.attemptOutcome a o now) := fun a o now =>
    .of_frame (frame_attemptOutcome w a o now)
  cases step_cases h with
  | ensureConnected | methodConnected => exact .of_frame (.refl w)
  | ensureQueued | disconnectQueued | attemptOpens | methodReconnects | reconnectOpens =>
    exact hsame _ rfl rfl
  | @grantEnsure m rest now =>
    exact (hsame { w with waiting := rest } rfl rfl).trans (renewed_ensureLocked _ m now)
  | @grantDisconnect rest now =>
    exact (hsame { w with waiting := rest } rfl rfl).trans (renewed_disconnectLocked _ now)
  | @attemptAgain a o now =>
    obtain ⟨hfresh, hconnector⟩ := houtcome a o now
    exact ⟨hfresh, hconnector⟩
  | @attemptEnded a o now ok => exact (houtcome a o now).trans (renewed_ensureEnds _ a.ref ok now)
  | @reconnectAgain k a o now =>
    obtain ⟨hfresh, hconnector⟩ := houtcome a o now
    exact ⟨hfresh, hconnector⟩
  | @reconnectEnded k a o now =>
    obtain ⟨hfresh, hconnector⟩ := houtcome a o now
    exact ⟨hfresh, hconnector⟩
  | @drop ref now => exact .of_frame (frame_closeSession w ref now)
  | @markDropped ref now =>
    exact .of_frame ((frame_closeSession w ref now).trans (frame_set _ ref _))
  | @connectedSnapshot now => exact .of_frame (frame_snapshot w now)

theorem renewed_cancelled (w : World) (a : Attempt) (closes : Bool) (now : ℚ) :
    Renewed w (cancelled w a closes now) := by
  cases closes with
  | true =>
    obtain ⟨hfresh, hconnector⟩ := Renewed.of_frame (frame_closeSession w a.ref now)
    exact ⟨hfresh, hconnector⟩
  | false => exact ⟨le_rfl, fun r hr => .inl hr⟩

end Connectors

section Sessions

variable {ρ : Type} {s s' : Agent ρ} {w : World} {port clientId : ℤ}

/-- Before a session is in its loop, and for every earlier session's handler, the client's
connector is one that nobody has subscribed to. -/
structure Invariant (s : Agent ρ) : Prop where
  known : ∀ r, s.world.client.connector = some r → r < s.world.fresh
  refs : ∀ h ∈ s.handlers, h.ref < s.world.fresh
  nodup : (s.handlers.map Handler.ref).Nodup
  retired : s.phase ≠ .looping → ∀ h ∈ s.handlers, s.world.client.connector ≠ some h.ref
  subscribing : ∀ r, s.phase = .subscribing r →
    r < s.world.fresh ∧ r ∉ s.handlers.map Handler.ref

theorem invariant_initial (h : Initial port clientId s) : Invariant s := by
  obtain rfl := h
  exact ⟨nofun, nofun, List.nodup_nil, nofun, nofun⟩

/-- The client moves on. -/
theorem Invariant.renewed (h : Invariant s) (hw : Renewed s.world w) :
    Invariant { s with world := w } := by
  refine ⟨fun r hr => ?_, fun g hg => (h.refs g hg).trans_le hw.fresh, h.nodup, ?_, fun r hr => ?_⟩
  · rcases hw.connector r hr with hkept | ⟨-, hlt⟩
    · exact (h.known r hkept).trans_le hw.fresh
    · exact hlt
  · intro hphase g hg hconnector
    rcases hw.connector g.ref hconnector with hkept | ⟨hle, -⟩
    · exact h.retired hphase g hg hkept
    · exact absurd (h.refs g hg) hle.not_gt
  · obtain ⟨hlt, hnot⟩ := h.subscribing r hr
    exact ⟨hlt.trans_le hw.fresh, hnot⟩

theorem Invariant.settled (h : Invariant s) (hphase : s.phase = .connecting) (secOk : Bool) :
    Invariant (s.settled secOk) := by
  have hloops : Invariant { s with phase := .looping } :=
    ⟨h.known, h.refs, h.nodup, fun hne => absurd rfl hne, nofun⟩
  have hretired := h.retired (by rw [hphase]; nofun)
  unfold Agent.settled
  cases hconnector : s.world.client.connector with
  | none => exact hloops
  | some ref =>
    cases secOk with
    | false => exact hloops
    | true =>
      refine ⟨h.known, h.refs, h.nodup, fun _ => hretired, fun r hr => ?_⟩
      obtain rfl : ref = r := Phase.subscribing.inj hr
      refine ⟨h.known ref hconnector, fun hmem => ?_⟩
      obtain ⟨g, hg, hgr⟩ := List.mem_map.mp hmem
      exact hretired g hg (hgr ▸ hconnector)

theorem Invariant.subscribed (h : Invariant s) {ref : ℕ} (hphase : s.phase = .subscribing ref)
    (raises : Bool) : Invariant (s.subscribed ref raises) := by
  obtain ⟨hlt, hnot⟩ := h.subscribing ref hphase
  refine ⟨h.known, ?_, ?_, fun hne => absurd rfl hne, nofun⟩
  · intro g hg
    unfold Agent.subscribed at hg
    dsimp only at hg
    split at hg
    · rcases List.mem_append.mp hg with hg | hg
      · exact h.refs g hg
      · obtain rfl := List.mem_singleton.mp hg
        exact hlt
    · exact h.refs g hg
  · unfold Agent.subscribed
    dsimp only
    split
    · rw [List.map_append]
      refine List.Nodup.append h.nodup (List.nodup_singleton _) ?_
      simpa using hnot
    · exact h.nodup

theorem invariant_step {e : Event ρ} (h : Invariant s) (hs : Step s e s') : Invariant s' := by
  cases hs with
  | client hw => exact h.renewed (renewed_step hw)
  | cancels => exact h.renewed (renewed_cancelled ..)
  | withdraws => exact h.renewed ⟨le_rfl, fun r hr => .inl hr⟩
  | begins hphase =>
    have hretired := h.retired (by rw [hphase]; nofun)
    exact ⟨h.known, h.refs, h.nodup, fun _ => hretired, nofun⟩
  | settles hphase => exact h.settled hphase _
  | subscribes hphase => exact h.subscribed hphase _
  | raises hphase =>
    have hretired := h.retired (by rcases hphase with hp | ⟨ref, hp⟩ <;> rw [hp] <;> nofun)
    exact ⟨h.known, h.refs, h.nodup, fun _ => hretired, nofun⟩
  | @ends now hphase hlock =>
    obtain ⟨hknown, hrefs, hnodup, -, -⟩ := h.renewed (renewed_disconnectLocked s.world now)
    refine ⟨hknown, hrefs, hnodup, fun _ g _ hconnector => ?_, nofun⟩
    have hnone := (disconnectLocked_connector s.world now).1
    rw [show (s.world.disconnectLocked now).client.connector = _ from hconnector] at hnone
    cases hnone
  | fill => exact ⟨h.known, h.refs, h.nodup, h.retired, h.subscribing⟩

/-- The session is in its loop or over, its handlers are those of before, and the client has a
connector that nobody has subscribed to. -/
structure Unsubscribed (hs : List Handler) (s : Agent ρ) : Prop where
  phase : s.phase = .looping ∨ s.phase = .outside
  handlers : s.handlers = hs
  connector : ∀ r, s.world.client.connector = some r → r ∉ hs.map Handler.ref

theorem Unsubscribed.renewed {hs : List Handler} (h : Unsubscribed hs s) (inv : Invariant s)
    (hw : Renewed s.world w) : Unsubscribed hs { s with world := w } := by
  refine ⟨h.phase, h.handlers, fun r hr => ?_⟩
  rcases hw.connector r hr with hkept | ⟨hle, -⟩
  · exact h.connector r hkept
  · intro hmem
    obtain ⟨g, hg, rfl⟩ := List.mem_map.mp hmem
    rw [← h.handlers] at hg
    exact absurd (inv.refs g hg) hle.not_gt

theorem invariant_reachable (h : Reachable (Initial port clientId) (@Step ρ) s) :
    Invariant s :=
  h.invariant (fun _ => invariant_initial) fun _ _ _ hI hs => invariant_step hI hs

end Sessions

/-- The session's own `ensure_connected`. -/
def connects : List IbClients.Event :=
  [.ensureCall none, .grant 0, .attemptOpens, .attemptEnds .success 0]

end BifrostSocket.SecondaryFills
