import BifrostSocket.OperatorHealth

/-!
# The operator's last health and its reconnect labels

An operator that returns has handed over its last health, and only a tick that the probe thread had
begun can follow it. A health that names a reconnect was made while that reconnect was under way.
-/

namespace BifrostSocket.OperatorHealth
open TransitionRuns SeenLists HeartbeatReconnects

section Labels

variable {st : Settings} {s s' : Operator} {e : Event} {l : String}

/-- The loop was left by an exception. -/
def Main.failed : Main → Bool
  | .halting failed | .joining failed | .disconnecting failed => failed
  | .raised => true
  | _ => false

/-- A reconnect with this label is under way, or an exception left it. -/
def UnderWay (s : Operator) (l : String) : Prop :=
  ∃ job, l = reconnectHint job ∧ (s.main = .reconnecting job ∨ s.main.failed = true)

structure HintOk (s : Operator) : Prop where
  hint : s.hint ≠ "" → UnderWay s s.hint
  main : ∀ w t, s.main = .ticking w t → t.label = none

theorem HintOk.hint_eq (h : HintOk s) (hm : ∀ job, s.main ≠ .reconnecting job)
    (hf : s.main.failed = false) : s.hint = "" := by
  by_contra hne
  obtain ⟨job, -, hjob | hfailed⟩ := h.hint hne
  · exact hm job hjob
  · rw [hf] at hfailed
    cases hfailed

/-- Without a hint, it is enough to look at the main thread's own write. -/
theorem HintOk.of_empty (hhint : s.hint = "") (hm : ∀ w t, s.main = .ticking w t → t.label = none) :
    HintOk s :=
  ⟨fun hne => absurd hhint hne, hm⟩

theorem hintOk_initial (h : Initial st s) : HintOk s := by
  obtain ⟨now, stop, rfl⟩ := h
  refine .of_empty rfl fun w t ht => ?_
  obtain ⟨-, rfl⟩ := Main.ticking.inj ht
  rfl

theorem HintOk.mainTick {w : MainWrite} {t : Tick} {te : TickEvent} {s₁ : Operator} {n : TickNext}
    (h : HintOk s) (hm : s.main = .ticking w t) (hr : s.tick st .main t te = some (s₁, n)) :
    HintOk { s₁ with main := w.next t n } := by
  have hhint : s.hint = "" := h.hint_eq (by simp [hm]) (by rw [hm]; rfl)
  have hlabel := h.main w t hm
  have hnext : s₁.hint = "" ∧ n.label = none := by
    rcases tick_cases hr with ⟨⟨m, rfl⟩, -, hl⟩ | ⟨h', outcome, us, -, rfl, rfl⟩ |
      ⟨u, us, -, -, hl, rfl⟩
    · refine ⟨hhint, Option.eq_none_iff_forall_ne_some.mpr fun l hn => ?_⟩
      rcases hl l hn with ht | ⟨hread, hne⟩
      · rw [hlabel] at ht
        cases ht
      · exact hne (hread ▸ hhint)
    · exact ⟨hhint, rfl⟩
    · exact ⟨hhint, hl⟩
  refine .of_empty hnext.1 fun w' t' ht' => ?_
  cases n with
  | goes t₁ =>
    obtain ⟨-, rfl⟩ := Main.ticking.inj ht'
    exact hnext.2
  | done => cases w <;> cases ht'
  | raised =>
    -- only recording is caught
    simp only [MainWrite.next] at ht'
    split at ht'
    · cases ht'
    · obtain ⟨-, rfl⟩ := Main.ticking.inj ht'
      rfl
    · cases ht'

theorem HintOk.moves (h : HintOk s) (hhint : s'.hint = s.hint)
    (hm : ∀ job, s.main ≠ .reconnecting job) (hf : s.main.failed = true → s'.main.failed = true)
    (hw : ∀ w t, s'.main = .ticking w t → t.label = none) : HintOk s' := by
  refine ⟨fun hne => ?_, hw⟩
  rw [hhint] at hne ⊢
  obtain ⟨job, hl, hjob | hfailed⟩ := h.hint hne
  · exact absurd hjob (hm job)
  · exact ⟨job, hl, .inr (hf hfailed)⟩

theorem HintOk.step (h : HintOk s) (hs : Step st s e s') : HintOk s' := by
  cases e with
  | requestStop =>
    obtain rfl := Option.some.inj hs
    exact ⟨h.hint, h.main⟩
  | mainTick te =>
    simp only [Step, ofStep, next] at hs
    split at hs
    · next w t hm =>
      obtain ⟨⟨s₁, n⟩, hr, rfl⟩ := Option.map_eq_some_iff.mp hs
      exact h.mainTick hm hr
    · cases hs
  | connected =>
    simp only [Step, ofStep, next] at hs
    split at hs
    · next hm =>
      obtain rfl := Option.some.inj hs
      refine h.moves rfl (by simp [hm]) (by simp [hm, Main.failed]) fun w t ht => ?_
      obtain ⟨-, rfl⟩ := Main.ticking.inj ht
      rfl
    · cases hs
  | startProbe =>
    simp only [Step, ofStep, next] at hs
    split at hs
    · next hm =>
      obtain rfl := Option.some.inj hs
      exact h.moves rfl (by simp [hm]) (by simp [hm, Main.failed]) (by simp)
    · cases hs
  | iterate now =>
    simp only [Step, ofStep, next] at hs
    split at hs
    · next hm =>
      obtain rfl := Option.some.inj hs
      unfold Operator.iterate
      split
      · exact h.moves rfl (by simp [hm]) (by simp [hm, Main.failed]) (by simp)
      · refine h.moves rfl (by simp [hm]) (by simp [hm, Main.failed]) fun w t ht => ?_
        dsimp only at ht
        split at ht <;> cases ht
    · cases hs
  | choose o =>
    simp only [Step, ofStep, next] at hs
    split at hs
    · obtain rfl := Option.some.inj hs
      unfold Operator.choose
      split
      · next job hjob => exact ⟨fun _ => ⟨job, rfl, .inl rfl⟩, by simp⟩
      · exact .of_empty rfl (by simp)
    · cases hs
  | reconnected =>
    simp only [Step, ofStep, next] at hs
    split at hs
    · obtain rfl := Option.some.inj hs
      refine .of_empty rfl fun w t ht => ?_
      obtain ⟨-, rfl⟩ := Main.ticking.inj ht
      rfl
    · cases hs
  | fail =>
    simp only [Step, ofStep, next] at hs
    have failing : HintOk { s with main := .halting true } := by
      refine ⟨fun hne => ?_, by simp⟩
      obtain ⟨job, hl, -⟩ := h.hint hne
      exact ⟨job, hl, .inr rfl⟩
    split at hs
    · exact Option.some.inj hs ▸ failing
    · exact Option.some.inj hs ▸ failing
    · exact Option.some.inj hs ▸ failing
    · cases hs
  | command now =>
    simp only [Step, ofStep, next] at hs
    split at hs
    · obtain rfl := Option.some.inj hs
      exact ⟨h.hint, h.main⟩
    · cases hs
  | iterationEnds =>
    simp only [Step, ofStep, next] at hs
    split at hs
    · next hm =>
      obtain rfl := Option.some.inj hs
      exact h.moves rfl (by simp [hm]) (by simp [hm, Main.failed]) (by simp)
    · cases hs
  | halt | joined =>
    simp only [Step, ofStep, next] at hs
    split at hs
    · next failed hm =>
      obtain rfl := Option.some.inj hs
      exact h.moves rfl (by simp [hm]) (by simp [hm, Main.failed]) (by simp)
    · cases hs
  | disconnected now later host secondary =>
    simp only [Step, ofStep, next] at hs
    split at hs
    · next failed hm =>
      obtain rfl := Option.some.inj hs
      cases failed with
      | true => exact h.moves rfl (by simp [hm]) (fun _ => rfl) (by simp [Operator.disconnected])
      | false =>
        exact h.moves rfl (by simp [hm]) (by simp [hm, Main.failed])
          (by simp [Operator.disconnected])
    · cases hs
  | serviceStopped raises =>
    simp only [Step, ofStep, next] at hs
    split at hs
    · next h' m ms hm =>
      split at hs
      · obtain rfl := Option.some.inj hs
        exact h.moves rfl (by simp [hm]) (fun _ => rfl) (by simp)
      · obtain rfl := Option.some.inj hs
        exact h.moves rfl (by simp [hm]) (by simp [hm, Main.failed]) (by simp)
    · cases hs
  | writeShutdown written =>
    simp only [Step, ofStep, next] at hs
    split at hs
    · next h' hm =>
      obtain rfl := Option.some.inj hs
      exact h.moves rfl (by simp [hm]) (by simp [hm, Main.failed]) (by simp)
    · cases hs
  | probeWakes | probeChecks | probeTick _ =>
    cases probe_cases rfl hs with
    | quiet m p => exact ⟨h.hint, h.main⟩
    | health h' outcome us => exact ⟨h.hint, h.main⟩
    | slot u p => exact ⟨h.hint, h.main⟩

end Labels

section Shutdown

variable {st : Settings} {s s' : Operator} {e : Event}

def Effect.stopped : Effect → Option (Slot × ℤ)
  | .serviceStopped m => some (m.slot, m.clientId)
  | _ => none

/-- The slots for which a service-stopped message was published. -/
def stoppedSlots (log : List Effect) : List (Slot × ℤ) := log.filterMap Effect.stopped

def NoShutdown (log : List Effect) : Prop := ∀ e ∈ log, e.isShutdown = false

/-- No slot is connected and the service is not alive. -/
structure Health.Down (h : Health) : Prop where
  serviceAlive : h.serviceAlive = false
  host : h.host.connected = false
  secondary : ∀ sec, h.secondary = some sec → sec.connected = false

theorem down_shutDown (h : HealthDict) (now : ℚ) : (h.shutDown now).Down := by
  refine ⟨rfl, rfl, fun sec hsec => ?_⟩
  obtain ⟨sec', -, rfl⟩ := Option.map_eq_some_iff.mp hsec
  rfl

theorem stopSlots_shutDown (h : HealthDict) (now : ℚ) :
    (h.shutDown now).stopSlots = h.stopSlots := by
  unfold HealthDict.stopSlots HealthDict.shutDown
  cases h.secondary <;> rfl

theorem slotClientId_eq_some {slot : Slot} {h : SlotHealth} {p : Slot × ℤ}
    (hp : slotClientId slot h = some p) : p.1 = slot ∧ 0 < p.2 := by
  unfold slotClientId at hp
  split at hp
  · next hpos =>
    obtain rfl := Option.some.inj hp
    exact ⟨rfl, hpos⟩
  · cases hp

theorem pos_of_mem_stopSlots {h : HealthDict} {p : Slot × ℤ} (hp : p ∈ h.stopSlots) : 0 < p.2 := by
  rcases List.mem_append.mp hp with hp | hp
  · exact (slotClientId_eq_some (Option.mem_toList.mp hp)).2
  · obtain ⟨sec, -, hsec⟩ := Option.bind_eq_some_iff.mp (Option.mem_toList.mp hp)
    exact (slotClientId_eq_some hsec).2

/-- The two slots are different, so that none is left out as seen before. -/
theorem nodup_stopSlots (h : HealthDict) : h.stopSlots.Nodup := by
  unfold HealthDict.stopSlots
  refine List.nodup_append.mpr ⟨?_, ?_, fun p hp q hq => ?_⟩
  · cases slotClientId .host h.host <;> simp
  · cases h.secondary.bind (slotClientId .secondary) <;> simp
  · obtain ⟨sec, -, hsec⟩ := Option.bind_eq_some_iff.mp (Option.mem_toList.mp hq)
    rintro rfl
    have hhost := (slotClientId_eq_some (Option.mem_toList.mp hp)).1
    rw [(slotClientId_eq_some hsec).1] at hhost
    cases hhost

theorem slots_serviceStoppedDisconnects (h : HealthDict) (ts later : ℚ) :
    (serviceStoppedDisconnects h.stopSlots ts later).map (fun m => (m.slot, m.clientId)) =
      h.stopSlots := by
  have hall : h.stopSlots.filter (fun p => decide (0 < p.2)) = h.stopSlots :=
    List.filter_eq_self.mpr fun p hp => by simpa using pos_of_mem_stopSlots hp
  have hfirst : firstSeen id [] h.stopSlots = h.stopSlots :=
    firstSeen_eq_self id (fun p _ => List.not_mem_nil) (by simpa using nodup_stopSlots h)
  rw [serviceStoppedDisconnects, hall, hfirst, List.map_map]
  exact List.map_id _

@[simp] theorem noShutdown_append {log log' : List Effect} :
    NoShutdown (log ++ log') ↔ NoShutdown log ∧ NoShutdown log' := by
  simp [NoShutdown, or_imp, forall_and]

@[simp] theorem noShutdown_singleton {e : Effect} : NoShutdown [e] ↔ e.isShutdown = false := by
  simp [NoShutdown]

@[simp] theorem stoppedSlots_append (log log' : List Effect) :
    stoppedSlots (log ++ log') = stoppedSlots log ++ stoppedSlots log' := List.filterMap_append

/-- What an operator that returned has handed to Redis: messages for the slots of its last health
`h` before it, and after it what the probe thread had begun. -/
structure ShutDown (s : Operator) (before : List Effect) (h : Health) (written : Bool)
    (after : List Effect) : Prop where
  log : s.log = before ++ .shutdown h written :: after
  only : NoShutdown before
  down : h.Down
  messages : stoppedSlots before = h.stopSlots
  late : ∀ e ∈ after, e.thread = .probe ∧ e.isShutdown = false
  once : after.countP Effect.isHealth + s.probe.unwritten.toNat ≤ 1

structure Finals (s : Operator) : Prop where
  stop : s.main.stopped = true → s.stop = true
  running : s.main.final = false → NoShutdown s.log ∧ stoppedSlots s.log = []
  stopping : ∀ h todo, s.main = .stopping h todo → NoShutdown s.log ∧ h.Down ∧
    stoppedSlots s.log ++ todo.map (fun m => (m.slot, m.clientId)) = h.stopSlots
  returned : s.main = .returned → ∃ before h written after, ShutDown s before h written after
  raised : s.main = .raised → NoShutdown s.log

theorem finals_initial (h : Initial st s) : Finals s := by
  obtain ⟨now, stop, rfl⟩ := h
  have hno : NoShutdown (initialOperator st now stop).log := by simp [initialOperator, NoShutdown]
  exact ⟨by simp [initialOperator, Main.stopped], fun _ => ⟨hno, rfl⟩, by simp [initialOperator],
    by simp [initialOperator], by simp [initialOperator]⟩

/-- The loop goes on, or is left by an exception, after plain effects. -/
theorem Finals.of_running {effects : List Effect} (h : Finals s) (hrunning : s.main.final = false)
    (hlog : s'.log = s.log ++ effects)
    (heffects : NoShutdown effects ∧ stoppedSlots effects = [])
    (hmain : s'.main.final = false ∨ s'.main = .raised)
    (hstop : s'.main.stopped = true → s'.stop = true) : Finals s' := by
  obtain ⟨hno, hnone⟩ := h.running hrunning
  have hno' : NoShutdown s'.log := by
    rw [hlog, noShutdown_append]
    exact ⟨hno, heffects.1⟩
  refine ⟨hstop, fun _ => ⟨hno', ?_⟩, fun h' todo hm => ?_, fun hm => ?_, fun _ => hno'⟩
  · rw [hlog, stoppedSlots_append, hnone, heffects.2]
    rfl
  · simp [hm, Main.final] at hmain
  · simp [hm, Main.final] at hmain

theorem next_plain (w : MainWrite) (t : Tick) (n : TickNext) :
    ((w.next t n).final = false ∨ w.next t n = .raised) ∧ (w.next t n).stopped = false := by
  cases n with
  | goes t' => exact ⟨.inl rfl, rfl⟩
  | done => cases w <;> exact ⟨.inl rfl, rfl⟩
  | raised =>
    simp only [MainWrite.next]
    split
    · exact ⟨.inl rfl, rfl⟩
    · exact ⟨.inl rfl, rfl⟩
    · exact ⟨.inr rfl, rfl⟩

theorem Finals.mainTick {w : MainWrite} {t : Tick} {te : TickEvent} {s₁ : Operator} {n : TickNext}
    (h : Finals s) (hm : s.main = .ticking w t) (hr : s.tick st .main t te = some (s₁, n)) :
    Finals { s₁ with main := w.next t n } := by
  obtain ⟨hmain, hstopped⟩ := next_plain w t n
  have plain : ∃ effects, s₁.log = s.log ++ effects ∧ NoShutdown effects ∧
      stoppedSlots effects = [] := by
    rcases tick_cases hr with ⟨⟨m, rfl⟩, -, -⟩ | ⟨h', outcome, us, -, -, rfl⟩ |
      ⟨u, us, -, -, -, rfl⟩
    · exact ⟨[], (List.append_nil _).symm, by simp [NoShutdown], rfl⟩
    · exact ⟨[.health .main h' outcome], rfl, by simp [Effect.isShutdown], rfl⟩
    · exact ⟨[.slot .main u], rfl, by simp [Effect.isShutdown], rfl⟩
  obtain ⟨effects, hlog, heffects⟩ := plain
  refine h.of_running (by rw [hm]; rfl) hlog heffects hmain fun hstop => ?_
  rw [hstopped] at hstop
  cases hstop

/-- The probe thread only appends, and once it was told to stop at most the health of its tick. -/
theorem ProbeStep.appends (hs : ProbeStep s s') :
    s'.main = s.main ∧ s'.stop = s.stop ∧ ∃ effects, s'.log = s.log ++ effects ∧
      (∀ e ∈ effects, e.thread = .probe ∧ e.isShutdown = false ∧ e.stopped = none) ∧
      (s.stop = true → effects.countP Effect.isHealth + s'.probe.unwritten.toNat ≤
        s.probe.unwritten.toNat) := by
  cases hs with
  | quiet m p hunwritten hlabel =>
    refine ⟨rfl, rfl, [], (List.append_nil _).symm, by simp, fun hstop => ?_⟩
    have hp : p.unwritten = true → s.probe.unwritten = true := by
      intro hp
      rcases hunwritten hp with hs | hs
      · exact hs
      · rw [hstop] at hs
        cases hs
    rw [List.countP_nil, Nat.zero_add]
    exact Bool.toNat_le_toNat hp
  | health h outcome us hwriting =>
    refine ⟨rfl, rfl, [.health .probe h outcome], rfl, ?_, fun _ => ?_⟩
    · simp [Effect.thread, Effect.isShutdown, Effect.stopped]
    · rw [hwriting]
      exact le_rfl
  | slot u p hunwritten hlabel =>
    refine ⟨rfl, rfl, [.slot .probe u], rfl, ?_, fun _ => ?_⟩
    · simp [Effect.thread, Effect.isShutdown, Effect.stopped]
    · dsimp only
      rw [hunwritten]
      exact Nat.zero_le _

theorem Finals.probeStep (h : Finals s) (hs : ProbeStep s s') : Finals s' := by
  obtain ⟨hmain, hstop, effects, hlog, heffects, hcount⟩ := hs.appends
  have hno : NoShutdown effects := fun e he => (heffects e he).2.1
  have hnone : stoppedSlots effects = [] :=
    List.filterMap_eq_nil_iff.mpr fun e he => (heffects e he).2.2
  refine ⟨fun hm => ?_, fun hm => ?_, fun h' todo hm => ?_, fun hm => ?_, fun hm => ?_⟩
  · rw [hstop]
    exact h.stop (hmain ▸ hm)
  · obtain ⟨hno', hnone'⟩ := h.running (hmain ▸ hm)
    rw [hlog, noShutdown_append, stoppedSlots_append, hnone', hnone]
    exact ⟨⟨hno', hno⟩, rfl⟩
  · obtain ⟨hno', hdown, hmessages⟩ := h.stopping h' todo (hmain ▸ hm)
    rw [hlog, noShutdown_append, stoppedSlots_append, hnone, List.append_nil]
    exact ⟨⟨hno', hno⟩, hdown, hmessages⟩
  · rw [hmain] at hm
    obtain ⟨before, h', written, after, hs⟩ := h.returned hm
    refine ⟨before, h', written, after ++ effects, ?_, hs.only, hs.down, hs.messages, ?_, ?_⟩
    · rw [hlog, hs.log, List.append_assoc, List.cons_append]
    · intro e he
      rcases List.mem_append.mp he with he | he
      · exact hs.late e he
      · exact ⟨(heffects e he).1, (heffects e he).2.1⟩
    · have hstopped := hcount (h.stop (by rw [hm]; rfl))
      have honce := hs.once
      rw [List.countP_append]
      omega
  · rw [hlog, noShutdown_append]
    exact ⟨h.raised (hmain ▸ hm), hno⟩

theorem Finals.step (h : Finals s) (hs : Step st s e s') : Finals s' := by
  cases e with
  | requestStop =>
    obtain rfl := Option.some.inj hs
    refine ⟨fun _ => rfl, h.running, h.stopping, fun hm => ?_, h.raised⟩
    obtain ⟨before, h', written, after, hs⟩ := h.returned hm
    exact ⟨before, h', written, after, hs.log, hs.only, hs.down, hs.messages, hs.late, hs.once⟩
  | mainTick te =>
    simp only [Step, ofStep, next] at hs
    split at hs
    · next w t hm =>
      obtain ⟨⟨s₁, n⟩, hr, rfl⟩ := Option.map_eq_some_iff.mp hs
      exact h.mainTick hm hr
    · cases hs
  | disconnected now later host secondary =>
    simp only [Step, ofStep, next] at hs
    split at hs
    · next failed hm =>
      obtain rfl := Option.some.inj hs
      obtain ⟨hno, hnone⟩ := h.running (by rw [hm]; rfl)
      cases failed with
      | true =>
        exact ⟨by simp [Operator.disconnected, Main.stopped],
          by simp [Operator.disconnected, Main.final], by simp [Operator.disconnected],
          by simp [Operator.disconnected], fun _ => hno⟩
      | false =>
        have hstop := h.stop (by rw [hm]; rfl)
        refine ⟨fun _ => hstop, by simp [Operator.disconnected, Main.final], fun h' todo hs => ?_,
          by simp [Operator.disconnected], by simp [Operator.disconnected]⟩
        obtain ⟨rfl, rfl⟩ := Main.stopping.inj hs
        refine ⟨hno, down_shutDown _ _, ?_⟩
        rw [slots_serviceStoppedDisconnects, stopSlots_shutDown]
        exact congrArg (· ++ _) hnone
    · cases hs
  | serviceStopped raises =>
    simp only [Step, ofStep, next] at hs
    split at hs
    · next h' m ms hm =>
      obtain ⟨hno, hdown, hmessages⟩ := h.stopping h' (m :: ms) hm
      split at hs
      · obtain rfl := Option.some.inj hs
        exact ⟨by simp [Main.stopped], by simp [Main.final], by simp, by simp, fun _ => hno⟩
      · obtain rfl := Option.some.inj hs
        have hstop := h.stop (by rw [hm]; rfl)
        refine ⟨fun _ => hstop, by simp [Main.final], fun h'' todo hs => ?_, by simp, by simp⟩
        obtain ⟨rfl, rfl⟩ := Main.stopping.inj hs
        refine ⟨?_, hdown, ?_⟩
        · exact noShutdown_append.mpr ⟨hno, noShutdown_singleton.mpr rfl⟩
        · rw [← hmessages, List.map_cons]
          exact (congrArg (· ++ _) (stoppedSlots_append _ _)).trans (List.append_assoc _ _ _)
    · cases hs
  | writeShutdown written =>
    simp only [Step, ofStep, next] at hs
    split at hs
    · next h' hm =>
      obtain rfl := Option.some.inj hs
      obtain ⟨hno, hdown, hmessages⟩ := h.stopping h' [] hm
      have hstop := h.stop (by rw [hm]; rfl)
      rw [List.map_nil, List.append_nil] at hmessages
      refine ⟨fun _ => hstop, by simp [Main.final], by simp, fun _ => ?_, by simp⟩
      refine ⟨s.log, h', written, [], rfl, hno, hdown, hmessages, by simp, ?_⟩
      rw [List.countP_nil, Nat.zero_add]
      exact Bool.toNat_le _
    · cases hs
  | probeWakes | probeChecks | probeTick _ => exact h.probeStep (probe_cases rfl hs)
  | _ =>
    obtain ⟨hlog, hrunning, hrunning', hkeeps, hstopped, -⟩ := control_step rfl hs
    have hnothing : s'.log = s.log ++ [] := by rw [hlog, List.append_nil]
    refine h.of_running hrunning hnothing ⟨by simp [NoShutdown], rfl⟩ (.inl hrunning') fun hm => ?_
    rcases hstopped hm with hm' | ⟨-, hstop⟩
    · exact hkeeps (h.stop hm')
    · exact hstop

/-- What is still to come of a tick that the probe thread has under way: its health, and then its
slots. -/
inductive TickRest : Tick → List Effect → Prop where
  | nil (t : Tick) : TickRest t []
  | health {t : Tick} {h : Health} {outcome : HashWrite} {us : List SlotUpdate} {l : List Effect}
      (hunwritten : t.unwritten = true) (hl : TickRest (.publishing us) l) :
      TickRest t (.health .probe h outcome :: l)
  | slot {u : SlotUpdate} {us : List SlotUpdate} {l : List Effect}
      (hl : TickRest (.publishing us) l) :
      TickRest (.publishing (u :: us)) (.slot .probe u :: l)

/-- What a probe thread that was told to stop still hands over. -/
def Probe.Rest : Probe → List Effect → Prop
  | .ticking t, l => TickRest t l
  | .unstarted, l | .waiting, l | .checking, l | .ended, l => l = []

theorem Probe.rest_nil (p : Probe) : p.Rest [] := by
  cases p with
  | ticking t => exact .nil t
  | _ => rfl

theorem tickRest_unwritten {t t' : Tick} {l : List Effect} (ht : t.unwritten = true)
    (ht' : t'.unwritten = true) (h : TickRest t' l) : TickRest t l := by
  cases h with
  | nil => exact .nil t
  | health _ hl => exact .health ht hl
  | slot => cases ht'

theorem tick_rest {t : Tick} {te : TickEvent} {n : TickNext}
    (h : s.tick st .probe t te = some (s', n)) :
    s'.stop = s.stop ∧ ∃ effects, s'.log = s.log ++ effects ∧
      (∀ e ∈ effects, e.thread = .probe) ∧
      ∀ l, (Probe.next n).Rest l → TickRest t (effects ++ l) := by
  unfold Operator.tick at h
  split at h
  · obtain ⟨rfl, rfl⟩ := Prod.mk.inj (Option.some.inj h)
    refine ⟨rfl, [], (List.append_nil _).symm, by simp, ?_⟩
    rintro l rfl
    exact .nil _
  case h_6 h' outcome later =>
    obtain ⟨rfl, rfl⟩ := Prod.mk.inj (Option.some.inj h)
    exact ⟨rfl, [.health .probe h' outcome], rfl, by simp [Effect.thread],
      fun l hl => .health rfl hl⟩
  case h_7 u us =>
    obtain ⟨rfl, rfl⟩ := Prod.mk.inj (Option.some.inj h)
    refine ⟨rfl, [.slot .probe u], rfl, by simp [Effect.thread], fun l hl => .slot ?_⟩
    split at hl
    · obtain rfl : l = [] := hl
      exact .nil _
    · exact hl
  case h_8 => cases h
  all_goals
    obtain ⟨rfl, rfl⟩ := Prod.mk.inj (Option.some.inj h)
    exact ⟨rfl, [], (List.append_nil _).symm, by simp, fun l hl => tickRest_unwritten rfl rfl hl⟩

/-- Once the stop event is set, a step of the probe thread goes on with its tick or ends it. -/
theorem probe_rest (he : e.isProbe = true) (hs : Step st s e s') (hstop : s.stop = true) :
    s'.stop = true ∧ ∃ effects, s'.log = s.log ++ effects ∧ (∀ e ∈ effects, e.thread = .probe) ∧
      ∀ l, s'.probe.Rest l → s.probe.Rest (effects ++ l) := by
  cases e with
  | probeWakes | probeChecks =>
    simp only [Step, ofStep, next, hstop, if_true] at hs
    split at hs
    · next hprobe =>
      obtain rfl := Option.some.inj hs
      refine ⟨rfl, [], (List.append_nil _).symm, by simp, fun l hl => ?_⟩
      rw [hprobe]
      exact hl
    · cases hs
  | probeTick te =>
    simp only [Step, ofStep, next] at hs
    split at hs
    · next t hprobe =>
      obtain ⟨⟨s₁, n⟩, hr, rfl⟩ := Option.map_eq_some_iff.mp hs
      obtain ⟨hstop', effects, hlog, hthread, hrest⟩ := tick_rest hr
      refine ⟨hstop'.trans hstop, effects, hlog, hthread, fun l hl => ?_⟩
      rw [hprobe]
      exact hrest l hl
    · cases hs
  | _ => cases he

end Shutdown

section Runs

variable {st : Settings} {s t : Operator} {e : Event} {es : List Event}

theorem hintOk (h : Reachable (Initial st) (Step st) s) : HintOk s :=
  h.invariant (fun _ hs => hintOk_initial hs) fun _ _ _ hok hs => hok.step hs

theorem finals (h : Reachable (Initial st) (Step st) s) : Finals s :=
  h.invariant (fun _ hs => finals_initial hs) fun _ _ _ hok hs => hok.step hs

theorem stop_stays (hs : Step st s e t) (hstop : s.stop = true) : t.stop = true := by
  cases e with
  | requestStop =>
    obtain rfl := Option.some.inj hs
    rfl
  | mainTick te =>
    simp only [Step, ofStep, next] at hs
    split at hs
    · obtain ⟨⟨s₁, n⟩, hr, rfl⟩ := Option.map_eq_some_iff.mp hs
      rcases tick_cases hr with ⟨⟨m, rfl⟩, -, -⟩ | ⟨h', outcome, us, -, -, rfl⟩ |
        ⟨u, us, -, -, -, rfl⟩
      · exact hstop
      · exact hstop
      · exact hstop
    · cases hs
  | probeWakes | probeChecks | probeTick _ => exact (probe_rest rfl hs hstop).1
  | disconnected now later host secondary =>
    simp only [Step, ofStep, next] at hs
    split at hs
    · obtain rfl := Option.some.inj hs
      unfold Operator.disconnected
      split
      · exact hstop
      · exact hstop
    · cases hs
  | serviceStopped raises =>
    simp only [Step, ofStep, next] at hs
    split at hs
    · split at hs
      · exact Option.some.inj hs ▸ hstop
      · exact Option.some.inj hs ▸ hstop
    · cases hs
  | writeShutdown written =>
    simp only [Step, ofStep, next] at hs
    split at hs
    · exact Option.some.inj hs ▸ hstop
    · cases hs
  | _ => exact (control_step rfl hs).2.2.2.1 hstop

/-- After the stop event was set, the probe thread hands over no more than the rest of the tick that
it had under way then. -/
theorem rest_run (hr : Run (Step st) s es t) (hstop : s.stop = true) :
    ∃ effects, t.log = s.log ++ effects ∧
      s.probe.Rest (effects.filter fun e => decide (e.thread = .probe)) := by
  induction hr with
  | nil s => exact ⟨[], (List.append_nil _).symm, s.probe.rest_nil⟩
  | @cons s u _ e _ head _ ih =>
    obtain ⟨later, hlater, hrest⟩ := ih (stop_stays head hstop)
    cases hprobe : e.isProbe with
    | true =>
      obtain ⟨-, effects, hlog, hthread, hback⟩ := probe_rest hprobe head hstop
      refine ⟨effects ++ later, by rw [hlater, hlog, List.append_assoc], ?_⟩
      have hall : effects.filter (fun e => decide (e.thread = .probe)) = effects :=
        List.filter_eq_self.mpr fun e he => decide_eq_true (hthread e he)
      rw [List.filter_append, hall]
      exact hback _ hrest
    | false =>
      obtain ⟨hsame, effects, hlog, -, hmain⟩ := main_appends hprobe head
      refine ⟨effects ++ later, by rw [hlater, hlog, List.append_assoc], ?_⟩
      have hnone : effects.filter (fun e => decide (e.thread = .probe)) = [] := by
        rw [List.filter_eq_nil_iff]
        intro e he
        simp [(hmain e he).1]
      rw [List.filter_append, hnone, List.nil_append]
      rcases hsame with heq | ⟨hunstarted, hwaiting⟩
      · exact heq ▸ hrest
      · rw [hwaiting] at hrest
        rw [hunstarted]
        exact hrest

theorem halt_step (hs : Step st s e t) (hrunning : s.main.stopped = false)
    (hstopped : t.main.stopped = true) :
    e = .halt ∧ t.stop = true ∧ t.main.final = false := by
  have before_stop : ∀ {p : Prop}, s.main.stopped = true → p := by
    intro p hs
    rw [hrunning] at hs
    cases hs
  cases e with
  | requestStop =>
    obtain rfl := Option.some.inj hs
    exact before_stop hstopped
  | mainTick te =>
    simp only [Step, ofStep, next] at hs
    split at hs
    · next w t' hm =>
      obtain ⟨⟨s₁, n⟩, hr, rfl⟩ := Option.map_eq_some_iff.mp hs
      rw [(next_plain w t' n).2] at hstopped
      cases hstopped
    · cases hs
  | probeWakes | probeChecks | probeTick _ =>
    obtain ⟨hmain, -⟩ := (probe_cases rfl hs).appends
    exact before_stop (hmain ▸ hstopped)
  | disconnected | serviceStopped | writeShutdown =>
    simp only [Step, ofStep, next] at hs
    split at hs
    · next hm => exact before_stop (by rw [hm]; rfl)
    · cases hs
  | _ =>
    obtain ⟨-, -, hfinal, -, hhalt, -⟩ := control_step rfl hs
    obtain ⟨heq, hstop⟩ := (hhalt hstopped).resolve_left before_stop
    exact ⟨heq, hstop, hfinal⟩

/-- A run into the `finally` sets the stop event on its way. -/
theorem halt_of_run (hr : Run (Step st) s es t) (hrunning : s.main.stopped = false)
    (hstopped : t.main.stopped = true) :
    ∃ es₁ es₂ u, es = es₁ ++ .halt :: es₂ ∧ Run (Step st) s (es₁ ++ [.halt]) u ∧
      Run (Step st) u es₂ t ∧ u.stop = true ∧ u.main.final = false := by
  induction hr with
  | nil =>
    rw [hrunning] at hstopped
    cases hstopped
  | @cons s u _ e es head tail ih =>
    cases hu : u.main.stopped with
    | true =>
      obtain ⟨rfl, hstop, hfinal⟩ := halt_step head hrunning hu
      exact ⟨[], es, u, rfl, .single head, tail, hstop, hfinal⟩
    | false =>
      obtain ⟨es₁, es₂, v, rfl, hfirst, hlast, hstop, hfinal⟩ := ih hu hstopped
      exact ⟨e :: es₁, es₂, v, rfl, .cons head hfirst, hlast, hstop, hfinal⟩

/-- What follows the shutdown is of the steps after the stop event was set. -/
theorem ShutDown.after_suffix {u : Operator} {before after effects : List Effect} {h : Health}
    {written : Bool} (hdown : ShutDown s before h written after)
    (hlog : s.log = u.log ++ effects) (hno : NoShutdown u.log) : after <:+ effects := by
  rcases List.append_eq_append_iff.mp (hlog.symm.trans hdown.log) with
    ⟨rest, -, rfl⟩ | ⟨rest, hrest, heq⟩
  · exact ⟨rest ++ [.shutdown h written], by simp⟩
  · cases rest with
    | nil =>
      rw [List.nil_append] at heq
      exact ⟨[.shutdown h written], by simpa using heq⟩
    | cons e rest =>
      obtain ⟨rfl, -⟩ := List.cons.inj heq
      have hshutdown := hno _ (hrest ▸ List.mem_append_right _ List.mem_cons_self)
      cases hshutdown

/-- So it is of the rest of the tick that the probe thread had under way then. -/
theorem ShutDown.after_rest {u : Operator} {before after : List Effect} {h : Health}
    {written : Bool} (hdown : ShutDown s before h written after) (hr : Run (Step st) u es s)
    (hstop : u.stop = true) (hno : NoShutdown u.log) :
    ∃ rest, u.probe.Rest rest ∧ after <:+ rest := by
  obtain ⟨effects, hlog, hrest⟩ := rest_run hr hstop
  have hall : after.filter (fun e => decide (e.thread = .probe)) = after :=
    List.filter_eq_self.mpr fun e he => decide_eq_true (hdown.late e he).1
  refine ⟨_, hrest, ?_⟩
  rw [← hall]
  exact (hdown.after_suffix hlog hno).filter _

/-- Only an operator that returns hands over a last health, after a message for each slot. What can
follow is the rest of the tick that the probe thread had under way when the `finally` set the stop
event, and nothing where that thread has ended when it is joined. -/
theorem stopped_operator {s₀ : Operator} (h₀ : Initial st s₀) (hr : Run (Step st) s₀ es s) :
    (s.main ≠ .returned → NoShutdown s.log) ∧
    (s.main = .returned → ∃ before h written after, ShutDown s before h written after ∧
      ∃ es₁ es₂ u rest, es = es₁ ++ .halt :: es₂ ∧ Run (Step st) s₀ (es₁ ++ [.halt]) u ∧
        u.probe.Rest rest ∧ after <:+ rest) ∧
    (s.main = .joining false → s.probe = .ended → ∀ es t, Run (Step st) s es t →
      t.main = .returned → ∃ before h written, ShutDown t before h written []) := by
  have h : Reachable (Initial st) (Step st) s := ⟨s₀, es, h₀, hr⟩
  have hfinals := finals h
  refine ⟨fun hm => ?_, fun hm => ?_, fun hm hended es t hr ht => ?_⟩
  · cases hmain : s.main with
    | returned => exact absurd hmain hm
    | raised => exact hfinals.raised hmain
    | stopping h todo => exact (hfinals.stopping h todo hmain).1
    | _ => exact (hfinals.running (by rw [hmain]; rfl)).1
  · obtain ⟨before, h', written, after, hdown⟩ := hfinals.returned hm
    have hrunning : s₀.main.stopped = false := by
      obtain ⟨now, stop, rfl⟩ := h₀
      rfl
    obtain ⟨es₁, es₂, u, hes, hfirst, hlast, hstop, hfinal⟩ :=
      halt_of_run hr hrunning (by rw [hm]; rfl)
    have hno := ((finals ⟨s₀, _, h₀, hfirst⟩).running hfinal).1
    obtain ⟨rest, hrest, hsuffix⟩ := hdown.after_rest hlast hstop hno
    exact ⟨before, h', written, after, hdown, es₁, es₂, u, rest, hes, hfirst, hrest, hsuffix⟩
  · obtain ⟨before, h', written, after, hdown⟩ := (finals (h.run hr)).returned ht
    have hstop := hfinals.stop (by rw [hm]; rfl)
    have hno := (hfinals.running (by rw [hm]; rfl)).1
    obtain ⟨rest, hrest, hsuffix⟩ := hdown.after_rest hr hstop hno
    rw [hended] at hrest
    obtain rfl : rest = [] := hrest
    obtain rfl := List.suffix_nil.mp hsuffix
    exact ⟨before, h', written, hdown⟩

def hostOnly : Settings := ⟨5, 30, false⟩

def hostView : ClientView := ⟨true, 100, none, 0⟩

/-- The steps of a tick that nothing disturbs. -/
def tickEvents : List TickEvent :=
  [.record 1 true false, .gather hostView hostView, .readHint 1, .readClock, .write .written 1,
    .publish]

/-- Up to the start of the probe thread. -/
def opening : List Event :=
  tickEvents.map .mainTick ++ [.connected] ++ tickEvents.map .mainTick ++ [.startProbe]

/-- The loop is told to stop in a tick of the probe thread, and does not wait for its end. -/
def stopInTick : List Event :=
  opening ++ [.probeWakes, .probeChecks, .requestStop, .iterate 2, .halt, .joined,
      .disconnected 3 3 hostView hostView, .serviceStopped false, .writeShutdown true] ++
    tickEvents.map .probeTick

/-- The health of that tick is in Redis after the last one of the loop. -/
theorem stopped_operator_late : ∃ s : Operator,
    (∃ before h written after, ShutDown s before h written after ∧
      ∃ es₁ es₂ u rest, stopInTick = es₁ ++ .halt :: es₂ ∧
        Run (Step hostOnly) (initialOperator hostOnly 1 false) (es₁ ++ [.halt]) u ∧
        u.probe.Rest rest ∧ after <:+ rest) ∧
      s.main = .returned ∧ s.log.length = 8 ∧ (s.log.drop 6).countP Effect.isHealth = 1 := by
  obtain ⟨s, hr, hmain, hlog⟩ := Run.ofFold_satisfies (next hostOnly)
    (initialOperator hostOnly 1 false) stopInTick (fun s => s.main = .returned ∧
      s.log.length = 8 ∧ (s.log.drop 6).countP Effect.isHealth = 1) (by decide +kernel)
  have h := stopped_operator ⟨1, false, rfl⟩ hr
  exact ⟨s, h.2.1 hmain, hmain, hlog⟩

/-- In this run, a reconnect with this label was under way. -/
def WasUnderWay (st : Settings) (s : Operator) (es : List Event) (l : String) : Prop :=
  ∃ es₁ u es₂, es = es₁ ++ es₂ ∧ Run (Step st) s es₁ u ∧ UnderWay u l

/-- The labels in what one step hands over, and the one that the probe thread holds after it. -/
structure LabelStep (s s' : Operator) (effects : List Effect) : Prop where
  log : s'.log = s.log ++ effects
  length : effects.length ≤ 1
  written : ∀ thread h outcome l, .health thread h outcome ∈ effects →
    h.reconnectInProgress = some l → thread = .probe ∧ s.probe.label = some l
  held : ∀ l, s'.probe.label = some l → UnderWay s l ∨
    s.probe.label = some l ∧ ∀ e ∈ effects, e.isHealth = true → e.thread = .main

theorem labelStep {s' : Operator} (hok : HintOk s) (hs : Step st s e s') :
    ∃ effects, LabelStep s s' effects := by
  cases he : e.isProbe with
  | false =>
    obtain ⟨hprobe, effects, hlog, hlength, hmain⟩ := main_appends he hs
    refine ⟨effects, hlog, hlength, fun thread h outcome l hmem hl => ?_, fun l hl => .inr ⟨?_, ?_⟩⟩
    · obtain ⟨w, hw⟩ := (hmain _ hmem).2 thread h outcome rfl
      have hnone := hok.main w _ hw
      rw [Tick.label, hl] at hnone
      cases hnone
    · rcases hprobe with heq | ⟨-, hwaiting⟩
      · exact heq ▸ hl
      · rw [hwaiting] at hl
        cases hl
    · exact fun e he _ => (hmain e he).1
  | true =>
    cases probe_cases he hs with
    | quiet m p hunwritten hlabel =>
      refine ⟨[], (List.append_nil _).symm, by simp, by simp, fun l hl => ?_⟩
      rcases hlabel l hl with hheld | ⟨hhint, hne⟩
      · exact .inr ⟨hheld, by simp⟩
      · exact .inl (hhint ▸ hok.hint (hhint ▸ hne))
    | health h outcome us hwriting =>
      refine ⟨[.health .probe h outcome], rfl, le_rfl, fun thread h' outcome' l hmem hl => ?_, ?_⟩
      · obtain ⟨rfl, rfl, rfl⟩ := Effect.health.inj (List.mem_singleton.mp hmem)
        exact ⟨rfl, by rw [hwriting]; exact hl⟩
      · intro l hl
        cases hl
    | slot u p hunwritten hlabel =>
      refine ⟨[.slot .probe u], rfl, le_rfl, by simp, fun l hl => ?_⟩
      rw [hlabel] at hl
      cases hl

/-- Where the label of a health comes from, if `before` was handed over first. -/
def LabelSource (st : Settings) (s : Operator) (es : List Event) (before : List Effect)
    (l : String) : Prop :=
  WasUnderWay st s es l ∨
    s.probe.label = some l ∧ ∀ e ∈ before, e.isHealth = true → e.thread = .main

theorem LabelSource.cons {s' : Operator} {effects before : List Effect} {l : String}
    (h : LabelSource st s' es before l) (hs : Step st s e s') (hstep : LabelStep s s' effects) :
    LabelSource st s (e :: es) (effects ++ before) l := by
  rcases h with ⟨es₁, u, es₂, rfl, hr, hunder⟩ | ⟨hheld, hbefore⟩
  · exact .inl ⟨e :: es₁, u, es₂, rfl, .cons hs hr, hunder⟩
  · rcases hstep.held l hheld with hunder | ⟨hheld', hmain⟩
    · exact .inl ⟨[], s, e :: es, rfl, .nil s, hunder⟩
    · refine .inr ⟨hheld', fun e' he' => ?_⟩
      rcases List.mem_append.mp he' with he' | he'
      · exact hmain e' he'
      · exact hbefore e' he'

/-- A health names a reconnect only if it was under way while the probe thread made that health;
the main thread's own never name one. -/
theorem reconnect_labels (h : Reachable (Initial st) (Step st) s) (hr : Run (Step st) s es t) :
    ∃ effects, t.log = s.log ++ effects ∧
      ∀ before thread h' outcome after l, effects = before ++ .health thread h' outcome :: after →
        h'.reconnectInProgress = some l → thread = .probe ∧ LabelSource st s es before l := by
  induction hr with
  | nil =>
    refine ⟨[], (List.append_nil _).symm, fun before thread h' outcome after l heq => ?_⟩
    simp at heq
  | @cons s u _ _ _ head _ ih =>
    obtain ⟨effects, hstep⟩ := labelStep (hintOk h) head
    obtain ⟨effects', hlog', hlater⟩ := ih (h.snoc head)
    refine ⟨effects ++ effects', by rw [hlog', hstep.log, List.append_assoc], ?_⟩
    intro before thread h' outcome after l heq hl
    rcases List.append_eq_append_iff.mp heq with ⟨before', rfl, heq'⟩ | ⟨rest, rfl, heq'⟩
    · -- it was handed over in the rest of the run
      obtain ⟨hthread, hsource⟩ := hlater before' thread h' outcome after l heq' hl
      exact ⟨hthread, hsource.cons head hstep⟩
    · cases rest with
      | nil =>
        rw [List.nil_append] at heq'
        obtain ⟨hthread, hsource⟩ := hlater [] thread h' outcome after l heq'.symm hl
        exact ⟨hthread, by simpa using hsource.cons head hstep⟩
      | cons e' rest =>
        obtain ⟨rfl, -⟩ := List.cons.inj heq'
        obtain ⟨hthread, hheld⟩ := hstep.written thread h' outcome l (by simp) hl
        have hlength := hstep.length
        rw [List.length_append, List.length_cons] at hlength
        have hbefore : before = [] := List.eq_nil_of_length_eq_zero (by omega)
        exact ⟨hthread, .inr ⟨hheld, by simp [hbefore]⟩⟩

def Effect.labelled : Effect → Bool
  | .health _ h _ => h.reconnectInProgress.isSome
  | _ => false

/-- A heartbeat finds the host down in a tick of the probe thread, which writes its health when the
reconnect is over. -/
def reconnectInTick : List Event :=
  opening ++ [.probeWakes, .probeChecks, .iterate 40, .choose ⟨40, ⟨false, 100⟩, none⟩] ++
    (tickEvents.take 3).map .probeTick ++ [.reconnected] ++ (tickEvents.drop 3).map .probeTick

theorem reconnect_labels_stale : ∃ t : Operator, t.hint = "" ∧ t.log.countP Effect.labelled = 1 ∧
    ∃ effects, t.log = effects ∧ ∀ before thread h' outcome after l,
      effects = before ++ .health thread h' outcome :: after → h'.reconnectInProgress = some l →
        thread = .probe := by
  obtain ⟨t, hr, hhint, hlog⟩ := Run.ofFold_satisfies (next hostOnly)
    (initialOperator hostOnly 1 false) reconnectInTick
    (fun t => t.hint = "" ∧ t.log.countP Effect.labelled = 1) (by decide +kernel)
  obtain ⟨effects, heffects, hlabels⟩ := reconnect_labels (.start ⟨1, false, rfl⟩) hr
  refine ⟨t, hhint, hlog, effects, heffects, ?_⟩
  intro before thread h' outcome after l heq hl
  exact (hlabels before thread h' outcome after l heq hl).1

end Runs

end BifrostSocket.OperatorHealth
