import Mathlib.Data.List.Basic
import Mathlib.Data.Option.Basic

/-!
# Finite runs of labelled transition relations

A system is a relation `step s e t` between a state, an event and a next state.
Runs, reachable states and the induction that carries an invariant along a run are
stated here once, together with runs all of whose steps meet a condition on the
state before the step and on its event.
-/

namespace BifrostSocket.TransitionRuns

/-- What a call to another party does besides its own answer: it may raise before it took
effect, or raise after (the effect is there, its reply is lost). -/
inductive CallFault where
  | none | before | after
  deriving DecidableEq

variable {σ ε : Type*}

/-- A finite run and the list of its events. -/
inductive Run (step : σ → ε → σ → Prop) : σ → List ε → σ → Prop where
  | nil (s : σ) : Run step s [] s
  | cons {s t u : σ} {e : ε} {es : List ε} (head : step s e t) (tail : Run step t es u) :
      Run step s (e :: es) u

/-- The states that some run from an initial state ends in. -/
def Reachable (init : σ → Prop) (step : σ → ε → σ → Prop) (t : σ) : Prop :=
  ∃ s es, init s ∧ Run step s es t

/-- The steps of a relation that are taken where `ok` holds of the state before the
step and of the event. -/
def guarded (ok : σ → ε → Prop) (step : σ → ε → σ → Prop) : σ → ε → σ → Prop :=
  fun s e t => ok s e ∧ step s e t

/-- The transition relation of an executable partial step function. -/
def ofStep (f : σ → ε → Option σ) : σ → ε → σ → Prop := fun s e t => f s e = some t

variable {step : σ → ε → σ → Prop} {init : σ → Prop}

theorem Run.single {s t : σ} {e : ε} (h : step s e t) : Run step s [e] t :=
  .cons h (.nil t)

theorem Run.append {s t u : σ} {es fs : List ε} (h : Run step s es t) (h' : Run step t fs u) :
    Run step s (es ++ fs) u := by
  induction h with
  | nil => exact h'
  | cons head _ ih => exact .cons head (ih h')

theorem Run.preserves {P : σ → Prop} (hstep : ∀ s e t, P s → step s e t → P t)
    {s t : σ} {es : List ε} (h : Run step s es t) (hs : P s) : P t := by
  induction h with
  | nil => exact hs
  | cons head _ ih => exact ih (hstep _ _ _ hs head)

/-- The induction behind every safety result: an invariant of the initial states that
each step preserves holds of every reachable state. -/
theorem Reachable.invariant {P : σ → Prop} (hinit : ∀ s, init s → P s)
    (hstep : ∀ s e t, P s → step s e t → P t) {t : σ} (h : Reachable init step t) : P t := by
  obtain ⟨s, es, hs, hr⟩ := h
  exact hr.preserves hstep (hinit s hs)

/-- Two relations that agree wherever an invariant of the first one holds have the same runs
from there. -/
theorem Run.congr {step' : σ → ε → σ → Prop} {P : σ → Prop}
    (hstep : ∀ s e t, P s → step s e t → P t)
    (hiff : ∀ s e t, P s → (step s e t ↔ step' s e t)) {s t : σ} {es : List ε} (hs : P s) :
    Run step s es t ↔ Run step' s es t := by
  constructor
  · intro h
    induction h with
    | nil s => exact .nil s
    | cons head _ ih => exact .cons ((hiff _ _ _ hs).mp head) (ih (hstep _ _ _ hs head))
  · intro h
    induction h with
    | nil s => exact .nil s
    | cons head _ ih =>
      have head' := (hiff _ _ _ hs).mpr head
      exact .cons head' (ih (hstep _ _ _ hs head'))

theorem Reachable.start {s : σ} (h : init s) : Reachable init step s := ⟨s, [], h, .nil s⟩

theorem Reachable.run {s t : σ} {es : List ε} (h : Reachable init step s)
    (hr : Run step s es t) : Reachable init step t := by
  obtain ⟨s₀, fs, h₀, hr₀⟩ := h
  exact ⟨s₀, fs ++ es, h₀, hr₀.append hr⟩

theorem Reachable.snoc {s t : σ} {e : ε} (h : Reachable init step s) (hs : step s e t) :
    Reachable init step t :=
  h.run (.single hs)

theorem Run.mono {step' : σ → ε → σ → Prop} (hle : ∀ s e t, step s e t → step' s e t)
    {s t : σ} {es : List ε} (h : Run step s es t) : Run step' s es t := by
  induction h with
  | nil s => exact .nil s
  | cons head _ ih => exact .cons (hle _ _ _ head) ih

theorem Reachable.mono {step' : σ → ε → σ → Prop} (hle : ∀ s e t, step s e t → step' s e t)
    {t : σ} (h : Reachable init step t) : Reachable init step' t := by
  obtain ⟨s, es, hs, hr⟩ := h
  exact ⟨s, es, hs, hr.mono hle⟩

theorem Run.guard {ok : σ → ε → Prop} {s t : σ} {es : List ε} (h : Run step s es t)
    (hok : ∀ e ∈ es, ∀ u, ok u e) : Run (guarded ok step) s es t := by
  induction h with
  | nil s => exact .nil s
  | @cons s _ _ e es head _ ih =>
    have head' : guarded ok step s e _ := ⟨hok e List.mem_cons_self s, head⟩
    exact .cons head' (ih fun e' he' => hok e' (List.mem_cons_of_mem e he'))

/-- A log, newest first, that each step of a run only adds to, what it adds being as an invariant
tells. -/
theorem Run.logs {α : Type*} (log : σ → List α) {I : σ → Prop} {P : α → Prop}
    (hstep : ∀ s e t, I s → step s e t →
      I t ∧ ∃ new, log t = new ++ log s ∧ ∀ a ∈ new, P a)
    {s t : σ} {es : List ε} (h : Run step s es t) (hs : I s) :
    I t ∧ ∃ new, log t = new ++ log s ∧ ∀ a ∈ new, P a := by
  induction h with
  | nil s => exact ⟨hs, [], rfl, by simp⟩
  | cons head _ ih =>
    obtain ⟨ht, new, hnew, hP⟩ := hstep _ _ _ hs head
    obtain ⟨hu, later, hlater, hP'⟩ := ih ht
    refine ⟨hu, later ++ new, by rw [hlater, hnew, List.append_assoc], fun a ha => ?_⟩
    rcases List.mem_append.mp ha with ha | ha
    · exact hP' a ha
    · exact hP a ha

/-- Forward simulation: a relation that every step can be followed in lifts to runs. -/
theorem Run.simulated {σ' : Type*} {step' : σ' → ε → σ' → Prop} {R : σ → σ' → Prop}
    (hstep : ∀ s s' e t, R s s' → step s e t → ∃ t', step' s' e t' ∧ R t t')
    {s t : σ} {s' : σ'} {es : List ε} (h : Run step s es t) (hs : R s s') :
    ∃ t', Run step' s' es t' ∧ R t t' := by
  induction h generalizing s' with
  | nil => exact ⟨s', .nil s', hs⟩
  | cons head _ ih =>
    obtain ⟨u', head', hu⟩ := hstep _ _ _ _ hs head
    obtain ⟨t', tail', ht⟩ := ih hu
    exact ⟨t', .cons head' tail', ht⟩

/-- Executing a list of events by an executable step function is a run. -/
theorem Run.ofFold {f : σ → ε → Option σ} {s t : σ} {es : List ε}
    (h : es.foldlM f s = some t) : Run (ofStep f) s es t := by
  induction es generalizing s with
  | nil =>
    obtain rfl : s = t := by simpa using h
    exact .nil s
  | cons e es ih =>
    simp only [List.foldlM_cons, Option.bind_eq_bind, Option.bind_eq_some_iff] at h
    obtain ⟨u, hu, ht⟩ := h
    exact .cons hu (ih ht)

/-- A property read off the executed state, in the form a concrete evaluation gives it. -/
theorem Run.ofFold_satisfies (f : σ → ε → Option σ) (s : σ) (es : List ε) (P : σ → Prop)
    [DecidablePred P] (h : (es.foldlM f s).any (fun t => decide (P t)) = true) :
    ∃ t, Run (ofStep f) s es t ∧ P t := by
  cases ht : es.foldlM f s with
  | none => simp [ht] at h
  | some t => exact ⟨t, .ofFold ht, by simpa [ht] using h⟩

theorem Run.ofGuardedFold_satisfies (f : σ → ε → Option σ) (ok : σ → ε → Prop)
    [∀ s e, Decidable (ok s e)] (s : σ) (es : List ε) (P : σ → Prop) [DecidablePred P]
    (h : (es.foldlM (fun s e => if ok s e then f s e else none) s).any
      (fun t => decide (P t)) = true) : ∃ t, Run (guarded ok (ofStep f)) s es t ∧ P t := by
  obtain ⟨t, hr, ht⟩ := Run.ofFold_satisfies _ s es P h
  refine ⟨t, hr.mono fun s e t hs => ?_, ht⟩
  simp only [ofStep] at hs
  split at hs
  · next hok => exact ⟨hok, hs⟩
  · cases hs

end BifrostSocket.TransitionRuns
