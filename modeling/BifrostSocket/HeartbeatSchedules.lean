import BifrostSocket.HeartbeatReconnects
import Mathlib.Tactic.Linarith
import Mathlib.Algebra.Order.Field.Rat
import Mathlib.Data.List.Chain

/-!
# The schedule of service heartbeats

A loop asks its clock at each iteration, and other threads publish the clock's fields in between.
Heartbeats are at least one interval apart, so that they try no slot more often, and the published
countdown runs out at the very iteration of the next heartbeat.
-/

namespace BifrostSocket.HeartbeatSchedules
open HeartbeatReconnects

/-- The countdown fields of the health hash. -/
structure RedisFields where
  serviceHeartbeatIntervalSec : ℚ
  lastServiceHeartbeatAt : ℚ
  nextServiceHeartbeatInS : ℚ
  serviceHeartbeatReconnectInProgress : Option String
  deriving DecidableEq

def redisFields (c : ServiceHeartbeatClock) (now : ℚ) (reconnectInProgress : String) :
    RedisFields where
  serviceHeartbeatIntervalSec := c.intervalSec
  lastServiceHeartbeatAt := c.lastAt
  nextServiceHeartbeatInS :=
    if 0 < c.lastAt then max 0 (c.lastAt + c.intervalSec - now) else c.intervalSec
  serviceHeartbeatReconnectInProgress :=
    if reconnectInProgress = "" then none else some reconnectInProgress

section Ticks

variable {c : ServiceHeartbeatClock} {now : ℚ}

@[simp] theorem tick_intervalSec : (c.tick now).2.intervalSec = c.intervalSec := by
  unfold ServiceHeartbeatClock.tick
  split
  · rfl
  · split <;> rfl

theorem tick_fires_iff :
    (c.tick now).1 = true ↔ 0 < c.lastAt ∧ c.lastAt + c.intervalSec ≤ now := by
  unfold ServiceHeartbeatClock.tick
  split
  · next hle => simp [hle]
  · next hlt =>
    have hpos := not_le.mp hlt
    split
    · next hdue =>
      have hle : c.lastAt + c.intervalSec ≤ now := by linarith
      simp [hpos, hle]
    · next hdue =>
      have hlt : now < c.lastAt + c.intervalSec := by linarith
      simp [hlt]

theorem lastAt_of_fires (h : (c.tick now).1 = true) : (c.tick now).2.lastAt = now := by
  unfold ServiceHeartbeatClock.tick at h ⊢
  split at h
  · cases h
  · next hlt =>
    split at h
    · next hdue => rw [if_neg hlt, if_pos hdue]
    · cases h

theorem tick_of_not_fires (hpos : 0 < c.lastAt) (h : ¬ (c.tick now).1 = true) :
    (c.tick now).2 = c := by
  unfold ServiceHeartbeatClock.tick at h ⊢
  rw [if_neg (not_le.mpr hpos)] at h ⊢
  split at h
  · exact absurd rfl h
  · next hdue => rw [if_neg hdue]

/-- The clock never shows a time after that of the last iteration. -/
theorem lastAt_tick_le (h : c.lastAt ≤ now) : (c.tick now).2.lastAt ≤ now := by
  unfold ServiceHeartbeatClock.tick
  split
  · exact le_rfl
  · split
    · exact le_rfl
    · exact h

theorem le_lastAt_tick (h : c.lastAt ≤ now) : c.lastAt ≤ (c.tick now).2.lastAt := by
  unfold ServiceHeartbeatClock.tick
  split
  · exact h
  · split
    · exact h
    · exact le_rfl

end Ticks

section Heartbeats

variable {c : ServiceHeartbeatClock} {o : Observation} {os : List Observation}

/-- The iterations come in order of time, none before the clock's last heartbeat. -/
def InOrder (c : ServiceHeartbeatClock) (os : List Observation) : Prop :=
  (c.lastAt :: os.map Observation.now).Pairwise (· ≤ ·)

theorem InOrder.tail (h : InOrder c (o :: os)) : InOrder (c.tick o.now).2 os := by
  obtain ⟨hle, hos⟩ := List.pairwise_cons.mp h
  rw [List.map_cons] at hle hos
  obtain ⟨hlater, htail⟩ := List.pairwise_cons.mp hos
  refine List.pairwise_cons.mpr ⟨fun t ht => ?_, htail⟩
  exact (lastAt_tick_le (hle _ List.mem_cons_self)).trans (hlater t ht)

theorem heartbeats_cons : heartbeats c (o :: os) =
    if (c.tick o.now).1 then o :: heartbeats (c.tick o.now).2 os
    else heartbeats (c.tick o.now).2 os := by
  cases h : (c.tick o.now).1 <;> simp [heartbeats, clocked, h]

theorem le_of_mem_heartbeats (h : InOrder c os) (ho : o ∈ heartbeats c os) :
    c.lastAt + c.intervalSec ≤ o.now := by
  induction os generalizing c with
  | nil => cases ho
  | cons o' os ih =>
    have hle : c.lastAt ≤ o'.now := (List.pairwise_cons.mp h).1 _ List.mem_cons_self
    have hrest : o ∈ heartbeats (c.tick o'.now).2 os → c.lastAt + c.intervalSec ≤ o.now := by
      intro hmem
      have hlater := ih h.tail hmem
      rw [tick_intervalSec] at hlater
      exact (add_le_add (le_lastAt_tick hle) le_rfl).trans hlater
    rw [heartbeats_cons] at ho
    split at ho
    · next hfires =>
      rcases List.mem_cons.mp ho with rfl | hmem
      · exact (tick_fires_iff.mp hfires).2
      · exact hrest hmem
    · exact hrest ho

theorem heartbeats_apart (h : InOrder c os) :
    (heartbeats c os).Pairwise fun a b => a.now + c.intervalSec ≤ b.now := by
  induction os generalizing c with
  | nil => exact .nil
  | cons o os ih =>
    have hrest := ih h.tail
    rw [tick_intervalSec] at hrest
    rw [heartbeats_cons]
    split
    · next hfires =>
      refine List.pairwise_cons.mpr ⟨fun b hb => ?_, hrest⟩
      have hle := le_of_mem_heartbeats h.tail hb
      rwa [lastAt_of_fires hfires, tick_intervalSec] at hle
    · exact hrest

/-- With iterations at most `gap` apart the first heartbeat is not later than that. -/
theorem heartbeats_head_lt (hpos : 0 < c.lastAt) (hinterval : 0 < c.intervalSec) {gap : ℚ}
    (hgap : (c.lastAt :: os.map Observation.now).IsChain fun s t => t ≤ s + gap)
    (ho : (heartbeats c os).head? = some o) : o.now < c.lastAt + c.intervalSec + gap := by
  -- `s` is the time of the iteration before, at which no heartbeat was due
  have hgen : ∀ s, s < c.lastAt + c.intervalSec →
      (s :: os.map Observation.now).IsChain (fun s t => t ≤ s + gap) →
      o.now < c.lastAt + c.intervalSec + gap := by
    clear hgap
    induction os with
    | nil => cases ho
    | cons o' os ih =>
      intro s hs hchain
      rw [List.map_cons] at hchain
      obtain ⟨hnext, hrest⟩ := List.isChain_cons_cons.mp hchain
      rw [heartbeats_cons] at ho
      split at ho
      · obtain rfl := Option.some.inj ho
        linarith
      · next hnot =>
        rw [tick_of_not_fires hpos hnot] at ho
        refine ih ho o'.now ?_ hrest
        by_contra hle
        exact hnot (tick_fires_iff.mpr ⟨hpos, not_lt.mp hle⟩)
  exact hgen c.lastAt (by linarith) hgap

/-- Consecutive heartbeats are one interval apart, and less than one interval and the longest
iteration. -/
theorem heartbeat_cadence (hpos : 0 < c.lastAt) (hinterval : 0 < c.intervalSec)
    (horder : InOrder c os) {gap : ℚ}
    (hgap : (os.map Observation.now).IsChain fun s t => t ≤ s + gap) :
    (heartbeats c os).IsChain fun a b =>
      a.now + c.intervalSec ≤ b.now ∧ b.now < a.now + c.intervalSec + gap := by
  induction os generalizing c with
  | nil => exact .nil
  | cons o os ih =>
    have hle : c.lastAt ≤ o.now := (List.pairwise_cons.mp horder).1 _ List.mem_cons_self
    have hlast : 0 < (c.tick o.now).2.lastAt := hpos.trans_le (le_lastAt_tick hle)
    have hrest := ih hlast (by rwa [tick_intervalSec]) horder.tail
      (List.isChain_of_isChain_cons hgap)
    rw [tick_intervalSec] at hrest
    rw [heartbeats_cons]
    split
    · next hfires =>
      refine List.isChain_cons.mpr ⟨fun b hb => ⟨?_, ?_⟩, hrest⟩
      · have hmem := List.mem_of_mem_head? hb
        have hlower := le_of_mem_heartbeats horder.tail hmem
        rwa [lastAt_of_fires hfires, tick_intervalSec] at hlower
      · have hupper := heartbeats_head_lt hlast (by rwa [tick_intervalSec])
          (by rwa [lastAt_of_fires hfires]) hb
        rwa [lastAt_of_fires hfires, tick_intervalSec] at hupper
    · exact hrest

theorem heartbeat_cadence_every_five :
    (heartbeats ⟨12, 100⟩ ((List.range 8).map fun n => ⟨105 + 5 * n, ⟨true, 1⟩, none⟩)).IsChain
      fun a b => a.now + 12 ≤ b.now ∧ b.now < a.now + 12 + 5 := by
  refine heartbeat_cadence (c := ⟨12, 100⟩) (by norm_num) (by norm_num) ?_ ?_
  · unfold InOrder
    decide +kernel
  · decide +kernel

end Heartbeats

section Countdown

variable {c : ServiceHeartbeatClock} {before after : List Observation} {now : ℚ}

/-- The clock after some iterations. -/
def clockAfter (c : ServiceHeartbeatClock) (os : List Observation) : ServiceHeartbeatClock :=
  os.foldl (fun c o => (c.tick o.now).2) c

theorem clockAfter_intervalSec : (clockAfter c before).intervalSec = c.intervalSec := by
  induction before generalizing c with
  | nil => rfl
  | cons o os ih => rw [clockAfter, List.foldl_cons, ← clockAfter, ih, tick_intervalSec]

theorem lastAt_le_clockAfter (h : InOrder c before) : c.lastAt ≤ (clockAfter c before).lastAt := by
  induction before generalizing c with
  | nil => exact le_rfl
  | cons o os ih =>
    have hle : c.lastAt ≤ o.now := (List.pairwise_cons.mp h).1 _ List.mem_cons_self
    exact (le_lastAt_tick hle).trans (ih h.tail)

theorem clockAfter_lastAt_le (h : InOrder c before) (hnow : c.lastAt ≤ now)
    (hbefore : ∀ o ∈ before, o.now ≤ now) : (clockAfter c before).lastAt ≤ now := by
  induction before generalizing c with
  | nil => exact hnow
  | cons o os ih =>
    have hle : c.lastAt ≤ o.now := (List.pairwise_cons.mp h).1 _ List.mem_cons_self
    refine ih h.tail ?_ fun o' ho' => hbefore o' (List.mem_cons_of_mem o ho')
    exact (lastAt_tick_le hle).trans (hbefore o List.mem_cons_self)

/-- The countdown shown at `now` tells the first heartbeat of the iterations from then on. -/
theorem heartbeats_head_eq_find (hpos : 0 < c.lastAt) (hint : String)
    (hafter : ∀ o ∈ after, now ≤ o.now) :
    (heartbeats c after).head? = after.find? fun o =>
      decide (now + (redisFields c now hint).nextServiceHeartbeatInS ≤ o.now) := by
  induction after with
  | nil => rfl
  | cons o os ih =>
    have hle : now ≤ o.now := hafter o List.mem_cons_self
    have hdue : (c.tick o.now).1 = true ↔
        now + (redisFields c now hint).nextServiceHeartbeatInS ≤ o.now := by
      rw [tick_fires_iff, redisFields, if_pos hpos]
      simp only [hpos, true_and]
      rcases le_total 0 (c.lastAt + c.intervalSec - now) with hleft | hover
      · rw [max_eq_right hleft, add_sub_cancel]
      · rw [max_eq_left hover, add_zero]
        exact ⟨fun _ => hle, fun _ => by linarith⟩
    rw [heartbeats_cons, List.find?_cons]
    by_cases hfires : (c.tick o.now).1 = true
    · simp [hfires, hdue.mp hfires]
    · rw [if_neg hfires, tick_of_not_fires hpos hfires, decide_eq_false (mt hdue.mpr hfires)]
      exact ih fun o' ho' => hafter o' (List.mem_cons_of_mem o ho')

/-- Whatever iterations have passed, the published countdown lies within one interval, and the
next heartbeat is at the first iteration after it has run out. -/
theorem countdown_exact (hpos : 0 < c.lastAt) (hinterval : 0 ≤ c.intervalSec)
    (horder : InOrder c before) (hnow : c.lastAt ≤ now) (hbefore : ∀ o ∈ before, o.now ≤ now)
    (hafter : ∀ o ∈ after, now ≤ o.now) (hint : String) :
    let fields := redisFields (clockAfter c before) now hint
    0 ≤ fields.nextServiceHeartbeatInS ∧ fields.nextServiceHeartbeatInS ≤ c.intervalSec ∧
      (heartbeats (clockAfter c before) after).head? =
        after.find? fun o => decide (now + fields.nextServiceHeartbeatInS ≤ o.now) := by
  have hlast : 0 < (clockAfter c before).lastAt := hpos.trans_le (lastAt_le_clockAfter horder)
  have hle := clockAfter_lastAt_le horder hnow hbefore
  refine ⟨?_, ?_, heartbeats_head_eq_find hlast hint hafter⟩
  · simp only [redisFields, if_pos hlast]
    exact le_max_left ..
  · simp only [redisFields, if_pos hlast, clockAfter_intervalSec]
    exact max_le hinterval (by linarith)

theorem countdown_exact_after_heartbeat :
    let c : ServiceHeartbeatClock := ⟨30, 100⟩
    let at' (now : ℚ) : Observation := ⟨now, ⟨true, 1⟩, none⟩
    (redisFields (clockAfter c [at' 105, at' 131]) 140 "").nextServiceHeartbeatInS = 21 ∧
      (heartbeats (clockAfter c [at' 105, at' 131]) [at' 160, at' 161]).head? =
        [at' 160, at' 161].find? fun o => decide (140 + (redisFields (clockAfter c
          [at' 105, at' 131]) 140 "").nextServiceHeartbeatInS ≤ o.now) := by
  refine ⟨by decide +kernel, (countdown_exact (c := ⟨30, 100⟩) (by norm_num) (by norm_num) ?_
    (by norm_num) (by decide +kernel) (by decide +kernel) "").2.2⟩
  unfold InOrder
  decide +kernel

end Countdown

section Attempts

variable {iteration : ServiceHeartbeatClock → Observation → Reconnects × ServiceHeartbeatClock}
  {slot : Slot}

/-- The clock readings of the iterations whose heartbeat tries to connect a slot, one for each
attempt. The operator's requests, which connect too, are no part of an iteration. -/
def attemptTimes
    (iteration : ServiceHeartbeatClock → Observation → Reconnects × ServiceHeartbeatClock)
    (slot : Slot) (c : ServiceHeartbeatClock) (os : List Observation) : List ℚ :=
  (clocked c os).flatMap fun p => ((iteration p.1 p.2).1.attempts slot).map fun _ => p.2.now

/-- The iteration tries each slot at most once, and only at a heartbeat. -/
def AtHeartbeats
    (iteration : ServiceHeartbeatClock → Observation → Reconnects × ServiceHeartbeatClock) :
    Prop :=
  ∀ c o slot, ((iteration c o).1.attempts slot).length ≤ if (c.tick o.now).1 then 1 else 0

theorem probeIteration_atHeartbeats : AtHeartbeats probeIteration := by
  intro c o slot
  rw [probeIteration_attempts, promised]
  cases (c.tick o.now).1 <;> cases o.down slot <;> simp

theorem operatorIteration_atHeartbeats : AtHeartbeats operatorIteration := by
  intro c o slot
  refine le_trans ?_ (probeIteration_atHeartbeats c o slot)
  rw [Reconnects.attempts, Reconnects.attempts, List.length_map, List.length_map,
    operatorIteration_targets]
  exact ((List.take_sublist 1 _).filter _).length_le

theorem attemptTimes_sublist (h : AtHeartbeats iteration) (c : ServiceHeartbeatClock)
    (os : List Observation) :
    (attemptTimes iteration slot c os).Sublist ((heartbeats c os).map Observation.now) := by
  induction os generalizing c with
  | nil => exact .slnil
  | cons o os ih =>
    have hle := h c o slot
    have hrest := ih (c.tick o.now).2
    rw [attemptTimes, clocked, List.flatMap_cons, ← attemptTimes, heartbeats_cons]
    cases hattempts : (iteration c o).1.attempts slot with
    | nil =>
      rw [List.map_nil, List.nil_append]
      split
      · exact hrest.cons o.now
      · exact hrest
    | cons attempt more =>
      rw [hattempts, List.length_cons] at hle
      split at hle
      · obtain rfl : more = [] := List.length_eq_zero_iff.mp (by omega)
        next hfires =>
        rw [if_pos hfires]
        exact hrest.cons_cons o.now
      · omega

/-- The heartbeats of neither loop try a slot twice within one interval. -/
theorem attempts_apart {c : ServiceHeartbeatClock} {os : List Observation} (h : InOrder c os)
    (slot : Slot) :
    (attemptTimes operatorIteration slot c os).Pairwise (fun s t => s + c.intervalSec ≤ t) ∧
      (attemptTimes probeIteration slot c os).Pairwise (fun s t => s + c.intervalSec ≤ t) := by
  have hapart : ((heartbeats c os).map Observation.now).Pairwise
      fun s t => s + c.intervalSec ≤ t := List.pairwise_map.mpr (heartbeats_apart h)
  exact ⟨hapart.sublist (attemptTimes_sublist operatorIteration_atHeartbeats c os),
    hapart.sublist (attemptTimes_sublist probeIteration_atHeartbeats c os)⟩

/-- Both slots are down all the time, and the agent tries each at every third iteration. -/
theorem attempts_apart_both_down :
    let os : List Observation :=
      (List.range 7).map fun n => ⟨110 + 10 * n, ⟨false, 1⟩, some ⟨false, 2⟩⟩
    attemptTimes probeIteration .secondary ⟨30, 100⟩ os = [130, 160] ∧
      (attemptTimes probeIteration .secondary ⟨30, 100⟩ os).Pairwise
        (fun s t => s + 30 ≤ t) := by
  refine ⟨by decide +kernel, (attempts_apart (c := ⟨30, 100⟩) ?_ .secondary).2⟩
  unfold InOrder
  decide +kernel

end Attempts

end BifrostSocket.HeartbeatSchedules
