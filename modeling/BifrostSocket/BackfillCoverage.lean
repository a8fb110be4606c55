import BifrostSocket.HistoricalBars
import Mathlib.Tactic.Linarith
import Mathlib.Tactic.Ring
import Mathlib.Tactic.NormNum

/-!
# What a backfill covers

The walk ends at the first chunk without a bar, at the first request that fails, and after
2000 chunks, and returns what it has by then. It is complete exactly where the windows before
that point hold all bars of the range.
-/

namespace BifrostSocket.BackfillCoverage
open OperatorProtocol HistoricalBars

section Windows

variable (srv : BarServer) (setting : BarSetting)

/-- The window that the server answers a chunk's request from. -/
def InWindow (curEnd t : ℚ) : Prop :=
  (endSeconds curEnd : ℚ) - srv.span (barRequest setting curEnd) < t ∧ t ≤ endSeconds curEnd

/-- The server has a bar in that window. -/
def HasBar (curEnd : ℚ) : Prop :=
  ∃ bar ∈ srv.bars setting, ∃ t, barTime bar = some t ∧ InWindow srv setting curEnd t

variable {srv setting} {bar : IbBar} {curEnd t : ℚ}

theorem convertIbBar_eq_some {entry : BarEntry} (h : convertIbBar bar = some entry) :
    barTime bar = some entry.barTime := by
  obtain ⟨ts, hts, rfl⟩ := Option.map_eq_some_iff.mp h
  exact hts

theorem mem_answer (ht : barTime bar = some t) :
    bar ∈ srv.answer (barRequest setting curEnd) ↔
      bar ∈ srv.bars setting ∧ InWindow srv setting curEnd t :=
  srv.exact _ bar t ht

theorem chunk_ne_nil : convertIbBars (srv.answer (barRequest setting curEnd)) ≠ [] ↔
    HasBar srv setting curEnd := by
  constructor
  · intro hne
    obtain ⟨entry, hentry⟩ := List.exists_mem_of_ne_nil _ hne
    obtain ⟨bar, hbar, hconv⟩ := List.mem_filterMap.mp hentry
    have ht := convertIbBar_eq_some hconv
    obtain ⟨hmem, hwindow⟩ := (mem_answer ht).mp hbar
    exact ⟨bar, hmem, entry.barTime, ht, hwindow⟩
  · rintro ⟨bar, hmem, t, ht, hwindow⟩ hnil
    have hbar := (mem_answer ht).mpr ⟨hmem, hwindow⟩
    have hconv : ∃ entry, convertIbBar bar = some entry := by
      simp [convertIbBar, ht]
    obtain ⟨entry, hentry⟩ := hconv
    have hin : entry ∈ convertIbBars (srv.answer (barRequest setting curEnd)) :=
      List.mem_filterMap.mpr ⟨bar, hbar, hentry⟩
    rw [hnil] at hin
    cases hin

end Windows

section Ranges

variable (lower : String → String) (srv : BarServer)

/-- The end of the range, and its bar setting. -/
def RangeCall.stop (c : RangeCall) : ℚ := c.endTs.getD c.now

def RangeCall.setting (c : RangeCall) : BarSetting := barSetting lower c.period

/-- The walk comes to this chunk and through it: the symbol is not blank and qualifies, and
every chunk up to this one begins after the start of the range, is among the first 2000, and
has a request that is answered and a bar in its window. -/
def Reads (c : RangeCall) (start : ℚ) (k : ℕ) : Prop :=
  strip c.symbol ≠ "" ∧ c.qualify = .answered ∧ k < maxLoops ∧ ∀ i ≤ k,
    let curEnd := chunkEnd (RangeCall.setting lower c) start (RangeCall.stop c) i
    start < curEnd ∧ c.requests i = .answered ∧ HasBar srv (RangeCall.setting lower c) curEnd

/-- Every bar of the server in the range is in the result. -/
def Complete (c : RangeCall) (start : ℚ) (out : List BarEntry) : Prop :=
  ∀ bar ∈ srv.bars (RangeCall.setting lower c), ∀ entry, convertIbBar bar = some entry →
    start < entry.barTime → entry.barTime ≤ RangeCall.stop c → entry ∈ out

/-- Every bar of the range lies in the window of a chunk that the walk comes through. -/
def Covered (c : RangeCall) (start : ℚ) : Prop :=
  ∀ bar ∈ srv.bars (RangeCall.setting lower c), ∀ t, barTime bar = some t → start < t →
    t ≤ RangeCall.stop c → ∃ k, Reads lower srv c start k ∧
      InWindow srv (RangeCall.setting lower c)
        (chunkEnd (RangeCall.setting lower c) start (RangeCall.stop c) k) t

variable {lower srv} {c : RangeCall} {start : ℚ} {out : List BarEntry}

theorem mem_range {entry : BarEntry} (hstart : c.startTs = some start)
    (h : getHistoricalBarsRange lower srv c = .ok out) :
    entry ∈ out ↔ ∃ k, Reads lower srv c start k ∧ entry ∈ convertIbBars (srv.answer
      (barRequest (RangeCall.setting lower c)
        (chunkEnd (RangeCall.setting lower c) start (RangeCall.stop c) k))) := by
  have hunread : out = [] → (∀ k, ¬ Reads lower srv c start k) →
      (entry ∈ out ↔ ∃ k, Reads lower srv c start k ∧ entry ∈ convertIbBars (srv.answer
        (barRequest (RangeCall.setting lower c)
          (chunkEnd (RangeCall.setting lower c) start (RangeCall.stop c) k)))) := by
    rintro rfl hno
    refine iff_of_false List.not_mem_nil ?_
    rintro ⟨k, hk, -⟩
    exact hno k hk
  unfold getHistoricalBarsRange at h
  split at h
  · next hblank => exact hunread (Except.ok.inj h).symm fun k hk => hk.1 hblank
  · next hsymbol =>
    split at h
    · cases h
    · next hqualify =>
      refine hunread (Except.ok.inj h).symm fun k hk => ?_
      have hanswered := hk.2.1
      rw [hqualify] at hanswered
      cases hanswered
    · next hqualify =>
      rw [hstart] at h
      rw [mem_walk h]
      simp only [List.not_mem_nil, false_or, Nat.zero_add, ChunkRead, chunk_ne_nil]
      constructor
      · rintro ⟨k, hk, hall, hmem⟩
        exact ⟨k, ⟨hsymbol, hqualify, hk, hall⟩, hmem⟩
      · rintro ⟨k, ⟨-, -, hk, hall⟩, hmem⟩
        exact ⟨k, hk, hall, hmem⟩

theorem covered_of_complete (hstart : c.startTs = some start)
    (h : getHistoricalBarsRange lower srv c = .ok out)
    (hcomplete : Complete lower srv c start out) : Covered lower srv c start := by
  intro bar hbar t ht hlt hle
  obtain ⟨entry, hentry⟩ : ∃ entry, convertIbBar bar = some entry := by
    simp [convertIbBar, ht]
  obtain rfl := Option.some.inj (ht.symm.trans (convertIbBar_eq_some hentry))
  obtain ⟨k, hk, hmem⟩ := (mem_range hstart h).mp (hcomplete bar hbar entry hentry hlt hle)
  obtain ⟨bar', hbar', hconv⟩ := List.mem_filterMap.mp hmem
  exact ⟨k, hk, ((mem_answer (convertIbBar_eq_some hconv)).mp hbar').2⟩

theorem complete_of_covered (hstart : c.startTs = some start)
    (h : getHistoricalBarsRange lower srv c = .ok out) (hcovered : Covered lower srv c start) :
    Complete lower srv c start out := by
  intro bar hbar entry hentry hlt hle
  have ht := convertIbBar_eq_some hentry
  obtain ⟨k, hk, hwindow⟩ := hcovered bar hbar entry.barTime ht hlt hle
  apply (mem_range hstart h).mpr
  exact ⟨k, hk, List.mem_filterMap.mpr ⟨bar, (mem_answer ht).mpr ⟨hbar, hwindow⟩, hentry⟩⟩

/-- A backfill that returns is complete if and only if every bar of the range lies in the
window of a chunk that the walk comes through. -/
theorem backfill_complete_iff (hstart : c.startTs = some start)
    (h : getHistoricalBarsRange lower srv c = .ok out) :
    Complete lower srv c start out ↔ Covered lower srv c start :=
  ⟨covered_of_complete hstart h, complete_of_covered hstart h⟩

end Ranges

section Tiling

variable {setting : BarSetting} {start stop t : ℚ}

theorem endSeconds_intCast (n : ℤ) : endSeconds n = n := by
  have hcast : (n : ℚ) * 1000000 = ((n * 1000000 : ℤ) : ℚ) := by push_cast; rfl
  have hround : roundHalfEven ((n : ℚ) * 1000000) = n * 1000000 := by
    rw [hcast, roundHalfEven, Int.floor_intCast, if_pos (by norm_num)]
  rw [endSeconds, hround]
  push_cast
  rw [mul_div_assoc, div_self (by norm_num), mul_one, Int.floor_intCast]

theorem chunkSeconds_pos (setting : BarSetting) : 0 < setting.chunkSeconds := by
  cases setting <;> decide

theorem start_lt_chunkEnd {i k : ℕ} (h : start < chunkEnd setting start stop k) (hi : i ≤ k) :
    start < chunkEnd setting start stop i := by
  induction hi with
  | refl => exact h
  | @step k _ ih =>
    apply ih
    have hchunk : (0 : ℚ) < setting.chunkSeconds := by exact_mod_cast chunkSeconds_pos setting
    rw [chunkEnd, lt_max_iff] at h
    rcases h with h | h
    · exact absurd h (lt_irrefl start)
    · linarith

/-- Until the start, the chunks follow each other at their nominal length. -/
theorem chunkEnd_eq {k : ℕ} (h : start < chunkEnd setting start stop k) :
    chunkEnd setting start stop k = stop - k * setting.chunkSeconds := by
  induction k with
  | zero => simp [chunkEnd]
  | succ k ih =>
    have hprev := ih (start_lt_chunkEnd h (Nat.le_succ k))
    rw [chunkEnd, lt_max_iff] at h
    rcases h with h | h
    · exact absurd h (lt_irrefl start)
    · rw [chunkEnd, max_eq_right h.le, hprev]
      push_cast
      ring

/-- The windows of a walk that reaches the start leave no gap, if it begins at a whole
second. -/
theorem exists_window (srv : BarServer) {n : ℤ} (hstop : stop = n) (hlt : start < t)
    (hle : t ≤ stop) (hreach : chunkEnd setting start stop maxLoops ≤ start) :
    ∃ k < maxLoops, start < chunkEnd setting start stop k ∧
      InWindow srv setting (chunkEnd setting start stop k) t := by
  have hex : ∃ k, chunkEnd setting start stop k < t := ⟨maxLoops, hreach.trans_lt hlt⟩
  have hfind := Nat.find_spec hex
  have hmin : Nat.find hex ≤ maxLoops := Nat.find_min' hex (hreach.trans_lt hlt)
  cases hk : Nat.find hex with
  | zero =>
    rw [hk] at hfind
    exact absurd hfind (not_lt.mpr hle)
  | succ k =>
    rw [hk] at hfind hmin
    have hge : t ≤ chunkEnd setting start stop k :=
      not_lt.mp (Nat.find_min hex (by omega))
    have hstart := hlt.trans_le hge
    have hint : chunkEnd setting start stop k = ((n - k * setting.chunkSeconds : ℤ) : ℚ) := by
      rw [chunkEnd_eq hstart, hstop]
      push_cast
      ring
    refine ⟨k, by omega, hstart, ?_⟩
    rw [chunkEnd, max_lt_iff] at hfind
    have hspan := srv.span_ge setting (chunkEnd setting start stop k)
    rw [InWindow]
    rw [hint] at hge hfind hspan ⊢
    rw [endSeconds_intCast]
    exact ⟨by linarith, hge⟩

variable {lower : String → String} {srv : BarServer} {c : RangeCall} {out : List BarEntry}

/-- Without a failing request, an empty chunk or more than 2000 chunks, a range that ends at
a whole second is complete. -/
theorem complete_of_no_gap (hstart : c.startTs = some start)
    (h : getHistoricalBarsRange lower srv c = .ok out) (hsymbol : strip c.symbol ≠ "")
    (hqualify : c.qualify = .answered) (hanswered : ∀ k, c.requests k = .answered) {n : ℤ}
    (hstop : RangeCall.stop c = n)
    (hreach : chunkEnd (RangeCall.setting lower c) start (RangeCall.stop c) maxLoops ≤ start)
    (hbars : ∀ k, start < chunkEnd (RangeCall.setting lower c) start (RangeCall.stop c) k →
      HasBar srv (RangeCall.setting lower c)
        (chunkEnd (RangeCall.setting lower c) start (RangeCall.stop c) k)) :
    Complete lower srv c start out := by
  apply complete_of_covered hstart h
  intro bar _ t _ hlt hle
  obtain ⟨k, hk, hafter, hwindow⟩ := exists_window srv hstop hlt hle hreach
  refine ⟨k, ⟨hsymbol, hqualify, hk, fun i hi => ?_⟩, hwindow⟩
  have hi' := start_lt_chunkEnd hafter hi
  exact ⟨hi', hanswered i, hbars i hi'⟩

end Tiling

section Instances

/-- A daily bar. -/
def dayBar (t : ℚ) : IbBar where
  date := some (.other (some t) "")
  open_ := none
  high := none
  low := none
  close := none
  volume := none

/-- A server of stock bars at the given times whose durations are as long as the chunks. -/
def serverAt (times : List ℚ) : BarServer where
  bars _ := {bar | ∃ t ∈ times, bar = dayBar t}
  span r := r.barSizeSetting.chunkSeconds
  answer r := (times.filter fun t => decide
    ((r.endDateTime : ℚ) - r.barSizeSetting.chunkSeconds < t ∧ t ≤ r.endDateTime)).map dayBar
  exact r bar t ht := by
    simp only [List.mem_map, List.mem_filter, decide_eq_true_eq, Set.mem_ofPred_eq]
    constructor
    · rintro ⟨t', ⟨hmem, hwindow⟩, rfl⟩
      obtain rfl := Option.some.inj ht
      exact ⟨⟨t', hmem, rfl⟩, hwindow⟩
    · rintro ⟨⟨t', hmem, rfl⟩, hwindow⟩
      obtain rfl := Option.some.inj ht
      exact ⟨t', ⟨hmem, hwindow⟩, rfl⟩
  span_ge _ _ := le_rfl

/-- Three years of daily bars, without a failing request. -/
def threeYears : RangeCall where
  symbol := "AAPL"
  period := "1 D"
  startTs := some 0
  endTs := some (3 * 365 * 86400)
  now := 0
  qualify := .answered
  requests _ := .answered

/-- `str.lower` on ASCII text. -/
def asciiLower (s : String) : String := String.ofList (s.toList.map Char.toLower)

/-- The times of the bars that a call returns. -/
def returned (times : List ℚ) (c : RangeCall) : Option (List ℚ) :=
  match getHistoricalBarsRange asciiLower (serverAt times) c with
  | .ok out => some (out.map BarEntry.barTime)
  | .error _ => none

theorem exists_of_returned (times barTimes : List ℚ) (c : RangeCall)
    (h : returned times c = some barTimes) :
    ∃ out, getHistoricalBarsRange asciiLower (serverAt times) c = .ok out ∧
      out.map BarEntry.barTime = barTimes := by
  unfold returned at h
  split at h
  · next out hout => exact ⟨out, hout, Option.some.inj h⟩
  · cases h

theorem threeYears_chunks {k : ℕ} (h : 0 < chunkEnd .oneDay 0 (RangeCall.stop threeYears) k) :
    k < 3 ∧ chunkEnd .oneDay 0 (RangeCall.stop threeYears) k = ((3 - k) * 31536000 : ℤ) := by
  have heq : chunkEnd .oneDay 0 (RangeCall.stop threeYears) k = ((3 - k) * 31536000 : ℤ) := by
    rw [chunkEnd_eq h]
    simp only [RangeCall.stop, threeYears, Option.getD_some, BarSetting.chunkSeconds, oneDaySeconds]
    push_cast
    ring
  refine ⟨?_, heq⟩
  rw [heq] at h
  have hpos : (0 : ℤ) < (3 - k) * 31536000 := by exact_mod_cast h
  omega

theorem backfill_complete_iff_three_years : ∃ out,
    getHistoricalBarsRange asciiLower (serverAt [100, 31536100, 63072100]) threeYears = .ok out ∧
      out.map BarEntry.barTime = [63072100, 31536100, 100] ∧
      Covered asciiLower (serverAt [100, 31536100, 63072100]) threeYears 0 := by
  obtain ⟨out, hout, htimes⟩ := exists_of_returned [100, 31536100, 63072100]
    [63072100, 31536100, 100] threeYears (by decide +kernel)
  refine ⟨out, hout, htimes, (backfill_complete_iff rfl hout).mp ?_⟩
  have hset : RangeCall.setting asciiLower threeYears = .oneDay := by decide +kernel
  have hreach : chunkEnd .oneDay 0 (RangeCall.stop threeYears) maxLoops ≤ 0 := by
    rw [← not_lt]
    intro h
    have hk := (threeYears_chunks h).1
    simp [maxLoops] at hk
  refine complete_of_no_gap (n := 3 * 365 * 86400) rfl hout (by decide) rfl (fun _ => rfl)
    (by norm_num [RangeCall.stop, threeYears]) (by rw [hset]; exact hreach) fun k h => ?_
  rw [hset] at h ⊢
  obtain ⟨hk, heq⟩ := threeYears_chunks h
  rw [heq]
  have hwindow : InWindow (serverAt [100, 31536100, 63072100]) .oneDay
      ((3 - k) * 31536000 : ℤ) ((2 - k) * 31536000 + 100) := by
    rw [InWindow, endSeconds_intCast]
    simp only [serverAt, barRequest, BarSetting.chunkSeconds, oneDaySeconds]
    push_cast
    constructor
    · linarith
    · linarith
  refine ⟨dayBar ((2 - k) * 31536000 + 100), ⟨_, ?_, rfl⟩, _, rfl, hwindow⟩
  obtain rfl | rfl | rfl : k = 0 ∨ k = 1 ∨ k = 2 := by omega
  · norm_num
  · norm_num
  · norm_num

/-- No bar in the second year: the bar of the first one is not returned. -/
theorem empty_chunk_ends_backfill : ∃ out,
    getHistoricalBarsRange asciiLower (serverAt [100, 63072100]) threeYears = .ok out ∧
      ¬ Complete asciiLower (serverAt [100, 63072100]) threeYears 0 out := by
  obtain ⟨out, hout, htimes⟩ := exists_of_returned [100, 63072100] [63072100] threeYears
    (by decide +kernel)
  refine ⟨out, hout, fun hcomplete => ?_⟩
  have hfirst := hcomplete (dayBar 100) ⟨100, by simp, rfl⟩ _ rfl (by norm_num)
    (by norm_num [RangeCall.stop, threeYears])
  have htime : (100 : ℚ) ∈ out.map BarEntry.barTime := List.mem_map.mpr ⟨_, hfirst, rfl⟩
  rw [htimes] at htime
  norm_num at htime

end Instances

end BifrostSocket.BackfillCoverage
