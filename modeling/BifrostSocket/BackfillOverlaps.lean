import BifrostSocket.BackfillCoverage

/-!
# Bars of a backfill outside the range or returned twice

Every request asks for a whole duration, also the last one, which has less of the range left,
and a year may be a day longer than the step from one chunk to the next. What the windows hold
beyond the range and in common is returned as well.
-/

namespace BifrostSocket.BackfillOverlaps
open OperatorProtocol HistoricalBars BackfillCoverage

section Spec

/-- Each answer has one bar a time, and the durations are exact, but for a year of 366 days. -/
structure ExactSpans (srv : BarServer) : Prop where
  once : ∀ r, ((srv.answer r).filterMap barTime).Nodup
  spans : ∀ setting curEnd,
    srv.span (barRequest setting curEnd) = setting.chunkSeconds ∨
      setting = .oneDay ∧
        srv.span (barRequest setting curEnd) = setting.chunkSeconds + oneDaySeconds

/-- The server has a bar with this time. -/
def BarAt (srv : BarServer) (setting : BarSetting) (t : ℚ) : Prop :=
  ∃ bar ∈ srv.bars setting, barTime bar = some t

variable (lower : String → String) (srv : BarServer)

/-- The end of the walk's chunk `k`. -/
def RangeCall.chunkEnd (c : RangeCall) (start : ℚ) (k : ℕ) : ℚ :=
  HistoricalBars.chunkEnd (RangeCall.setting lower c) start (RangeCall.stop c) k

/-- Every bar of the result is in the range, and no two have the same time. -/
def InRangeOnce (c : RangeCall) (start : ℚ) (out : List BarEntry) : Prop :=
  (∀ e ∈ out, start ≤ e.barTime ∧ e.barTime ≤ RangeCall.stop c) ∧
    (out.map BarEntry.barTime).Nodup

/-- A time that is in the window of a chunk the walk comes through, and outside the range or
in the window of the next such chunk as well. -/
def Spare (c : RangeCall) (start t : ℚ) : Prop :=
  ∃ k, Reads lower srv c start k ∧
    InWindow srv (RangeCall.setting lower c) (RangeCall.chunkEnd lower c start k) t ∧
    (t < start ∨ RangeCall.stop c < t ∨ Reads lower srv c start (k + 1) ∧
      InWindow srv (RangeCall.setting lower c) (RangeCall.chunkEnd lower c start (k + 1)) t)

end Spec

section Seconds

theorem roundHalfEven_sub {q : ℚ} {m : ℤ} (hm : m % 2 = 0) :
    roundHalfEven (q - m) = roundHalfEven q - m := by
  have hfloor : ⌊q - m⌋ = ⌊q⌋ - m := Int.floor_sub_intCast q m
  have hfract : q - m - ((⌊q⌋ - m : ℤ) : ℚ) = q - ⌊q⌋ := by
    push_cast
    ring
  have hparity : (⌊q⌋ - m) % 2 = 0 ↔ ⌊q⌋ % 2 = 0 := by omega
  unfold roundHalfEven
  rw [hfloor, hfract]
  split
  · rfl
  · split
    · omega
    · by_cases hq : ⌊q⌋ % 2 = 0
      · rw [if_pos hq, if_pos (hparity.mpr hq)]
      · rw [if_neg hq, if_neg (fun h => hq (hparity.mp h))]
        omega

/-- The chunks' ends have the same fraction of a second, and so their requests keep the
distance of the chunks. -/
theorem endSeconds_sub (q : ℚ) (n : ℤ) : endSeconds (q - n) = endSeconds q - n := by
  have hshift : (q - n) * 1000000 = q * 1000000 - ((n * 1000000 : ℤ) : ℚ) := by
    push_cast
    ring
  have hdiv : ((roundHalfEven (q * 1000000) - n * 1000000 : ℤ) : ℚ) / 1000000 =
      (roundHalfEven (q * 1000000) : ℚ) / 1000000 - n := by
    push_cast
    ring
  rw [endSeconds, hshift, roundHalfEven_sub (by omega), hdiv, Int.floor_sub_intCast, endSeconds]

end Seconds

section Windows

variable {srv : BarServer} {setting : BarSetting} {start stop t : ℚ}

theorem oneDay_le_chunk (setting : BarSetting) : oneDaySeconds ≤ setting.chunkSeconds := by
  cases setting <;> decide

theorem endSeconds_chunkEnd {k : ℕ} (h : start < chunkEnd setting start stop k) :
    (endSeconds (chunkEnd setting start stop k) : ℚ) =
      endSeconds stop - k * setting.chunkSeconds := by
  have hint : stop - k * setting.chunkSeconds = stop - ((k * setting.chunkSeconds : ℤ) : ℚ) := by
    push_cast
    rfl
  rw [chunkEnd_eq h, hint, endSeconds_sub]
  push_cast
  rfl

theorem windows_apart (hsrv : ExactSpans srv) {i j : ℕ} (hij : i + 2 ≤ j)
    (hi : start < chunkEnd setting start stop i) (hj : start < chunkEnd setting start stop j)
    (hwi : InWindow srv setting (chunkEnd setting start stop i) t) :
    ¬ InWindow srv setting (chunkEnd setting start stop j) t := by
  intro hwj
  have hlow := hwi.1
  have hhigh := hwj.2
  rw [endSeconds_chunkEnd hi] at hlow
  rw [endSeconds_chunkEnd hj] at hhigh
  have hday : (oneDaySeconds : ℚ) ≤ setting.chunkSeconds := by
    exact_mod_cast oneDay_le_chunk setting
  have hpos : (0 : ℚ) < setting.chunkSeconds := by exact_mod_cast chunkSeconds_pos setting
  have hspan : srv.span (barRequest setting (chunkEnd setting start stop i)) ≤
      2 * setting.chunkSeconds := by
    rcases hsrv.spans setting (chunkEnd setting start stop i) with h | ⟨-, h⟩
    · linarith
    · linarith
  have hsteps : ((i : ℚ) + 2) * setting.chunkSeconds ≤ j * setting.chunkSeconds := by
    apply mul_le_mul_of_nonneg_right _ hpos.le
    exact_mod_cast hij
  linarith

/-- Windows next to each other share what the first one is longer than a chunk. -/
theorem windows_overlap_iff (hsrv : ExactSpans srv) {k : ℕ}
    (hk : start < chunkEnd setting start stop (k + 1)) :
    (InWindow srv setting (chunkEnd setting start stop k) t ∧
      InWindow srv setting (chunkEnd setting start stop (k + 1)) t) ↔
      endSeconds stop - k * setting.chunkSeconds -
          srv.span (barRequest setting (chunkEnd setting start stop k)) < t ∧
        t ≤ endSeconds stop - (k + 1) * setting.chunkSeconds := by
  have hprev := start_lt_chunkEnd hk (Nat.le_succ k)
  have hpos : (0 : ℚ) < setting.chunkSeconds := by exact_mod_cast chunkSeconds_pos setting
  have hday : (oneDaySeconds : ℚ) ≤ setting.chunkSeconds := by
    exact_mod_cast oneDay_le_chunk setting
  have hspan := srv.span_ge setting (chunkEnd setting start stop (k + 1))
  rw [InWindow, InWindow, endSeconds_chunkEnd hprev, endSeconds_chunkEnd hk]
  push_cast
  constructor
  · rintro ⟨⟨hlow, -⟩, -, hhigh⟩
    exact ⟨hlow, hhigh⟩
  · rintro ⟨hlow, hhigh⟩
    refine ⟨⟨hlow, by linarith⟩, ?_, hhigh⟩
    rcases hsrv.spans setting (chunkEnd setting start stop k) with h | ⟨-, h⟩
    · linarith
    · linarith

theorem windows_tile (hsrv : ExactSpans srv) {k : ℕ}
    (hk : start < chunkEnd setting start stop (k + 1))
    (hspan : srv.span (barRequest setting (chunkEnd setting start stop k)) = setting.chunkSeconds)
    (hw : InWindow srv setting (chunkEnd setting start stop k) t) :
    ¬ InWindow srv setting (chunkEnd setting start stop (k + 1)) t := by
  intro hw'
  have h := (windows_overlap_iff hsrv hk).mp ⟨hw, hw'⟩
  rw [hspan] at h
  linarith

end Windows

section Ranges

variable {lower : String → String} {srv : BarServer} {c : RangeCall} {start : ℚ}
  {out : List BarEntry}

theorem map_barTime_chunkBars (setting : BarSetting) (curEnd : ℚ) :
    (chunkBars srv setting curEnd).map BarEntry.barTime =
      (srv.answer (barRequest setting curEnd)).filterMap barTime := by
  unfold chunkBars convertIbBars
  rw [List.map_filterMap]
  apply List.filterMap_congr
  intro bar _
  rw [convertIbBar, Option.map_map]
  exact Option.map_id'

theorem mem_chunkTimes {setting : BarSetting} {curEnd t : ℚ} :
    t ∈ (chunkBars srv setting curEnd).map BarEntry.barTime ↔
      BarAt srv setting t ∧ InWindow srv setting curEnd t := by
  rw [map_barTime_chunkBars, List.mem_filterMap]
  constructor
  · rintro ⟨bar, hbar, ht⟩
    obtain ⟨hmem, hwindow⟩ := (mem_answer ht).mp hbar
    exact ⟨⟨bar, hmem, ht⟩, hwindow⟩
  · rintro ⟨⟨bar, hmem, ht⟩, hwindow⟩
    exact ⟨bar, (mem_answer ht).mpr ⟨hmem, hwindow⟩, ht⟩

/-- The result is the bars of the chunks that the walk comes through, the last one first. -/
theorem range_eq (hstart : c.startTs = some start)
    (h : getHistoricalBarsRange lower srv c = .ok out) :
    ∃ n, (∀ k, Reads lower srv c start k ↔ k < n) ∧
      out = (List.range n).flatMap fun k =>
        chunkBars srv (RangeCall.setting lower c) (RangeCall.chunkEnd lower c start k) := by
  unfold getHistoricalBarsRange at h
  split at h
  · next hblank =>
    obtain rfl : [] = out := Except.ok.inj h
    exact ⟨0, fun k => iff_of_false (fun hk => hk.1 hblank) (Nat.not_lt_zero k), rfl⟩
  · next hsymbol =>
    split at h
    · cases h
    · next hqualify =>
      obtain rfl : [] = out := Except.ok.inj h
      refine ⟨0, fun k => iff_of_false (fun hk => ?_) (Nat.not_lt_zero k), rfl⟩
      have hanswered := hk.2.1
      rw [hqualify] at hanswered
      cases hanswered
    · next hqualify =>
      rw [hstart] at h
      obtain ⟨n, hn, hall, hend, rfl⟩ := walk_eq h
      simp only [Nat.zero_add, ChunkRead, chunk_ne_nil] at hall hend
      refine ⟨n, fun k => ⟨fun hk => ?_, fun hk => ?_⟩, rfl⟩
      · by_contra hnk
        have hlt : n < maxLoops := (not_lt.mp hnk).trans_lt hk.2.2.1
        exact hend hlt (hk.2.2.2 n (not_lt.mp hnk))
      · exact ⟨hsymbol, hqualify, hk.trans_le hn, fun i hi => hall i (hi.trans_lt hk)⟩

/-- The first `n` chunks of the walk. -/
def firstChunks (lower : String → String) (srv : BarServer) (c : RangeCall) (start : ℚ)
    (n : ℕ) : List BarEntry :=
  (List.range n).flatMap fun k =>
    chunkBars srv (RangeCall.setting lower c) (RangeCall.chunkEnd lower c start k)

theorem mem_firstChunks {n : ℕ} {t : ℚ} :
    t ∈ (firstChunks lower srv c start n).map BarEntry.barTime ↔
      ∃ k < n, BarAt srv (RangeCall.setting lower c) t ∧
        InWindow srv (RangeCall.setting lower c) (RangeCall.chunkEnd lower c start k) t := by
  rw [firstChunks, List.map_flatMap, List.mem_flatMap]
  simp only [List.mem_range, mem_chunkTimes]

/-- Times are repeated where two windows hold a bar in common, and these are next to each
other. -/
theorem nodup_firstChunks (hsrv : ExactSpans srv) {n : ℕ}
    (hafter : ∀ k < n, start < RangeCall.chunkEnd lower c start k) :
    ((firstChunks lower srv c start n).map BarEntry.barTime).Nodup ↔ ∀ k, k + 1 < n → ∀ t,
      BarAt srv (RangeCall.setting lower c) t →
      InWindow srv (RangeCall.setting lower c) (RangeCall.chunkEnd lower c start k) t →
      ¬ InWindow srv (RangeCall.setting lower c) (RangeCall.chunkEnd lower c start (k + 1)) t := by
  rw [firstChunks, List.map_flatMap, List.nodup_flatMap, and_iff_right, List.pairwise_iff_getElem]
  · simp only [List.length_range, List.getElem_range, Function.onFun, List.disjoint_left,
      mem_chunkTimes, not_and]
    constructor
    · intro hd k hk t hbar hw
      exact hd k (k + 1) (Nat.lt_of_succ_lt hk) hk (Nat.lt_succ_self k) ⟨hbar, hw⟩ hbar
    · rintro hd i j - hj hij t ⟨hbar, hwi⟩ -
      rcases Nat.lt_or_ge (i + 1) j with hfar | hnear
      · exact windows_apart hsrv hfar (hafter i (hij.trans hj)) (hafter j hj) hwi
      · obtain rfl : j = i + 1 := by omega
        exact hd i hj t hbar hwi
  · intro k _
    rw [map_barTime_chunkBars]
    exact hsrv.once _

/-- A backfill returns only bars of the range, and none twice, if and only if the server has
no bar in the windows' spare parts. -/
theorem backfill_exact_iff (hsrv : ExactSpans srv) (hstart : c.startTs = some start)
    (h : getHistoricalBarsRange lower srv c = .ok out) :
    InRangeOnce c start out ↔
      ∀ t, BarAt srv (RangeCall.setting lower c) t → ¬ Spare lower srv c start t := by
  obtain ⟨n, hreads, hout⟩ := range_eq hstart h
  obtain rfl : out = firstChunks lower srv c start n := hout
  have hafter : ∀ k < n, start < RangeCall.chunkEnd lower c start k :=
    fun k hk => (((hreads k).mpr hk).2.2.2 k le_rfl).1
  unfold InRangeOnce
  rw [nodup_firstChunks hsrv hafter]
  constructor
  · rintro ⟨hrange, honce⟩ t hbar ⟨k, hk, hw, hspare⟩
    obtain ⟨e, he, rfl⟩ := List.mem_map.mp (mem_firstChunks.mpr ⟨k, (hreads k).mp hk, hbar, hw⟩)
    obtain ⟨hge, hle⟩ := hrange e he
    rcases hspare with hlt | hgt | ⟨hnext, hw'⟩
    · exact absurd hlt (not_lt.mpr hge)
    · exact absurd hgt (not_lt.mpr hle)
    · exact honce k ((hreads _).mp hnext) _ hbar hw hw'
  · intro hfree
    constructor
    · intro e he
      obtain ⟨k, hk, hbar, hw⟩ := mem_firstChunks.mp (List.mem_map_of_mem he)
      have hfree' := hfree _ hbar
      constructor
      · by_contra hlt
        exact hfree' ⟨k, (hreads k).mpr hk, hw, .inl (not_le.mp hlt)⟩
      · by_contra hgt
        exact hfree' ⟨k, (hreads k).mpr hk, hw, .inr (.inl (not_le.mp hgt))⟩
    · intro k hk t hbar hw hw'
      exact hfree t hbar ⟨k, (hreads k).mpr (Nat.lt_of_succ_lt hk), hw,
        .inr (.inr ⟨(hreads _).mpr hk, hw'⟩)⟩

theorem nodup_of_exact_durations (hsrv : ExactSpans srv) (hstart : c.startTs = some start)
    (h : getHistoricalBarsRange lower srv c = .ok out)
    (hset : RangeCall.setting lower c ≠ .oneDay) : (out.map BarEntry.barTime).Nodup := by
  obtain ⟨n, hreads, hout⟩ := range_eq hstart h
  obtain rfl : out = firstChunks lower srv c start n := hout
  have hafter : ∀ k < n, start < RangeCall.chunkEnd lower c start k :=
    fun k hk => (((hreads k).mpr hk).2.2.2 k le_rfl).1
  rw [nodup_firstChunks hsrv hafter]
  intro k hk t _ hw
  have hspan := (hsrv.spans (RangeCall.setting lower c)
    (RangeCall.chunkEnd lower c start k)).resolve_right fun h => hset h.1
  exact windows_tile hsrv (hafter _ hk) hspan hw

end Ranges

section Instances

theorem exactSpans_serverAt {times : List ℚ} (h : times.Nodup) :
    ExactSpans (serverAt times) where
  once r := by
    have htimes : ∀ l : List ℚ, (l.map dayBar).filterMap barTime = l := by
      intro l
      rw [List.filterMap_map]
      exact List.filterMap_some
    rw [serverAt, htimes]
    exact h.filter _
  spans _ _ := .inl rfl

/-- The last day of a year. -/
def lastDay : RangeCall := { threeYears with startTs := some 31449600, endTs := some 31536000 }

theorem backfill_exact_iff_one_day : ∃ out,
    getHistoricalBarsRange asciiLower (serverAt [31449700]) lastDay = .ok out ∧
      out.map BarEntry.barTime = [31449700] ∧
      ∀ t, BarAt (serverAt [31449700]) (RangeCall.setting asciiLower lastDay) t →
        ¬ Spare asciiLower (serverAt [31449700]) lastDay 31449600 t := by
  obtain ⟨out, hout, htimes⟩ := exists_of_returned [31449700] [31449700] lastDay (by decide +kernel)
  refine ⟨out, hout, htimes, ?_⟩
  apply (backfill_exact_iff (exactSpans_serverAt (List.nodup_singleton _)) rfl hout).mp
  refine ⟨fun e he => ?_, by rw [htimes]; exact List.nodup_singleton _⟩
  have hmem := List.mem_map_of_mem (f := BarEntry.barTime) he
  rw [htimes, List.mem_singleton] at hmem
  rw [hmem]
  norm_num [RangeCall.stop, lastDay]

/-- The request for the last day asks for a year, and a bar from its beginning is returned. -/
theorem bar_before_start_returned : ∃ out,
    getHistoricalBarsRange asciiLower (serverAt [100]) lastDay = .ok out ∧
      out.map BarEntry.barTime = [100] ∧ ¬ InRangeOnce lastDay 31449600 out := by
  obtain ⟨out, hout, htimes⟩ := exists_of_returned [100] [100] lastDay (by decide +kernel)
  refine ⟨out, hout, htimes, fun hexact => ?_⟩
  obtain ⟨e, he, htime⟩ : ∃ e ∈ out, e.barTime = 100 := by
    apply List.mem_map.mp
    rw [htimes]
    exact List.mem_singleton_self _
  have hge := (hexact.1 e he).1
  rw [htime] at hge
  norm_num at hge

end Instances

end BifrostSocket.BackfillOverlaps
