import BifrostSocket.IngestorWatchlists
import Mathlib.Data.Rat.Floor
import Mathlib.Data.Set.Defs

/-!
# Historical bars over a time range

`get_historical_bars_range` walks back from the end of the range, one request a chunk. A
request names its end in whole seconds; the server is the set of its bars for each bar
setting, and answers with those in the window before that end. `lower` stands for `str.lower`,
times are exact numbers of seconds.
-/

namespace BifrostSocket.HistoricalBars
open OperatorProtocol IngestorWatchlists

section Bars

/-- The `date` of a bar: a `datetime` with its timestamp, or something else with what
`fromisoformat` and `timestamp` make of its text. -/
inductive BarDate where
  | datetime (timestamp : ℚ) (text : String)
  | other (timestamp : Option ℚ) (text : String)

structure IbBar where
  date : Option BarDate
  open_ : Option PyFloat
  high : Option PyFloat
  low : Option PyFloat
  close : Option PyFloat
  volume : Option PyFloat

structure BarEntry where
  barTime : ℚ
  open_ : PyFloat
  high : PyFloat
  low : PyFloat
  close : PyFloat
  volume : PyFloat
  barDate : Option String
  deriving DecidableEq

/-- `float(x or 0)`. -/
def floatOrZero (x : Option PyFloat) : PyFloat := x.getD (.finite 0)

def barTime (bar : IbBar) : Option ℚ :=
  match bar.date with
  | none => none
  | some (.datetime ts _) => some ts
  | some (.other ts _) => ts

def barDateStr (bar : IbBar) : Option String :=
  match bar.date with
  | none => none
  | some (.datetime _ text) | some (.other _ text) =>
    let s := (text.take 10).copy
    if s = "" then none else some s

def convertIbBar (bar : IbBar) : Option BarEntry :=
  (barTime bar).map fun ts =>
    { barTime := ts
      open_ := floatOrZero bar.open_
      high := floatOrZero bar.high
      low := floatOrZero bar.low
      close := floatOrZero bar.close
      volume := floatOrZero bar.volume
      barDate := barDateStr bar }

def convertIbBars (bars : List IbBar) : List BarEntry := bars.filterMap convertIbBar

end Bars

section Requests

inductive BarSetting where
  | oneDay | oneMin | fiveMins | oneHour
  deriving DecidableEq

def barSizeMap : List (String × BarSetting) :=
  [("1 d", .oneDay), ("1 day", .oneDay), ("1 min", .oneMin), ("5 mins", .fiveMins),
    ("1 hour", .oneHour), ("1 h", .oneHour)]

def barSetting (lower : String → String) (period : String) : BarSetting :=
  (barSizeMap.lookup (lower (strip (orDefault (some period) "1 D")))).getD .oneDay

def oneDaySeconds : ℤ := 24 * 60 * 60

def BarSetting.chunkSeconds : BarSetting → ℤ
  | .oneDay => 365 * oneDaySeconds
  | .oneHour | .fiveMins => 7 * oneDaySeconds
  | .oneMin => oneDaySeconds

def BarSetting.durationStr : BarSetting → String
  | .oneDay => "1 Y"
  | .oneHour | .fiveMins => "1 W"
  | .oneMin => "1 D"

structure BarRequest where
  endDateTime : ℤ
  durationStr : String
  barSizeSetting : BarSetting
  useRth : Bool

/-- Rounding to the nearest integer, and to the even one of two. -/
def roundHalfEven (q : ℚ) : ℤ :=
  if q - ⌊q⌋ < 1 / 2 then ⌊q⌋
  else if 1 / 2 < q - ⌊q⌋ then ⌊q⌋ + 1
  else if ⌊q⌋ % 2 = 0 then ⌊q⌋ else ⌊q⌋ + 1

/-- The seconds that `strftime` prints of `fromtimestamp`, which rounds to microseconds. -/
def endSeconds (curEnd : ℚ) : ℤ := ⌊(roundHalfEven (curEnd * 1000000) : ℚ) / 1000000⌋

def barRequest (setting : BarSetting) (curEnd : ℚ) : BarRequest where
  endDateTime := endSeconds curEnd
  durationStr := setting.durationStr
  barSizeSetting := setting
  useRth := decide (setting ≠ .oneDay)

/-- A server answers with exactly its bars in the window that the duration spans, which is
at least a chunk long. -/
structure BarServer where
  bars : BarSetting → Set IbBar
  span : BarRequest → ℚ
  answer : BarRequest → List IbBar
  exact : ∀ r bar t, barTime bar = some t →
    (bar ∈ answer r ↔ bar ∈ bars r.barSizeSetting ∧ r.endDateTime - span r < t ∧
      t ≤ r.endDateTime)
  span_ge : ∀ setting curEnd, setting.chunkSeconds ≤ span (barRequest setting curEnd)

/-- How a call to IB ends, by what `_is_connection_dropped` makes of its error. -/
inductive IbCall where
  | answered | failed | dropped
  deriving DecidableEq

/-- `IBConnectionDroppedError`. -/
inductive Raised where
  | connectionDropped
  deriving DecidableEq

/-- What a call reads: `requests k` is how the request after `k` others ends. -/
structure RangeCall where
  symbol : String
  period : String
  startTs : Option ℚ
  endTs : Option ℚ
  now : ℚ
  qualify : IbCall
  requests : ℕ → IbCall

def maxLoops : ℕ := 2000

variable (lower : String → String) (srv : BarServer)

/-- The loop, for the loops that are left, the number of requests made and the end of the
next chunk. -/
def walk (setting : BarSetting) (start : Option ℚ) (requests : ℕ → IbCall) :
    ℕ → ℕ → ℚ → List BarEntry → Except Raised (List BarEntry)
  | 0, _, _, allOut => .ok allOut
  | loops + 1, k, curEnd, allOut =>
    if start.any fun s => decide (curEnd ≤ s) then .ok allOut
    else
      let segStart := match start with
        | some s => max s (curEnd - setting.chunkSeconds)
        | none => curEnd - setting.chunkSeconds
      match requests k with
      | .dropped => .error .connectionDropped
      | .failed => .ok allOut
      | .answered =>
        let chunkOut := convertIbBars (srv.answer (barRequest setting curEnd))
        if chunkOut.isEmpty then .ok allOut
        else if start.isNone then .ok (allOut ++ chunkOut)
        else walk setting start requests loops (k + 1) segStart (allOut ++ chunkOut)

def getHistoricalBarsRange (c : RangeCall) : Except Raised (List BarEntry) :=
  if strip c.symbol = "" then .ok []
  else
    match c.qualify with
    | .dropped => .error .connectionDropped
    | .failed => .ok []
    | .answered =>
      walk srv (barSetting lower c.period) c.startTs c.requests maxLoops 0 (c.endTs.getD c.now) []

end Requests

section Walks

variable {setting : BarSetting} {srv : BarServer} {start : ℚ} {requests : ℕ → IbCall}

/-- The ends of the chunks, from the given one on. -/
def chunkEnd (setting : BarSetting) (start curEnd : ℚ) : ℕ → ℚ
  | 0 => curEnd
  | k + 1 => max start (chunkEnd setting start curEnd k - setting.chunkSeconds)

theorem chunkEnd_succ (curEnd : ℚ) (k : ℕ) :
    chunkEnd setting start curEnd (k + 1) =
      chunkEnd setting start (max start (curEnd - setting.chunkSeconds)) k := by
  induction k with
  | zero => rfl
  | succ k ih => rw [chunkEnd, ih, chunkEnd]

/-- The chunk at this end is requested, answered, and not empty. -/
def ChunkRead (srv : BarServer) (setting : BarSetting) (start : ℚ) (call : IbCall)
    (curEnd : ℚ) : Prop :=
  start < curEnd ∧ call = .answered ∧
    convertIbBars (srv.answer (barRequest setting curEnd)) ≠ []

/-- The bars of the chunk at this end. -/
def chunkBars (srv : BarServer) (setting : BarSetting) (curEnd : ℚ) : List BarEntry :=
  convertIbBars (srv.answer (barRequest setting curEnd))

/-- One loop of a walk that returns: it ends at a chunk that is not read, or keeps the chunk's
bars and goes on. -/
theorem walk_succ {loops k : ℕ} {curEnd : ℚ} {allOut out : List BarEntry}
    (h : walk srv setting (some start) requests (loops + 1) k curEnd allOut = .ok out) :
    (¬ ChunkRead srv setting start (requests k) curEnd ∧ allOut = out) ∨
    ChunkRead srv setting start (requests k) curEnd ∧
      walk srv setting (some start) requests loops (k + 1)
        (max start (curEnd - setting.chunkSeconds))
        (allOut ++ chunkBars srv setting curEnd) = .ok out := by
  unfold walk at h
  split at h
  · next hend =>
    have hle : curEnd ≤ start := by simpa using hend
    exact .inl ⟨fun hread => absurd hread.1 (not_lt.mpr hle), Except.ok.inj h⟩
  · next hend =>
    have hlt : start < curEnd := by simpa using hend
    dsimp only at h
    split at h
    · cases h
    · next hfail =>
      refine .inl ⟨fun hread => ?_, Except.ok.inj h⟩
      have hanswered := hread.2.1
      rw [hfail] at hanswered
      cases hanswered
    · next hanswered =>
      split at h
      · next hempty =>
        exact .inl ⟨fun hread => hread.2.2 (List.isEmpty_iff.mp hempty), Except.ok.inj h⟩
      · next hne =>
        rw [if_neg (by simp)] at h
        exact .inr ⟨⟨hlt, hanswered, fun hnil => hne (List.isEmpty_iff.mpr hnil)⟩, h⟩

/-- A walk that returns has put together the bars of the chunks before the first one that was
not read. -/
theorem walk_eq {loops k : ℕ} {curEnd : ℚ} {allOut out : List BarEntry}
    (h : walk srv setting (some start) requests loops k curEnd allOut = .ok out) :
    ∃ n ≤ loops,
      (∀ i < n, ChunkRead srv setting start (requests (k + i)) (chunkEnd setting start curEnd i)) ∧
      (n < loops →
        ¬ ChunkRead srv setting start (requests (k + n)) (chunkEnd setting start curEnd n)) ∧
      out = allOut ++ (List.range n).flatMap fun i =>
        chunkBars srv setting (chunkEnd setting start curEnd i) := by
  induction loops generalizing k curEnd allOut with
  | zero =>
    obtain rfl : allOut = out := Except.ok.inj h
    exact ⟨0, le_rfl, by simp, by simp, by simp⟩
  | succ loops ih =>
    rcases walk_succ h with ⟨hunread, rfl⟩ | ⟨hread, hrest⟩
    · exact ⟨0, Nat.zero_le _, by simp, fun _ => hunread, by simp⟩
    · obtain ⟨n, hn, hall, hend, rfl⟩ := ih hrest
      refine ⟨n + 1, by omega, fun i hi => ?_, fun hlt => ?_, ?_⟩
      · cases i with
        | zero => exact hread
        | succ i =>
          rw [chunkEnd_succ, show k + (i + 1) = k + 1 + i by omega]
          exact hall i (by omega)
      · rw [chunkEnd_succ, show k + (n + 1) = k + 1 + n by omega]
        exact hend (by omega)
      · rw [List.range_succ_eq_map, List.flatMap_cons, List.flatMap_map, List.append_assoc]
        simp only [chunkEnd_succ]
        rfl

theorem mem_walk {loops k : ℕ} {curEnd : ℚ} {allOut out : List BarEntry} {entry : BarEntry}
    (h : walk srv setting (some start) requests loops k curEnd allOut = .ok out) :
    entry ∈ out ↔ entry ∈ allOut ∨ ∃ j < loops,
      (∀ i ≤ j, ChunkRead srv setting start (requests (k + i)) (chunkEnd setting start curEnd i)) ∧
      entry ∈ convertIbBars
        (srv.answer (barRequest setting (chunkEnd setting start curEnd j))) := by
  obtain ⟨n, hn, hall, hend, rfl⟩ := walk_eq h
  rw [List.mem_append, List.mem_flatMap]
  refine or_congr_right ⟨?_, ?_⟩
  · rintro ⟨j, hj, hmem⟩
    rw [List.mem_range] at hj
    exact ⟨j, by omega, fun i hi => hall i (by omega), hmem⟩
  · rintro ⟨j, hj, hread, hmem⟩
    refine ⟨j, ?_, hmem⟩
    rw [List.mem_range]
    by_contra hnj
    exact hend (by omega) (hread n (by omega))

end Walks

section Timestamps

/-- The first microsecond of year 1 and the one after year 9999. -/
def minMicros : ℤ := -62135596800000000

def maxMicros : ℤ := 253402300800000000

/-- `datetime.fromtimestamp` with the time zone UTC, as microseconds since the epoch; `none` where
it raises. -/
def fromTimestamp (seconds : ℚ) : Option ℤ :=
  let us := roundHalfEven (seconds * 1000000)
  if minMicros ≤ us ∧ us < maxMicros then some us else none

def timestamp (us : ℤ) : ℚ := us / 1000000

end Timestamps

end BifrostSocket.HistoricalBars
