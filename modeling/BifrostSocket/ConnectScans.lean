import Mathlib.Algebra.Order.Ring.Int
import Mathlib.Tactic.Linarith

/-!
# The connect scan over ports and client ids

`connect` tries the client ids from the connector's own one upwards on a port, and goes on
to the next port when a connection is refused. The double loop is a scan that each attempt's
outcome moves on.
-/

namespace BifrostSocket.ConnectScans

/-- The loop variables of `connect`, and what they started from. -/
structure ConnectScan where
  basePort : ℤ
  baseId : ℤ
  limit : ℕ
  steps : ℕ
  portStep : ℕ := 0
  attempt : ℕ := 0
  deriving DecidableEq

inductive AttemptOutcome where
  | success | refused | failed
  deriving DecidableEq

inductive Next where
  | again (scan : ConnectScan)
  | ended (ok : Bool)
  deriving DecidableEq

namespace ConnectScan

def tryPort (sc : ConnectScan) : ℤ := sc.basePort + sc.portStep

def tryId (sc : ConnectScan) : ℤ := sc.baseId + sc.attempt

/-- Ten attempts when no limit is given, and between one and twenty ports. -/
def start (port clientId : ℤ) (maxAttempts : Option ℤ) (maxPortSteps : ℤ) : ConnectScan where
  basePort := port
  baseId := clientId
  limit := (maxAttempts.getD 10).toNat
  steps := (max 1 (min 20 maxPortSteps)).toNat

def next (sc : ConnectScan) : AttemptOutcome → Next
  | .success => .ended true
  | .refused =>
    if sc.portStep + 1 < sc.steps then .again { sc with portStep := sc.portStep + 1, attempt := 0 }
    else .ended false
  | .failed =>
    if sc.attempt + 1 < sc.limit then .again { sc with attempt := sc.attempt + 1 }
    else .ended false

/-- The loop variables are in their ranges. -/
structure Valid (sc : ConnectScan) : Prop where
  attempt : sc.attempt < sc.limit
  portStep : sc.portStep < sc.steps

variable {sc sc' : ConnectScan} {o : AttemptOutcome}

theorem valid_start {port clientId maxPortSteps : ℤ} {maxAttempts : Option ℤ}
    (h : 1 ≤ maxAttempts.getD 10) : (start port clientId maxAttempts maxPortSteps).Valid := by
  constructor
  · simp only [start]
    omega
  · simp only [start]
    omega

theorem next_again (h : sc.next o = .again sc') :
    sc'.basePort = sc.basePort ∧ sc'.baseId = sc.baseId ∧ sc'.limit = sc.limit ∧
      sc'.steps = sc.steps := by
  cases o with
  | success => cases h
  | refused =>
    simp only [next] at h
    split at h
    · obtain rfl := Next.again.inj h
      exact ⟨rfl, rfl, rfl, rfl⟩
    · cases h
  | failed =>
    simp only [next] at h
    split at h
    · obtain rfl := Next.again.inj h
      exact ⟨rfl, rfl, rfl, rfl⟩
    · cases h

theorem Valid.next (hv : sc.Valid) (h : sc.next o = .again sc') : sc'.Valid := by
  have hattempt := hv.attempt
  have hport := hv.portStep
  cases o with
  | success => cases h
  | refused =>
    simp only [ConnectScan.next] at h
    split at h
    · next hlt =>
      obtain rfl := Next.again.inj h
      exact ⟨Nat.lt_of_le_of_lt (Nat.zero_le _) hattempt, hlt⟩
    · cases h
  | failed =>
    simp only [ConnectScan.next] at h
    split at h
    · next hlt =>
      obtain rfl := Next.again.inj h
      exact ⟨hlt, hport⟩
    · cases h

/-- Every id that is tried lies in the scan's window. -/
theorem Valid.tryId_mem (hv : sc.Valid) :
    sc.baseId ≤ sc.tryId ∧ sc.tryId ≤ sc.baseId + (sc.limit - 1 : ℕ) := by
  have hattempt := hv.attempt
  unfold tryId
  constructor
  · omega
  · omega

end ConnectScan

end BifrostSocket.ConnectScans
