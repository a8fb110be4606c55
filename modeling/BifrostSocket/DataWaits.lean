import BifrostSocket.ConfigOverlays
import BifrostSocket.OperatorProtocol
import Mathlib.Algebra.Order.Ring.Rat

/-!
# Waiting for Postgres and Redis

The script `wait_for_data` tries the endpoints of the config in rounds. It forgets an endpoint at
its first accepted connection, and gives up after a round: after the first one with `--once`, else
once the deadline has passed. A try is refused by an `OSError`; what else it raises (a host that
cannot be encoded, a port that is too large) ends the script. A round holds how a try of each
endpoint would end and the clock when the round is over.
-/

namespace BifrostSocket.DataWaits
open ConfigOverlays OperatorProtocol

section Endpoints

inductive Scalar where
  | none
  | bool (b : Bool)
  | int (n : ℤ)
  | str (s : String)
  deriving DecidableEq

abbrev Node := ConfigNode Scalar

def truthy : Node → Bool
  | .value .none => false
  | .value (.bool b) => b
  | .value (.int n) => decide (n ≠ 0)
  | .value (.str s) => decide (s ≠ "")
  | .dict entries => !entries.isEmpty

/-- `d.get(k) or None`. -/
def getTruthy (k : String) (d : Entries Scalar) : Option Node := (d.lookup k).filter truthy

/-- `int`; `none` stands for its `ValueError` or `TypeError`. -/
def intOf : Node → Option ℤ
  | .value (.bool b) => some (if b then 1 else 0)
  | .value (.int n) => some n
  | .value (.str s) => int s
  | .value .none | .dict _ => none

structure Endpoint where
  label : String
  host : String
  port : ℤ
  deriving DecidableEq

variable (reprDict : Entries Scalar → String)

/-- `str`; that of a dictionary is the parameter. -/
def strOf : Node → String
  | .value .none => "None"
  | .value (.bool b) => if b then "True" else "False"
  | .value (.int n) => toString n
  | .value (.str s) => s
  | .dict entries => reprDict entries

/-- The endpoint of one block, if it names a host. -/
def blockEndpoint (label : String) (defaultPort : ℤ) (block : Entries Scalar) :
    Option (List Endpoint) :=
  let host := strip (((getTruthy "host" block).map (strOf reprDict)).getD "")
  if host = "" then some []
  else
    (((getTruthy "port" block).map intOf).getD (some defaultPort)).map fun port =>
      [⟨label, host, port⟩]

def postgresEndpoint (cfg : Entries Scalar) : Option (List Endpoint) :=
  match (getTruthy "postgres" cfg).orElse fun _ => getTruthy "database" cfg with
  | some (.dict pg) => blockEndpoint reprDict "postgres" 5432 pg
  | some (.value _) | none => some []

def redisEndpoint (cfg : Entries Scalar) : Option (List Endpoint) :=
  match cfg.lookup "redis" with
  | some (.dict redis) =>
    if ((redis.lookup "enabled").map truthy).getD true then
      blockEndpoint reprDict "redis" 6379 redis
    else some []
  | some (.value _) | none => some []

/-- The endpoints in order; `none` if a port is no number. -/
def endpointsFromConfig (cfg : Entries Scalar) (includePg : Bool) : Option (List Endpoint) :=
  (if includePg then postgresEndpoint reprDict cfg else some []).bind fun pg =>
    (redisEndpoint reprDict cfg).map (pg ++ ·)

end Endpoints

section Rounds

/-- How `_tcp_ok` ends. -/
inductive Try where
  | accepts | refuses | raises
  deriving DecidableEq

structure Round where
  tries : Endpoint → Try
  clock : ℚ

structure Args where
  noPg : Bool
  once : Bool
  timeout : ℚ

inductive Result where
  | exits (code : ℕ)
  | raises
  | waits
  deriving DecidableEq

def givesUp (once : Bool) (deadline : Option ℚ) (r : Round) : Bool :=
  once || (deadline.map fun d => decide (d ≤ r.clock)).getD false

/-- One round: the endpoints that are still pending, unless a try raises. -/
def tryAll (r : Round) : List Endpoint → Option (List Endpoint)
  | [] => some []
  | e :: rest =>
    match r.tries e with
    | .accepts => tryAll r rest
    | .refuses => (tryAll r rest).map (e :: ·)
    | .raises => none

def waitLoop (once : Bool) (deadline : Option ℚ) : List Endpoint → List Round → Result
  | _, [] => .waits
  | pending, r :: rs =>
    match tryAll r pending with
    | none => .raises
    | some still =>
      if still.isEmpty then .exits 0
      else if givesUp once deadline r then .exits 1
      else waitLoop once deadline still rs

def Args.deadline (args : Args) (start : ℚ) : Option ℚ :=
  if args.timeout ≤ 0 then none else some (start + args.timeout)

/-- The exit code after the rounds so far. A config file that cannot be read is `none`. -/
def main (reprDict : Entries Scalar → String) (cfg : Option (Entries Scalar)) (args : Args)
    (start : ℚ) (rounds : List Round) : Result :=
  match cfg with
  | none => .exits 1
  | some cfg =>
    match endpointsFromConfig reprDict cfg (!args.noPg) with
    | none => .raises
    | some [] => .exits 0
    | some endpoints => waitLoop args.once (args.deadline start) endpoints rounds

end Rounds

section Loops

variable {once : Bool} {deadline : Option ℚ} {pending : List Endpoint} {rounds : List Round}

end Loops

section Main

variable {reprDict : Entries Scalar → String} {cfg : Entries Scalar} {args : Args} {start : ℚ}
  {rounds : List Round} {endpoints : List Endpoint}

end Main

end BifrostSocket.DataWaits
