import BifrostSocket.TransitionRuns
import BifrostSocket.IngestorWatchlists

/-!
# Poll cycles of an ingestor session

The connector's ticker dictionaries, the market-data lines that IB holds open for it, and
the poll cycle that drops all subscriptions and requests those of the current watchlist.
Contracts and tickers are objects with an identity. A line belongs to the contract object
it was requested for, and is closed by handing that same object to `cancelMktData`.
-/

namespace BifrostSocket.IngestorSessions
open TransitionRuns OperatorProtocol SeenLists IngestorWatchlists

section Lines

/-- The contract objects with an open line, and a record of the lines that were opened since
the current cycle began. -/
structure IbMarket where
  nextObject : ℕ
  lines : List ℕ
  opened : List ℕ
  deriving DecidableEq

def IbMarket.openLine (m : IbMarket) (contract : ℕ) : IbMarket :=
  { m with lines := m.lines ++ [contract], opened := m.opened ++ [contract] }

/-- The ticker of a request that did not raise is a new object. -/
def IbMarket.reqMktData (m : IbMarket) (contract : ℕ) : CallFault → IbMarket × Option ℕ
  | .none =>
    ({ m.openLine contract with nextObject := m.nextObject + 1 }, some m.nextObject)
  | .before => (m, none)
  | .after => (m.openLine contract, none)

def IbMarket.cancelMktData (m : IbMarket) (object : ℕ) : CallFault → IbMarket
  | .before => m
  | _ => { m with lines := m.lines.filter fun x => decide (x ≠ object) }

end Lines

section Tickers

/-- A dictionary of ticker objects. -/
abbrev Tickers := List (String × ℕ)

def Tickers.setItem (d : Tickers) (k : String) (v : ℕ) : Tickers :=
  if d.any (fun p => decide (p.1 = k)) then d.map fun p => if p.1 = k then (k, v) else p
  else d ++ [(k, v)]

def Tickers.pop (d : Tickers) (k : String) : Tickers := d.filter fun p => decide (p.1 ≠ k)

/-- Keeping the ticker of a request, if there is one. -/
def Tickers.record (d : Tickers) (k : String) : Option ℕ → Tickers
  | none => d
  | some ticker => d.setItem k ticker

theorem Tickers.mem_record {d : Tickers} {k : String} {o : Option ℕ} {p : String × ℕ}
    (h : p ∈ d.record k o) : p ∈ d ∨ o = some p.2 := by
  cases o with
  | none => exact .inl h
  | some ticker =>
    simp only [record, setItem] at h
    split at h
    · obtain ⟨q, hq, rfl⟩ := List.mem_map.mp h
      split
      · exact .inr rfl
      · exact .inl hq
    · rcases List.mem_append.mp h with h | h
      · exact .inl h
      · obtain rfl := List.mem_singleton.mp h
        exact .inr rfl

end Tickers

section Connectors

structure Connector where
  tickers : Tickers
  optionTickers : Tickers
  ib : IbMarket
  deriving DecidableEq

/-- How the calls for one stock go: whether it qualifies, and the request. -/
structure StkCalls where
  qualifies : Bool
  request : CallFault

/-- How the calls for one option go: the connection seen, the request without qualifying,
and, where that raised, qualifying and the second request. -/
structure OptCalls where
  connected : Bool
  first : CallFault
  qualifies : Bool
  second : CallFault

/-- How the calls of one poll cycle go. A cycle names a symbol or a key at most once in each
of its loops. -/
structure Calls where
  cancelStk : String → CallFault
  cancelOpt : String → CallFault
  optConnected : Bool
  opt : String → OptCalls
  stkConnected : Bool
  stk : String → StkCalls

def allSucceed : Calls where
  cancelStk := fun _ => .none
  cancelOpt := fun _ => .none
  optConnected := true
  opt := fun _ => ⟨true, .none, true, .none⟩
  stkConnected := true
  stk := fun _ => ⟨true, .none⟩

/-- The body of both unsubscribe methods, for the dictionary each of them works on. The
object handed to `cancelMktData` is the ticker. -/
def unsubscribe (d : Tickers) (ib : IbMarket) (key : String) (call : CallFault) :
    Tickers × IbMarket :=
  match d.lookup (strip key) with
  | none => (d, ib)
  | some ticker =>
    if strip key = "" then (d, ib) else (d.pop (strip key), ib.cancelMktData ticker call)

def Connector.unsubscribeTicker (c : Connector) (symbol : String) (call : CallFault) :
    Connector :=
  let r := unsubscribe c.tickers c.ib symbol call
  { c with tickers := r.1, ib := r.2 }

def Connector.unsubscribeOptionTicker (c : Connector) (contractKey : String)
    (call : CallFault) : Connector :=
  let r := unsubscribe c.optionTickers c.ib contractKey call
  { c with optionTickers := r.1, ib := r.2 }

/-- A new contract object. -/
def Connector.newContract (c : Connector) : ℕ × Connector :=
  (c.ib.nextObject, { c with ib := { c.ib with nextObject := c.ib.nextObject + 1 } })

/-- The loop body of `subscribe_tickers` for a new symbol. -/
def Connector.subscribeTicker (c : Connector) (symbol : String) (calls : StkCalls) :
    Connector :=
  let (stock, c) := c.newContract
  if calls.qualifies then
    let r := c.ib.reqMktData stock calls.request
    { c with tickers := c.tickers.record symbol r.2, ib := r.1 }
  else c

def Connector.subscribeTickers (c : Connector) (symbols : List String) (calls : Calls) :
    Connector :=
  if calls.stkConnected then
    (firstSeen id [] ((symbols.map strip).filter fun s => decide (s ≠ ""))).foldl
      (fun c s => c.subscribeTicker s (calls.stk s)) c
  else c

/-- Both requests of `subscribe_option_ticker` are for one contract object. -/
def requestOption (ib : IbMarket) (contract : ℕ) (calls : OptCalls) : IbMarket × Option ℕ :=
  match ib.reqMktData contract calls.first with
  | (ib, some ticker) => (ib, some ticker)
  | (ib, none) =>
    if calls.qualifies then ib.reqMktData contract calls.second else (ib, none)

variable (upper : String → String)

def Connector.subscribeOptionTicker (c : Connector) (contractKey symbol expiry right : String)
    (calls : OptCalls) : Connector :=
  let rt := upper (orDefault (some right) "C")
  if !calls.connected then c
  else if rt ≠ "C" ∧ rt ≠ "P" then c
  else if symbol = "" ∨ strip expiry = "" then c
  else
    let (contract, c) := c.newContract
    let r := requestOption c.ib contract calls
    { c with optionTickers := c.optionTickers.record contractKey r.2, ib := r.1 }

/-- The loop body of `subscribe_option_tickers` for a row with a new key. -/
def Connector.subscribeOptionRow (c : Connector) (row : OptRow) (calls : Calls) : Connector :=
  let ck := strip row.contractKey
  if strip row.symbol = "" ∨ strip row.expiry = "" then c
  else
    c.subscribeOptionTicker upper ck (strip row.symbol) (strip row.expiry)
      (optionRight upper (some row.optionRight)) (calls.opt ck)

def Connector.subscribeOptionTickers (c : Connector) (rows : List OptRow) (calls : Calls) :
    Connector :=
  if calls.optConnected then
    (firstSeen (fun r => strip r.contractKey) []
      (rows.filter fun r => decide (strip r.contractKey ≠ ""))).foldl
        (fun c row => c.subscribeOptionRow upper row calls) c
  else c

def Connector.beginCycle (c : Connector) : Connector :=
  { c with ib := { c.ib with opened := [] } }

def Connector.unsubscribeAll (c : Connector) (calls : Calls) : Connector :=
  let c := (c.tickers.map Prod.fst).foldl
    (fun c sym => c.unsubscribeTicker sym (calls.cancelStk sym)) c
  (c.optionTickers.map Prod.fst).foldl
    (fun c ck => c.unsubscribeOptionTicker ck (calls.cancelOpt ck)) c

/-- `_apply_subs`. -/
def Connector.applySubs (c : Connector) (optRows : List OptRow) (stkSyms : List String)
    (calls : Calls) : Connector :=
  let c := c.beginCycle.unsubscribeAll calls
  let c := if optRows.isEmpty then c else c.subscribeOptionTickers upper optRows calls
  if stkSyms.isEmpty then c else c.subscribeTickers stkSyms calls

end Connectors

section Sessions

structure Session where
  connector : Connector
  published : Finset String
  activeDataLines : ℕ
  deriving DecidableEq

/-- Everything a poll cycle reads. -/
structure Poll where
  settings : Settings
  db : Option QueryResults
  onDemand : Option (List String)
  calls : Calls

variable (upper : String → String)

def Poll.fetched (p : Poll) : List OptRow × List String :=
  fetchWatchlistSync upper p.db p.settings.cap p.settings.includeStk p.settings.includeOpt

def Poll.optRows (p : Poll) : List OptRow := (p.fetched upper).1

def Poll.stkSyms (p : Poll) : List String :=
  mergeOnDemand (p.fetched upper).2 (onDemandStkSymbols upper p.onDemand)

def Poll.isEmpty (p : Poll) : Bool := (p.optRows upper).isEmpty && (p.stkSyms upper).isEmpty

/-- The keys of the rows and symbols that are handed to the connector. -/
def Poll.requestedKeys (p : Poll) : Finset String :=
  contractKeys (p.optRows upper) (p.stkSyms upper)

/-- One iteration of the loop of `_run_session`. -/
def Session.poll (w : Session) (p : Poll) : Session :=
  if p.isEmpty upper then { w with published := ∅, activeDataLines := 0 }
  else
    let keys := p.requestedKeys upper
    { connector := w.connector.applySubs upper (p.optRows upper) (p.stkSyms upper) p.calls
      published := keys
      activeDataLines := keys.card }

inductive Event where
  | poll (p : Poll)
  /-- The socket goes away, and its lines with it. -/
  | dropped
  /-- A heartbeat reconnect puts a new connector in the place of the old one. -/
  | reconnected

def step (w : Session) : Event → Session
  | .poll p => w.poll upper p
  | .dropped => { w with connector.ib.lines := [] }
  | .reconnected =>
    { w with connector :=
        { tickers := [], optionTickers := [], ib := { w.connector.ib with lines := [] } } }

def Step (w : Session) (e : Event) (w' : Session) : Prop := step upper w e = w'

def initialSession : Session where
  connector :=
    { tickers := [], optionTickers := [], ib := { nextObject := 0, lines := [], opened := [] } }
  published := ∅
  activeDataLines := 0

/-- Both branches of the cycle publish the keys of what is to be subscribed. -/
theorem poll_published (w : Session) (p : Poll) :
    (w.poll upper p).published = p.requestedKeys upper := by
  unfold Session.poll
  split
  · next h =>
    simp only [Poll.isEmpty, Bool.and_eq_true, List.isEmpty_iff] at h
    rw [Poll.requestedKeys, h.1, h.2]
    rfl
  · rfl

theorem poll_connector {w : Session} {p : Poll} (h : p.isEmpty upper = false) :
    (w.poll upper p).connector =
      w.connector.applySubs upper (p.optRows upper) (p.stkSyms upper) p.calls := by
  rw [Session.poll, if_neg (by simp [h])]

end Sessions

end BifrostSocket.IngestorSessions
