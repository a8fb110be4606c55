import Mathlib.Data.List.Basic
import Mathlib.Data.List.DropRight
import Mathlib.Data.Option.Basic
import Mathlib.Data.Int.Notation

/-!
# The operator's request protocol

Field maps of stream entries, the command parser with all its rejections, and the JSON
bodies of the results. `json.loads` and the encoding of an executor's outcome are
parameters; Python's string and integer conversions are written out.
-/

namespace BifrostSocket.OperatorProtocol

section PythonText

/-- The characters with `str.isspace`. -/
def isSpace (c : Char) : Bool :=
  let n := c.toNat
  (0x09 ≤ n && n ≤ 0x0d) || (0x1c ≤ n && n ≤ 0x20) || n == 0x85 || n == 0xa0 || n == 0x1680 ||
    (0x2000 ≤ n && n ≤ 0x200a) || n == 0x2028 || n == 0x2029 || n == 0x202f || n == 0x205f ||
    n == 0x3000

def stripBy (space : Char → Bool) (s : List Char) : List Char :=
  ((s.dropWhile space).reverse.dropWhile space).reverse

def strip (s : String) : String := String.ofList (stripBy isSpace s.toList)

theorem stripBy_eq (space : Char → Bool) (s : List Char) :
    stripBy space s = (s.dropWhile space).rdropWhile space := rfl

/-- Stripped text starts and ends with something else than white space. -/
theorem stripBy_stripBy (space : Char → Bool) (s : List Char) :
    stripBy space (stripBy space s) = stripBy space s := by
  have hhead : (stripBy space s).dropWhile space = stripBy space s := by
    obtain ⟨tail, htail⟩ : stripBy space s <+: s.dropWhile space := List.rdropWhile_prefix ..
    apply List.dropWhile_eq_self_iff.mpr
    intro hlen
    have hstart : (s.dropWhile space).dropWhile space = s.dropWhile space :=
      List.dropWhile_idempotent ..
    have hlen' : 0 < (s.dropWhile space).length := by
      rw [← htail, List.length_append]
      omega
    have hfirst := List.dropWhile_eq_self_iff.mp hstart hlen'
    simpa [← htail, List.getElem_append_left hlen] using hfirst
  rw [stripBy_eq space (stripBy space s), hhead]
  exact List.rdropWhile_idempotent ..

@[simp] theorem strip_strip (s : String) : strip (strip s) = strip s := by
  simp only [strip, String.toList_ofList, stripBy_stripBy]

/-- The zeros of the runs of ten decimal digits. -/
def decimalZeros : List ℕ :=
  [0x30, 0x660, 0x6f0, 0x7c0, 0x966, 0x9e6, 0xa66, 0xae6, 0xb66, 0xbe6, 0xc66, 0xce6, 0xd66,
    0xde6, 0xe50, 0xed0, 0xf20, 0x1040, 0x1090, 0x17e0, 0x1810, 0x1946, 0x19d0, 0x1a80, 0x1a90,
    0x1b50, 0x1bb0, 0x1c40, 0x1c50, 0xa620, 0xa8d0, 0xa900, 0xa9d0, 0xa9f0, 0xaa50, 0xabf0,
    0xff10, 0x104a0, 0x10d30, 0x11066, 0x110f0, 0x11136, 0x111d0, 0x112f0, 0x11450, 0x114d0,
    0x11650, 0x116c0, 0x11730, 0x118e0, 0x11950, 0x11c50, 0x11d50, 0x11da0, 0x16a60, 0x16ac0,
    0x16b50, 0x1d7ce, 0x1d7d8, 0x1d7e2, 0x1d7ec, 0x1d7f6, 0x1e140, 0x1e2f0, 0x1e950, 0x1fbf0]

def digitValue (c : Char) : Option ℕ :=
  (decimalZeros.find? fun z => decide (z ≤ c.toNat ∧ c.toNat < z + 10)).map (c.toNat - ·)

/-- Digits with at most one underscore between two of them. -/
def intDigits : List Char → Option (List ℕ)
  | [] => none
  | [c] => (digitValue c).map ([·])
  | c :: '_' :: rest => (digitValue c).bind fun d => (intDigits rest).map (d :: ·)
  | c :: rest => (digitValue c).bind fun d => (intDigits rest).map (d :: ·)

def maxStrDigits : ℕ := 4300

def unsignedInt (s : List Char) : Option ℤ :=
  (intDigits s).bind fun ds =>
    if ds.length > maxStrDigits then none
    else some (ds.foldl (fun (n : ℤ) d => 10 * n + d) 0)

/-- `int` of a string; `none` is its `ValueError`. The separators 0x1c to 0x1f are no
white space here. -/
def int (s : String) : Option ℤ :=
  match stripBy (fun c => isSpace c && !(0x1c ≤ c.toNat && c.toNat ≤ 0x1f)) s.toList with
  | '-' :: digits => (unsignedInt digits).map (-·)
  | '+' :: digits => unsignedInt digits
  | digits => unsignedInt digits

/-- `text or default` for an optional string. -/
def orDefault (text : Option String) (default : String) : String :=
  match text with
  | none => default
  | some s => if s = "" then default else s

end PythonText

section Replies

/-- A string-keyed dictionary. -/
abbrev Fields := List (String × String)

def Fields.get (fd : Fields) (k : String) : Option String := fd.lookup k

def Fields.setItem (fd : Fields) (k v : String) : Fields :=
  if fd.any (fun p => decide (p.1 = k)) then fd.map fun p => if p.1 = k then (k, v) else p
  else fd ++ [(k, v)]

section Lookup

variable (fd : Fields) (k v k' : String)

theorem lookup_replaced (hne : k' ≠ k) :
    List.lookup k' (fd.map fun p => if p.1 = k then (k, v) else p) = List.lookup k' fd := by
  induction fd with
  | nil => rfl
  | cons p fd ih =>
    rw [List.map_cons]
    by_cases hp : p.1 = k
    · rw [if_pos hp, List.lookup_cons, List.lookup_cons, hp, beq_eq_false_iff_ne.mpr hne, ih]
    · rw [if_neg hp, List.lookup_cons, List.lookup_cons, ih]

theorem lookup_replaced_self (hmem : ∃ p ∈ fd, p.1 = k) :
    List.lookup k (fd.map fun p => if p.1 = k then (k, v) else p) = some v := by
  induction fd with
  | nil => simp at hmem
  | cons p fd ih =>
    rw [List.map_cons, List.lookup_cons]
    by_cases hp : p.1 = k
    · simp [hp]
    · have hrest : ∃ p ∈ fd, p.1 = k := by simpa [hp] using hmem
      rw [if_neg hp, beq_eq_false_iff_ne.mpr (Ne.symm hp)]
      exact ih hrest

theorem Fields.get_setItem :
    (fd.setItem k v).get k' = if k' = k then some v else fd.get k' := by
  unfold Fields.setItem Fields.get
  split
  · next hany =>
    have hmem : ∃ p ∈ fd, p.1 = k := by simpa using hany
    split
    · next h => rw [h, lookup_replaced_self fd k v hmem]
    · next h => rw [lookup_replaced fd k v k' h]
  · next hany =>
    have hnone : List.lookup k fd = none := by
      rw [List.lookup_eq_none_iff]
      intro p hp
      have hne : p.1 ≠ k := fun h => hany (List.any_eq_true.mpr ⟨p, hp, decide_eq_true h⟩)
      exact bne_iff_ne.mpr (Ne.symm hne)
    rw [List.lookup_append]
    split
    · next h => simp [h, hnone]
    · next h => simp [List.lookup_cons, beq_eq_false_iff_ne.mpr h]

end Lookup

/-- The shapes in which a client library hands over an entry's fields. -/
inductive ReplyFields where
  | dict (items : List (String × String))
  | flat (items : List String)
  deriving DecidableEq

/-- Keys and values that alternate; a key without a value gets `str(None)`. -/
def pairUp : List String → List (String × String)
  | [] => []
  | [k] => [(k, "None")]
  | k :: v :: rest => (k, v) :: pairUp rest

def ReplyFields.items : ReplyFields → List (String × String)
  | .dict items => items
  | .flat items => pairUp items

/-- The dictionary that `parse_xreadgroup_reply` builds for one entry. -/
def ReplyFields.toFields (r : ReplyFields) : Fields :=
  r.items.foldl (fun fd p => fd.setItem p.1 p.2) []

end Replies

section Requests

inductive Json where
  | null
  | bool (b : Bool)
  | number (literal : String)
  | string (s : String)
  | array (items : List Json)
  | object (members : List (String × Json))

/-- How `json.loads` ends. -/
inductive Loads where
  | value (j : Json)
  | decodeError
  | valueError
  | recursionError

inductive Raised where
  | valueError | recursionError | encodeError
  deriving DecidableEq

def protocolVersion : String := "1"

def allOps : List String :=
  ["fetch_bars", "fetch_bars_range", "fetch_option_expirations", "fetch_option_snapshot",
    "refresh_option_cache", "fetch_executions", "fetch_accounts_snapshot", "ping",
    "disconnect_all", "reconnect_all"]

structure CommandMessage (κ : Type*) where
  reqId : String
  version : String
  op : String
  payload : List (String × Json)
  caller : String
  deadlineMs : Option ℤ
  streamId : κ

/-- The clock is read in milliseconds. -/
def CommandMessage.isExpired {κ : Type*} (m : CommandMessage κ) (nowMs : ℤ) : Bool :=
  match m.deadlineMs with
  | none => false
  | some d => decide (nowMs > d)

theorem CommandMessage.isExpired_iff {κ : Type*} {m : CommandMessage κ} {nowMs : ℤ} :
    m.isExpired nowMs = true ↔ ∃ deadline, m.deadlineMs = some deadline ∧ deadline < nowMs := by
  unfold CommandMessage.isExpired
  cases m.deadlineMs with
  | none => simp
  | some d => simp

theorem CommandMessage.not_isExpired_iff {κ : Type*} {m : CommandMessage κ} {nowMs : ℤ} :
    m.isExpired nowMs = false ↔ ∀ deadline, m.deadlineMs = some deadline → nowMs ≤ deadline := by
  unfold CommandMessage.isExpired
  cases m.deadlineMs with
  | none => simp
  | some d => simp

def resultKey (resultPrefix reqId : String) : String := resultPrefix ++ reqId

def Fields.reqId (fields : Fields) : String := strip ((fields.get "req_id").getD "")

/-- The payload dictionary; a value of another type counts as an empty one. -/
def payloadOf : Json → List (String × Json)
  | .object members => members
  | _ => []

def deadlineOf (fields : Fields) : Except String (Option ℤ) :=
  match fields.get "deadline_ms" with
  | none => .ok none
  | some dm =>
    if strip dm = "" then .ok none
    else match int dm with
      | none => .error "invalid_deadline_ms"
      | some d => .ok (some d)

/-- `parse_stream_fields`: a message or the reason of the rejection, unless `json.loads`
raises something else than `JSONDecodeError`. -/
def parseStreamFields {κ : Type*} (loads : String → Loads) (fields : Fields) (streamId : κ) :
    Except Raised (Option (CommandMessage κ) × Option String) :=
  let reqId := fields.reqId
  if reqId = "" then .ok (none, some "missing_req_id")
  else
    let ver := orDefault (some (strip (orDefault (fields.get "v") protocolVersion))) protocolVersion
    if ver ≠ protocolVersion then .ok (none, some ("unsupported_version:" ++ ver))
    else
      let op := strip ((fields.get "op").getD "")
      if op = "" then .ok (none, some "missing_op")
      else if op ∉ allOps then .ok (none, some ("unknown_op:" ++ op))
      else match loads (orDefault (fields.get "payload") "\x7b\x7d") with
        | .valueError => .error .valueError
        | .recursionError => .error .recursionError
        | .decodeError => .ok (none, some "invalid_payload_json")
        | .value j =>
          let caller := orDefault (some (strip ((fields.get "caller").getD ""))) "unknown"
          match deadlineOf fields with
          | .error e => .ok (none, some e)
          | .ok deadlineMs =>
            .ok (some ⟨reqId, ver, op, payloadOf j, caller, deadlineMs, streamId⟩, none)

/-- The parser's three ways to end; an accepted message carries the request's id. -/
theorem parseStreamFields_cases {κ : Type*} (loads : String → Loads) (fields : Fields) (id : κ) :
    (∃ e, parseStreamFields loads fields id = .error e) ∨
      (∃ reason, parseStreamFields loads fields id = .ok (none, some reason)) ∨
      ∃ m, parseStreamFields loads fields id = .ok (some m, none) ∧ m.reqId = fields.reqId ∧
        fields.reqId ≠ "" ∧ m.streamId = id := by
  simp only [parseStreamFields]
  split
  · exact .inr (.inl ⟨_, rfl⟩)
  · next hreq =>
    split
    · exact .inr (.inl ⟨_, rfl⟩)
    · split
      · exact .inr (.inl ⟨_, rfl⟩)
      · split
        · exact .inr (.inl ⟨_, rfl⟩)
        · split
          · exact .inl ⟨_, rfl⟩
          · exact .inl ⟨_, rfl⟩
          · exact .inr (.inl ⟨_, rfl⟩)
          · split
            · exact .inr (.inl ⟨_, rfl⟩)
            · exact .inr (.inr ⟨_, rfl, rfl, hreq, rfl⟩)

/-- The entry is a request that the parser accepts as `m`. -/
def Accepts {κ : Type*} (loads : String → Loads) (fields : Fields) (id : κ)
    (m : CommandMessage κ) : Prop :=
  parseStreamFields loads fields id = .ok (some m, none)

theorem Accepts.reqId {κ : Type*} {loads : String → Loads} {fields : Fields} {id : κ}
    {m : CommandMessage κ} (h : Accepts loads fields id m) :
    m.reqId = fields.reqId ∧ fields.reqId ≠ "" := by
  rcases parseStreamFields_cases loads fields id with ⟨e, he⟩ | ⟨r, hr⟩ | ⟨m', hm, hid, hne, -⟩
  · simp [Accepts, he] at h
  · simp [Accepts, hr] at h
  · rw [Accepts, hm] at h
    obtain rfl : m' = m := by simpa using h
    exact ⟨hid, hne⟩

end Requests

section Results

/-- How `json.dumps` of an executor's outcome ends. -/
inductive Dumps where
  | text (s : String)
  | encodeError (message : String)
  | raises
  deriving DecidableEq

def hexDigit (n : ℕ) : Char :=
  if n < 10 then Char.ofNat (0x30 + n) else Char.ofNat (0x61 + (n - 10))

def unicodeEscape (n : ℕ) : List Char :=
  ['\\', 'u', hexDigit (n / 4096 % 16), hexDigit (n / 256 % 16), hexDigit (n / 16 % 16),
    hexDigit (n % 16)]

/-- One character of a JSON string in ASCII; characters outside the basic plane become
surrogate pairs. -/
def escapeChar (c : Char) : List Char :=
  let n := c.toNat
  if n = 0x22 then ['\\', '"']
  else if n = 0x5c then ['\\', '\\']
  else if n = 0x0a then ['\\', 'n']
  else if n = 0x0d then ['\\', 'r']
  else if n = 0x09 then ['\\', 't']
  else if n = 0x0c then ['\\', 'f']
  else if n = 0x08 then ['\\', 'b']
  else if 0x20 ≤ n ∧ n ≤ 0x7e then [c]
  else if n < 0x10000 then unicodeEscape n
  else unicodeEscape (0xd800 + (n - 0x10000) / 0x400) ++
    unicodeEscape (0xdc00 + (n - 0x10000) % 0x400)

def quote (s : String) : String := "\"" ++ String.ofList (s.toList.flatMap escapeChar) ++ "\""

/-- `json.dumps` of an envelope with `ok` false and this error. -/
def errorEnvelope (error : String) : Dumps :=
  .text ("\x7b\"ok\":false,\"error\":" ++ quote error ++ "\x7d")

def dumpsResult (maxBytes : ℤ) : Dumps → Except Raised (Option String × Option String)
  | .raises => .error .encodeError
  | .encodeError message => .ok (none, some ("json_encode_error:" ++ message))
  | .text s =>
    if (s.utf8ByteSize : ℤ) > maxBytes then .ok (none, some "result_too_large")
    else .ok (some s, none)

structure OperatorSettings where
  resultPrefix : String
  maxResultBytes : ℤ
  deriving DecidableEq

/-- The body of an error envelope, without a body when it is over the size limit. -/
def OperatorSettings.errorBody (S : OperatorSettings) (error : String) : Option String :=
  match dumpsResult S.maxResultBytes (errorEnvelope error) with
  | .ok (body, _) => body
  | .error _ => none

/-- What is written for an expired request. -/
def OperatorSettings.expiredBody (S : OperatorSettings) : String :=
  match S.errorBody "deadline_expired" with
  | some body => orDefault (some body) "\x7b\x7d"
  | none => "\x7b\"ok\":false,\"error\":\"deadline_expired\"\x7d"

/-- What is written for an executed request. -/
def OperatorSettings.outcomeBody (S : OperatorSettings) (outcome : Dumps) : Except Raised String :=
  match dumpsResult S.maxResultBytes outcome with
  | .error e => .error e
  | .ok (body, none) => .ok (orDefault body "\x7b\"ok\":false,\"error\":\"encode\"\x7d")
  | .ok (_, some err) =>
    .ok (orDefault (S.errorBody err) "\x7b\"ok\":false,\"error\":\"encode\"\x7d")

/-- An expired request is answered by the same text under every size limit. -/
theorem OperatorSettings.expiredBody_eq (S : OperatorSettings) :
    S.expiredBody = "\x7b\"ok\":false,\"error\":\"deadline_expired\"\x7d" := by
  have henv : errorEnvelope "deadline_expired" =
      .text "\x7b\"ok\":false,\"error\":\"deadline_expired\"\x7d" := by decide
  simp only [expiredBody, errorBody, henv, dumpsResult]
  split
  · next body h =>
    split at h
    · next b o hb =>
      split at hb
      · cases hb
        cases h
      · cases hb
        cases h
        rfl
    · cases h
  · rfl

end Results

example : int " -1_0 " = some (-10) := by decide

end BifrostSocket.OperatorProtocol
