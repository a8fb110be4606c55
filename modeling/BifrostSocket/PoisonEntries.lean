import BifrostSocket.SettledRequests

/-!
# Entries that end the loop

Handling an entry runs from its turn in the batch to the turn of the next one. It comes to
that end, acknowledged, whatever the clock and the outcome are, except when `json.loads` of
the payload raises something else than `JSONDecodeError`.
-/

namespace BifrostSocket.PoisonEntries
open TransitionRuns ConsumerGroups ConsumerGroups.GroupStream OperatorProtocol OperatorLoops
  AnsweredRequests SettledRequests

section Parsing

variable {κ : Type*} (loads : String → Loads) (fields : Fields)

def version : String :=
  orDefault (some (strip (orDefault (fields.get "v") protocolVersion))) protocolVersion

def payloadRaw : String := orDefault (fields.get "payload") "\x7b\x7d"

/-- All checks before the payload pass, and reading the payload raises what the parser does
not catch. -/
structure Poison : Prop where
  reqId : fields.reqId ≠ ""
  version : version fields = protocolVersion
  op : strip ((fields.get "op").getD "") ∈ allOps
  payload : loads (payloadRaw fields) = .valueError ∨ loads (payloadRaw fields) = .recursionError

theorem parse_raises_iff (id : κ) :
    (∃ err, parseStreamFields loads fields id = .error err) ↔ Poison loads fields := by
  constructor
  · rintro ⟨err, herr⟩
    simp only [parseStreamFields] at herr
    split at herr
    · cases herr
    · next hreq =>
      split at herr
      · cases herr
      · next hver =>
        split at herr
        · cases herr
        · split at herr
          · cases herr
          · next hop =>
            refine ⟨hreq, not_not.mp hver, not_not.mp hop, ?_⟩
            split at herr
            · next hload => exact .inl hload
            · next hload => exact .inr hload
            · cases herr
            · split at herr <;> cases herr
  · intro h
    have hop : strip ((fields.get "op").getD "") ≠ "" := by
      intro hblank
      have hmem := h.op
      rw [hblank] at hmem
      exact absurd hmem (by decide)
    have hver := h.version
    have hpay := h.payload
    unfold PoisonEntries.version at hver
    unfold payloadRaw at hpay
    simp only [parseStreamFields, if_neg h.reqId, hver, ne_eq, not_true_eq_false, if_false,
      if_neg hop, h.op]
    rcases hpay with hload | hload
    · exact ⟨.valueError, by rw [hload]⟩
    · exact ⟨.recursionError, by rw [hload]⟩

end Parsing

section Handling

variable {κ : Type} [LinearOrder κ]

/-- The loop's next `n` steps under these clocks and outcomes; no call fails. -/
def steps (inputs : ℕ → ℤ × Dumps) : ℕ → List (LoopEvent κ)
  | 0 => []
  | n + 1 => .io (inputs 0).1 (inputs 0).2 .none :: steps (fun i => inputs (i + 1)) n

/-- The executor's outcomes can be encoded, or fail to be with an error that is caught. -/
def Encodable (inputs : ℕ → ℤ × Dumps) : Prop := ∀ i, (inputs i).2 ≠ .raises

/-- The entry is acknowledged, the loop has come to the entries behind it, and the entry is
not delivered again as long as the group, which must remember it, is kept. -/
structure Finished (S : OperatorSettings) (loads : String → Loads) (p : Process κ)
    (e : Request κ) (rest : List (Request κ)) (s t : Operator κ) : Prop where
  process : t.process = some { p with pc := .batch rest }
  logged : ∃ new, t.history = .acked e.id :: new ++ s.history
  pending : ∀ q ∈ t.redis.pending, q.1 ≠ e.id
  final : (e.id : WithBot κ) ≤ s.redis.cursor → ∀ evs u,
    Run (guarded GroupKept (ofStep (step S loads))) t evs u →
      ∃ later, u.history = later ++ t.history ∧ ∀ ev ∈ later, ev.id ≠ e.id

/-- Whatever the clock reads and the executor answers, the handling comes to its end. -/
def Handled (S : OperatorSettings) (loads : String → Loads) (p : Process κ) (e : Request κ)
    (rest : List (Request κ)) (s : Operator κ) : Prop :=
  ∀ inputs, Encodable inputs → ∃ n t, Run (ofStep (step S loads)) s (steps inputs n) t ∧
    Finished S loads p e rest s t

variable {S : OperatorSettings} {loads : String → Loads} {p : Process κ} {e : Request κ}
  {s : Operator κ}

/-- A step of the loop in front of a handling that comes to its end. -/
theorem Handled.cons {rest : List (Request κ)}
    (hstep : ∀ nowMs outcome, outcome ≠ .raises → ∃ (q : Process κ) (new : List (LogEvent κ)),
      step S loads s (.io nowMs outcome .none) = some ⟨s.redis, some q, new ++ s.history⟩ ∧
        Handled S loads p e rest ⟨s.redis, some q, new ++ s.history⟩) :
    Handled S loads p e rest s := by
  intro inputs henc
  obtain ⟨q, new, hs, hq⟩ := hstep (inputs 0).1 (inputs 0).2 (henc 0)
  obtain ⟨n, t, hr, hfin⟩ := hq (fun i => inputs (i + 1)) fun i => henc (i + 1)
  refine ⟨n + 1, t, .cons hs hr, hfin.process, ?_, hfin.pending, hfin.final⟩
  obtain ⟨new', hnew⟩ := hfin.logged
  refine ⟨new' ++ new, ?_⟩
  rw [hnew]
  simp

/-- The acknowledgement ends the handling. -/
theorem handled_ack (hp : s.process = some { p with pc := .ack e [] }) :
    Handled S loads p e [] s := by
  intro inputs _
  refine ⟨1, ⟨s.redis.xack e.id, some { p with pc := .batch [] }, .acked e.id :: s.history⟩,
    .single ?_, ?_⟩
  · simp [ofStep, step, hp, io]
  · have hpend : ∀ q ∈ (s.redis.xack e.id).pending, q.1 ≠ e.id := by
      intro q hq
      rw [xack_pending] at hq
      simpa using (List.mem_filter.mp hq).2
    refine ⟨rfl, ⟨[], rfl⟩, hpend, ?_⟩
    intro hknown evs u hrun
    have hset : Settled e.id
        ⟨s.redis.xack e.id, some { p with pc := .batch [] }, .acked e.id :: s.history⟩ := by
      refine ⟨by simpa using hknown, hpend, ?_⟩
      intro q hq x hx
      obtain rfl := Option.some.inj hq
      simp [held] at hx
    exact (settled_run hset hrun).2

theorem handled_write {key body : String}
    (hp : s.process = some { p with pc := .writeResult e key body [] }) :
    Handled S loads p e [] s := by
  apply Handled.cons
  intro nowMs outcome _
  refine ⟨{ p with pc := .ack e [] }, [.answered e.id key body], ?_, handled_ack rfl⟩
  simp [step, hp, io]

theorem outcomeBody_ok (S : OperatorSettings) {outcome : Dumps} (h : outcome ≠ .raises) :
    ∃ body, S.outcomeBody outcome = .ok body := by
  cases outcome with
  | raises => exact absurd rfl h
  | encodeError message => exact ⟨_, rfl⟩
  | text text =>
    simp only [OperatorSettings.outcomeBody, dumpsResult]
    by_cases hbig : (text.utf8ByteSize : ℤ) > S.maxResultBytes
    · rw [if_pos hbig]
      exact ⟨_, rfl⟩
    · rw [if_neg hbig]
      exact ⟨_, rfl⟩

theorem handled_execute {m : CommandMessage κ}
    (hp : s.process = some { p with pc := .execute e m [] }) :
    Handled S loads p e [] s := by
  apply Handled.cons
  intro nowMs outcome henc
  obtain ⟨body, hb⟩ := outcomeBody_ok S henc
  refine ⟨{ p with pc := .writeResult e (resultKey S.resultPrefix m.reqId) body [] },
    [.executed e.id outcome], ?_, handled_write rfl⟩
  simp [step, hp, io, hb]

theorem handled_batch (hp : s.process = some p) (hpc : p.pc = .batch [e]) (hstop : p.stop = false)
    (hpoison : ¬ Poison loads e.fields.toFields) : Handled S loads p e [] s := by
  apply Handled.cons
  intro nowMs outcome _
  rcases parseStreamFields_cases loads e.fields.toFields e.id with herr | ⟨reason, hr⟩ | ⟨m, hm, -⟩
  · exact absurd ((parse_raises_iff loads _ e.id).mp herr) hpoison
  · refine ⟨{ p with pc := .ack e [] }, [.rejected e.id reason], ?_, handled_ack rfl⟩
    simp [step, hp, io, hpc, hstop, hr]
  · cases hexp : m.isExpired nowMs with
    | true =>
      refine ⟨{ p with pc := .writeResult e (resultKey S.resultPrefix m.reqId) S.expiredBody [] },
        [.began e.id nowMs], ?_, handled_write rfl⟩
      simp [step, hp, io, hpc, hstop, hm, hexp]
    | false =>
      refine ⟨{ p with pc := .execute e m [] }, [.began e.id nowMs], ?_, handled_execute rfl⟩
      simp [step, hp, io, hpc, hstop, hm, hexp]

/-- A poisonous entry ends the process in its first step. -/
theorem not_handled_of_poison {rest : List (Request κ)} (hp : s.process = some p)
    (hpc : p.pc = .batch (e :: rest)) (hstop : p.stop = false)
    (hpoison : Poison loads e.fields.toFields) : ¬ Handled S loads p e rest s := by
  intro hhandled
  obtain ⟨err, herr⟩ := (parse_raises_iff loads _ e.id).mpr hpoison
  have hdead : step S loads s (.io 0 (.text "") .none) = some ⟨s.redis, none, s.history⟩ := by
    simp [step, hp, io, hpc, hstop, herr]
  obtain ⟨n, t, hr, hfin⟩ := hhandled (fun _ => (0, .text "")) fun _ => by simp
  cases n with
  | zero =>
    cases hr
    have hsame := Option.some.inj (hp.symm.trans hfin.process)
    have hlen := congrArg (fun q : Process κ => (held q.pc).length) hsame
    simp [hpc, held] at hlen
  | succ n =>
    cases hr with
    | cons head tail =>
      obtain rfl := Option.some.inj (hdead.symm.trans head)
      cases n with
      | zero =>
        cases tail
        cases hfin.process
      | succ n =>
        cases tail with
        | cons head _ => simp [ofStep, step] at head

/-- In a running process, an entry whose turn has come is handled to the end if and only if
it is not poisonous. -/
theorem entry_handled_iff {rest : List (Request κ)}
    (hs : Reachable InitialOperator (ofStep (step S loads)) s) (hp : s.process = some p)
    (hpc : p.pc = .batch (e :: rest)) (hstop : p.stop = false) :
    Handled S loads p e rest s ↔ ¬ Poison loads e.fields.toFields := by
  constructor
  · intro hhandled hpoison
    exact not_handled_of_poison hp hpc hstop hpoison hhandled
  · intro hpoison
    obtain rfl : rest = [] := by
      have hone := one_held hs p hp
      rw [hpc] at hone
      simpa [held] using hone
    exact handled_batch hp hpc hstop hpoison

end Handling

section Instances

/-- A ping with this payload. -/
def payloadEntry (payload : String) : Request StreamId :=
  ⟨toLex (1, 0), .dict [("req_id", "u1"), ("op", "ping"), ("payload", payload)]⟩

theorem payloadEntry_fields (payload : String) : (payloadEntry payload).fields.toFields =
    [("req_id", "u1"), ("op", "ping"), ("payload", payload)] := by
  simp [payloadEntry, ReplyFields.toFields, ReplyFields.items, Fields.setItem]

theorem poison_payload {loads : String → Loads} {payload : String} (hne : payload ≠ "")
    (hload : loads payload = .valueError) :
    Poison loads (payloadEntry payload).fields.toFields := by
  have hreq : (payloadEntry payload).fields.toFields.get "req_id" = some "u1" := by
    simp [payloadEntry_fields, Fields.get]
  have hver : (payloadEntry payload).fields.toFields.get "v" = none := by
    simp [payloadEntry_fields, Fields.get, List.lookup_cons]
  have hop : (payloadEntry payload).fields.toFields.get "op" = some "ping" := by
    simp [payloadEntry_fields, Fields.get, List.lookup_cons]
  constructor
  · rw [Fields.reqId, hreq]
    decide
  · rw [version, hver]
    decide
  · rw [hop]
    decide
  · have hraw : payloadRaw (payloadEntry payload).fields.toFields = payload := by
      simp [payloadEntry_fields, payloadRaw, Fields.get, List.lookup_cons, orDefault, hne]
    exact .inl (hraw.symm ▸ hload)

/-- The entry is added, and a process started and brought to its turn. -/
def delivery (e : Request StreamId) : List (LoopEvent StreamId) :=
  [.xadd e.id e.fields, .start "pod-7"] ++ passes 3 (.text "1")

theorem delivered (loads : String → Loads) (e : Request StreamId) :
    ∃ s, Run (ofStep (step defaultSettings loads)) emptyOperator (delivery e) s ∧
      s.process = some ⟨"pod-7", .batch [e], false⟩ ∧ s.redis.pending = [(e.id, "pod-7")] := by
  have hfold : ∃ s, (delivery e).foldlM (step defaultSettings loads) emptyOperator = some s ∧
      s.process = some ⟨"pod-7", .batch [e], false⟩ ∧ s.redis.pending = [(e.id, "pod-7")] :=
    ⟨_, rfl, rfl, rfl⟩
  obtain ⟨s, hs, hp, hpend⟩ := hfold
  exact ⟨s, .ofFold hs, hp, hpend⟩

theorem entry_handled_iff_ping :
    ∃ s, Reachable InitialOperator (ofStep (step defaultSettings noPayload)) s ∧
      Handled defaultSettings noPayload ⟨"pod-7", .batch [payloadEntry "\x7b\x7d"], false⟩
        (payloadEntry "\x7b\x7d") [] s := by
  obtain ⟨s, hr, hp, -⟩ := delivered noPayload (payloadEntry "\x7b\x7d")
  have hs : Reachable InitialOperator (ofStep (step defaultSettings noPayload)) s :=
    ⟨emptyOperator, _, initialOperator_emptyOperator, hr⟩
  refine ⟨s, hs, (entry_handled_iff hs hp rfl rfl).mpr ?_⟩
  intro hpoison
  rcases hpoison.payload with h | h <;> cases h

/-- An integer literal with more digits than `int` converts. -/
def longInteger : String := String.ofList (List.replicate 4301 '9')

theorem longInteger_ne_empty : longInteger ≠ "" := by
  intro hempty
  have hlen : (List.replicate 4301 '9').length = 0 := by
    rw [String.ofList_eq_empty_iff.mp hempty]
    rfl
  rw [List.length_replicate] at hlen
  omega

/-- `json.loads` under the limit of 4300 digits, on this literal and on an empty object. -/
def loadsDigits (text : String) : Loads :=
  if text = longInteger then .valueError else .value (.object [])

/-- The entry ends the process, stays pending, and meets every later process. -/
theorem long_integer_ends_loop :
    ¬ ∀ (loads : String → Loads) (s : Operator StreamId) (p : Process StreamId)
      (e : Request StreamId) (rest : List (Request StreamId)),
      Reachable InitialOperator (ofStep (step defaultSettings loads)) s →
      s.process = some p → p.pc = .batch (e :: rest) → p.stop = false →
        Handled defaultSettings loads p e rest s := by
  intro hall
  obtain ⟨s, hr, hp, -⟩ := delivered loadsDigits (payloadEntry longInteger)
  have hs : Reachable InitialOperator (ofStep (step defaultSettings loadsDigits)) s :=
    ⟨emptyOperator, _, initialOperator_emptyOperator, hr⟩
  have hpoison : Poison loadsDigits (payloadEntry longInteger).fields.toFields := by
    apply poison_payload longInteger_ne_empty
    rw [loadsDigits, if_pos rfl]
  exact not_handled_of_poison hp rfl rfl hpoison (hall loadsDigits s _ _ _ hs hp rfl rfl)

end Instances

end BifrostSocket.PoisonEntries
