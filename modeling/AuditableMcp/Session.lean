import AuditableMcp.Models
import AuditableMcp.Lib.Prog
/-!
# `session.py`: audited actions

An action's context manager is a program (`ToolM`): what it does between two awaits is pure, and each await
is a `ToolQuery` that the transport, the signer, the verifier, the numbering or the body answers.

| here | there |
| --- | --- |
| `AmcpSession`, `AmcpSession.init` | `AmcpSession.__init__` (`session.py:198-263`), what it refuses |
| `AuditedAction`, `wire`, `build`  | `AuditedAction.__init__` (`:324-350`), `_build` (`:368-387`) |
| `numbering`                       | `_numbering` (`:154-172`) |
| `emitAborted`, `emitAbortedBestEffort` | `:390-408` |
| `aenter`, `aexit`, `run`          | `__aenter__` (`:412-495`), `__aexit__` (`:498-516`), `async with` |
| `stamp`                           | `sign_event` (`l2/signing.py:29-35`), but for its signature |

The action's two hashes are the texts its constructor computes once (`session.py:345-348`).
-/
namespace AuditableMcp

open JsonValue Effect

/-! ## Sessions -/

/-- What a call can raise here: `fault` is an `Exception` that is not one of the named ones. -/
inductive ToolRaise
  | cancelled
  | usageError
  | aborted (actionType targetRef : Str) (reason : Reason)
  | fault
deriving DecidableEq

/-- An `AmcpSession`; `numbering` names the `SessionNumbering` it holds, `signer` its signer's `key_id`. -/
structure AmcpSession where
  sessionId : Str
  signer : Option Str
  pollutedStop : Bool
  hasVerifier : Bool
  requireCountersign : Bool
  numbering : Nat
  isSessionId : SESSION_ID_PATTERN.fullmatch sessionId = true
  verifier_of_required : requireCountersign = true → hasVerifier = true
  stop_of_signer : signer.isSome = true → pollutedStop = true
  stop_of_required : requireCountersign = true → pollutedStop = true

/-- `AmcpSession.__init__` (`session.py:198-263`); a `ValueError` is a `fault`. -/
def AmcpSession.init (sessionId : Str) (signer : Option Str) (pollutedStop : Option Bool)
    (hasVerifier requireCountersign : Bool) (numbering : Nat) : Except ToolRaise AmcpSession :=
  if hid : SESSION_ID_PATTERN.fullmatch sessionId = true then
    if hv : requireCountersign = true ∧ hasVerifier = false then .error .fault
    else if hs : pollutedStop = some false ∧ signer.isSome = true then .error .fault
    else if hr : pollutedStop = some false ∧ requireCountersign = true then .error .fault
    else .ok
      { sessionId, signer, hasVerifier, requireCountersign, numbering
        pollutedStop := pollutedStop.getD (signer.isSome || requireCountersign)
        isSessionId := hid
        verifier_of_required := fun h => by simpa [h] using hv
        stop_of_signer := fun h => by
          rcases pollutedStop with _ | _ | _ <;> simp_all
        stop_of_required := fun h => by
          rcases pollutedStop with _ | _ | _ <;> simp_all }
  else .error .usageError

/-- Every session is one the constructor builds. -/
theorem AmcpSession.init_eq (s : AmcpSession) :
    AmcpSession.init s.sessionId s.signer (some s.pollutedStop) s.hasVerifier s.requireCountersign s.numbering =
      .ok s := by
  obtain ⟨sid, signer, stop, verifier, required, n, hid, hv, hs, hr⟩ := s
  have h1 : ¬ (required = true ∧ verifier = false) := by
    rintro ⟨h, h'⟩
    rw [hv h] at h'
    cases h'
  have h2 : ¬ (some stop = some false ∧ signer.isSome = true) := by
    rintro ⟨h, h'⟩
    rw [hs h'] at h
    cases h
  have h3 : ¬ (some stop = some false ∧ required = true) := by
    rintro ⟨h, h'⟩
    rw [hr h'] at h
    cases h
  simp only [AmcpSession.init, hid, h1, h2, h3, ↓reduceDIte, Option.getD_some]

/-! ## Events of an action -/

structure TargetResource where
  kind : Str
  ref : Str
  scopeHint : Option Str := none
deriving DecidableEq

structure AuditedAction where
  session : AmcpSession
  id : Str
  actionType : Str
  target : TargetResource
  mutates : Bool
  egress : Bool
  disclose : Option Members
  commitHash : Option Str
  saltedHash : Option Str

/-- `exclude_none`: the members that are there. -/
def present (ms : List (Str × Option Json)) : Members := ms.filterMap fun m => m.2.map (m.1, ·)

def TargetResource.wire (t : TargetResource) : Json :=
  .obj (present [(KIND, some (.str t.kind)), (REF, some (.str t.ref)), (SCOPE_HINT, t.scopeHint.map .str)])

/-- The members of `AuditEvent` in the order its fields are declared, none of them null. -/
def AuditedAction.members (a : AuditedAction) (outcome : Outcome) (reason : Option Reason) (ts : Str) :
    List (Str × Option Json) :=
  [(ID, some (.str a.id)), (TS, some (.str ts)), (SESSION_ID, some (.str a.session.sessionId)),
    (ACTION_TYPE, some (.str a.actionType)), (MUTATES, some (.bool a.mutates)), (EGRESS, some (.bool a.egress)),
    (TARGET_RESOURCE, some a.target.wire), (OUTCOME, some (.str outcome.text)),
    (REASON, reason.map fun r => .str r.text), (ACTION_CONTEXT, a.disclose.map .obj),
    (ACTION_CONTEXT_HASH, a.commitHash.map .str), (SPEC_VERSION_KEY, some (.str SPEC_VERSION)),
    (ACTION_CONTEXT_SALTED_HASH, a.saltedHash.map .str)]

/-- The event's wire form (`session.py:372-387`). -/
def AuditedAction.wire (a : AuditedAction) (outcome : Outcome) (reason : Option Reason) (ts : Str) : Event :=
  present (a.members outcome reason ts)

/-- What a signer adds to an event (`l2/signing.py:29-35`). -/
def stamp (e : Event) (key : Str) (n : Nat) (signature : Str) : Event :=
  e ++ [(KEY_ID, .str key), (SIGNER_SEQ, .int n), (SIGNATURE, .str signature)]

theorem get_present_none {ms : List (Str × Option Json)} {k : Str} (h : k ∉ ms.map Prod.fst) :
    get (present ms) k = none := by
  induction ms with
  | nil => rfl
  | cons m ms ih =>
    obtain ⟨b, v⟩ := m
    simp only [List.map_cons, List.mem_cons, not_or] at h
    cases v with
    | none => exact ih h.2
    | some v =>
      have hc : get (present ((b, some v) :: ms)) k = if k = b then some v else get (present ms) k := get_cons ..
      rw [hc, if_neg h.1, ih h.2]

theorem get_present {ms : List (Str × Option Json)} (h : (ms.map Prod.fst).Nodup) (k : Str) :
    get (present ms) k = (ms.lookup k).join := by
  induction ms with
  | nil => rfl
  | cons m ms ih =>
    obtain ⟨b, v⟩ := m
    rw [List.map_cons, List.nodup_cons] at h
    have hb : k = b ∨ (k == b) = false := by
      by_cases hk : k = b
      · exact .inl hk
      · exact .inr (beq_false_of_ne hk)
    rw [List.lookup_cons]
    cases v with
    | none =>
      rcases hb with rfl | hb
      · have hnone : get (present ms) k = none := get_present_none h.1
        rw [beq_self_eq_true]
        exact hnone
      · rw [hb]
        exact ih h.2
    | some v =>
      have hc : get (present ((b, some v) :: ms)) k = if k = b then some v else get (present ms) k := get_cons ..
      rcases hb with rfl | hb
      · rw [hc, if_pos rfl, beq_self_eq_true]
        rfl
      · rw [hc, if_neg (ne_of_beq_false hb), hb]
        exact ih h.2

namespace AuditedAction

variable (a : AuditedAction) (o : Outcome) (r : Option Reason) (ts : Str)

theorem get_wire (k : Str) : get (a.wire o r ts) k = ((a.members o r ts).lookup k).join := by
  refine get_present ?_ k
  show [ID, TS, SESSION_ID, ACTION_TYPE, MUTATES, EGRESS, TARGET_RESOURCE, OUTCOME, REASON, ACTION_CONTEXT,
    ACTION_CONTEXT_HASH, SPEC_VERSION_KEY, ACTION_CONTEXT_SALTED_HASH].Nodup
  decide

@[simp] theorem wire_id : get (a.wire o r ts) ID = some (.str a.id) := a.get_wire o r ts ID

@[simp] theorem wire_sessionId : get (a.wire o r ts) SESSION_ID = some (.str a.session.sessionId) :=
  a.get_wire o r ts SESSION_ID

@[simp] theorem wire_outcome : get (a.wire o r ts) OUTCOME = some (.str o.text) := a.get_wire o r ts OUTCOME

@[simp] theorem wire_reason : get (a.wire o r ts) REASON = r.map fun r => .str r.text := by
  rw [get_wire]
  cases r <;> rfl

@[simp] theorem wire_ts : get (a.wire o r ts) TS = some (.str ts) := a.get_wire o r ts TS

/-- The events of one action agree but for their time, their outcome and their reason. -/
theorem wire_congr {o o' : Outcome} {r r' : Option Reason} {ts ts' k : Str} (h1 : k ≠ TS) (h2 : k ≠ OUTCOME)
    (h3 : k ≠ REASON) : get (a.wire o r ts) k = get (a.wire o' r' ts') k := by
  simp only [get_wire, members, List.lookup_cons, beq_false_of_ne h1, beq_false_of_ne h2, beq_false_of_ne h3]

end AuditedAction

theorem get_stamp {e : Event} {key signature k : Str} {n : Nat} {v : Json} (h : get e k = some v) :
    get (stamp e key n signature) k = some v := by
  have h' : e.lookup k = some v := h
  simp [JsonValue.get, stamp, List.lookup_append, h']

/-- A stamp carries its number. -/
theorem get_stamp_signerSeq (a : AuditedAction) (o : Outcome) (r : Option Reason) (ts key signature : Str) (n : Nat) :
    get (stamp (a.wire o r ts) key n signature) SIGNER_SEQ = some (.int n) := by
  have hnone : (a.wire o r ts).lookup SIGNER_SEQ = none := a.get_wire o r ts SIGNER_SEQ
  simp only [JsonValue.get, stamp, List.lookup_append, hnone]
  rfl

/-! ## Which of its events are valid -/

/-- A timestamp of the current version, as `Clock.now` returns one. -/
def isTimestamp (W : World) (ts : Str) : Bool := (DATETIME_PATTERN W).fullmatch ts && !ts.any isSurrogate

theorem hasLoneSurrogate_obj {ms : Members} : hasLoneSurrogate (.obj ms) = false ↔
    ∀ m ∈ ms, m.1.any isSurrogate = false ∧ hasLoneSurrogate m.2 = false := by
  rw [hasLoneSurrogate]
  induction ms with
  | nil => simp [hasLoneSurrogateMembers]
  | cons m ms ih =>
    obtain ⟨k, v⟩ := m
    rw [hasLoneSurrogateMembers, List.forall_mem_cons, ← ih, Bool.or_eq_false_iff, Bool.or_eq_false_iff]

theorem mem_present {ms : List (Str × Option Json)} {k : Str} {v : Json} :
    (k, v) ∈ present ms ↔ (k, some v) ∈ ms := by
  simp only [present, List.mem_filterMap, Prod.exists]
  constructor
  · rintro ⟨b, w, hm, hw⟩
    cases w with
    | none => cases hw
    | some w => cases hw; exact hm
  · exact fun h => ⟨k, some v, h, rfl⟩

theorem Outcome.scalar (o : Outcome) : o.text.any isSurrogate = false := by cases o <;> decide

theorem Reason.scalar (r : Reason) : r.text.any isSurrogate = false := by cases r <;> decide

namespace AuditedAction

variable {W : World} {a : AuditedAction} {o : Outcome} {r : Option Reason} {ts ts' : Str}

/-- What holds of the members of one event of an action holds of another's, if it does of what is new in it. -/
theorem forall_wire {P : Str → Json → Prop} (h : ∀ m ∈ a.wire .attempted none ts, P m.1 m.2)
    (hts : P TS (.str ts')) (ho : P OUTCOME (.str o.text)) (hr : ∀ x ∈ r, P REASON (.str x.text)) :
    ∀ m ∈ a.wire o r ts', P m.1 m.2 := by
  rintro ⟨k, v⟩ hm
  have hold : ∀ w, (k, some w) ∈ a.members .attempted none ts → P k w := fun w hw => h (k, w) (mem_present.2 hw)
  simp only [wire, mem_present, members, List.mem_cons, Prod.mk.injEq, List.not_mem_nil, or_false,
    Option.some.injEq] at hm hold
  rcases hm with hm | hm | hm | hm | hm | hm | hm | hm | ⟨hk, hm⟩ | hm | hm | hm | hm
  case' inr.inl => exact hm.1 ▸ hm.2 ▸ hts
  case' inr.inr.inr.inr.inr.inr.inr.inl => exact hm.1 ▸ hm.2 ▸ ho
  case' inr.inr.inr.inr.inr.inr.inr.inr.inl =>
    obtain ⟨x, hx, hv⟩ := Option.map_eq_some_iff.1 hm.symm
    exact hk ▸ hv ▸ hr x hx
  all_goals exact hold v (by simp [hm])

theorem names_wire {k : Str} {v : Json} (h : (k, v) ∈ a.wire o r ts) :
    (ACTION_CONTEXT_SALTED_HASH :: SESSION_NAMES).contains k = true := by
  have hk : k ∈ (a.members o r ts).map Prod.fst := List.mem_map.2 ⟨_, mem_present.1 h, rfl⟩
  have hsub : ∀ k ∈ [ID, TS, SESSION_ID, ACTION_TYPE, MUTATES, EGRESS, TARGET_RESOURCE, OUTCOME, REASON,
      ACTION_CONTEXT, ACTION_CONTEXT_HASH, SPEC_VERSION_KEY, ACTION_CONTEXT_SALTED_HASH],
      (ACTION_CONTEXT_SALTED_HASH :: SESSION_NAMES).contains k = true := by decide
  exact hsub k hk

theorem scalar_wire (h : hasLoneSurrogate (.obj (a.wire .attempted none ts)) = false)
    (hts : ts'.any isSurrogate = false) : hasLoneSurrogate (.obj (a.wire o r ts')) = false :=
  hasLoneSurrogate_obj.2 <| @forall_wire a o r ts ts' (fun k v => k.any isSurrogate = false ∧ hasLoneSurrogate v = false)
    (hasLoneSurrogate_obj.1 h) ⟨(by decide : TS.any isSurrogate = false), hts⟩
    ⟨(by decide : OUTCOME.any isSurrogate = false), o.scalar⟩
    fun x _ => ⟨(by decide : REASON.any isSurrogate = false), x.scalar⟩

/-- Where one event of an action is in the domain, the others are. -/
theorem inDomain_wire (h : InDomain (.obj (a.wire .attempted none ts))) (hts : ts'.any isSurrogate = false) :
    InDomain (.obj (a.wire o r ts')) :=
  inDomain_obj.2 <| @forall_wire a o r ts ts' (fun k v => k.any isSurrogate = false ∧ InDomain v)
    (inDomain_obj.1 h) ⟨(by decide : TS.any isSurrogate = false), inDomain_str.2 hts⟩
    ⟨(by decide : OUTCOME.any isSurrogate = false), inDomain_str.2 o.scalar⟩
    fun x _ => ⟨(by decide : REASON.any isSurrogate = false), inDomain_str.2 x.scalar⟩

/-- Where one event of an action is valid, the others are: nothing else of them changes. -/
theorem valid_wire (h : validAuditEvent W (.obj (a.wire .attempted none ts)) = true) (hts : isTimestamp W ts' = true)
    (habort : o = .aborted → r.isSome = true) (hreason : ∀ x ∈ r, x ∈ abortReasons) :
    validAuditEvent W (.obj (a.wire o r ts')) = true := by
  have hg : ∀ k, k ≠ TS → k ≠ OUTCOME → k ≠ REASON →
      get (a.wire o r ts') k = get (a.wire .attempted none ts) k := fun k => a.wire_congr
  simp only [isTimestamp, Bool.and_eq_true, Bool.not_eq_eq_eq_not, Bool.not_true] at hts
  simp only [validAuditEvent, isModel, sessionFields, describesOperation, reasonWhenAborted, level2Together, required,
    optional, has, Bool.and_eq_true, Bool.not_eq_eq_eq_not, Bool.not_true,
    hg ID (by decide) (by decide) (by decide), hg SESSION_ID (by decide) (by decide) (by decide),
    hg TRACEPARENT (by decide) (by decide) (by decide), hg ACTION_TYPE (by decide) (by decide) (by decide),
    hg MUTATES (by decide) (by decide) (by decide), hg EGRESS (by decide) (by decide) (by decide),
    hg TARGET_RESOURCE (by decide) (by decide) (by decide), hg ACTION_CONTEXT (by decide) (by decide) (by decide),
    hg ACTION_CONTEXT_HASH (by decide) (by decide) (by decide), hg SIGNER_SEQ (by decide) (by decide) (by decide),
    hg KEY_ID (by decide) (by decide) (by decide), hg SIGNATURE (by decide) (by decide) (by decide),
    hg SPEC_VERSION_KEY (by decide) (by decide) (by decide),
    hg ACTION_CONTEXT_SALTED_HASH (by decide) (by decide) (by decide)] at h ⊢
  obtain ⟨⟨hl, _⟩, ⟨⟨hver, _⟩, ⟨⟨⟨⟨⟨⟨⟨⟨hid, hsess⟩, hop⟩, _⟩, hseq⟩, hkey⟩, hsig⟩, _⟩, hl2⟩⟩, hsalt⟩ := h
  have hclosed : closed (a.wire o r ts') (ACTION_CONTEXT_SALTED_HASH :: SESSION_NAMES) = true :=
    List.all_eq_true.2 fun _ hm => names_wire hm
  refine ⟨⟨scalar_wire hl hts.2, hclosed⟩, ⟨⟨hver, ?_⟩, ⟨⟨⟨⟨⟨⟨⟨⟨hid, hsess⟩, ?_⟩, ?_⟩, hseq⟩, hkey⟩, hsig⟩, ?_⟩, hl2⟩⟩,
    hsalt⟩
  · simp [isPattern, hts.1]
  · have ho : isOneOf outcomeTexts (.str o.text) = true := isOneOf_iff.2 ⟨_, mem_outcomeTexts.2 ⟨o, rfl⟩, rfl⟩
    obtain ⟨⟨⟨hop, _⟩, hctx⟩, hhash⟩ := hop
    refine ⟨⟨⟨hop, ?_⟩, hctx⟩, hhash⟩
    rw [wire_outcome]
    exact ho
  · rw [wire_reason]
    cases r with
    | none => rfl
    | some x => exact isOneOf_iff.2 ⟨_, List.mem_map_of_mem (hreason x rfl), rfl⟩
  · rw [wire_reason, Option.isSome_map, Bool.or_eq_true]
    by_cases ho : o = .aborted
    · exact .inr (habort ho)
    · refine .inl ?_
      simp only [Bool.not_eq_true', hasText, wire_outcome, beq_eq_false_iff_ne, ne_eq, Option.some.injEq, Json.str.injEq]
      exact fun h => ho (Outcome.text_inj h)

end AuditedAction

/-! ## What an action awaits -/

/-- The answer of a `CountersignatureVerifier` (`session.py:71-86`). -/
inductive Verification
  | verified | failed | unavailable
deriving DecidableEq

/-- `take` and `leave` are the two ends of a numbering's section. -/
inductive ToolQuery
  | now
  | take (numbering : Nat)
  | leave (numbering : Nat) (next : Option Nat)
  | sign (key : Str) (event : Event) (n : Nat)
  | sendAttempt (event : Event)
  | sendOutcome (event : Event)
  | verify (hostKeyId signature payload : Str)
  | body

variable (W : World)

@[reducible] def ToolReply : ToolQuery → Type
  | .now => Str
  | .take _ => Except ToolRaise Nat
  | .leave _ _ => Unit
  | .sign _ _ _ => Except ToolRaise Event
  | .sendAttempt _ => Except ToolRaise (AttemptResponse W)
  | .sendOutcome _ => Except ToolRaise Unit
  | .verify _ _ _ => Except ToolRaise Verification
  | .body => Except ToolRaise Unit

/-- A method of an action, over the action's `accept`. -/
abbrev ToolM (α : Type) : Type := Act ToolQuery (ToolReply W) (Option (AcceptResponse W)) ToolRaise α

variable {W}

/-- A `CanonicalizationError` is a `fault`. -/
def orFault {α : Type} : Except Str α → ToolM W α
  | .ok a => Act.lift (.ok a)
  | .error _ => Act.lift (.error .fault)

/-- `_numbering` (`session.py:154-172`): the number is used up only where the section ends normally. -/
def numbering {α : Type} (s : AmcpSession) (emission : Option Nat → ToolM W α) : ToolM W α :=
  match s.signer with
  | none => emission none
  | some _ => do
    let n ← Act.lift (← Act.await (ToolQuery.take s.numbering))
    match ← Act.caught (emission (some n)) with
    | .ok a => do
      Act.await (ToolQuery.leave s.numbering (some (n + 1)))
      pure a
    | .error x => do
      Act.await (ToolQuery.leave s.numbering none)
      Act.raise x

/-- `_stamp` (`session.py:272-277`). -/
def stampWith (s : AmcpSession) (e : Event) (n : Option Nat) : ToolM W Event :=
  match s.signer, n with
  | some key, some n => do Act.lift (← Act.await (ToolQuery.sign key e n))
  | _, _ => pure e

namespace AuditedAction

variable (a : AuditedAction)

/-- `_build` (`session.py:368-387`): building the event validates it. -/
def build (outcome : Outcome) (n : Option Nat) (reason : Option Reason) : ToolM W Event := do
  let ts ← Act.await ToolQuery.now
  if validAuditEvent W (.obj (a.wire outcome reason ts)) then stampWith a.session (a.wire outcome reason ts) n
  else Act.raise .fault

/-- An outcome, numbered and sent in one section. -/
def emit (outcome : Outcome) (reason : Option Reason) : ToolM W Unit :=
  numbering a.session fun n => do
    let e ← a.build outcome n reason
    Act.lift (← Act.await (ToolQuery.sendOutcome e))

/-- `except Exception`: only a cancellation goes on. -/
def swallow (m : ToolM W Unit) : ToolM W Unit := do
  match ← Act.caught m with
  | .error .cancelled => Act.raise .cancelled
  | _ => pure ()

/-- `_emit_aborted` (`session.py:390-393`). -/
def emitAborted (reason : Reason) : ToolM W Unit := a.emit .aborted (some reason)

/-- `_emit_aborted_best_effort` (`session.py:397-408`). -/
def emitAbortedBestEffort (reason : Reason) : ToolM W Unit := swallow (a.emitAborted reason)

/-- The two steps every abort of `__aenter__` takes. -/
def abort (reason : Reason) : ToolM W Unit := do
  a.emitAbortedBestEffort reason
  Act.raise (.aborted a.actionType a.target.ref reason)

/-- The attempt's section (`session.py:421-443`): a transport fault is kept for after it. -/
def sendAttempt (n : Option Nat) : ToolM W (Event × Option (AttemptResponse W)) := do
  let attempt ← a.build .attempted n none
  match ← Act.await (ToolQuery.sendAttempt attempt) with
  | .ok response => pure (attempt, some response)
  | .error .cancelled => Act.raise .cancelled
  | .error .usageError => Act.raise .usageError
  | .error _ => pure (attempt, none)

/-- What the verifier says of a countersignature (`session.py:465-473`). -/
def verification (r : AcceptFields) (signature : Str) : ToolM W Verification :=
  match r.hostKeyId, r.logId with
  | some key, some log => do
    let payload ← orFault (countersignaturePayload W (.int r.seq) (.str r.hostTs) (.str log)
      (.str r.previousHash) (.str r.recordHash))
    Act.lift (← Act.await (ToolQuery.verify key signature payload))
  | _, _ => pure .failed

/-- The countersignature's check (`session.py:458-482`). -/
def checkCountersignature (r : AcceptFields) : ToolM W Unit :=
  if a.session.requireCountersign = true ∧ r.hostSignature = none then a.abort .hostUncountersigned
  else match r.hostSignature, a.session.hasVerifier with
    | some signature, true => do
      match ← verification r signature with
      | .unavailable => a.abort .hostUnavailable
      | .failed => a.abort .hostSignatureInvalid
      | .verified => pure ()
    | _, _ => pure ()

/-- Polluted Stop (`session.py:484-492`). -/
def checkRecordHash (attempt : Event) (r : AcceptFields) : ToolM W Unit :=
  if a.session.pollutedStop then do
    let expected ← orFault (computeRecordHash W (.obj attempt) (.int r.seq) (.str r.hostTs) (.str r.previousHash))
    if expected != r.recordHash then a.abort .hashMismatch else pure ()
  else pure ()

/-- An accept is checked, and kept (`session.py:456-495`). -/
def checkAccept (attempt : Event) (r : AcceptResponse W) : ToolM W Unit := do
  a.checkCountersignature r.1
  a.checkRecordHash attempt r.1
  Act.modify fun _ => some r

/-- `__aenter__` (`session.py:412-495`). -/
def aenter : ToolM W Unit := do
  match ← numbering a.session a.sendAttempt with
  | (_, none) => a.abort .hostUnavailable
  | (_, some (.reject _)) => a.abort .hostRejected
  | (_, some .unavailable) => a.abort .hostUnavailable
  | (attempt, some (.accept r)) => a.checkAccept attempt r

/-- `__aexit__` (`session.py:498-516`). -/
def aexit (raised : Bool) : ToolM W Unit :=
  swallow (a.emit (if raised then .failed else .success) none)

/-- `async with` over the action: the body runs where `__aenter__` returns. -/
def run : ToolM W Unit := do
  a.aenter
  match ← Act.await ToolQuery.body with
  | .ok _ => a.aexit false
  | .error x => do
    a.aexit true
    Act.raise x

end AuditedAction

/-! ## Runs of a section -/

section Runs

variable {σ : Type} {env : σ → (q : ToolQuery) → ToolReply W q → σ → Prop} {s s₁ s₂ s₃ : σ}
  {l l' : Option (AcceptResponse W)}

/-- A signing session's section, by the run of the emission inside. -/
theorem numbering_runs {α : Type} {session : AmcpSession} {key : Str} {m : Option Nat → ToolM W α} {n : Nat}
    {x : Except ToolRaise α} (hs : session.signer = some key) (htake : env s (.take session.numbering) (.ok n) s₁)
    (hm : Runs env (m (some n) l) s₁ (x, l') s₂)
    (hleave : env s₂ (.leave session.numbering (x.toOption.map fun _ => n + 1)) () s₃) :
    Runs env (numbering session m l) s (x, l') s₃ := by
  simp only [numbering, hs, Act.await_bind_apply]
  refine .ask htake (Runs.bind (.ret _ _) (Runs.bind (Runs.bind hm (.ret _ _)) ?_))
  cases x with
  | ok y => exact .ask hleave (.ret _ _)
  | error r => exact .ask hleave (.ret _ _)

theorem build_runs {a : AuditedAction} {key signature ts : Str} {o : Outcome} {r : Option Reason} {n : Nat}
    (hs : a.session.signer = some key) (hvalid : validAuditEvent W (.obj (a.wire o r ts)) = true)
    (hnow : env s .now ts s)
    (hsign : env s (.sign key (a.wire o r ts) n) (.ok (stamp (a.wire o r ts) key n signature)) s) :
    Runs env (a.build o (some n) r l) s (.ok (stamp (a.wire o r ts) key n signature), l) s := by
  simp only [AuditedAction.build, Act.await_bind_apply]
  refine .ask hnow ?_
  simp only [hvalid, ↓reduceIte, stampWith, hs, Act.await_bind_apply]
  exact .ask hsign (.ret _ _)

end Runs

end AuditableMcp
