import AuditableMcp.Lib.Json
/-!
# Names on the wire: `fields.py`, `reasons.py`, and the code outside the repository

| here | there |
| --- | --- |
| `ID` … `LOG_ID` | `fields.py:9-49`, the ones the modelled functions read |
| `Reason`        | `reasons.py:16-45`: the Tier-1 reason, abort and anomaly codes |
| `World`         | what the functions call outside the repository: `rfc8785.dumps`, SHA-256, Python's `repr`, pydantic's message texts, the Unicode digits of the Rust `regex` crate |

A theorem that needs more of a `World` than that it is a function says so in a hypothesis.
-/
namespace AuditableMcp

open JsonValue

/-! ## Field names -/

def ID : Str := lit "id"
def SPEC_VERSION_KEY : Str := lit "spec_version"
def TS : Str := lit "ts"
def SESSION_ID : Str := lit "session_id"
def TRACEPARENT : Str := lit "traceparent"
def ACTION_TYPE : Str := lit "action_type"
def MUTATES : Str := lit "mutates"
def EGRESS : Str := lit "egress"
def TARGET_RESOURCE : Str := lit "target_resource"
def OUTCOME : Str := lit "outcome"
def REASON : Str := lit "reason"
def ACTION_CONTEXT : Str := lit "action_context"
def ACTION_CONTEXT_HASH : Str := lit "action_context_hash"
def ACTION_CONTEXT_SALTED_HASH : Str := lit "action_context_salted_hash"
def SIGNER_SEQ : Str := lit "signer_seq"
def KEY_ID : Str := lit "key_id"
def SIGNATURE : Str := lit "signature"
def KIND : Str := lit "kind"
def REF : Str := lit "ref"
def SCOPE_HINT : Str := lit "scope_hint"
/-- Before 0.3 an event named its call by `call_id` and numbered in `sequence` (`verify.py:35`). -/
def CALL_ID : Str := lit "call_id"
def SEQUENCE : Str := lit "sequence"

/-! ## Outcomes and codes -/

/-- `models.Outcome` (`models.py:98-104`). -/
inductive Outcome
  | attempted | success | failed | aborted
deriving DecidableEq, Repr

def Outcome.text : Outcome → Str
  | .attempted => lit "attempted"
  | .success => lit "success"
  | .failed => lit "failed"
  | .aborted => lit "aborted"

theorem Outcome.text_inj {a b : Outcome} (h : a.text = b.text) : a = b := by
  cases a <;> cases b <;> first | rfl | (exact absurd h (by decide))

/-- The Tier-1 codes (`reasons.py`): reject reasons, abort reasons and anomaly kinds. -/
inductive Reason
  | schemaInvalid | replayDetected | signatureInvalid | l2Unsigned | unknownKey | internalError
  | hashMismatch | hostRejected | hostUnavailable | hostUncountersigned | hostSignatureInvalid
  | recordHashMismatch | digestMismatch | principalMismatch | seqGap | signerSeqGap
  | orphanedOutcome | unresolvedAttempt | unreportedEgress
deriving DecidableEq, Repr

def Reason.text : Reason → Str
  | .schemaInvalid => lit "schema-invalid"
  | .replayDetected => lit "replay-detected"
  | .signatureInvalid => lit "signature-invalid"
  | .l2Unsigned => lit "l2-unsigned"
  | .unknownKey => lit "unknown-key"
  | .internalError => lit "internal-error"
  | .hashMismatch => lit "hash-mismatch"
  | .hostRejected => lit "host-rejected"
  | .hostUnavailable => lit "host-unavailable"
  | .hostUncountersigned => lit "host-uncountersigned"
  | .hostSignatureInvalid => lit "host-signature-invalid"
  | .recordHashMismatch => lit "record-hash-mismatch"
  | .digestMismatch => lit "digest-mismatch"
  | .principalMismatch => lit "principal-mismatch"
  | .seqGap => lit "seq-gap"
  | .signerSeqGap => lit "signer-seq-gap"
  | .orphanedOutcome => lit "orphaned-outcome"
  | .unresolvedAttempt => lit "unresolved-attempt"
  | .unreportedEgress => lit "unreported-egress"

/-! ## Outside the repository -/

/-- The functions the modelled code calls and the repository does not contain. -/
structure World where
  /-- `rfc8785.dumps`, decoded; called only on values inside the domain (`canonical.py:126-130`). -/
  dumps : Json → Str
  /-- `hashlib.sha256(text.encode('utf-8')).hexdigest()`. -/
  sha256 : Str → Str
  /-- Python's `repr`, which only diagnostic texts use. -/
  repr : Json → Str
  /-- The text of pydantic's first error for a value a model refuses. -/
  schemaMessage : Json → Str
  /-- The digits other than `0`–`9` that `\d` matches in the Rust `regex` crate. -/
  unicodeDigit : Nat → Bool

/-- An event as received: a Python `dict[str, object]`. -/
abbrev Event := Members

/-- `event.get(k) == text` for a text: only a `str` equals a `str`. -/
def hasText (e : Event) (k s : Str) : Bool := get e k == some (.str s)

@[simp] theorem hasText_iff {e : Event} {k s : Str} : hasText e k s = true ↔ get e k = some (.str s) := by
  simp [hasText]

/-- Python's truth of a member. -/
def truthy : Option Json → Bool
  | none | some .null => false
  | some (.bool b) => b
  | some (.int i) => i != 0
  | some (.float f) => f != .fin 0
  | some (.str s) => !s.isEmpty
  | some (.arr xs) => !xs.isEmpty
  | some (.obj ms) => !ms.isEmpty

end AuditableMcp
