import AuditableMcp.Frames
/-!
# `models.py:382-442`: what answers an attempt, and how the tool reads it (`mcp/seam.py:379-399`)

| here | there |
| --- | --- |
| `AttemptResponse.toJson` | `AttemptResponse.to_wire` |
| `AttemptResponse.ofJson` | `_RESPONSE_ADAPTER.validate_python`, on the wire |
| `AuditRequestMeta`, `AuditRequestMeta.ofJson` | `AuditRequestMeta`, its `model_validate` on the wire |
| `decision`               | `_decision` over `_read_response` |
-/
namespace AuditableMcp

open JsonValue

variable {W : World}

def STATUS : Str := lit "status"
def SEQ : Str := lit "seq"
def RECORD_HASH : Str := lit "record_hash"
def HOST_TS : Str := lit "host_ts"
def PREVIOUS_HASH : Str := lit "previous_hash"
def HOST_SIGNATURE_KEY : Str := lit "host_signature"
def HOST_KEY_ID : Str := lit "host_key_id"
def LOG_ID : Str := lit "log_id"

def ACCEPT : Str := lit "accept"
def REJECT : Str := lit "reject"
def UNAVAILABLE : Str := lit "unavailable"

/-- The member, where it is a text. -/
def textOf (ms : Members) (k : Str) : Option Str :=
  match get ms k with
  | some (.str s) => some s
  | _ => none

/-- The `int` a `JsonCount` is. -/
def countOf : Json → Option Int
  | .int i => some i
  | .float (.fin q) => if q.den = 1 then some q.num else none
  | _ => none

/-- An absent optional is omitted. -/
def optMember (k : Str) (s : Option Str) : Members := (s.map fun s => (k, .str s)).toList

/-! ## Answers -/

def AcceptFields.toMembers (f : AcceptFields) : Members :=
  [(STATUS, .str ACCEPT), (SEQ, .int f.seq), (RECORD_HASH, .str f.recordHash), (HOST_TS, .str f.hostTs),
    (PREVIOUS_HASH, .str f.previousHash)] ++
    (optMember HOST_SIGNATURE_KEY f.hostSignature ++ optMember HOST_KEY_ID f.hostKeyId ++ optMember LOG_ID f.logId)

def AttemptResponse.toJson : AttemptResponse W → Json
  | .accept r => .obj r.1.toMembers
  | .reject reason => .obj [(STATUS, .str REJECT), (REASON, .str reason.1.text)]
  | .unavailable => .obj [(STATUS, .str UNAVAILABLE), (REASON, .str Reason.internalError.text)]

def ACCEPT_NAMES : List Str :=
  [STATUS, SEQ, RECORD_HASH, HOST_TS, PREVIOUS_HASH, HOST_SIGNATURE_KEY, HOST_KEY_ID, LOG_ID]

/-- `AcceptResponse`, of the members of an answer. -/
def readAccept (ms : Members) : Option (AcceptResponse W) :=
  match (get ms SEQ).bind countOf, textOf ms RECORD_HASH, textOf ms HOST_TS, textOf ms PREVIOUS_HASH with
  | some seq, some recordHash, some hostTs, some previousHash =>
    let f : AcceptFields := {
      seq, recordHash, hostTs, previousHash
      hostSignature := textOf ms HOST_SIGNATURE_KEY
      hostKeyId := textOf ms HOST_KEY_ID
      logId := textOf ms LOG_ID }
    if closed ms ACCEPT_NAMES && optional ms HOST_SIGNATURE_KEY isText && optional ms HOST_KEY_ID isText &&
      optional ms LOG_ID isText then
      if h : f.valid W = true then some ⟨f, h⟩ else none
    else none
  | _, _, _, _ => none

def AttemptResponse.ofJson : Json → Option (AttemptResponse W)
  | .obj ms =>
    if hasText ms STATUS ACCEPT then (readAccept ms).map .accept
    else if hasText ms STATUS REJECT then
      if closed ms [STATUS, REASON] then
        (rejectReasons.attach.find? fun r => hasText ms REASON r.1.text).map .reject
      else none
    else if hasText ms STATUS UNAVAILABLE && closed ms [STATUS, REASON] &&
      optional ms REASON (isOneOf [Reason.internalError.text]) then some .unavailable
    else none
  | _ => none

/-- What the host writes for an answer, the tool reads as that answer. -/
theorem AttemptResponse.ofJson_toJson (r : AttemptResponse W) : ofJson r.toJson = some r := by
  cases r with
  | unavailable => rfl
  | reject reason =>
    obtain ⟨reason, hmem⟩ := reason
    simp only [rejectReasons, List.mem_cons, List.not_mem_nil, or_false] at hmem
    rcases hmem with rfl | rfl | rfl | rfl | rfl <;> rfl
  | accept r =>
    obtain ⟨f, hf⟩ := r
    have htriple : f.hostSignature.isSome = f.hostKeyId.isSome ∧ f.hostKeyId.isSome = f.logId.isSome := by
      simpa only [Bool.and_eq_true, beq_iff_eq] using ((Bool.and_eq_true _ _).mp hf).2
    have hread : readAccept f.toMembers = if h : f.valid W = true then some ⟨f, h⟩ else none := by
      obtain ⟨seq, recordHash, hostTs, previousHash, signature, keyId, logId⟩ := f
      cases signature <;> cases keyId <;> cases logId <;> simp at htriple
      · rfl
      · rfl
    have haccept : ofJson (.obj f.toMembers) = (readAccept f.toMembers).map (accept (W := W)) := rfl
    exact haccept.trans (by rw [hread, dif_pos hf]; rfl)

/-- `_decision`: a protocol error, and what cannot be read, record nothing. -/
def decision : Frame → AttemptResponse W
  | .response _ result => (AttemptResponse.ofJson (.obj result)).getD .unavailable
  | _ => .unavailable

/-! ## What a request of a call carries -/

structure AuditRequestMeta (W : World) where
  sessionId : Str
  responses : List (Str × AttemptResponse W)
  isSessionId : SESSION_ID_PATTERN.fullmatch sessionId = true

def readResponses : Option Json → Option (List (Str × AttemptResponse W))
  | none => some []
  | some (.obj rs) => rs.mapM fun (id, v) =>
    if UUID_PATTERN.fullmatch id then (AttemptResponse.ofJson v).map (id, ·) else none
  | _ => none

def AuditRequestMeta.ofJson : Json → Option (AuditRequestMeta W)
  | .obj ms =>
    if closed ms [SESSION_ID, RESPONSES] then
      match get ms SESSION_ID with
      | some (.str session) =>
        if h : SESSION_ID_PATTERN.fullmatch session = true then
          (readResponses (get ms RESPONSES)).map (⟨session, ·, h⟩)
        else none
      | _ => none
    else none
  | _ => none

/-- What a request's `_meta` carries under the extension, where that is valid. -/
def auditMetaOf (params : Members) : Option (AuditRequestMeta W) :=
  (get (metaOf params) EXTENSION_ID).bind AuditRequestMeta.ofJson

end AuditableMcp
