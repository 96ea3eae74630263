import AuditableMcp.Canonical
import AuditableMcp.Lib.Regex
/-!
# `models.py`: what a wire event and an attempt response may be

Validation of data from a peer (`WIRE`): strict, closed, no member present as null, no lone surrogate.
pydantic reports its first error as a text; whether there is one is decided here, the text is
`World.schemaMessage`.

| here | there |
| --- | --- |
| `*_PATTERN`          | the patterns of `models.py:52-77`; `\d` is the Rust `regex` crate's |
| `validAuditEvent`    | `AuditEvent` (`models.py:250-260`) over `_SessionAuditEvent` (`:204-244`) |
| `validSealedV03`, `validEarlierSealed`, `validSealedV01` | the sealed views (`models.py:264-353`) |
| `firstValidationError`, `firstSealedValidationError` | `models.py:471-484` and `:488-512` |
| `AcceptResponse`     | `models.py:382-405`, its presence rules a field |
-/
namespace AuditableMcp

open JsonValue Regex Regex.Re

/-! ## Patterns -/

variable (W : World)

/-- `\d` as pydantic-core matches it. -/
def digit : Re := cls fun n => ('0'.toNat ≤ n && n ≤ '9'.toNat) || W.unicodeDigit n

def hexDigit : Re := alt (range '0' '9') (range 'a' 'f')
def anyHexDigit : Re := any [range '0' '9', range 'a' 'f', range 'A' 'F']

/-- `[0-9a-f]{8}-[0-9a-f]{4}-[1-8][0-9a-f]{3}-[89ab][0-9a-f]{3}-[0-9a-f]{12}` over the hex digits `h`
and the variant digits `v`. -/
def uuidBody (h v : Re) : Re :=
  seq [rep 8 h, chr '-', rep 4 h, chr '-', range '1' '8', rep 3 h, chr '-', v, rep 3 h, chr '-', rep 12 h]

/-- `UUID_PATTERN` (`models.py:52-55`). -/
def UUID_PATTERN : Re :=
  alt (uuidBody hexDigit (oneOf "89ab")) (text "00000000-0000-0000-0000-000000000000")

/-- `SESSION_ID_PATTERN` (`models.py:56`). -/
def SESSION_ID_PATTERN : Re := uuidBody hexDigit (oneOf "89ab")

/-- `EARLIER_UUID_PATTERN` (`models.py:58-61`). -/
def EARLIER_UUID_PATTERN : Re :=
  alt (uuidBody anyHexDigit (oneOf "89abAB")) (text "00000000-0000-0000-0000-000000000000")

/-- The date of `DATETIME_PATTERN` (`models.py:63-67`): 29 February of a leap year, or a day every year has. -/
def datePart : Re :=
  let d := digit W
  any [
    seq [any [seq [d, d, oneOf "2468", oneOf "048"], seq [d, d, oneOf "13579", oneOf "26"],
        seq [d, d, chr '0', oneOf "48"], seq [oneOf "02468", oneOf "048", text "00"],
        seq [oneOf "13579", oneOf "26", text "00"]], text "-02-29"],
    seq [rep 4 d, chr '-', any [
      seq [alt (seq [chr '0', oneOf "13578"]) (seq [chr '1', oneOf "02"]), chr '-',
        any [seq [chr '0', range '1' '9'], seq [oneOf "12", d], seq [chr '3', oneOf "01"]]],
      seq [alt (seq [chr '0', oneOf "469"]) (text "11"), chr '-',
        any [seq [chr '0', range '1' '9'], seq [oneOf "12", d], text "30"]],
      seq [text "02", chr '-',
        any [seq [chr '0', range '1' '9'], seq [chr '1', d], seq [chr '2', range '0' '8']]]]]]

def hourMinute : Re :=
  seq [alt (seq [oneOf "01", digit W]) (seq [chr '2', range '0' '3']), chr ':', range '0' '5', digit W]

def seconds : Re :=
  seq [chr ':', range '0' '5', digit W, opt (cat (chr '.') (plus (digit W)))]

/-- `DATETIME_PATTERN` (`models.py:63-67`): seconds required. -/
def DATETIME_PATTERN : Re := seq [datePart W, chr 'T', hourMinute W, seconds W, chr 'Z']

/-- `EARLIER_DATETIME_PATTERN` (`models.py:69-73`): seconds optional. -/
def EARLIER_DATETIME_PATTERN : Re := seq [datePart W, chr 'T', hourMinute W, opt (seconds W), chr 'Z']

/-- `CHAIN_HASH_PATTERN` (`models.py:74`). -/
def CHAIN_HASH_PATTERN : Re := rep 64 hexDigit

/-- `CONTEXT_HASH_PATTERN` (`models.py:75`). -/
def CONTEXT_HASH_PATTERN : Re := cat (text "sha256:") (rep 64 hexDigit)

def base64urlChar : Re := any [range 'A' 'Z', range 'a' 'z', range '0' '9', oneOf "_-"]

/-- `SIGNATURE_PATTERN` (`models.py:77`). -/
def SIGNATURE_PATTERN : Re := plus base64urlChar

/-- `SALTED_HASH_PATTERN` (`salted_hash.py:18`). -/
def SALTED_HASH_PATTERN : Re := rep 43 base64urlChar

/-- Padded standard base64, as 0.1.1 and 0.2 signed in (`models.py:345`). -/
def EARLIER_SIGNATURE_PATTERN : Re :=
  seq [plus (any [range 'A' 'Z', range 'a' 'z', range '0' '9', oneOf "+/"]), opt (chr '='), opt (chr '=')]

/-! ## Members -/

/-- A strict `str` matching a pattern. -/
def isPattern (r : Re) : Json → Bool
  | .str s => r.fullmatch s
  | _ => false

/-- A strict `str`. -/
def isText : Json → Bool
  | .str _ => true
  | _ => false

/-- `Field(min_length=1)`. -/
def isNonEmpty : Json → Bool
  | .str s => !s.isEmpty
  | _ => false

/-- One of the texts of a `Literal` or of an enumeration. -/
def isOneOf (ts : List Str) : Json → Bool
  | .str s => ts.contains s
  | _ => false

/-- `StrictBool`. -/
def isBool : Json → Bool
  | .bool _ => true
  | _ => false

/-- `JsonCount` (`models.py:95`): an int or an integral float from 0 to `MAX_SAFE_INTEGER`. -/
def isCount : Json → Bool
  | .int i => 0 ≤ i && i ≤ MAX_SAFE_INTEGER
  | .float (.fin q) => q.den = 1 && 0 ≤ q.num && q.num ≤ MAX_SAFE_INTEGER
  | _ => false

/-- `dict[str, object]`. -/
def isObject : Json → Bool
  | .obj _ => true
  | _ => false

def required (ms : Members) (k : Str) (p : Json → Bool) : Bool :=
  match get ms k with
  | some v => p v
  | none => false

/-- Absent, or there and of its type; no type admits null on the wire (`models.py:156-174`). -/
def optional (ms : Members) (k : Str) (p : Json → Bool) : Bool :=
  match get ms k with
  | some v => p v
  | none => true

/-- `extra='forbid'`. -/
def closed (ms : Members) (names : List Str) : Bool := ms.all fun m => names.contains m.1

def has (ms : Members) (k : Str) : Bool := (get ms k).isSome

/-- `TargetResource` (`models.py:195-200`). -/
def isTargetResource : Json → Bool
  | .obj ms => closed ms [KIND, REF, SCOPE_HINT] && required ms KIND isNonEmpty &&
      required ms REF isNonEmpty && optional ms SCOPE_HINT isText
  | _ => false

def outcomeTexts : List Str := [Outcome.attempted.text, Outcome.success.text, Outcome.failed.text, Outcome.aborted.text]

/-- `AbortReason` (`models.py:41-43`). -/
def abortReasons : List Reason :=
  [.hashMismatch, .hostRejected, .hostUnavailable, .hostUncountersigned, .hostSignatureInvalid]

/-- An aborted outcome carries a reason (`models.py:229-235`). -/
def reasonWhenAborted (ms : Members) : Bool := !hasText ms OUTCOME Outcome.aborted.text || has ms REASON

/-- `signer_seq`, `key_id` and `signature` together or not at all (`models.py:238-244`). -/
def level2Together (ms : Members) : Bool :=
  has ms SIGNER_SEQ == has ms KEY_ID && has ms KEY_ID == has ms SIGNATURE

/-! ## Events -/

/-- The operation an event describes, the same in every version. -/
def describesOperation (ms : Members) : Bool :=
  optional ms TRACEPARENT isText && required ms ACTION_TYPE isNonEmpty && required ms MUTATES isBool &&
    required ms EGRESS isBool && required ms TARGET_RESOURCE isTargetResource &&
    required ms OUTCOME (isOneOf outcomeTexts) && optional ms ACTION_CONTEXT isObject &&
    optional ms ACTION_CONTEXT_HASH (isPattern CONTEXT_HASH_PATTERN)

/-- `_SessionAuditEvent` (`models.py:204-244`) but for `ts` and `spec_version`. -/
def sessionFields (ms : Members) : Bool :=
  required ms ID (isPattern UUID_PATTERN) && required ms SESSION_ID (isPattern SESSION_ID_PATTERN) &&
    describesOperation ms && optional ms REASON (isOneOf (abortReasons.map Reason.text)) &&
    optional ms SIGNER_SEQ isCount && optional ms KEY_ID isNonEmpty &&
    optional ms SIGNATURE (isPattern SIGNATURE_PATTERN) && reasonWhenAborted ms && level2Together ms

def SESSION_NAMES : List Str :=
  [ID, SPEC_VERSION_KEY, TS, SESSION_ID, TRACEPARENT, ACTION_TYPE, MUTATES, EGRESS, TARGET_RESOURCE, OUTCOME,
    REASON, ACTION_CONTEXT, ACTION_CONTEXT_HASH, SIGNER_SEQ, KEY_ID, SIGNATURE]

/-- `SPEC_VERSION` (`models.py:32`). -/
def SPEC_VERSION : Str := lit "auditable-mcp/0.4"

def V01 : Str := lit "auditable-mcp/0.1"
def V011 : Str := lit "auditable-mcp/0.1.1"
def V02 : Str := lit "auditable-mcp/0.2"
def V03 : Str := lit "auditable-mcp/0.3"

/-- `KNOWN_SPEC_VERSIONS` (`models.py:279-285`), in publication order. -/
def KNOWN_SPEC_VERSIONS : List Str := [V01, V011, V02, V03, SPEC_VERSION]

/-- A value that is an object, without lone surrogates, with a model's members. -/
def isModel (names : List Str) (p : Members → Bool) : Json → Bool
  | .obj ms => !hasLoneSurrogate (.obj ms) && closed ms names && p ms
  | _ => false

/-- `AuditEvent`. -/
def validAuditEvent : Json → Bool :=
  isModel (ACTION_CONTEXT_SALTED_HASH :: SESSION_NAMES) fun ms =>
    required ms SPEC_VERSION_KEY (isOneOf [SPEC_VERSION]) && required ms TS (isPattern (DATETIME_PATTERN W)) &&
      sessionFields ms && optional ms ACTION_CONTEXT_SALTED_HASH (isPattern SALTED_HASH_PATTERN)

/-- `SealedAuditEventV03` (`models.py:264-271`). -/
def validSealedV03 : Json → Bool :=
  isModel SESSION_NAMES fun ms =>
    required ms SPEC_VERSION_KEY (isOneOf [V03]) && required ms TS (isPattern (EARLIER_DATETIME_PATTERN W)) &&
      sessionFields ms

/-- `EarlierSealedAuditEvent` (`models.py:321-353`). -/
def validEarlierSealed : Json → Bool :=
  isModel [ID, SPEC_VERSION_KEY, TS, CALL_ID, TRACEPARENT, ACTION_TYPE, MUTATES, EGRESS, TARGET_RESOURCE, OUTCOME,
      REASON, ACTION_CONTEXT, ACTION_CONTEXT_HASH, SIGNER_SEQ, KEY_ID, SIGNATURE] fun ms =>
    required ms ID (isPattern EARLIER_UUID_PATTERN) && required ms SPEC_VERSION_KEY (isOneOf [V011, V02]) &&
      required ms TS (isPattern (EARLIER_DATETIME_PATTERN W)) && required ms CALL_ID isNonEmpty &&
      describesOperation ms &&
      optional ms REASON (isOneOf ([Reason.hashMismatch, .hostRejected, .hostUnavailable].map Reason.text)) &&
      optional ms SIGNER_SEQ isCount && optional ms KEY_ID isNonEmpty &&
      optional ms SIGNATURE (isPattern EARLIER_SIGNATURE_PATTERN) && reasonWhenAborted ms

/-- `SealedAuditEventV01` (`models.py:295-317`). -/
def validSealedV01 : Json → Bool :=
  isModel [ID, SPEC_VERSION_KEY, TS, CALL_ID, TRACEPARENT, ACTION_TYPE, MUTATES, EGRESS, TARGET_RESOURCE, OUTCOME,
      REASON, ACTION_CONTEXT, ACTION_CONTEXT_HASH, SEQUENCE, KEY_ID, SIGNATURE] fun ms =>
    required ms ID (isPattern EARLIER_UUID_PATTERN) && required ms SPEC_VERSION_KEY (isOneOf [V01]) &&
      required ms TS (isPattern (EARLIER_DATETIME_PATTERN W)) && required ms CALL_ID isNonEmpty &&
      describesOperation ms && optional ms REASON isText && optional ms SEQUENCE isCount &&
      optional ms KEY_ID isText && optional ms SIGNATURE isText

/-- `_first_error` (`models.py:458-467`). -/
def firstError (valid : Json → Bool) (v : Json) : Option Str :=
  if valid v then none else some (W.schemaMessage v)

/-- `first_validation_error` (`models.py:471-484`). -/
def firstValidationError (v : Json) : Option Str := firstError W (validAuditEvent W) v

/-- `first_sealed_validation_error` (`models.py:488-512`): each event in its own version's shape. -/
def firstSealedValidationError (v : Json) : Option Str :=
  let version := match v with
    | .obj ms => get ms SPEC_VERSION_KEY
    | _ => none
  if version = some (.str V01) then firstError W (validSealedV01 W) v
  else if version = some (.str V03) then firstError W (validSealedV03 W) v
  else if version = some (.str V011) ∨ version = some (.str V02) then firstError W (validEarlierSealed W) v
  else firstError W (validAuditEvent W) v

/-! ## What a valid event is known to carry -/

variable {W}

theorem required_iff {ms : Members} {k : Str} {p : Json → Bool} :
    required ms k p = true ↔ ∃ v, get ms k = some v ∧ p v = true := by
  unfold required
  cases get ms k <;> simp

theorem isPattern_iff {r : Re} {v : Json} : isPattern r v = true ↔ ∃ s, v = .str s ∧ r.fullmatch s = true := by
  cases v <;> simp [isPattern]

theorem isOneOf_iff {ts : List Str} {v : Json} : isOneOf ts v = true ↔ ∃ s ∈ ts, v = .str s := by
  cases v <;> simp [isOneOf]

theorem firstError_eq_none {valid : Json → Bool} {v : Json} : firstError W valid v = none ↔ valid v = true := by
  by_cases h : valid v = true <;> simp [firstError, h]

/-- The members every event of 0.3 and later is read by. -/
structure SessionEvent (e : Event) : Prop where
  id : ∃ s, get e ID = some (.str s)
  session : ∃ s, get e SESSION_ID = some (.str s)
  outcome : ∃ o : Outcome, get e OUTCOME = some (.str o.text)
  scalar : hasLoneSurrogate (.obj e) = false
  level2 : level2Together e = true
  keyId : optional e KEY_ID isNonEmpty = true
  signerSeq : optional e SIGNER_SEQ isCount = true
  signature : optional e SIGNATURE (isPattern SIGNATURE_PATTERN) = true
  reason : optional e REASON (isOneOf (abortReasons.map Reason.text)) = true
  reasonWhenAborted : reasonWhenAborted e = true

theorem mem_outcomeTexts {s : Str} : s ∈ outcomeTexts ↔ ∃ o : Outcome, s = o.text := by
  constructor
  · intro h
    simp only [outcomeTexts, List.mem_cons, List.not_mem_nil, or_false] at h
    rcases h with h | h | h | h
    exacts [⟨.attempted, h⟩, ⟨.success, h⟩, ⟨.failed, h⟩, ⟨.aborted, h⟩]
  · rintro ⟨o, rfl⟩
    cases o <;> simp [outcomeTexts]

theorem sessionEvent_of_fields {e : Event} (hl : hasLoneSurrogate (.obj e) = false)
    (h : sessionFields e = true) : SessionEvent e := by
  simp only [sessionFields, describesOperation, Bool.and_eq_true] at h
  obtain ⟨⟨⟨⟨⟨⟨⟨⟨hid, hsess⟩, ⟨⟨⟨_, hout⟩, _⟩, _⟩⟩, hreason⟩, hseq⟩, hkey⟩, hsig⟩, hab⟩, hl2⟩ := h
  obtain ⟨v, hv, hp⟩ := required_iff.1 hid
  obtain ⟨s, rfl, _⟩ := isPattern_iff.1 hp
  obtain ⟨w, hw, hq⟩ := required_iff.1 hsess
  obtain ⟨t, rfl, _⟩ := isPattern_iff.1 hq
  obtain ⟨o, ho, hr⟩ := required_iff.1 hout
  obtain ⟨u, hu, rfl⟩ := isOneOf_iff.1 hr
  obtain ⟨o', rfl⟩ := mem_outcomeTexts.1 hu
  exact ⟨⟨s, hv⟩, ⟨t, hw⟩, ⟨o', ho⟩, hl, hl2, hkey, hseq, hsig, hreason, hab⟩

/-- A valid current event is one of the current version, in a session. -/
theorem validAuditEvent_spec {v : Json} (h : validAuditEvent W v = true) :
    ∃ e, v = .obj e ∧ SessionEvent e ∧ get e SPEC_VERSION_KEY = some (.str SPEC_VERSION) := by
  cases v with
  | obj e =>
    simp only [validAuditEvent, isModel, Bool.and_eq_true, Bool.not_eq_eq_eq_not, Bool.not_true] at h
    obtain ⟨⟨hl, _⟩, ⟨⟨⟨hver, _⟩, hs⟩, _⟩⟩ := h
    obtain ⟨w, hw, hp⟩ := required_iff.1 hver
    obtain ⟨s, hs', rfl⟩ := isOneOf_iff.1 hp
    simp only [List.mem_singleton] at hs'
    subst hs'
    exact ⟨e, rfl, sessionEvent_of_fields hl hs, hw⟩
  | _ => simp [validAuditEvent, isModel] at h

/-- A valid event sealed under 0.3 is one of that version, in a session. -/
theorem validSealedV03_spec {v : Json} (h : validSealedV03 W v = true) :
    ∃ e, v = .obj e ∧ SessionEvent e ∧ get e SPEC_VERSION_KEY = some (.str V03) := by
  cases v with
  | obj e =>
    simp only [validSealedV03, isModel, Bool.and_eq_true, Bool.not_eq_eq_eq_not, Bool.not_true] at h
    obtain ⟨⟨hl, _⟩, ⟨⟨hver, _⟩, hs⟩⟩ := h
    obtain ⟨w, hw, hp⟩ := required_iff.1 hver
    obtain ⟨s, hs', rfl⟩ := isOneOf_iff.1 hp
    simp only [List.mem_singleton] at hs'
    subst hs'
    exact ⟨e, rfl, sessionEvent_of_fields hl hs, hw⟩
  | _ => simp [validSealedV03, isModel] at h

/-! ## Attempt responses -/

/-- The members of an accept (`models.py:385-396`). -/
structure AcceptFields where
  seq : Int
  recordHash : Str
  hostTs : Str
  previousHash : Str
  hostSignature : Option Str
  hostKeyId : Option Str
  logId : Option Str
deriving DecidableEq, Repr

/-- What `AcceptResponse` validates: patterns, scalar values, and the triple whole or absent. -/
def AcceptFields.valid (W : World) (f : AcceptFields) : Bool :=
  (0 ≤ f.seq && f.seq ≤ MAX_SAFE_INTEGER) && CHAIN_HASH_PATTERN.fullmatch f.recordHash &&
    (DATETIME_PATTERN W).fullmatch f.hostTs && CHAIN_HASH_PATTERN.fullmatch f.previousHash &&
    f.hostSignature.all SIGNATURE_PATTERN.fullmatch && f.hostKeyId.all (fun s => !s.isEmpty) &&
    f.logId.all (fun s => !s.isEmpty) &&
    ([some f.recordHash, some f.hostTs, some f.previousHash, f.hostSignature, f.hostKeyId, f.logId].all
      fun s => s.all fun s => !s.any isSurrogate) &&
    (f.hostSignature.isSome == f.hostKeyId.isSome && f.hostKeyId.isSome == f.logId.isSome)

/-- `AcceptResponse`: the fields of an accept that the model admits. -/
def AcceptResponse (W : World) : Type := {f : AcceptFields // f.valid W = true}

/-- `RejectReason` (`models.py:44`). -/
def rejectReasons : List Reason := [.schemaInvalid, .replayDetected, .signatureInvalid, .l2Unsigned, .unknownKey]

def RejectReason : Type := {r : Reason // r ∈ rejectReasons}

instance : DecidableEq RejectReason := inferInstanceAs (DecidableEq {r : Reason // r ∈ rejectReasons})

/-- `AttemptResponse` (`models.py:428-431`). -/
inductive AttemptResponse (W : World)
  | accept (r : AcceptResponse W)
  | reject (reason : RejectReason)
  | unavailable

end AuditableMcp
