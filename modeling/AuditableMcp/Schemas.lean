import AuditableMcp.Lib.JsonSchema
import AuditableMcp.Reference
/-!
# `spec/schema`: the normative schemas of an audit event, and that `models.py` validates as they do

| here | there |
| --- | --- |
| `auditEventV04`, `auditEventV03` | `spec/schema/audit-event.schema.json`, `spec/schema/earlier/0.3` |
| `auditEventV02`, `auditEventV011` | `spec/schema/earlier/0.2`, `spec/schema/earlier/0.1.1` |
| `auditEventV01`                  | `spec/schema/earlier/0.1` |
| `World.ecma`                     | the dialect of a schema's `pattern`, where `\d` is `[0-9]` |

The documents are definitions of what `ts` asserts, because that is where the two part: the patterns were copied, and
`\d` means more in the dialect that pydantic-core reads them in (`validation_agrees`).
-/
namespace AuditableMcp

open JsonValue Regex Regex.Re JsonSchema Schema

/-! ## The documents -/

def string : Schema := .type .string

def nonEmptyString : Schema := schema [string, .minLength 1]

def boolean : Schema := .type .boolean

def patterned (r : Re) : Schema := schema [string, .pattern r]

def enumerated (ts : List Str) : Schema := schema [string, .enum ts]

def countSchema : Schema := schema [.type .integer, .minimum 0, .maximum MAX_SAFE_INTEGER]

def targetResource : Schema :=
  schema [.type .object, properties [(KIND, nonEmptyString), (REF, nonEmptyString), (SCOPE_HINT, string)],
    requires [KIND, REF]]

def actionContext : Schema := schema [.type .object, .propertyNames string]

/-- `if` the outcome is `aborted`, `then` a reason is required. -/
def reasonIfAborted : Schema :=
  .whenever (schema [.required OUTCOME, .property OUTCOME (.enum [Outcome.aborted.text])]) (.required REASON)

/-- What every version says of the operation. -/
def operationProperties : List (Str × Schema) :=
  [(TRACEPARENT, string), (ACTION_TYPE, nonEmptyString), (MUTATES, boolean), (EGRESS, boolean),
    (TARGET_RESOURCE, targetResource), (OUTCOME, enumerated outcomeTexts), (ACTION_CONTEXT, actionContext),
    (ACTION_CONTEXT_HASH, patterned CONTEXT_HASH_PATTERN)]

/-- The schema of the versions that have an audit session. -/
def sessionSchema (version : Str) (later : List (Str × Schema)) (ts : Schema) : Schema :=
  schema [.type .object,
    properties (later ++ [(ID, patterned UUID_PATTERN), (SPEC_VERSION_KEY, enumerated [version]), (TS, ts),
      (SESSION_ID, patterned SESSION_ID_PATTERN)] ++ operationProperties ++
      [(REASON, enumerated (abortReasons.map Reason.text)), (SIGNER_SEQ, countSchema), (KEY_ID, nonEmptyString),
        (SIGNATURE, patterned SIGNATURE_PATTERN)]),
    requires [ID, SPEC_VERSION_KEY, TS, SESSION_ID, ACTION_TYPE, MUTATES, EGRESS, TARGET_RESOURCE, OUTCOME],
    reasonIfAborted, .dependentRequired SIGNATURE [KEY_ID, SIGNER_SEQ],
    .dependentRequired KEY_ID [SIGNATURE, SIGNER_SEQ], .dependentRequired SIGNER_SEQ [SIGNATURE, KEY_ID]]

def auditEventV04 : Schema → Schema :=
  sessionSchema SPEC_VERSION [(ACTION_CONTEXT_SALTED_HASH, patterned SALTED_HASH_PATTERN)]

def auditEventV03 : Schema → Schema := sessionSchema V03 []

/-- The members of the versions that named the call. -/
def callProperties (version : Str) (ts : Schema) : List (Str × Schema) :=
  [(ID, patterned EARLIER_UUID_PATTERN), (SPEC_VERSION_KEY, enumerated [version]), (TS, ts), (CALL_ID, nonEmptyString)] ++
    operationProperties

def callRequired : List Str :=
  [ID, SPEC_VERSION_KEY, TS, CALL_ID, ACTION_TYPE, MUTATES, EGRESS, TARGET_RESOURCE, OUTCOME]

def callSchema (version : Str) (ts : Schema) : Schema :=
  schema [.type .object,
    properties (callProperties version ts ++
      [(REASON, enumerated ([Reason.hashMismatch, .hostRejected, .hostUnavailable].map Reason.text)), (SIGNER_SEQ, countSchema),
        (KEY_ID, nonEmptyString), (SIGNATURE, patterned EARLIER_SIGNATURE_PATTERN)]),
    requires callRequired, reasonIfAborted]

def auditEventV02 : Schema → Schema := callSchema V02

def auditEventV011 : Schema → Schema := callSchema V011

def auditEventV01 (ts : Schema) : Schema :=
  schema [.type .object,
    properties (callProperties V01 ts ++
      [(REASON, string), (SEQUENCE, countSchema), (KEY_ID, string), (SIGNATURE, string)]),
    requires callRequired]

/-! ## A schema against the checks of a model -/

section
variable {ms : Members} {W : World} {v : Json}

theorem valid_properties (ps : List (Str × Schema)) :
    (properties ps).valid (.obj ms) = ((ps.all fun p => optional ms p.1 p.2.valid) && closed ms (ps.map Prod.fst)) := by
  have hproperty : ∀ p : Str × Schema, (Schema.property p.1 p.2).valid (.obj ms) = optional ms p.1 p.2.valid := by
    intro p
    simp only [valid, ofObject, optional]
    cases get ms p.1 <;> rfl
  have hall : (schema (ps.map fun p => Schema.property p.1 p.2)).valid (.obj ms) =
      ps.all fun p => optional ms p.1 p.2.valid := by
    rw [valid_schema, List.all_map]
    exact congrArg ps.all (funext hproperty)
  rw [properties, valid, hall]
  rfl

theorem valid_requires (names : List Str) : (requires names).valid (.obj ms) = names.all (has ms) := by
  simp only [requires, valid_schema, List.all_map]
  rfl

theorem required_eq (k : Str) (p : Json → Bool) : required ms k p = (has ms k && optional ms k p) := by
  unfold required has optional
  cases get ms k <;> simp

theorem valid_patterned (r : Re) : (patterned r).valid = isPattern r := by
  funext v
  cases v <;> simp [patterned, string, valid_schema, valid, isType, ofString, isPattern]

theorem valid_enumerated (ts : List Str) : (enumerated ts).valid = isOneOf ts := by
  funext v
  cases v with
  | str s =>
    have hsame : ∀ t, (Json.str s == Json.str t) = (s == t) := fun t => by
      rw [Bool.eq_iff_iff, beq_iff_eq, beq_iff_eq, Json.str.injEq]
    simp only [enumerated, string, valid_schema, List.all_cons, List.all_nil, valid, isType, isOneOf, hsame,
      List.contains_eq_any_beq, Bool.true_and, Bool.and_true]
  | _ => rfl

theorem valid_string : string.valid = isText := by
  funext v
  cases v <;> rfl

theorem valid_boolean : boolean.valid = isBool := by
  funext v
  cases v <;> rfl

theorem valid_nonEmptyString : nonEmptyString.valid = isNonEmpty := by
  funext v
  cases v with
  | str s => cases s <;> simp [nonEmptyString, string, valid_schema, valid, isType, ofString, isNonEmpty]
  | _ => rfl

/-- A rational without a denominator is where its numerator is. -/
theorem bounded_iff {q : Rat} (hden : q.den = 1) (bound : Int) :
    ((bound : Rat) ≤ q ↔ bound ≤ q.num) ∧ (q ≤ (bound : Rat) ↔ q.num ≤ bound) := by
  have hq : q = (q.num : Rat) := (Rat.den_eq_one_iff q).1 hden |>.symm
  constructor <;> rw [hq, Rat.intCast_le_intCast] <;> simp

theorem valid_count : countSchema.valid = isCount := by
  funext v
  cases v with
  | int i =>
    have hhigh : ((i : Rat) ≤ ((MAX_SAFE_INTEGER : Int) : Rat)) ↔ i ≤ MAX_SAFE_INTEGER := Rat.intCast_le_intCast
    have hlow : (((0 : Int) : Rat) ≤ (i : Rat)) ↔ 0 ≤ i := Rat.intCast_le_intCast
    simp only [countSchema, valid_schema, List.all_cons, List.all_nil, valid, isType, ofNumber, isCount, hhigh, hlow,
      Bool.true_and, Bool.and_true]
  | float f =>
    cases f with
    | fin q =>
      simp only [countSchema, valid_schema, List.all_cons, List.all_nil, valid, isType, ofNumber, isCount, Bool.and_true]
      by_cases hden : q.den = 1
      · simp only [(bounded_iff hden _).1, (bounded_iff hden _).2, Bool.and_assoc]
      · simp only [hden, decide_false, Bool.false_and]
    | _ => rfl
  | _ => rfl

theorem valid_targetResource : targetResource.valid = isTargetResource := by
  funext v
  cases v with
  | obj ms =>
    simp only [targetResource, valid_schema, List.all_cons, List.all_nil, valid_properties, valid_requires, List.map_cons,
      List.map_nil, valid_nonEmptyString, valid_string, isTargetResource, required_eq, valid, isType, Bool.true_and,
      Bool.and_true]
    ac_rfl
  | _ => rfl

theorem valid_actionContext : actionContext.valid = isObject := by
  funext v
  cases v with
  | obj ms =>
    have hnames : (ms.all fun m => string.valid (.str m.1)) = true := List.all_eq_true.2 fun _ _ => rfl
    simp only [actionContext, valid_schema, List.all_cons, List.all_nil, valid, isType, ofObject, isObject, hnames,
      Bool.and_true]
  | _ => rfl

theorem valid_reasonIfAborted : reasonIfAborted.valid (.obj ms) = reasonWhenAborted ms := by
  simp only [reasonIfAborted, valid, valid_schema, List.all_cons, List.all_nil, ofObject, reasonWhenAborted, hasText, has,
    List.any_cons, List.any_nil, Bool.or_false, Bool.and_true]
  cases get ms OUTCOME <;> rfl

theorem valid_dependentRequired : ((Schema.dependentRequired SIGNATURE [KEY_ID, SIGNER_SEQ]).valid (.obj ms) &&
    ((Schema.dependentRequired KEY_ID [SIGNATURE, SIGNER_SEQ]).valid (.obj ms) &&
      (Schema.dependentRequired SIGNER_SEQ [SIGNATURE, KEY_ID]).valid (.obj ms))) = level2Together ms := by
  simp only [valid, ofObject, List.all_cons, List.all_nil, Bool.and_true, level2Together, has]
  cases (get ms SIGNATURE).isSome <;> cases (get ms KEY_ID).isSome <;> cases (get ms SIGNER_SEQ).isSome <;> rfl

theorem closed_perm (ms : Members) {names names' : List Str} (h : names.Perm names') : closed ms names = closed ms names' := by
  unfold closed
  refine congrArg ms.all (funext fun m => ?_)
  rw [Bool.eq_iff_iff, List.contains_iff_mem, List.contains_iff_mem]
  exact h.mem_iff

/-! ## Each version -/

/-- The models and the documents name the same members, each in its own order: of an event with a session, of one of 0.2
and 0.1.1, and of one of 0.1. -/
theorem names_perm :
    SESSION_NAMES.Perm ([ID, SPEC_VERSION_KEY, TS, SESSION_ID] ++ operationProperties.map Prod.fst ++
        [REASON, SIGNER_SEQ, KEY_ID, SIGNATURE]) ∧
      [ID, SPEC_VERSION_KEY, TS, CALL_ID, TRACEPARENT, ACTION_TYPE, MUTATES, EGRESS, TARGET_RESOURCE, OUTCOME, REASON,
        ACTION_CONTEXT, ACTION_CONTEXT_HASH, SIGNER_SEQ, KEY_ID, SIGNATURE].Perm
          ((callProperties V02 anything).map Prod.fst ++ [REASON, SIGNER_SEQ, KEY_ID, SIGNATURE]) ∧
      [ID, SPEC_VERSION_KEY, TS, CALL_ID, TRACEPARENT, ACTION_TYPE, MUTATES, EGRESS, TARGET_RESOURCE, OUTCOME, REASON,
        ACTION_CONTEXT, ACTION_CONTEXT_HASH, SEQUENCE, KEY_ID, SIGNATURE].Perm
          ((callProperties V01 anything).map Prod.fst ++ [REASON, SEQUENCE, KEY_ID, SIGNATURE]) := by decide

@[simp] theorem valid_object : (Schema.type .object).valid (.obj ms) = true := rfl

/-- The checks of the models of the versions with a session are their schema's, where the schema's `\d` is the model's. -/
theorem session_agrees {version : Str} {later : List (Str × Schema)} {r : Re} (hl : hasLoneSurrogate v = false) :
    isModel (later.map Prod.fst ++ SESSION_NAMES) (fun ms => required ms SPEC_VERSION_KEY (isOneOf [version]) &&
      required ms TS (isPattern r) && sessionFields ms && later.all fun p => optional ms p.1 p.2.valid) v =
        (sessionSchema version later (patterned r)).valid v := by
  cases v with
  | obj ms =>
    have hnames := closed_perm ms (names_perm.1.append_left (later.map Prod.fst))
    simp only [List.append_assoc] at hnames
    simp only [isModel, hl, hnames, sessionFields, describesOperation, required_eq, sessionSchema, operationProperties, valid_schema,
      List.all_cons, List.all_nil, valid_properties, valid_requires, valid_object, List.all_append, List.map_append,
      List.map_cons, List.map_nil, List.append_assoc, valid_patterned, valid_enumerated, valid_string, valid_boolean,
      valid_nonEmptyString, valid_count, valid_targetResource, valid_actionContext, valid_reasonIfAborted,
      ← valid_dependentRequired, Bool.and_true, Bool.not_false, Bool.true_and]
    ac_rfl
  | _ => rfl

theorem validAuditEvent_eq (hl : hasLoneSurrogate v = false) :
    validAuditEvent W v = (auditEventV04 (patterned (DATETIME_PATTERN W))).valid v := by
  refine Eq.trans ?_ (session_agrees hl)
  simp only [validAuditEvent, List.map_cons, List.map_nil, List.all_cons, List.all_nil, valid_patterned, Bool.and_true]
  rfl

theorem validSealedV03_eq (hl : hasLoneSurrogate v = false) :
    validSealedV03 W v = (auditEventV03 (patterned (EARLIER_DATETIME_PATTERN W))).valid v := by
  refine Eq.trans ?_ (session_agrees hl)
  simp only [validSealedV03, List.map_nil, List.nil_append, List.all_nil, Bool.and_true]

theorem required_version {version : Str} {versions : List Str} (hg : get ms SPEC_VERSION_KEY = some (.str version))
    (hmem : version ∈ versions) : required ms SPEC_VERSION_KEY (isOneOf versions) = true := by
  rw [required, hg]
  exact List.contains_iff_mem.2 hmem

/-- `EarlierSealedAuditEvent` is the model of two versions; of an event of one it checks what that version's schema says. -/
theorem validEarlierSealed_eq {version : Str} (hl : hasLoneSurrogate (.obj ms) = false)
    (hg : get ms SPEC_VERSION_KEY = some (.str version)) (hmem : version ∈ [V011, V02]) :
    validEarlierSealed W (.obj ms) =
      (callSchema version (patterned (EARLIER_DATETIME_PATTERN W))).valid (.obj ms) := by
  have hone := required_version hg (List.mem_singleton.2 rfl)
  rw [required_eq] at hone
  obtain ⟨hhas, honly⟩ := Bool.and_eq_true_iff.1 hone
  simp only [validEarlierSealed, isModel, hl, required_version hg hmem, closed_perm _ names_perm.2.1, describesOperation,
    required_eq, callSchema, callProperties, callRequired, operationProperties, valid_schema, List.all_cons, List.all_nil,
    valid_properties, valid_requires, valid_object, List.all_append, List.map_append, List.map_cons, List.map_nil,
    List.append_assoc, valid_patterned, valid_enumerated, valid_string, valid_boolean, valid_nonEmptyString, valid_count,
    valid_targetResource, valid_actionContext, valid_reasonIfAborted, hhas, honly, Bool.and_true, Bool.not_false,
    Bool.true_and]
  ac_rfl

theorem validSealedV01_eq (hl : hasLoneSurrogate v = false) :
    validSealedV01 W v = (auditEventV01 (patterned (EARLIER_DATETIME_PATTERN W))).valid v := by
  cases v with
  | obj ms =>
    simp only [validSealedV01, isModel, hl, closed_perm _ names_perm.2.2, describesOperation, required_eq, auditEventV01,
      callProperties, callRequired, operationProperties, valid_schema, List.all_cons, List.all_nil, valid_properties, valid_requires,
      valid_object, List.all_append, List.map_append, List.map_cons, List.map_nil, List.append_assoc, valid_patterned,
      valid_enumerated, valid_string, valid_boolean, valid_nonEmptyString, valid_count, valid_targetResource,
      valid_actionContext, Bool.and_true, Bool.not_false, Bool.true_and]
    ac_rfl
  | _ => rfl

end

/-! ## The dialect of a schema's patterns -/

/-- The dialect of a schema's `pattern`, ECMA-262: its `\d` is `[0-9]`. -/
def World.ecma (W : World) : World := { W with unicodeDigit := fun _ => false }

def isAscii (n : Nat) : Bool := n < 128

/-- The digits of `\d` beyond `0`–`9` are not ASCII. -/
def World.ForeignDigits (W : World) : Prop := ∀ n, W.unicodeDigit n = true → isAscii n = false

section
variable {W : World}

theorem ascii_chr {c : Char} (h : isAscii c.toNat = true) : (chr c).restrict isAscii = chr c := restrict_chr h

theorem ascii_range {a b : Char} (h : isAscii b.toNat = true) : (Re.range a b).restrict isAscii = Re.range a b :=
  restrict_range fun _ _ hn => decide_eq_true (Nat.lt_of_le_of_lt hn (of_decide_eq_true h))

theorem ascii_oneOf {s : String} (h : (lit s).all isAscii = true) : (oneOf s).restrict isAscii = oneOf s :=
  restrict_oneOf (List.all_eq_true.1 h)

theorem ascii_text {s : String} (h : (lit s).all isAscii = true) : (text s).restrict isAscii = text s :=
  restrict_text (List.all_eq_true.1 h)

theorem ascii_digit (hd : W.ForeignDigits) : (digit W).restrict isAscii = digit W.ecma := by
  refine congrArg cls (funext fun n => ?_)
  have hascii : ('0'.toNat ≤ n && n ≤ '9'.toNat) = true → isAscii n = true := fun h =>
    decide_eq_true (Nat.lt_of_le_of_lt (of_decide_eq_true (Bool.and_eq_true_iff.1 h).2) (by decide))
  have hforeign := hd n
  simp only [World.ecma, Bool.or_false]
  revert hascii hforeign
  cases ('0'.toNat ≤ n && n ≤ '9'.toNat) <;> cases W.unicodeDigit n <;> cases isAscii n <;> simp

theorem ascii_datePart (hd : W.ForeignDigits) : (datePart W).restrict isAscii = datePart W.ecma := by
  simp (disch := decide) only [datePart, restrict_any, restrict_seq, restrict_rep, restrict, List.map_cons, List.map_nil,
    ascii_chr, ascii_range, ascii_oneOf, ascii_text, ascii_digit hd]

theorem ascii_hourMinute (hd : W.ForeignDigits) : (hourMinute W).restrict isAscii = hourMinute W.ecma := by
  simp (disch := decide) only [hourMinute, restrict_seq, restrict, List.map_cons, List.map_nil, ascii_chr, ascii_range,
    ascii_oneOf, ascii_digit hd]

theorem ascii_seconds (hd : W.ForeignDigits) : (seconds W).restrict isAscii = seconds W.ecma := by
  simp (disch := decide) only [seconds, restrict_seq, restrict_opt, restrict_plus, restrict, List.map_cons, List.map_nil,
    ascii_chr, ascii_range, ascii_digit hd]

/-- What the schema's dialect matches is what pydantic-core's does, of ASCII texts. -/
theorem datetime_ecma (hd : W.ForeignDigits) (s : Str) :
    (DATETIME_PATTERN W.ecma).fullmatch s = ((DATETIME_PATTERN W).fullmatch s && s.all isAscii) := by
  rw [← fullmatch_restrict]
  simp (disch := decide) only [DATETIME_PATTERN, restrict_seq, List.map_cons, List.map_nil, ascii_chr, ascii_datePart hd,
    ascii_hourMinute hd, ascii_seconds hd]

theorem earlierDatetime_ecma (hd : W.ForeignDigits) (s : Str) :
    (EARLIER_DATETIME_PATTERN W.ecma).fullmatch s = ((EARLIER_DATETIME_PATTERN W).fullmatch s && s.all isAscii) := by
  rw [← fullmatch_restrict]
  simp (disch := decide) only [EARLIER_DATETIME_PATTERN, restrict_seq, restrict_opt, List.map_cons, List.map_nil,
    ascii_chr, ascii_datePart hd, ascii_hourMinute hd, ascii_seconds hd]

end

/-! ## Validation against the schemas -/

/-- The schema of a version, of what it says `ts` is. -/
def auditEventSchema (version : Str) : Schema → Schema :=
  if version = V01 then auditEventV01 else if version = V011 then auditEventV011 else if version = V02 then auditEventV02
  else if version = V03 then auditEventV03 else auditEventV04

/-- The pattern of a version's `ts`. -/
def tsPattern (W : World) (version : Str) : Re :=
  if version = SPEC_VERSION then DATETIME_PATTERN W else EARLIER_DATETIME_PATTERN W

/-- The document under `spec/schema` for a version: its patterns are its own dialect's. -/
def normative (W : World) (version : Str) : Schema :=
  auditEventSchema version (patterned (tsPattern W.ecma version))

/-- Its `ts` is one the model's pattern reads, with a digit that is not ASCII. -/
def hasForeignTs (W : World) (version : Str) : Json → Bool
  | .obj ms => (get ms TS).any fun t => isPattern (tsPattern W version) t && ofString (fun s => !s.all isAscii) t
  | _ => false

/-- An event that is as its schema says but for such a `ts`. -/
def ForeignEvent (W : World) (version : Str) (v : Json) : Prop :=
  (auditEventSchema version anything).valid v = true ∧ hasForeignTs W version v = true

section
variable {W : World} {v : Json}

/-- A document says what `ts` is beside everything else it says. -/
theorem valid_ts (ps qs : List (Str × Schema)) (rest : List Schema) (ts : Schema) :
    (schema (.type .object :: properties (ps ++ (TS, ts) :: qs) :: rest)).valid v =
      ((schema (.type .object :: properties (ps ++ (TS, anything) :: qs) :: rest)).valid v &&
        (Schema.property TS ts).valid v) := by
  cases v with
  | obj ms =>
    have hany : optional ms TS anything.valid = true := by
      unfold optional
      split <;> rfl
    have hts : (Schema.property TS ts).valid (.obj ms) = optional ms TS ts.valid := by
      simp only [valid, ofObject, optional]
      cases get ms TS <;> rfl
    simp only [valid_schema, List.all_cons, valid_properties, List.all_append, List.map_append, List.map_cons, hany, hts,
      Bool.true_and]
    ac_rfl
  | _ => simp [valid_schema, valid, isType]

theorem auditEventSchema_ts (version : Str) (ts : Schema) :
    (auditEventSchema version ts).valid v =
      ((auditEventSchema version anything).valid v && (Schema.property TS ts).valid v) := by
  unfold auditEventSchema
  split_ifs
  · exact valid_ts [(ID, patterned EARLIER_UUID_PATTERN), (SPEC_VERSION_KEY, enumerated [V01])] _ _ ts
  · exact valid_ts [(ID, patterned EARLIER_UUID_PATTERN), (SPEC_VERSION_KEY, enumerated [V011])] _ _ ts
  · exact valid_ts [(ID, patterned EARLIER_UUID_PATTERN), (SPEC_VERSION_KEY, enumerated [V02])] _ _ ts
  · exact valid_ts [(ID, patterned UUID_PATTERN), (SPEC_VERSION_KEY, enumerated [V03])] _ _ ts
  · exact valid_ts [(ACTION_CONTEXT_SALTED_HASH, patterned SALTED_HASH_PATTERN), (ID, patterned UUID_PATTERN),
      (SPEC_VERSION_KEY, enumerated [SPEC_VERSION])] _ _ ts

theorem tsPattern_ecma (hd : W.ForeignDigits) (version s : Str) :
    (tsPattern W.ecma version).fullmatch s = ((tsPattern W version).fullmatch s && s.all isAscii) := by
  unfold tsPattern
  split_ifs
  exacts [datetime_ecma hd s, earlierDatetime_ecma hd s]

/-- The copied pattern and the document's agree but for a `ts` with foreign digits. -/
theorem normative_iff (hd : W.ForeignDigits) (version : Str) :
    ((auditEventSchema version (patterned (tsPattern W version))).valid v = true ↔ (normative W version).valid v = true) ↔
      ¬ForeignEvent W version v := by
  unfold normative ForeignEvent
  rw [auditEventSchema_ts, auditEventSchema_ts version (patterned (tsPattern W.ecma version))]
  cases (auditEventSchema version anything).valid v with
  | false => simp
  | true =>
    cases v with
    | obj ms =>
      cases ht : get ms TS with
      | none => simp [valid, ofObject, hasForeignTs, ht]
      | some t =>
        cases t with
        | str s =>
          simp only [valid, ofObject, hasForeignTs, ht, valid_patterned, isPattern, ofString, tsPattern_ecma hd,
            Option.all_some, Option.any_some, Bool.true_and]
          cases (tsPattern W version).fullmatch s <;> cases s.all isAscii <;> decide
        | _ => simp [valid, ofObject, hasForeignTs, ht, valid_patterned, isPattern]
    | _ => simp [valid, ofObject, hasForeignTs]

theorem firstValidationError_eq (hl : hasLoneSurrogate v = false) : firstValidationError W v = none ↔
    (auditEventSchema SPEC_VERSION (patterned (tsPattern W SPEC_VERSION))).valid v = true := by
  rw [firstValidationError, firstError_eq_none, validAuditEvent_eq hl]
  rfl

/-- Each published version is validated in its own shape. -/
theorem firstSealedValidationError_eq {ms : Members} {version : Str} (hl : hasLoneSurrogate (.obj ms) = false)
    (hv : get ms SPEC_VERSION_KEY = some (.str version)) (hmem : version ∈ KNOWN_SPEC_VERSIONS) :
    firstSealedValidationError W (.obj ms) = none ↔
      (auditEventSchema version (patterned (tsPattern W version))).valid (.obj ms) = true := by
  have his : ∀ s, get ms SPEC_VERSION_KEY = some (.str s) ↔ version = s := fun s => by
    rw [hv, Option.some.injEq, Json.str.injEq]
  simp only [firstSealedValidationError, his, auditEventSchema, tsPattern]
  simp only [KNOWN_SPEC_VERSIONS, List.mem_cons, List.not_mem_nil, or_false] at hmem
  rcases hmem with rfl | rfl | rfl | rfl | rfl
  · rw [if_pos rfl, if_pos rfl, if_neg (by decide), firstError_eq_none, validSealedV01_eq hl]
  · rw [if_neg (by decide), if_neg (by decide), if_pos (.inl rfl), if_neg (by decide), if_pos rfl, if_neg (by decide),
      firstError_eq_none, validEarlierSealed_eq hl hv (by decide)]
    rfl
  · rw [if_neg (by decide), if_neg (by decide), if_pos (.inr rfl), if_neg (by decide), if_neg (by decide), if_pos rfl,
      if_neg (by decide), firstError_eq_none, validEarlierSealed_eq hl hv (by decide)]
    rfl
  · rw [if_neg (by decide), if_pos rfl, if_neg (by decide), if_neg (by decide), if_neg (by decide), if_pos rfl,
      if_neg (by decide), firstError_eq_none, validSealedV03_eq hl]
  · rw [if_neg (by decide), if_neg (by decide), if_neg (by decide), if_neg (by decide), if_neg (by decide),
      if_neg (by decide), if_neg (by decide), if_pos rfl, firstError_eq_none, validAuditEvent_eq hl]

end

/-- The version a value says it is of. -/
def Declares (v : Json) (version : Str) : Prop := ∃ ms, v = .obj ms ∧ get ms SPEC_VERSION_KEY = some (.str version)

/-- Validation is the normative schema's, the current one's and each published version's own, but for events that are as
their schema says apart from a `ts` written with digits that are not ASCII. -/
theorem validation_agrees (W : World) (hd : W.ForeignDigits) (v : Json) (hl : hasLoneSurrogate v = false) :
    ((firstValidationError W v = none ↔ (normative W SPEC_VERSION).valid v = true) ↔ ¬ForeignEvent W SPEC_VERSION v) ∧
      ∀ version ∈ KNOWN_SPEC_VERSIONS, Declares v version →
        ((firstSealedValidationError W v = none ↔ (normative W version).valid v = true) ↔ ¬ForeignEvent W version v) := by
  constructor
  · rw [firstValidationError_eq hl]
    exact normative_iff hd SPEC_VERSION
  · rintro version hmem ⟨ms, rfl, hv⟩
    rw [firstSealedValidationError_eq hl hv hmem]
    exact normative_iff hd version

/-- A world with the Arabic-Indic digits. -/
def arabicIndic : World := { reference with unicodeDigit := fun n => 0x660 ≤ n && n ≤ 0x669 }

theorem arabicIndic_foreign : arabicIndic.ForeignDigits := by
  intro n h
  have hn := of_decide_eq_true (Bool.and_eq_true_iff.1 h).1
  exact decide_eq_false (by omega)

/-- The sample attempt, its year in Arabic-Indic digits. -/
def arabicAttempt (version : Str) : Json :=
  .obj ((TS, .str ([0x662, 0x660, 0x662, 0x666] ++ lit "-01-01T00:00:00Z")) ::
    (sampleEvent version .attempted).filter fun m => m.1 != TS)

theorem validation_agrees_sample : (firstValidationError arabicIndic (.obj sampleAttempt) = none ↔
    (normative arabicIndic SPEC_VERSION).valid (.obj sampleAttempt) = true) ∧
      (firstSealedValidationError arabicIndic (.obj earlierAttempt) = none ↔
        (normative arabicIndic V03).valid (.obj earlierAttempt) = true) := by
  have hsample : hasForeignTs arabicIndic SPEC_VERSION (.obj sampleAttempt) = false := by decide
  have hearlier : hasForeignTs arabicIndic V03 (.obj earlierAttempt) = false := by decide
  constructor
  · exact (validation_agrees arabicIndic arabicIndic_foreign (.obj sampleAttempt) (by decide)).1.2
      fun h => Bool.false_ne_true (hsample.symm.trans h.2)
  · exact ((validation_agrees arabicIndic arabicIndic_foreign (.obj earlierAttempt) (by decide)).2 V03 (by decide)
      ⟨earlierAttempt, rfl, by decide⟩).2 fun h => Bool.false_ne_true (hearlier.symm.trans h.2)

/-- The events it admits, now and as sealed under 0.3, are not in their schemas. -/
theorem foreign_digits_validate : hasLoneSurrogate (arabicAttempt SPEC_VERSION) = false ∧
    (firstValidationError arabicIndic (arabicAttempt SPEC_VERSION) = none ∧
      (normative arabicIndic SPEC_VERSION).valid (arabicAttempt SPEC_VERSION) = false) ∧
    (firstSealedValidationError arabicIndic (arabicAttempt V03) = none ∧
      (normative arabicIndic V03).valid (arabicAttempt V03) = false) := by
  refine ⟨?_, ⟨?_, ?_⟩, ?_, ?_⟩ <;> decide

end AuditableMcp
