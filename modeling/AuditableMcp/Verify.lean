import AuditableMcp.Models
import AuditableMcp.Ledger
import AuditableMcp.Lib.JsonText
/-!
# `verify.py`: what a verifier finds in a list of records

The records may come from untrusted storage, so they are `RawRecord`s and every check says what Python
does with a value of the wrong type: an `Except.error` is a call that raised. A verifier runs all of its
checks on all of the records and reports what each of them found; nothing here stops at a finding. A finding that writes a stored value into its text is
written only where it is found (`expectWritten`).

| here | there |
| --- | --- |
| `RecordAdapter`, `topLevelId`, `DEFAULT_ADAPTER` | `verify.py:109-173` |
| `count`, `numberedAs`                            | `_count`, `_numbered` (`:194-216`) |
| `missingRuns`, `unaccountedSignerSeq`            | `:220-311` |
| `chainStep`, `chainLoop`, `verifyChain`          | `verify_chain` (`:315-579`), one definition per check |
| `verifyLedger`, `schemaIssues`                   | `:583-643` |
| `versionRegressions`, `identityMismatch`, `sealedError` | `:647-716` |

A `frozenset` or a `set` is the list of its members; asking it about a value without a hash raises.
-/
namespace AuditableMcp

open JsonValue HashChain

/-! ## What a call may raise -/

inductive PyError
  | typeError
  | attributeError
  | valueError
  /-- Out of a checker or an accessor that the caller supplies. -/
  | raised (name : Str)
deriving DecidableEq

abbrev Checked (α : Type) : Type := Except PyError α

theorem bind_eq_ok {α β : Type} {x : Checked α} {f : α → Checked β} {b : β} :
    (x >>= f) = .ok b ↔ ∃ a, x = .ok a ∧ f a = .ok b := by
  cases x with
  | error e => simp [bind, Except.bind]
  | ok a => simp [bind, Except.bind]

theorem pure_eq_ok {α : Type} {a b : α} : (pure a : Checked α) = .ok b ↔ a = b := by
  simp [pure, Except.pure]

/-- `repr(v)`, as an f-string writes a value with `!r`: an `int` of more than `MAX_STR_DIGITS` digits has none. -/
def pyRepr (W : World) (v : Json) : Checked Str := if intsFit v then .ok (W.repr v) else .error .valueError

/-- `str(v)`, as an f-string writes a value. -/
def pyStr (W : World) : Json → Checked Str
  | .str s => .ok s
  | v => pyRepr W v

/-- `hash(v)`, for its `TypeError`. -/
def needHash (v : Json) : Checked Unit := if v.hashable then .ok () else .error .typeError

/-! ## Reading a record -/

/-- A correlation key: what an accessor returns, or the default accessor's pair of scope and id. -/
inductive CallKey
  | value (v : Json)
  | inScope (scope id : Json)
deriving DecidableEq

/-- Key equality inside a `set`, of the pairs too: by identity first. -/
def CallKey.eq : CallKey → CallKey → Bool
  | .value a, .value b => pySame a b
  | .inScope a b, .inScope c d => pySame a c && pySame b d
  | _, _ => false

def CallKey.hashable : CallKey → Bool
  | .value v => v.hashable
  | .inScope a b => a.hashable && b.hashable

/-- A key in an f-string. -/
def CallKey.text (W : World) : CallKey → Checked Str
  | .value v => pyStr W v
  | .inScope a b => do
    let scope ← pyRepr W a
    let id ← pyRepr W b
    pure (lit "(" ++ scope ++ lit ", " ++ id ++ lit ")")

/-- `event.get(k)`: `None` where there is none. -/
def getNull (e : Event) (k : Str) : Json := (get e k).getD .null

/-- `_top_level_id` (`verify.py:109-120`). -/
def topLevelId : Json → Checked (Option CallKey)
  | .obj e =>
    match getNull e ID with
    | .null => .ok none
    | id => .ok (some (.inScope ((get e SESSION_ID).getD (getNull e CALL_ID)) id))
  | _ => .error .attributeError

/-- `_top_level_is_attempt` (`verify.py:124-126`). -/
def topLevelIsAttempt : Json → Checked Bool
  | .obj e => .ok (hasText e OUTCOME Outcome.attempted.text)
  | _ => .error .attributeError

/-- `RecordAdapter` (`verify.py:143-169`). -/
structure RecordAdapter where
  idOf : Json → Checked (Option CallKey) := topLevelId
  isAttempt : Json → Checked Bool := topLevelIsAttempt
  eventOf : Json → Checked Json := .ok
  principalOf : Json → Checked Json := fun _ => .ok .null

def DEFAULT_ADAPTER : RecordAdapter := {}

/-- `ExpectedIdentity` (`verify.py:48-61`). -/
structure ExpectedIdentity where
  logId : Str
  hostKeyIds : List Str

/-- The arguments of `verify_chain` and `verify_ledger` after the records. -/
structure VerifyOptions where
  anchoredDigest : Option Str := none
  adapter : RecordAdapter := DEFAULT_ADAPTER
  expectedPrincipal : Json := .null
  /-- On a stored `host_key_id` and `host_signature`, which nothing has checked to be texts. -/
  countersignatureChecker : Option (Json → Json → Str → Checked Bool) := none
  signatureChecker : Option (Event → Checked Bool) := none
  expectedIdentity : Option ExpectedIdentity := none
  countersignatureRequired : Bool := false

/-! ## Findings -/

/-- `VerifyIssue` (`verify.py:72-78`); `None`, for the whole ledger, is `null`. -/
structure VerifyIssue where
  seq : Json
  kind : Reason
  detail : Str
deriving DecidableEq

/-- `VerifyReport` (`verify.py:82-103`). -/
structure VerifyReport where
  ok : Bool
  count : Nat
  computedDigest : Str
  issues : List VerifyIssue
  unchecked : List Str
deriving DecidableEq

/-- `VerifyReport.complete`. -/
def VerifyReport.complete (r : VerifyReport) : Bool := r.ok && r.unchecked.isEmpty

/-- A finding where a condition fails. -/
def expect (p : Prop) [Decidable p] (issue : VerifyIssue) : List VerifyIssue := if p then [] else [issue]

@[simp] theorem expect_eq_nil {p : Prop} [Decidable p] {issue : VerifyIssue} :
    expect p issue = [] ↔ p := by
  unfold expect
  split <;> simp [*]

theorem expect_of {p : Prop} [Decidable p] {issue : VerifyIssue} (h : p) : expect p issue = [] :=
  expect_eq_nil.2 h

/-- A finding whose text has a stored value in it, and is written only where the condition fails. -/
def expectWritten (p : Prop) [Decidable p] (seq : Json) (kind : Reason) (detail : Checked Str) :
    Checked (List VerifyIssue) :=
  if p then pure []
  else do
    let text ← detail
    pure [⟨seq, kind, text⟩]

section
variable {p : Prop} [Decidable p] {seq : Json} {kind : Reason} {detail : Checked Str}

@[simp] theorem expectWritten_eq_nil : expectWritten p seq kind detail = .ok [] ↔ p := by
  unfold expectWritten
  split
  · next h => simp [h, pure_eq_ok]
  · next h => cases detail <;> simp [h, bind, Except.bind, pure, Except.pure]

theorem expectWritten_of (h : p) : expectWritten p seq kind detail = .ok [] := expectWritten_eq_nil.2 h

theorem expectWritten_ok_iff : (∃ is, expectWritten p seq kind detail = .ok is) ↔ (¬ p → ∃ text, detail = .ok text) := by
  unfold expectWritten
  split
  · next h => exact ⟨fun _ hn => absurd h hn, fun _ => ⟨_, rfl⟩⟩
  · next h =>
    simp only [bind_eq_ok, pure_eq_ok, h, not_false_eq_true, forall_const]
    constructor
    · rintro ⟨_, text, ht, _⟩
      exact ⟨text, ht⟩
    · rintro ⟨text, ht⟩
      exact ⟨_, text, ht, rfl⟩

/-- What is found is of the kind. -/
theorem expectWritten_kind {is : List VerifyIssue} (h : expectWritten p seq kind detail = .ok is) :
    ∀ i ∈ is, i.kind = kind := by
  unfold expectWritten at h
  split at h
  · obtain rfl := pure_eq_ok.1 h
    simp
  · obtain ⟨text, -, h⟩ := bind_eq_ok.1 h
    obtain rfl := pure_eq_ok.1 h
    simp

end

/-! ## Signer numbers -/

/-- `_count` (`verify.py:194-205`). -/
def count : Json → Option Nat
  | .int i => if 0 ≤ i ∧ i ≤ MAX_SAFE_INTEGER then some i.toNat else none
  | .float (.fin q) => if q.den = 1 ∧ 0 ≤ q.num ∧ q.num ≤ MAX_SAFE_INTEGER then some q.num.toNat else none
  | _ => none

/-- The key, session and number an event is numbered under. -/
structure Numbering where
  keyId : Str
  sessionId : Str
  signerSeq : Nat
deriving DecidableEq

/-- `_numbered` (`verify.py:209-216`), of a mapping. -/
def numberedAs (e : Event) : Option Numbering :=
  match getNull e KEY_ID, getNull e SESSION_ID, count (getNull e SIGNER_SEQ) with
  | .str k, .str s, some n => some ⟨k, s, n⟩
  | _, _, _ => none

/-- `_missing_runs` (`verify.py:220-239`): first and last of each run, ascending. -/
def missingRuns (present : List Nat) : List (Nat × Nat) :=
  ((present.dedup.insertionSort (· ≤ ·)).foldl (fun acc value =>
    (if acc.2 < value then acc.1 ++ [(acc.2, value - 1)] else acc.1, value + 1)) ([], 0)).1

/-- `UnaccountedSignerSeq` (`verify.py:180-190`). -/
structure UnaccountedSignerSeq where
  keyId : Str
  sessionId : Str
  first : Nat
  last : Nat
deriving DecidableEq

/-- A numbered event of one key and session, and whether an attempt before it is of its operation. -/
structure GroupMember where
  signerSeq : Nat
  event : Event
  correlated : Bool

/-- The groups in order of first appearance, as a `dict` keeps them. -/
abbrev Groups := List ((Str × Str) × List GroupMember)

/-- `groups.setdefault(key, []).append(member)`. -/
def Groups.add (key : Str × Str) (member : GroupMember) : Groups → Groups
  | [] => [(key, [member])]
  | (k, ms) :: gs => if k = key then (k, ms ++ [member]) :: gs else (k, ms) :: Groups.add key member gs

structure Accounting where
  sealedAttempts : List CallKey
  groups : Groups

/-- One event of the first loop (`verify.py:270-285`). -/
def accountEvent (a : Accounting) : Json → Checked Accounting
  | .obj e => do
    let key := CallKey.inScope (getNull e SESSION_ID) (getNull e ID)
    if key.hashable then
      let correlated := a.sealedAttempts.any key.eq
      let attempts := if hasText e OUTCOME Outcome.attempted.text then key :: a.sealedAttempts else a.sealedAttempts
      let groups := match numberedAs e with
        | some n => a.groups.add (n.keyId, n.sessionId) ⟨n.signerSeq, e, correlated⟩
        | none => a.groups
      pure ⟨attempts, groups⟩
    else throw .typeError
  | _ => pure a

/-- `_REFUSAL_REASONS` (`verify.py:177`). -/
def refusalReasons : List Str := [Reason.hostRejected.text, Reason.hostUnavailable.text]

/-- A sealed refusal that no sealed attempt correlates to (`verify.py:289-295`). -/
def isRefusal (m : GroupMember) : Checked Bool := do
  if hasText m.event OUTCOME Outcome.aborted.text then
    needHash (getNull m.event REASON)
    pure (refusalReasons.any (fun r => getNull m.event REASON = .str r) && !m.correlated)
  else pure false

/-- A refusal accounts for the smallest value missing below its own (`verify.py:297-304`). -/
def accountRefusal (missing : List (Nat × Nat)) (refusal : Nat) : List (Nat × Nat) :=
  match missing with
  | [] => []
  | (first, last) :: rest =>
    if refusal ≤ first then (first, last) :: rest
    else if last < first + 1 then rest
    else (first + 1, last) :: rest

/-- One key and session (`verify.py:287-310`). -/
def unaccountedOf (key : Str × Str) (group : List GroupMember) : Checked (List UnaccountedSignerSeq) := do
  let refusals ← group.filterM isRefusal
  let missing := ((refusals.map (·.signerSeq)).insertionSort (· ≤ ·)).foldl accountRefusal
    (missingRuns (group.map (·.signerSeq)))
  pure (missing.map fun run => ⟨key.1, key.2, run.1, run.2⟩)

/-- `unaccounted_signer_seq` (`verify.py:243-311`). -/
def unaccountedSignerSeq (events : List Json) : Checked (List UnaccountedSignerSeq) := do
  let a ← events.foldlM accountEvent ⟨[], []⟩
  let runs ← a.groups.mapM fun g => unaccountedOf g.1 g.2
  pure runs.flatten

/-! ## The checks of one record -/

variable (W : World) (o : VerifyOptions)

/-- What the loop carries from record to record. -/
structure ChainState where
  issues : List VerifyIssue
  attemptedIds : List CallKey
  numbered : List Numbering
  prevRecomputed : Str
  countersignatureUnchecked : Bool
  l2Unchecked : Bool

def ChainState.initial : ChainState := ⟨[], [], [], GENESIS_HASH, false, false⟩

/-- The position (`verify.py:382-385`). -/
def seqIssues (index : Nat) (r : RawRecord) : Checked (List VerifyIssue) :=
  expectWritten (pyEq r.seq (.int index) = true) r.seq .seqGap do
    let got ← pyStr W r.seq
    pure (lit "expected seq " ++ natText index ++ lit ", got " ++ got)

/-- The link a record passes on, whether it can be hashed, and what its stored hashes show. -/
structure Recomputed where
  hash : Str
  hashable : Bool
  issues : List VerifyIssue

/-- The hash (`verify.py:387-412`), recomputed over the link before it and not over the stored one. -/
def recompute (r : RawRecord) (prev : Str) : Recomputed :=
  match computeRecordHash W r.event r.seq r.hostTs (.str prev) with
  | .ok h =>
    ⟨h, true,
      expect (r.previousHash = .str prev)
        ⟨r.seq, .recordHashMismatch, lit "previous_hash does not link to prior record"⟩ ++
      expect (r.recordHash = .str h) ⟨r.seq, .recordHashMismatch, lit "stored record_hash != recomputed"⟩⟩
  | .error m =>
    ⟨match r.recordHash with
      | .str h => h
      | _ => prev, false, [⟨r.seq, .schemaInvalid, lit "not canonicalizable: " ++ m⟩]⟩

/-- An aborted outcome, which needs no attempt before it (`verify.py:420`). -/
def isAborted : Json → Bool
  | .obj e => hasText e OUTCOME Outcome.aborted.text
  | _ => false

/-- Attempt and outcome (`verify.py:414-434`): the attempts so far, and an outcome that has none. -/
def correlate (r : RawRecord) (inner : Json) (attempted : List CallKey) :
    Checked (List CallKey × List VerifyIssue) := do
  match ← o.adapter.idOf r.event with
  | none => pure (attempted, [])
  | some key =>
    let attempt ← o.adapter.isAttempt r.event
    if key.hashable then
      if attempt then pure (key :: attempted, [])
      else
        let orphaned ← expectWritten (attempted.any key.eq = true ∨ isAborted inner = true) r.seq .orphanedOutcome do
          let id ← key.text W
          pure (lit "terminal outcome with no matching attempt, id=" ++ id)
        pure (attempted, orphaned)
    else throw .typeError

/-- `_numbered(inner) if isinstance(inner, Mapping) else None`. -/
def numberOf : Json → Option Numbering
  | .obj e => numberedAs e
  | _ => none

/-- A number sealed before (`verify.py:436-450`). -/
def replayIssues (r : RawRecord) (number : Option Numbering) (numbered : List Numbering) : List VerifyIssue :=
  match number with
  | none => []
  | some n => expect (n ∉ numbered)
      ⟨r.seq, .replayDetected, lit "signer_seq " ++ natText n.signerSeq ++ lit " of key " ++ W.repr (.str n.keyId) ++
        lit " in session " ++ n.sessionId ++ lit " is sealed twice"⟩

/-- The governed identity (`verify.py:452-462`). -/
def principalIssues (r : RawRecord) : Checked (List VerifyIssue) := do
  if o.expectedPrincipal = .null then pure []
  else
    let principal ← o.adapter.principalOf r.event
    expectWritten (pyEq principal o.expectedPrincipal = true) r.seq .principalMismatch do
      let expected ← pyRepr W o.expectedPrincipal
      pure (lit "record principal does not match expected " ++ expected)

/-- An event's own signature: outside the domain there are no bytes it could be over. -/
def confirmEvent (check : Event → Checked Bool) (e : Event) : Checked Bool :=
  if outsideCanonicalDomain (.obj e) then .ok false else check e

/-- The Level-2 signature of a record that can be hashed (`verify.py:464-479`): the findings, and whether
a signature went unchecked. -/
def signatureCheck (r : RawRecord) (hashable : Bool) : Json → Checked (List VerifyIssue × Bool)
  | .obj e =>
    if hashable && getNull e SIGNATURE != .null then
      match o.signatureChecker with
      | none => pure ([], true)
      | some check => do
        let good ← confirmEvent check e
        pure (expect (good = true) ⟨r.seq, .signatureInvalid, lit "event signature does not verify"⟩, false)
    else pure ([], false)
  | _ => pure ([], false)

/-- How many members of the countersignature triple a record carries. -/
def RawRecord.present (r : RawRecord) : Nat :=
  ([r.hostSignature, r.hostKeyId, r.logId].filter (· != .null)).length

/-- A whole triple: fields without a canonical form have no payload to confirm. -/
def confirmTriple (check : Json → Json → Str → Checked Bool) (r : RawRecord) : Checked Bool :=
  match countersignaturePayload W r.seq r.hostTs r.logId r.previousHash r.recordHash with
  | .ok payload => check r.hostKeyId r.hostSignature payload
  | .error _ => .ok false

/-- The countersignature (`verify.py:481-529`): the findings, and whether one went unchecked. -/
def countersignatureCheck (r : RawRecord) (hashable : Bool) : Checked (List VerifyIssue × Bool) :=
  if r.present = 0 then
    pure (expect (o.countersignatureRequired = false)
      ⟨r.seq, .hostSignatureInvalid, lit "uncountersigned, where the chain must be countersigned"⟩, false)
  else if r.present ≠ 3 then
    pure ([⟨r.seq, .hostSignatureInvalid,
      lit "host_signature, host_key_id, and log_id must appear together or not at all"⟩], false)
  else if hashable then
    match o.countersignatureChecker with
    | none => pure ([], true)
    | some check => do
      let good ← confirmTriple W check r
      let invalid ← expectWritten (good = true) r.seq .hostSignatureInvalid do
        let key ← pyRepr W r.hostKeyId
        pure (lit "countersignature does not verify for host_key_id " ++ key)
      pure (invalid, false)
  else pure ([], false)

/-- `_identity_mismatch` (`verify.py:685-706`). -/
def identityMismatch (r : RawRecord) (expected : ExpectedIdentity) : Checked (Option Str) := do
  let wanted := W.repr (.str expected.logId) ++ lit " under " ++
    W.repr (.arr ((expected.hostKeyIds.insertionSort (· ≤ ·)).map .str))
  if r.present ≠ 3 then pure (some (lit "no countersignature binds the record; expected " ++ wanted))
  else if r.logId ≠ .str expected.logId then
    let log ← pyRepr W r.logId
    pure (some (lit "record log_id " ++ log ++ lit " does not bind the expected " ++ wanted))
  else
    needHash r.hostKeyId
    if expected.hostKeyIds.any (fun k => r.hostKeyId = .str k) then pure none
    else
      let key ← pyRepr W r.hostKeyId
      pure (some (lit "record host_key_id " ++ key ++ lit " does not bind the expected " ++ wanted))

/-- The identity the countersignature binds (`verify.py:531-538`). -/
def identityIssues (r : RawRecord) : Checked (List VerifyIssue) :=
  match o.expectedIdentity with
  | none => pure []
  | some expected => do
    match ← identityMismatch W r expected with
    | none => pure []
    | some detail => pure [⟨r.seq, .principalMismatch, detail⟩]

/-! ## `verify_chain` -/

/-- One record (`verify.py:379-541`). -/
def chainStep (index : Nat) (r : RawRecord) (s : ChainState) : Checked ChainState := do
  let position ← seqIssues W index r
  let hashed := recompute W r s.prevRecomputed
  let inner ← o.adapter.eventOf r.event
  let correlated ← correlate W o r inner s.attemptedIds
  let number := numberOf inner
  let principal ← principalIssues W o r
  let signature ← signatureCheck o r hashed.hashable inner
  let countersignature ← countersignatureCheck W o r hashed.hashable
  let identity ← identityIssues W o r
  pure {
    issues := s.issues ++ position ++ hashed.issues ++ correlated.2 ++
      replayIssues W r number s.numbered ++ principal ++ signature.1 ++ countersignature.1 ++ identity
    attemptedIds := correlated.1
    numbered := number.toList ++ s.numbered
    prevRecomputed := hashed.hash
    countersignatureUnchecked := s.countersignatureUnchecked || countersignature.2
    l2Unchecked := s.l2Unchecked || signature.2 }

def chainLoop : Nat → List RawRecord → ChainState → Checked ChainState
  | _, [], s => pure s
  | index, r :: rs, s => do
    let s ← chainStep W o index r s
    chainLoop (index + 1) rs s

/-- One run of missing numbers (`verify.py:547-557`). -/
def gapIssue (gap : UnaccountedSignerSeq) : VerifyIssue :=
  ⟨.null, .signerSeqGap, lit "signer_seq " ++ natText gap.first ++ lit ".." ++ natText gap.last ++ lit " of key " ++
    W.repr (.str gap.keyId) ++ lit " in session " ++ gap.sessionId ++ lit " is missing"⟩

/-- The anchor (`verify.py:559-566`). -/
def digestIssues (computed : Str) : List VerifyIssue :=
  match o.anchoredDigest with
  | none => []
  | some anchored => expect (anchored = computed)
      ⟨.null, .digestMismatch, lit "anchored " ++ anchored ++ lit " != computed " ++ computed⟩

/-- A principal that can be compared as a value (`verify.py:364-370`). -/
def isPrimitive : Json → Bool
  | .obj _ => false
  | .arr _ => false
  | _ => true

/-- `verify_chain` (`verify.py:315-579`). -/
def verifyChain (rs : List RawRecord) : Checked VerifyReport := do
  if isPrimitive o.expectedPrincipal then
    let s ← chainLoop W o 0 rs .initial
    let inner ← rs.mapM fun r => o.adapter.eventOf r.event
    let gaps ← unaccountedSignerSeq inner
    let issues := s.issues ++ gaps.map (gapIssue W) ++ digestIssues o s.prevRecomputed
    pure {
      ok := issues.isEmpty
      count := rs.length
      computedDigest := s.prevRecomputed
      issues
      unchecked := (if s.countersignatureUnchecked then [lit "countersignature"] else []) ++
        (if s.l2Unchecked then [lit "level-2-signature"] else []) }
  else throw .valueError

/-! ## `verify_ledger` -/

/-- `_sealed_error` (`verify.py:710-716`). -/
def sealedError (v : Json) : Option Str :=
  match firstSealedValidationError W v with
  | some m => some m
  | none => if outsideCanonicalDomain v then some (lit "a value is outside the canonicalization domain (§8.1)") else none

/-- `seq in already`: a `list` is searched by identity, then by equality. -/
def listed (seq : Json) (already : List Json) : Bool := already.any fun a => a = seq || pyEq a seq

/-- The records whose event is no valid event of its own version (`verify.py:628-632`), less those already
reported. -/
def schemaIssues (already : List Json) : List RawRecord → Checked (List VerifyIssue)
  | [] => pure []
  | r :: rs => do
    let here ←
      if listed r.seq already then pure none
      else do
        let inner ← o.adapter.eventOf r.event
        pure (sealedError W inner)
    let rest ← schemaIssues already rs
    pure (here.toList.map (⟨r.seq, .schemaInvalid, ·⟩) ++ rest)

/-- The published version an event names. -/
def versionOf : Json → Option Str
  | .obj e =>
    match getNull e SPEC_VERSION_KEY with
    | .str s => some s
    | _ => none
  | _ => none

/-- `_VERSION_RANK.get` (`verify.py:69`). -/
def versionRank (version : Str) : Option Nat := KNOWN_SPEC_VERSIONS.idxOf? version

/-- `_version_regressions` (`verify.py:647-681`), from the latest version so far. -/
def versionRegressions : Option (Nat × Str) → List RawRecord → Checked (List VerifyIssue)
  | _, [] => pure []
  | latest, r :: rs => do
    let inner ← o.adapter.eventOf r.event
    match versionOf inner with
    | none => versionRegressions latest rs
    | some version =>
      match versionRank version with
      | none => versionRegressions latest rs
      | some rank =>
        match latest with
        | some (high, name) =>
          if rank < high then
            let rest ← versionRegressions latest rs
            pure (⟨r.seq, .schemaInvalid, version ++ lit " sealed after a record of " ++ name ++
              lit " (versions do not go backwards)"⟩ :: rest)
          else versionRegressions (some (rank, version)) rs
        | none => versionRegressions (some (rank, version)) rs

/-- `verify_ledger` (`verify.py:583-643`). -/
def verifyLedger (rs : List RawRecord) : Checked VerifyReport := do
  let report ← verifyChain W o rs
  let already := (report.issues.filter (·.kind = .schemaInvalid)).map (·.seq)
  let schema ← schemaIssues W o already rs
  let regressions ← versionRegressions o none rs
  let found := schema ++ regressions
  if found.isEmpty then pure report
  else pure { report with ok := false, issues := report.issues ++ found }

/-! ## What a run of the checks comes to -/

variable {W o}

/-- One record: each check has an answer, and the state takes all of them. -/
theorem chainStep_eq_ok {index : Nat} {r : RawRecord} {s s' : ChainState} :
    chainStep W o index r s = .ok s' ↔
      ∃ position inner correlated principal signature countersignature identity,
        seqIssues W index r = .ok position ∧ o.adapter.eventOf r.event = .ok inner ∧ correlate W o r inner s.attemptedIds = .ok correlated ∧
        principalIssues W o r = .ok principal ∧
        signatureCheck o r (recompute W r s.prevRecomputed).hashable inner = .ok signature ∧
        countersignatureCheck W o r (recompute W r s.prevRecomputed).hashable = .ok countersignature ∧
        identityIssues W o r = .ok identity ∧
        s' = {
          issues := s.issues ++ position ++ (recompute W r s.prevRecomputed).issues ++ correlated.2 ++
            replayIssues W r (numberOf inner) s.numbered ++ principal ++ signature.1 ++ countersignature.1 ++ identity
          attemptedIds := correlated.1
          numbered := (numberOf inner).toList ++ s.numbered
          prevRecomputed := (recompute W r s.prevRecomputed).hash
          countersignatureUnchecked := s.countersignatureUnchecked || countersignature.2
          l2Unchecked := s.l2Unchecked || signature.2 } := by
  simp only [chainStep, bind_eq_ok, pure_eq_ok]
  constructor
  · rintro ⟨q, h0, inner, h1, corr, h2, p, h3, g, h4, c, h5, i, h6, rfl⟩
    exact ⟨q, inner, corr, p, g, c, i, h0, h1, h2, h3, h4, h5, h6, rfl⟩
  · rintro ⟨q, inner, corr, p, g, c, i, h0, h1, h2, h3, h4, h5, h6, rfl⟩
    exact ⟨q, h0, inner, h1, corr, h2, p, h3, g, h4, c, h5, i, h6, rfl⟩

theorem chainLoop_cons_eq_ok {index : Nat} {r : RawRecord} {rs : List RawRecord} {s s' : ChainState} :
    chainLoop W o index (r :: rs) s = .ok s' ↔
      ∃ t, chainStep W o index r s = .ok t ∧ chainLoop W o (index + 1) rs t = .ok s' := bind_eq_ok

theorem recompute_clean {r : RawRecord} {prev : Str} : (recompute W r prev).issues = [] ↔
    ∃ h, computeRecordHash W r.event r.seq r.hostTs (.str prev) = .ok h ∧ r.previousHash = .str prev ∧
      r.recordHash = .str h := by
  unfold recompute
  cases hc : computeRecordHash W r.event r.seq r.hostTs (.str prev) <;> simp

/-- Where nothing is found, the link passed on is the record's own hash. -/
theorem recompute_of_clean {r : RawRecord} {prev h : Str}
    (hc : computeRecordHash W r.event r.seq r.hostTs (.str prev) = .ok h) (hp : r.previousHash = .str prev)
    (hr : r.recordHash = .str h) : recompute W r prev = ⟨h, true, []⟩ := by
  simp [recompute, hc, hp, hr, expect_of]

/-! ## The chain a clean run establishes -/

variable (W) in
/-- A record read back that names a position and carries its own hash, over the previous hash it names. -/
structure RawRecord.Sealed (r : RawRecord) : Prop where
  position : (pyIndex r.seq).isSome = true
  linked : ∃ p, r.previousHash = .str p
  hashed : ∃ h, computeRecordHash W r.event r.seq r.hostTs r.previousHash = .ok h ∧ r.recordHash = .str h

variable (W) in
def rawLinks : Links RawRecord Json :=
  ⟨fun r => (pyIndex r.seq).getD 0, (·.previousHash), (·.recordHash), RawRecord.Sealed W⟩

theorem seqIssues_eq_nil {index : Nat} {r : RawRecord} : seqIssues W index r = .ok [] ↔ pyIndex r.seq = some index := by
  rw [seqIssues, expectWritten_eq_nil, pyEq_nat]

/-- A record at which nothing is found continues the chain. -/
theorem chainStep_clean {index : Nat} {r : RawRecord} {s s' : ChainState}
    (h : chainStep W o index r s = .ok s') (hs : s'.issues = []) : s.issues = [] ∧ RawRecord.Sealed W r ∧
      pyIndex r.seq = some index ∧ r.previousHash = .str s.prevRecomputed ∧ r.recordHash = .str s'.prevRecomputed := by
  obtain ⟨q, inner, corr, p, g, c, i, hseq, _, _, _, _, _, _, rfl⟩ := chainStep_eq_ok.1 h
  simp only [List.append_eq_nil_iff] at hs
  obtain ⟨⟨⟨⟨⟨⟨⟨⟨hissues, rfl⟩, hhash⟩, _⟩, _⟩, _⟩, _⟩, _⟩, _⟩ := hs
  rw [seqIssues_eq_nil] at hseq
  obtain ⟨d, hd, hp, hr⟩ := recompute_clean.1 hhash
  refine ⟨hissues, ⟨by simp [hseq], ⟨_, hp⟩, d, by rw [hp, hd], hr⟩, hseq, hp, ?_⟩
  rw [recompute_of_clean hd hp hr, hr]

/-- **A run that finds nothing has read one chain**, and its link is the last record's hash. -/
theorem chainLoop_clean {rs : List RawRecord} : ∀ {index : Nat} {s s' : ChainState},
    chainLoop W o index rs s = .ok s' → s'.issues = [] → s.issues = [] ∧
      Chain (rawLinks W) index (.str s.prevRecomputed) rs ∧
      tail (rawLinks W) (.str s.prevRecomputed) rs = .str s'.prevRecomputed := by
  induction rs with
  | nil =>
    intro index s s' h hs
    obtain rfl := pure_eq_ok.1 h
    exact ⟨hs, trivial, rfl⟩
  | cons r rs ih =>
    intro index s s' h hs
    obtain ⟨t, hstep, hloop⟩ := chainLoop_cons_eq_ok.1 h
    obtain ⟨ht, hchain, htail⟩ := ih hloop hs
    obtain ⟨hclean, hsealed, hseq, hp, hr⟩ := chainStep_clean hstep ht
    refine ⟨hclean, ⟨by simp [rawLinks, hseq], hp, hsealed, ?_⟩, ?_⟩
    · simpa [rawLinks, hr] using hchain
    · simpa [rawLinks, hr] using htail

/-- `verify_chain`, for its report. -/
theorem verifyChain_eq_ok {rs : List RawRecord} {report : VerifyReport} :
    verifyChain W o rs = .ok report ↔ isPrimitive o.expectedPrincipal = true ∧
      ∃ s inner gaps, chainLoop W o 0 rs .initial = .ok s ∧ rs.mapM (fun r => o.adapter.eventOf r.event) = .ok inner ∧
        unaccountedSignerSeq inner = .ok gaps ∧
        report = {
          ok := (s.issues ++ gaps.map (gapIssue W) ++ digestIssues o s.prevRecomputed).isEmpty
          count := rs.length
          computedDigest := s.prevRecomputed
          issues := s.issues ++ gaps.map (gapIssue W) ++ digestIssues o s.prevRecomputed
          unchecked := (if s.countersignatureUnchecked then [lit "countersignature"] else []) ++
            (if s.l2Unchecked then [lit "level-2-signature"] else []) } := by
  unfold verifyChain
  split
  · next hp =>
    simp only [bind_eq_ok, pure_eq_ok, hp, true_and]
    constructor
    · rintro ⟨s, h1, inner, h2, gaps, h3, rfl⟩
      exact ⟨s, inner, gaps, h1, h2, h3, rfl⟩
    · rintro ⟨s, inner, gaps, h1, h2, h3, rfl⟩
      exact ⟨s, h1, inner, h2, gaps, h3, rfl⟩
  · next hp => simp [hp, throw, throwThe, MonadExceptOf.throw]

/-- A report that is ok is of a chain from genesis, whose last hash is the anchored one if there is one. -/
theorem verifyChain_ok {rs : List RawRecord} {report : VerifyReport} (h : verifyChain W o rs = .ok report)
    (hok : report.ok = true) : Chain (rawLinks W) 0 (.str GENESIS_HASH) rs ∧
      tail (rawLinks W) (.str GENESIS_HASH) rs = .str report.computedDigest ∧
      ∀ d, o.anchoredDigest = some d → d = report.computedDigest := by
  obtain ⟨_, s, inner, gaps, hloop, _, _, rfl⟩ := verifyChain_eq_ok.1 h
  simp only [List.isEmpty_iff, List.append_eq_nil_iff] at hok
  obtain ⟨⟨hissues, _⟩, hdigest⟩ := hok
  obtain ⟨_, hchain, htail⟩ := chainLoop_clean hloop hissues
  refine ⟨hchain, htail, fun d hd => ?_⟩
  simpa [digestIssues, hd] using hdigest

end AuditableMcp
