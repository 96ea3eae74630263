import AuditableMcp.Models
import AuditableMcp.Ledger
import AuditableMcp.Lib.Prog
/-!
# `host.py`: `AuditHost`, one partition's recording engine

The host's methods are programs over its own state (`HostM`): what a method does between two awaits is
pure, and each await is a `Query` its environment answers. A host's lock keeps its own operations apart,
so another host's step can come between two awaits of one operation and nothing else can.
`open_session` takes no lock and only adds a fresh id to two tables no operation under way has read
(`host.py:498-519`), so it stands between operations.

| here | there |
| --- | --- |
| `Host`, `Session`          | `AuditHost.__init__` (`host.py:189-251`), `_Session` (`:150-164`) |
| `Config`                   | the constructor's arguments and the configurations it refuses (`:214-228`) |
| `settleTail`, `adopt`      | `_settle_tail`, `_adopt` (`:356-404`) |
| `sealRecord`, `remember`   | `_seal` (`:409-452`), `_remember` (`:348-352`) |
| `admitEvent`, `verifySignature`, `checkReplay`, `decide` | `:551-658` |
| `handleAttempt`            | `:661-752` |
| `recordOutcome`            | `:755-842` |
| `openSession`, `closeSession` | `:498-535` |
| `resume`, `flagUnresolved`, `restoredSession` | `:254-344`, `:848-872` |

A raise keeps the state it leaves behind, as a Python object does.
-/
namespace AuditableMcp

open JsonValue Effect

/-! ## State -/

inductive Level
  | l1 | l2
deriving DecidableEq

inductive Countersign
  | none | host
deriving DecidableEq

/-- What a host is built with; `AuditHost.__init__` refuses the rest (`host.py:214-228`). -/
structure Config where
  level : Level
  countersign : Countersign
  hasVerifier : Bool
  /-- The `key_id` of its `Countersigner`. -/
  countersigner : Option Str
  logId : Str
  hasRepository : Bool
  verifier_of_l2 : level = .l2 → hasVerifier = true
  countersigner_iff : countersign = .host ↔ countersigner.isSome = true

theorem verifier_of_l1 {v : Bool} : Level.l1 = .l2 → v = true := by rintro ⟨⟩

theorem verifier_of_verifier {l : Level} : l = .l2 → true = true := fun _ => rfl

theorem host_countersigns {key : Str} : Countersign.host = .host ↔ (some key).isSome = true := ⟨fun _ => rfl, fun _ => rfl⟩

theorem host_one_countersigns : Countersign.host = .host ↔ (some (lit "host-1")).isSome = true := host_countersigns

theorem none_countersigns : Countersign.none = .host ↔ (Option.none : Option Str).isSome = true := by decide

/-- `IntegrityAnomaly` (`host.py:51-57`). -/
structure IntegrityAnomaly where
  id : Str
  kind : Reason
  detail : Str
deriving DecidableEq

/-- `_Session`: `decided` and `received` per key, the operations accepted and resolved, and the digest of
the outcome sealed per operation. -/
structure Session where
  decided : List (Str × Int)
  received : Str → Option Int
  accepted : List Str
  resolved : List Str
  outcomes : Str → Option Str

def Session.new : Session := ⟨[], fun _ => none, [], [], fun _ => none⟩

/-- The tables of an `AuditHost`. -/
structure Host where
  ledger : Ledger
  sessions : Str → Option Session
  issued : List Str
  tailUncertain : Bool
  sealedAttempts : Str → Option SealedRecord
  sealedDigests : List Str
  rejectedIds : List Str
  anomalies : List IntegrityAnomaly

def Host.new : Host := ⟨.empty, fun _ => none, [], false, fun _ => none, [], [], []⟩

/-! ## What a host awaits -/

/-- What a Python call can raise here: a cancellation is a `BaseException`, the rest are `Exception`s. -/
inductive Raise
  | cancelled | repositoryError | canonicalizationError | validationError | other
deriving DecidableEq

inductive Query
  | currentTime
  | loadTail
  | readAll
  | append (r : SealedRecord)
  | verify (event : Event)
  | sign (payload : Str)
  | clockNow
  | persistenceAvailable

@[reducible] def Reply : Query → Type
  | .currentTime => Rat
  | .loadTail => Except Raise (Option SealedRecord)
  | .readAll => Except Raise (List SealedRecord)
  | .append _ => Except Raise Unit
  | .verify _ => Except Raise (Option RejectReason)
  | .sign _ => Except Raise Str
  | .clockNow => Str
  | .persistenceAvailable => Bool

abbrev HostM (α : Type) : Type := Act Query Reply Host Raise α

def currentTime : HostM Rat := Act.await Query.currentTime
def persistenceAvailable : HostM Bool := Act.await Query.persistenceAvailable

/-- A `CanonicalizationError` out of a pure computation. -/
def canonically {α : Type} : Except Str α → HostM α
  | .ok a => Act.lift (.ok a)
  | .error _ => Act.lift (.error .canonicalizationError)

/-! ## Reading an event -/

/-- `_event_id` (`host.py:916-919`). -/
def eventId (e : Event) : Str :=
  match get e ID with
  | some (.str s) => s
  | _ => lit "<unknown>"

/-- `event.get(SESSION_ID)` where it is a `str`. -/
def sessionId (e : Event) : Option Str :=
  match get e SESSION_ID with
  | some (.str s) => some s
  | _ => none

/-- `event.get(KEY_ID)` where it is a `str`. -/
def keyId (e : Event) : Option Str :=
  match get e KEY_ID with
  | some (.str s) => some s
  | _ => none

/-- `_signer_seq` (`host.py:896-912`). -/
def signerSeq (e : Event) : Option Int :=
  match get e SIGNER_SEQ with
  | some (.int i) => some i
  | some (.float (.fin q)) => if q.den = 1 ∧ q.num.natAbs ≤ MAX_SAFE_INTEGER then some q.num else none
  | _ => none

/-- `event.get(OUTCOME) == Outcome.ATTEMPTED`. -/
def isAttempt (e : Event) : Bool := hasText e OUTCOME Outcome.attempted.text

/-- `_digest` (`host.py:890-892`). -/
def digestOf (W : World) (e : Event) : Except Str Str := (canonicalize W (.obj e)).map W.sha256

/-! ## Updates of the tables -/

/-- `_decide` (`host.py:624-631`), on the session's own table. -/
def Session.decide (c : Config) (e : Event) (s : Session) : Session :=
  match c.level, keyId e, signerSeq e with
  | .l2, some k, some n => { s with decided := s.decided.insert (k, n) }
  | _, _, _ => s

/-- An outcome sealed for an operation, which it resolves where its attempt was accepted. -/
def Session.conclude (id digest : Str) (s : Session) : Session :=
  { s with
    outcomes := Function.update s.outcomes id (some digest)
    resolved := if id ∈ s.accepted then s.resolved.insert id else s.resolved }

namespace Host

/-- `_ANOMALY_KIND_OF` (`host.py:170-173`). -/
def anomalyKindOf : Reason → Reason
  | .l2Unsigned => .signatureInvalid
  | .unknownKey => .signatureInvalid
  | r => r

/-- `_flag` (`host.py:551-553`). -/
def flag (id : Str) (kind : Reason) (detail : Str) (h : Host) : Host :=
  { h with anomalies := h.anomalies ++ [⟨id, anomalyKindOf kind, detail⟩] }

/-- `self._rejected_ids.add(...)`. -/
def reject (id : Str) (h : Host) : Host := { h with rejectedIds := h.rejectedIds.insert id }

/-- A change of one open session, in place. -/
def updateSession (sid : Str) (f : Session → Session) (h : Host) : Host :=
  { h with sessions := fun k => if k = sid then (h.sessions k).map f else h.sessions k }

/-- `session.accepted.add(...)`. -/
def accept (sid id : Str) (h : Host) : Host :=
  h.updateSession sid fun s => { s with accepted := s.accepted.insert id }

/-- `session.outcomes[...] = ...`, and `session.resolved.add(...)`. -/
def conclude (sid id digest : Str) (h : Host) : Host := h.updateSession sid (Session.conclude id digest)

/-- `_decide` (`host.py:624-631`). -/
def decide (c : Config) (e : Event) (sid : Str) (h : Host) : Host := h.updateSession sid (Session.decide c e)

/-- The highest `signer_seq` received under a key (`host.py:595-601`). -/
def receive (k : Str) (n : Int) (sid : Str) (h : Host) : Host :=
  h.updateSession sid fun s => { s with received := Function.update s.received k (some n) }

/-- `self._tail_uncertain = True`. -/
def uncertain (h : Host) : Host := { h with tailUncertain := true }

/-- `self._ledger.commit(...)`. -/
def commit (r : SealedRecord) (h : Host) : Host := { h with ledger := h.ledger.commit r }

/-- `_remember` (`host.py:348-352`), once the digest is computed. -/
def rememberWith (r : SealedRecord) (digest : Str) (h : Host) : Host :=
  { h with
    sealedDigests := h.sealedDigests.insert digest
    sealedAttempts :=
      if isAttempt r.event then Function.update h.sealedAttempts (eventId r.event) (some r)
      else h.sealedAttempts }

section Ledger

variable (h : Host)

@[simp] theorem flag_ledger (id : Str) (kind : Reason) (detail : Str) :
    (h.flag id kind detail).ledger = h.ledger := rfl
@[simp] theorem reject_ledger (id : Str) : (h.reject id).ledger = h.ledger := rfl
@[simp] theorem updateSession_ledger (sid : Str) (f : Session → Session) :
    (h.updateSession sid f).ledger = h.ledger := rfl
@[simp] theorem accept_ledger (sid id : Str) : (h.accept sid id).ledger = h.ledger := rfl
@[simp] theorem conclude_ledger (sid id d : Str) : (h.conclude sid id d).ledger = h.ledger := rfl
@[simp] theorem receive_ledger (k : Str) (n : Int) (sid : Str) : (h.receive k n sid).ledger = h.ledger := rfl
@[simp] theorem uncertain_ledger : h.uncertain.ledger = h.ledger := rfl
@[simp] theorem rememberWith_ledger (r : SealedRecord) (d : Str) : (h.rememberWith r d).ledger = h.ledger := rfl
@[simp] theorem commit_ledger (r : SealedRecord) : (h.commit r).ledger = h.ledger.commit r := rfl

@[simp] theorem decide_ledger (c : Config) (e : Event) (sid : Str) : (h.decide c e sid).ledger = h.ledger := rfl

end Ledger

end Host

/-! ## Reject reasons and answers -/

def RejectReason.schemaInvalid : RejectReason := ⟨.schemaInvalid, by decide⟩
def RejectReason.replayDetected : RejectReason := ⟨.replayDetected, by decide⟩
def RejectReason.l2Unsigned : RejectReason := ⟨.l2Unsigned, by decide⟩

/-- `OutcomeDisposition` (`host.py:108-124`). -/
inductive OutcomeDisposition
  | sealed | repeated | refused | notRecorded
deriving DecidableEq

variable (W : World) (c : Config)

/-- `_accept_of` (`host.py:876-886`): building the response validates it. -/
def acceptOf (r : SealedRecord) : Except Raise (AttemptResponse W) :=
  let f : AcceptFields := ⟨r.seq, r.recordHash, r.hostTs, r.previousHash, r.hostSignature, r.hostKeyId, r.logId⟩
  if hf : f.valid W = true then .ok (.accept ⟨f, hf⟩) else .error .validationError

/-! ## Admission -/

/-- `_session_of` (`host.py:556-568`). -/
def sessionOf (e : Event) (expected : Option Str) (h : Host) : Except RejectReason Str × Host :=
  let refused := h.flag (eventId e) .replayDetected
    (lit "session " ++ W.repr ((get e SESSION_ID).getD .null) ++ lit " is not the one this call carries (§6.3)")
  match sessionId e with
  | some sid =>
    if (h.sessions sid).isSome ∧ expected.all (· == sid) then (.ok sid, h) else (.error .replayDetected, refused)
  | none => (.error .replayDetected, refused)

/-- `_admit` (`host.py:634-658`). -/
def admitEvent (e : Event) (expected : Option Str) (attempt : Bool) (h : Host) : Except RejectReason Str × Host :=
  match firstValidationError W (.obj e) with
  | some error => (.error .schemaInvalid, h.flag (eventId e) .schemaInvalid error)
  | none =>
    if isAttempt e ≠ attempt then
      (.error .schemaInvalid, h.flag (eventId e) .schemaInvalid
        (if attempt then lit "an attempt must carry outcome=attempted"
          else lit "an outcome carried outcome=attempted (§6)"))
    else if outsideCanonicalDomain (.obj e) then
      (.error .schemaInvalid, h.flag (eventId e) .schemaInvalid (lit "a value is not canonicalizable (§8.1)"))
    else sessionOf W e expected h

/-- A value more than one past the highest received, or a first value other than 0 (`host.py:595-598`). -/
def flagGap (e : Event) (n : Int) (received : Option Int) (h : Host) : Host :=
  let expected := (received.map (· + 1)).getD 0
  if n > expected then
    h.flag (eventId e) .signerSeqGap
      (lit "expected signer_seq " ++ intText expected ++ lit ", got " ++ intText n)
  else h

/-- What a verified signature notes (`host.py:595-601`). -/
def noteReceived (e : Event) (k : Str) (n : Int) (sid : Str) (h : Host) : Host :=
  let received := (h.sessions sid).bind fun s => s.received k
  let h := flagGap e n received h
  if received.all (n > ·) then h.receive k n sid else h

/-- `not signature`: absent or the empty text (a valid event's is a text). -/
def unsigned (e : Event) : Bool :=
  match get e SIGNATURE with
  | some (.str s) => s.isEmpty
  | some .null => true
  | some _ => false
  | none => true

/-- `_verify_signature` (`host.py:571-603`). -/
def verifySignature (e : Event) (sid : Str) : HostM (Option RejectReason) :=
  match c.level with
  | .l1 => pure none
  | .l2 =>
    match unsigned e, keyId e, signerSeq e with
    | false, some k, some n => do
      match ← Act.await (Query.verify e) with
      | .error x => Act.raise x
      | .ok (some reason) =>
        Act.modify (Host.flag (eventId e) reason.1 (lit "signature verification failed"))
        pure (some reason)
      | .ok none =>
        Act.modify (noteReceived e k n sid)
        pure none
    | _, _, _ => do
      Act.modify (Host.flag (eventId e) .l2Unsigned (lit "L2 requires signature, key_id, and signer_seq"))
      pure (some .l2Unsigned)

/-- `_check_replay` (`host.py:606-621`). -/
def checkReplay (e : Event) (sid : Str) (h : Host) : Option RejectReason × Host :=
  match c.level, keyId e, signerSeq e with
  | .l2, some k, some n =>
    if (h.sessions sid).any fun s => (k, n) ∈ s.decided then
      (some .replayDetected, h.flag (eventId e) .replayDetected
        (lit "signer_seq " ++ intText n ++ lit " was already decided"))
    else (none, h)
  | _, _, _ => (none, h)

/-! ## Sealing -/

/-- `_remember` (`host.py:348-352`). -/
def remember (r : SealedRecord) : HostM Unit := do
  let d ← canonically (digestOf W r.event)
  Act.modify (Host.rememberWith r d)

/-- The countersignature of `_seal` (`host.py:412-435`); `none` is a signer that failed. -/
def countersign (r : SealedRecord) : HostM (Option SealedRecord) :=
  match c.countersigner with
  | none => pure (some r)
  | some key => do
    let payload ← canonically (countersignaturePayload W (.int r.seq) (.str r.hostTs) (.str c.logId)
      (.str r.previousHash) (.str r.recordHash))
    match ← Act.await (Query.sign payload) with
    | .ok signature =>
      pure (some { r with hostSignature := some signature, hostKeyId := some key, logId := some c.logId })
    | .error .cancelled =>
      Act.modify Host.uncertain
      Act.raise .cancelled
    | .error _ => pure none

/-- The end of `_seal` (`host.py:450-452`). -/
def commitSealed (r : SealedRecord) : HostM (Option SealedRecord) := do
  Act.modify (Host.commit r)
  remember W r
  pure (some r)

/-- The persistence of `_seal` (`host.py:437-448`): a failed append may have landed. -/
def persist (r : SealedRecord) : HostM (Option SealedRecord) :=
  if c.hasRepository then do
    match ← Act.await (Query.append r) with
    | .ok _ => commitSealed W r
    | .error .repositoryError =>
      Act.modify Host.uncertain
      pure none
    | .error x =>
      Act.modify Host.uncertain
      Act.raise x
  else commitSealed W r

/-- `_seal` (`host.py:409-452`). -/
def sealRecord (e : Event) (hostTs : Str) : HostM (Option SealedRecord) := do
  let h ← Act.get
  let r ← canonically (h.ledger.seal W e hostTs)
  match ← countersign W c r with
  | none => pure none
  | some r => persist W c r

/-! ## The tail after an ambiguous append -/

/-- `_adopt` (`host.py:389-404`). -/
def adopt (r : SealedRecord) : HostM Unit := do
  let h ← Act.get
  match sessionId r.event with
  | none => pure ()
  | some sid =>
    if (h.sessions sid).isSome then do
      Act.modify (Host.decide c r.event sid)
      if isAttempt r.event then Act.modify (Host.accept sid (eventId r.event))
      else do
        let d ← canonically (digestOf W r.event)
        Act.modify (Host.conclude sid (eventId r.event) d)
    else pure ()

/-- What `_settle_tail` makes of the stored tail (`host.py:374-386`): adopt the record that landed,
continue from another writer's, or leave the chain as it is. -/
def settleWith (tail : Option SealedRecord) : HostM Unit := do
  let h ← Act.get
  match tail with
  | none => pure ()
  | some r =>
    if r.seq = h.ledger.count ∧ r.previousHash = h.ledger.digest then do
      Act.modify (Host.commit r)
      remember W r
      adopt W c r
    else if r.seq > h.ledger.count then
      Act.modify fun h => { h with ledger := Ledger.resumeFrom (some r) }
    else pure ()

/-- `_settle_tail` (`host.py:356-386`); `false` when the tail cannot be read. -/
def settleTail : HostM Bool := do
  let h ← Act.get
  if h.tailUncertain ∧ c.hasRepository then do
    match ← Act.await Query.loadTail with
    | .error .repositoryError => pure false
    | .error x => Act.raise x
    | .ok tail => do
      settleWith W c tail
      Act.modify fun h => { h with tailUncertain := false }
      pure true
  else pure true

/-! ## Attempts -/

/-- The seal of a new attempt (`host.py:739-752`). -/
def sealAttempt (e : Event) (sid : Str) : HostM (AttemptResponse W) := do
  if ← persistenceAvailable then do
    let hostTs ← Act.await Query.clockNow
    match ← sealRecord W c e hostTs with
    | none => pure .unavailable
    | some r =>
      Act.modify fun h => (h.decide c e sid).accept sid (eventId e)
      Act.lift (acceptOf W r)
  else pure .unavailable

/-- A sealed id, met again (`host.py:708-723`): a byte-identical repeat, or a replay. -/
def answerSealed (e : Event) (sid : Str) (sealed : SealedRecord) : HostM (AttemptResponse W) := do
  let was ← canonically (canonicalize W (.obj sealed.event))
  let is ← canonically (canonicalize W (.obj e))
  if was = is then do
    if get sealed.event SESSION_ID = get e SESSION_ID then
      Act.modify (Host.accept sid (eventId e))
    Act.lift (acceptOf W sealed)
  else do
    Act.modify fun h => ((h.reject (eventId e)).decide c e sid).flag (eventId e) .replayDetected
      (lit "attempt id already sealed with a different event")
    pure (.reject .replayDetected)

/-- An attempt that was admitted and whose signature verified (`host.py:708-752`). -/
def decideAttempt (e : Event) (sid : Str) : HostM (AttemptResponse W) := do
  let h ← Act.get
  match h.sealedAttempts (eventId e) with
  | some sealed => answerSealed W c e sid sealed
  | none =>
    if (h.sessions sid).any fun s => (s.outcomes (eventId e)).isSome then do
      Act.modify fun h => ((h.reject (eventId e)).decide c e sid).flag (eventId e) .replayDetected
        (lit "the operation already has a sealed outcome")
      pure (.reject .replayDetected)
    else do
      match ← Act.state (checkReplay c e sid) with
      | some reason =>
        Act.modify fun h => (h.reject (eventId e)).decide c e sid
        pure (.reject reason)
      | none => sealAttempt W c e sid

/-- `_handle_attempt` (`host.py:695-752`). -/
def handleAttemptLocked (e : Event) (expected : Option Str) : HostM (AttemptResponse W) := do
  match ← Act.state (admitEvent W e expected true) with
  | .error reason => pure (.reject reason)
  | .ok sid =>
    match ← verifySignature c e sid with
    | some reason =>
      Act.modify (Host.reject (eventId e))
      pure (.reject reason)
    | none => decideAttempt W c e sid

/-- `handle_attempt` (`host.py:661-691`), the lock held. -/
def handleAttempt (e : Event) (expected : Option Str) (deadline : Option Rat) : HostM (AttemptResponse W) := do
  let late ← match deadline with
    | none => pure false
    | some d => do
      let now ← currentTime
      pure (decide (d ≤ now))
  if late then pure .unavailable
  else do
    if ← settleTail W c then handleAttemptLocked W c e expected else pure .unavailable

/-! ## Outcomes -/

/-- The seal of an outcome (`host.py:829-842`). -/
def sealOutcome (e : Event) (sid digest : Str) : HostM OutcomeDisposition := do
  if ← persistenceAvailable then do
    let hostTs ← Act.await Query.clockNow
    match ← sealRecord W c e hostTs with
    | none => pure .notRecorded
    | some _ =>
      Act.modify fun h => (h.decide c e sid).conclude sid (eventId e) digest
      pure .sealed
  else pure .notRecorded

/-- An outcome no record answers for yet (`host.py:815-842`). -/
def correlateOutcome (e : Event) (sid digest : Str) : HostM OutcomeDisposition := do
  match ← Act.state (checkReplay c e sid) with
  | some _ => pure .refused
  | none => do
    let h ← Act.get
    let correlated := (h.sessions sid).any fun s => eventId e ∈ s.accepted
    if !correlated ∧ !hasText e OUTCOME Outcome.aborted.text then do
      let outcome := match get e OUTCOME with
        | some (.str s) => s
        | _ => []
      let sub := if eventId e ∈ h.rejectedIds then lit "for a rejected id" else lit "without an accepted attempt"
      Act.modify fun h => (h.decide c e sid).flag (eventId e) .orphanedOutcome
        (lit "outcome=" ++ outcome ++ lit " " ++ sub)
      pure .refused
    else sealOutcome W c e sid digest

/-- An outcome that was admitted and whose signature verified (`host.py:803-842`). -/
def decideOutcome (e : Event) (sid : Str) : HostM OutcomeDisposition := do
  let digest ← canonically (digestOf W e)
  let h ← Act.get
  let sealedOutcome := (h.sessions sid).bind fun s => s.outcomes (eventId e)
  if sealedOutcome = some digest ∨ digest ∈ h.sealedDigests then pure .repeated
  else if sealedOutcome.isSome then do
    Act.modify fun h => (h.decide c e sid).flag (eventId e) .replayDetected
      (lit "a second, different outcome for one operation (§7.2)")
    pure .refused
  else correlateOutcome W c e sid digest

/-- `_handle_outcome` (`host.py:787-842`). -/
def handleOutcomeLocked (e : Event) (expected : Option Str) : HostM OutcomeDisposition := do
  match ← Act.state (admitEvent W e expected false) with
  | .error _ => pure .refused
  | .ok sid =>
    match ← verifySignature c e sid with
    | some _ => pure .refused
    | none => decideOutcome W c e sid

/-- `record_outcome` (`host.py:763-783`), the lock held. -/
def recordOutcome (e : Event) (expected : Option Str) : HostM OutcomeDisposition := do
  if ← settleTail W c then handleOutcomeLocked W c e expected else pure .notRecorded

/-! ## Sessions -/

/-- `open_session` of an id (`host.py:498-519`); an id already issued raises `ValueError`. -/
def openSession (sid : Str) : HostM Unit := do
  let h ← Act.get
  if sid ∈ h.issued then Act.raise .other
  else Act.modify fun h =>
    { h with issued := h.issued.insert sid, sessions := Function.update h.sessions sid (some .new) }

/-- `sorted(session.accepted - session.resolved)` (`host.py:534`). -/
def Session.unresolved (s : Session) : List Str :=
  (s.accepted.filter fun id => id ∉ s.resolved).insertionSort (· ≤ ·)

def flagAll (detail : Str → Str) (ids : List Str) (h : Host) : Host :=
  ids.foldl (fun h id => h.flag id .unresolvedAttempt (detail id)) h

/-- `close_session` (`host.py:522-535`), the lock held. -/
def closeSession (sid : Str) : HostM Unit := do
  let h ← Act.get
  match h.sessions sid with
  | none => pure ()
  | some s =>
    Act.modify fun h => flagAll (fun id => lit "call ended with attempt " ++ id ++ lit " unresolved")
      s.unresolved { h with sessions := Function.update h.sessions sid none }

/-! ## Restart -/

/-- `SignerTracker` (`host.py:128-137`). -/
structure SignerTracker where
  decided : List (Str × Int)
  received : List (Str × Int)

/-- `OpenSession` (`host.py:141-146`). -/
structure OpenSession where
  sessionId : Str
  signers : Option SignerTracker

/-- `session.received[key] = max(session.received.get(key, n), n)`. -/
def Session.receiveMax (s : Session) (k : Str) (n : Int) : Session :=
  { s with received := Function.update s.received k (some (max ((s.received k).getD n) n)) }

/-- `event.get(SPEC_VERSION) == SPEC_VERSION`. -/
def isCurrent (e : Event) : Bool := hasText e SPEC_VERSION_KEY SPEC_VERSION

/-- A sealed record's signer number, restored as decided and received (`host.py:858-860`). -/
def Session.restoreSigner (e : Event) (s : Session) : Session :=
  match keyId e, signerSeq e with
  | some k, some n => { s with decided := s.decided.insert (k, n) }.receiveMax k n
  | _, _ => s

/-- One record of `_restored_session` (`host.py:848-872`). -/
def restoreRecord (sid : Str) (s : Session) (r : SealedRecord) : Except Str Session :=
  let e := r.event
  if sessionId e = some sid ∧ isCurrent e then
    let s := s.restoreSigner e
    if isAttempt e then .ok { s with accepted := s.accepted.insert (eventId e) }
    else match digestOf W e with
      | .error m => .error m
      | .ok d => .ok (s.conclude (eventId e) d)
  else .ok s

/-- `_restored_session` (`host.py:848-872`). -/
def restoredSession (sid : Str) : Session → List SealedRecord → Except Str Session
  | s, [] => .ok s
  | s, r :: rs =>
    match restoreRecord W sid s r with
    | .error m => .error m
    | .ok s => restoredSession sid s rs

/-- The tracker kept outside the ledger, given back (`host.py:313-319`). -/
def Session.withSigners (s : Session) : Option SignerTracker → Session
  | none => s
  | some t => t.received.foldl (fun s m => s.receiveMax m.1 m.2)
      { s with decided := t.decided.foldl (fun d m => d.insert m) s.decided }

/-- One entry of `open_attempts` (`host.py:329-341`): an ordered dictionary keyed by session and id. -/
def openAttemptsStep (opened : List Str) (acc : List (Str × Str)) (r : SealedRecord) : List (Str × Str) :=
  match sessionId r.event with
  | none => acc
  | some sid =>
    if isCurrent r.event ∧ sid ∉ opened then
      if isAttempt r.event then
        (if (sid, eventId r.event) ∈ acc then acc else acc ++ [(sid, eventId r.event)])
      else acc.erase (sid, eventId r.event)
    else acc

/-- The attempts `_flag_unresolved` is left with. -/
def openAttempts (opened : List Str) (records : List SealedRecord) : List (Str × Str) :=
  records.foldl (openAttemptsStep opened) []

/-- `_flag_unresolved` (`host.py:327-344`). -/
def flagUnresolved (opened : List Str) (records : List SealedRecord) (h : Host) : Host :=
  flagAll (fun id => lit "host restarted with attempt " ++ id ++ lit " unresolved")
    ((openAttempts opened records).map Prod.snd) h

/-- The stored records, remembered (`host.py:300-306`). -/
def rememberAll : List SealedRecord → HostM Unit
  | [] => pure ()
  | r :: rs => do
    remember W r
    match sessionId r.event with
    | some sid => Act.modify fun h => { h with issued := h.issued.insert sid }
    | none => pure ()
    rememberAll rs

/-- The sessions restored as open (`host.py:308-321`). -/
def restoreAll (records : List SealedRecord) : List OpenSession → HostM Unit
  | [] => pure ()
  | entry :: rest => do
    Act.modify fun h => { h with issued := h.issued.insert entry.sessionId }
    let s ← canonically (restoredSession W entry.sessionId .new records)
    Act.modify fun h =>
      { h with sessions := Function.update h.sessions entry.sessionId (some (s.withSigners entry.signers)) }
    restoreAll records rest

/-- `resume` (`host.py:254-324`), from a host just constructed. -/
def resume (openSessions : List OpenSession) : HostM Unit := do
  match ← Act.await Query.readAll with
  | .error x => Act.raise x
  | .ok records => do
    Act.modify fun h => { h with ledger := Ledger.resumeFrom records.getLast? }
    rememberAll W records
    restoreAll W records openSessions
    Act.modify (flagUnresolved (openSessions.map (·.sessionId)) records)

/-! ## The calls of a binding -/

inductive HostOp
  | attempt (e : Event) (expected : Option Str) (deadline : Option Rat)
  | outcome (e : Event) (expected : Option Str)
  | openSession (sid : Str)
  | closeSession (sid : Str)

/-- A call, its answer left to its caller. -/
def HostOp.run : HostOp → HostM Unit
  | .attempt e expected deadline => do
    let _ ← handleAttempt W c e expected deadline
    pure ()
  | .outcome e expected => do
    let _ ← recordOutcome W c e expected
    pure ()
  | .openSession sid => AuditableMcp.openSession sid
  | .closeSession sid => AuditableMcp.closeSession sid

/-! ## A new attempt -/

/-- An attempt that nothing stands against, at a Level-1 host with no append in doubt. -/
structure Unopposed (h : Host) (e : Event) (sid : Str) : Prop where
  level : c.level = .l1
  settled : h.tailUncertain = false
  valid : validAuditEvent W (.obj e) = true
  attempt : isAttempt e = true
  domain : InDomain (.obj e)
  session : sessionId e = some sid
  isOpen : (h.sessions sid).isSome = true
  unsealed : h.sealedAttempts (eventId e) = none
  unconcluded : ∀ s, h.sessions sid = some s → s.outcomes (eventId e) = none

/-- Past admission, an attempt's signature is verified and the rest decided. -/
theorem handleAttempt_runs {σ : Type} {env : σ → (q : Query) → Reply q → σ → Prop} {h h₁ : Host} {e : Event}
    {sid : Str} {s s₁ s' : σ} {y : Except Raise (AttemptResponse W) × Host} (hset : h.tailUncertain = false)
    (ha : admitEvent W e none true h = (.ok sid, h)) (hv : Runs env (verifySignature c e sid h) s (.ok none, h₁) s₁)
    (hd : Runs env (decideAttempt W c e sid h₁) s₁ y s') : Runs env (handleAttempt W c e none none h) s y s' := by
  have hsettle : settleTail W c h = .ret (.ok true, h) := by simp [settleTail, hset]; rfl
  simp only [handleAttempt, Act.pure_bind_apply, Bool.false_eq_true, ↓reduceIte, Act.bind_apply_of_ret hsettle,
    handleAttemptLocked, Act.state_bind_apply, ha]
  exact Act.runs_bind hv hd

theorem decideAttempt_new {h : Host} {e : Event} {sid : Str} (hseal : h.sealedAttempts (eventId e) = none)
    (hout : ∀ s, h.sessions sid = some s → s.outcomes (eventId e) = none)
    (hreplay : checkReplay c e sid h = (none, h)) : decideAttempt W c e sid h = sealAttempt W c e sid h := by
  have hout' : ((h.sessions sid).any fun s => (s.outcomes (eventId e)).isSome) = false := by
    cases hs : h.sessions sid with
    | none => rfl
    | some s => simp [hout s hs]
  simp only [decideAttempt, Act.get_bind_apply, hseal, hout', Bool.false_eq_true, ↓reduceIte, Act.state_bind_apply,
    hreplay]

theorem admitEvent_ok {h : Host} {e : Event} {sid : Str} (hvalid : validAuditEvent W (.obj e) = true)
    (hdom : InDomain (.obj e)) (hatt : isAttempt e = true) (hsid : sessionId e = some sid)
    (hopen : (h.sessions sid).isSome = true) : admitEvent W e none true h = (.ok sid, h) := by
  unfold admitEvent sessionOf
  simp [firstValidationError, firstError_eq_none.2 hvalid, hatt, show outsideCanonicalDomain (.obj e) = false from hdom, hsid, hopen]

theorem handleAttempt_unopposed {h : Host} {e : Event} {sid : Str}
    (hu : Unopposed W c h e sid) : handleAttempt W c e none none h = sealAttempt W c e sid h := by
  obtain ⟨hl, hset, hvalid, hatt, hdom, hsid, hopen, hseal, hout⟩ := hu
  have hreplay : checkReplay c e sid h = (none, h) := by simp [checkReplay, hl]
  have hsettle : settleTail W c h = .ret (.ok true, h) := by simp [settleTail, hset]; rfl
  have hverify : verifySignature c e sid = pure none := by simp [verifySignature, hl]
  simp only [handleAttempt, Act.pure_bind_apply, Bool.false_eq_true, ↓reduceIte, Act.bind_apply_of_ret hsettle,
    handleAttemptLocked, Act.state_bind_apply, admitEvent_ok W hvalid hdom hatt hsid hopen, hverify,
    decideAttempt_new W c hseal hout hreplay]

/-- A signature that verifies notes its number. -/
theorem verifySignature_runs {σ : Type} {env : σ → (q : Query) → Reply q → σ → Prop} {h : Host} {e : Event}
    {sid k : Str} {n : Int} {s s' : σ} (hl : c.level = .l2) (hsig : unsigned e = false) (hk : keyId e = some k)
    (hn : signerSeq e = some n) (he : env s (.verify e) (.ok none) s') :
    Runs env (verifySignature c e sid h) s (.ok none, noteReceived e k n sid h) s' := by
  simp only [verifySignature, hl, hsig, hk, hn, Act.await_bind_apply]
  exact .ask he (.ret _ _)

theorem sealRecord_uncountersigned {h : Host} {e : Event} {ts : Str} {r : SealedRecord}
    (hcs : c.countersigner = none) (hseal : h.ledger.seal W e ts = .ok r) :
    sealRecord W c e ts h = persist W c r h := by
  have hc : countersign W c r = pure (some r) := by simp [countersign, hcs]
  simp only [sealRecord, Act.get_bind_apply, hseal, canonically, Act.lift_ok_bind_apply, hc, Act.pure_bind_apply]

theorem sealRecord_stored {σ : Type} {env : σ → (q : Query) → Reply q → σ → Prop} {h : Host} {e : Event}
    {ts d : Str} {r : SealedRecord} {s s' : σ} (hcs : c.countersigner = none) (hrepo : c.hasRepository = true)
    (hseal : h.ledger.seal W e ts = .ok r) (hd : digestOf W r.event = .ok d)
    (happ : env s (.append r) (.ok ()) s') :
    Runs env (sealRecord W c e ts h) s (.ok (some r), (h.commit r).rememberWith r d) s' := by
  rw [sealRecord_uncountersigned W c hcs hseal]
  simp only [persist, hrepo, ↓reduceIte, Act.await_bind_apply]
  refine .ask happ ?_
  simp only [commitSealed, Act.modify_bind_apply, remember, hd, canonically]
  exact .ret _ _

theorem sealRecord_ambiguous {σ : Type} {env : σ → (q : Query) → Reply q → σ → Prop} {h : Host} {e : Event}
    {ts : Str} {r : SealedRecord} {s s' : σ} (hcs : c.countersigner = none) (hrepo : c.hasRepository = true)
    (hseal : h.ledger.seal W e ts = .ok r) (happ : env s (.append r) (.error .repositoryError) s') :
    Runs env (sealRecord W c e ts h) s (.ok none, h.uncertain) s' := by
  rw [sealRecord_uncountersigned W c hcs hseal]
  simp only [persist, hrepo, ↓reduceIte, Act.await_bind_apply]
  exact .ask happ (.ret _ _)

/-- A record countersigned and kept in memory. -/
theorem sealRecord_countersigned {σ : Type} {env : σ → (q : Query) → Reply q → σ → Prop} {h : Host} {e : Event}
    {ts d key p g : Str} {r : SealedRecord} {s s' : σ} (hcs : c.countersigner = some key)
    (hrepo : c.hasRepository = false) (hseal : h.ledger.seal W e ts = .ok r)
    (hp : countersignaturePayload W (.int r.seq) (.str r.hostTs) (.str c.logId) (.str r.previousHash)
      (.str r.recordHash) = .ok p) (hd : digestOf W r.event = .ok d) (he : env s (.sign p) (.ok g) s') :
    let r' := { r with hostSignature := some g, hostKeyId := some key, logId := some c.logId }
    Runs env (sealRecord W c e ts h) s (.ok (some r'), (h.commit r').rememberWith r' d) s' := by
  intro r'
  simp only [sealRecord, Act.get_bind_apply, hseal, canonically, Act.lift_ok_bind_apply]
  have hsign : Runs env (countersign W c r h) s (.ok (some r'), h) s' := by
    simp only [countersign, hcs, hp, canonically, Act.lift_ok_bind_apply, Act.await_bind_apply]
    exact .ask he (.ret _ _)
  refine Act.runs_bind hsign ?_
  have hd' : digestOf W r'.event = .ok d := hd
  simp only [persist, hrepo, Bool.false_eq_true, ↓reduceIte, commitSealed, Act.modify_bind_apply, remember, hd',
    canonically]
  exact .ret _ _

/-- It is sealed where its append is confirmed (`host.py:743-752`), and answered `unavailable`, the tail in
doubt, where its append fails. -/
theorem sealAttempt_runs {σ : Type} {env : σ → (q : Query) → Reply q → σ → Prop} {h h' : Host} {e : Event}
    {sid ts : Str} {x : Option SealedRecord} {s s' : σ} (hup : env s .persistenceAvailable true s)
    (hnow : env s .clockNow ts s) (hrun : Runs env (sealRecord W c e ts h) s (.ok x, h') s') :
    Runs env (sealAttempt W c e sid h) s
      (x.elim (.ok .unavailable, h') fun r => (acceptOf W r, (h'.decide c e sid).accept sid (eventId e))) s' := by
  simp only [sealAttempt, persistenceAvailable, Act.await_bind_apply]
  refine .ask hup ?_
  simp only [↓reduceIte, Act.await_bind_apply]
  refine .ask hnow (Act.runs_bind hrun ?_)
  cases x <;> exact .ret _ _

end AuditableMcp
