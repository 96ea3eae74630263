import Mathlib.Logic.Function.Basic
import Mathlib.Logic.Relation
import AuditableMcp.AuditMeta
import AuditableMcp.Receiver
import AuditableMcp.Reference
import AuditableMcp.Verify
/-!
# `mcp/seam.py`: the tool's side, `McpAuditTransport` (`:656-1458`)

One run of the transport interleaves the two pumps of its connection, the handlers that emit events and wait for answers,
and the tasks it starts. `Act` names what each does between two awaits.

| here | there |
| --- | --- |
| `AuditCapability`, `capabilityOf`, `fits` | `AuditCapability`; `capability_of`; `negotiate` (`capability.py:66-112`) |
| `OpenRound`, `AuditSession`, `ToolCall` | `_Round`, `_AuditSession`, `_ToolCall` |
| `PendingAttempt`          | a `_Pending`, and the `_send_attempt` that waits for it |
| `ToolSeam`                | the seam's tables and its outbound queue |
| `inbound`, `takeCall`, `acceptRetry`, `cancel` | `_inbound`, `_take_call`, `_accept_retry`, `_cancel` |
| `outbound`, `finish`, `finalFrame`, `keepWaiting` | `_outbound`, `_finish`, `_final_frame`, `_keep_waiting` |
| `sendAttempt`, `resume`, `sendFails` | `_send_attempt` to its wait, after it, and where its send raises |
| `sendOutcome`, `endRound`, `endCall`, `release`, `keepIdle` | `_send_outcome`, `_end_round`, `_end_call`, `_release`, `_keep_idle` |
| `declared`, `emitted`, `sent`, `dropped`, `cancelledAt`, `inbox`, `issued`, `resumed`, `refused`, `written`, `forgotten`, `out`, `toSession` | what happened, which no code reads |

A call, a session and an attempt are references into heaps, as they are objects there. The loops that evict take as many
turns at most as their table has entries. A frame of the session's that has the identity of one a failed send left
behind passes the pump as the seam's own (`FrameSeam`): `identities` counts these.
-/
namespace AuditableMcp

open JsonValue

/-! ## Declarations -/

/-- `AuditCapability` (`models.py:359-368`); `attempt` has one value. -/
structure AuditCapability where
  specVersion : Str
  level : Level
  countersign : Countersign
deriving DecidableEq

def Level.text : Level → Str
  | .l1 => lit "L1"
  | .l2 => lit "L2"

def Countersign.text : Countersign → Str
  | .none => lit "none"
  | .host => lit "host"

def LEVEL : Str := lit "level"
def ATTEMPT : Str := lit "attempt"
def COUNTERSIGN : Str := lit "countersign"
def REQUEST : Str := lit "request"

def AuditCapability.toWire (c : AuditCapability) : Members :=
  [(SPEC_VERSION_KEY, .str c.specVersion), (LEVEL, .str c.level.text), (ATTEMPT, .str REQUEST),
    (COUNTERSIGN, .str c.countersign.text)]

def AuditCapability.ofJson (v : Json) : Option AuditCapability :=
  match v with
  | .obj ms =>
    if isModel [SPEC_VERSION_KEY, LEVEL, ATTEMPT, COUNTERSIGN] (fun ms => required ms SPEC_VERSION_KEY isNonEmpty &&
        hasText ms ATTEMPT REQUEST) v then
      match textOf ms SPEC_VERSION_KEY, [Level.l1, .l2].find? (fun l => hasText ms LEVEL l.text),
        [Countersign.none, .host].find? (fun c => hasText ms COUNTERSIGN c.text) with
      | some specVersion, some level, some countersign => some ⟨specVersion, level, countersign⟩
      | _, _, _ => none
    else none
  | _ => none

/-- `capability_of`, of a capabilities object as it travels. -/
def capabilityOf (capabilities : Option Json) : Option AuditCapability :=
  match capabilities with
  | some (.obj ms) => match get ms EXTENSIONS_MEMBER with
    | some (.obj extensions) => (get extensions EXTENSION_ID).bind AuditCapability.ofJson
    | _ => none
  | _ => none

/-- Whether a host's declaration and a tool's fit. -/
def fits (host tool : AuditCapability) : Bool :=
  tool.specVersion == host.specVersion && (tool.level == .l2 || host.level == .l1) &&
    (host.countersign == .host || tool.countersign == .none)

/-! ## The state of a call -/

def ROUND_TOKEN_PREFIX : Str := lit "amcp."
def NO_OPEN_ROUND_MESSAGE : Str := lit "this requestState names no open round (§6.4)"

/-- The idle audit sessions kept on one connection, and the concluded calls that wait on a retry (`:165`). -/
def MAX_IDLE : Nat := 1024

/-- An event a handler emitted: how many its call had emitted before, and what waits for its answer, if it is sent as
an attempt. -/
structure Emission where
  place : Nat
  event : Event
  attempt : Option Nat
deriving DecidableEq

/-- `_Round`: its token, and the attempts it carried under their ids. -/
structure OpenRound where
  token : Str
  awaiting : Dict Str Nat
deriving DecidableEq

structure AuditSession where
  sessionId : Str
  hostCapability : Option AuditCapability
  live : Int
deriving DecidableEq

structure ToolCall where
  originalId : RequestId
  modern : Bool
  hostCapability : Option AuditCapability
  audit : Option Nat
  ownSessionId : Str
  taskAugmented : Bool
  currentId : Option RequestId
  ids : List RequestId
  negotiated : Bool := false
  buffered : List Emission := []
  bufferedAwaiting : Dict Str Nat := .empty
  round : Option OpenRound := none
  roundScheduled : Bool := false
  final : Option Frame := none
  finished : Bool := false
  ended : Bool := false
  released : Bool := false
  acceptedOpen : List Str := []
  /-- What its own request declared. -/
  declared : Option AuditCapability := none
  /-- Every event emitted before the handler concluded. -/
  emitted : List Emission := []
  /-- The events its rounds and its final result carried. -/
  sent : List Emission := []
  /-- `_end_call` took it. -/
  dropped : Bool := false
  /-- How many frames had gone out when a cancellation of it was taken in. -/
  cancelledAt : Option Nat := none

namespace ToolCall

variable (call : ToolCall)

/-- Its handler has concluded, or nothing more is to go out. -/
def isOver : Bool := call.finished || call.ended

def negotiate (offered : AuditCapability) : ToolCall :=
  { call with negotiated := call.hostCapability.any (fits · offered) && call.audit.isSome && !call.taskAugmented }

/-- An event joins what goes out next. -/
def emit (event : Event) (attempt : Option Nat) : ToolCall :=
  let e : Emission := ⟨call.emitted.length, event, attempt⟩
  { call with buffered := call.buffered ++ [e], emitted := call.emitted ++ [e] }

/-- So does an attempt, which waits for a round. -/
def ask (event : Event) (id : Str) (a : Nat) : ToolCall :=
  { call.emit event (some a) with
    bufferedAwaiting := call.bufferedAwaiting.set id a
    roundScheduled := true }

/-- What is buffered goes out as a round. -/
def sendRound (token : Str) : ToolCall :=
  { call with
    buffered := []
    bufferedAwaiting := .empty
    round := some ⟨token, call.bufferedAwaiting⟩
    currentId := none
    sent := call.sent ++ call.buffered }

/-- The request of a retry is the one to answer now. -/
def resumeOn (id : RequestId) : ToolCall :=
  { call with
    round := none
    currentId := some id
    ids := call.ids.insert id
    roundScheduled := call.roundScheduled || !call.isOver && call.buffered.any fun e => isAttempt e.event }

def schedule : ToolCall := { call with roundScheduled := true }

def beginRound : ToolCall := { call with roundScheduled := false }

def finish : ToolCall := { call with finished := true }

def release : ToolCall := { call with released := true }

/-- The final frame waits for a retry. -/
def park (frame : Frame) : ToolCall := { call with final := some frame }

/-- What has not gone out is dropped, but for these events. -/
def keepOnly (events : List Emission) : ToolCall := { call with buffered := events, bufferedAwaiting := .empty }

def conclude (outcomes : List Emission) : ToolCall :=
  { call with ended := true, final := none, sent := call.sent ++ outcomes }

/-- Nothing more goes out for it. -/
def close : ToolCall := { call with ended := true }

/-- An operation the host accepted is under way. -/
def answered {W : World} (r : AttemptResponse W) (id : Str) : ToolCall :=
  match r with
  | .accept _ => if call.ended then call else { call with acceptedOpen := call.acceptedOpen.insert id }
  | _ => call

/-- It is no more. -/
def concluded (id : Str) : ToolCall := { call with acceptedOpen := call.acceptedOpen.filter (· != id) }

def cancel (place : Nat) : ToolCall := { call with cancelledAt := some place }

def drop : ToolCall :=
  { call with finished := true, ended := true, final := none, bufferedAwaiting := .empty, dropped := true }

end ToolCall

structure PendingAttempt (W : World) where
  call : Nat
  event : Event
  requestId : Option RequestId
  response : Option (AttemptResponse W) := none
  returned : Option (AttemptResponse W) := none
  /-- How many frames had come in when it was made, and when it returned. -/
  since : Nat := 0
  returnedAt : Nat := 0

/-- The first answer stands. -/
def PendingAttempt.settle {W : World} (r : AttemptResponse W) (a : PendingAttempt W) : PendingAttempt W :=
  match a.response with
  | none => { a with response := some r }
  | some _ => a

def PendingAttempt.done {W : World} (r : AttemptResponse W) (place : Nat) (a : PendingAttempt W) : PendingAttempt W :=
  { a with returned := some r, returnedAt := place }

/-- The attempts settled in turn. -/
def settleAll {W : World} (answers : List (Nat × AttemptResponse W)) (attempts : Nat → PendingAttempt W) :
    Nat → PendingAttempt W :=
  answers.foldl (fun m a => Function.update m a.1 ((m a.1).settle a.2)) attempts

section
variable {W : World}

@[simp] theorem PendingAttempt.settle_call (r : AttemptResponse W) (a : PendingAttempt W) :
    (a.settle r).call = a.call := by
  unfold PendingAttempt.settle
  split <;> rfl

@[simp] theorem PendingAttempt.settle_requestId (r : AttemptResponse W) (a : PendingAttempt W) :
    (a.settle r).requestId = a.requestId := by
  unfold PendingAttempt.settle
  split <;> rfl

@[simp] theorem PendingAttempt.settle_returned (r : AttemptResponse W) (a : PendingAttempt W) :
    (a.settle r).returned = a.returned := by
  unfold PendingAttempt.settle
  split <;> rfl

theorem PendingAttempt.settle_response (r : AttemptResponse W) (a : PendingAttempt W) :
    (a.settle r).response = some (a.response.getD r) := by
  unfold PendingAttempt.settle
  split
  · next h => simp [h]
  · next h => simp [h]

@[simp] theorem PendingAttempt.settle_settle (r r' : AttemptResponse W) (a : PendingAttempt W) :
    (a.settle r).settle r' = a.settle r := by
  obtain ⟨_, _, _, response, _, _, _⟩ := a
  cases response <;> rfl

/-- The first answer stands, of those given in turn too. -/
theorem settleAll_apply (answers : List (Nat × AttemptResponse W)) (attempts : Nat → PendingAttempt W) (k : Nat) :
    settleAll answers attempts k = (answers.lookup k).elim (attempts k) fun r => (attempts k).settle r := by
  induction answers generalizing attempts with
  | nil => rfl
  | cons answer answers ih =>
    obtain ⟨a, r⟩ := answer
    have hstep : settleAll ((a, r) :: answers) attempts k =
      settleAll answers (Function.update attempts a ((attempts a).settle r)) k := rfl
    rw [hstep, ih, List.lookup_cons]
    by_cases hk : k = a
    · subst hk
      cases answers.lookup k <;> simp
    · have hka : (k == a) = false := beq_false_of_ne hk
      simp [hka, Function.update_of_ne hk]

end

/-- A message on the outbound queue, and whether it goes through `_outbound`. -/
structure QueuedFrame where
  frame : Frame
  hooked : Bool
deriving DecidableEq

/-- A round that went out, with the frames that had come in by then, and the events its frame carried. -/
structure IssuedRound where
  token : Str
  call : Nat
  awaiting : Dict Str Nat
  since : Nat
  carried : List Emission

/-- What is fixed for a transport: its declaration, its instance, and the protocol versions that have no handshake. -/
structure SeamConfig where
  declares : AuditCapability
  instanceName : Str
  modernVersions : List Str

structure ToolSeam (W : World) where
  calls : Nat → ToolCall
  callCount : Nat
  sessions : Nat → AuditSession
  sessionCount : Nat
  attempts : Nat → PendingAttempt W
  attemptCount : Nat
  handshakeId : Option RequestId
  handshakeSeen : Bool
  handshakeCapability : Option AuditCapability
  /-- `_calls`. -/
  inFlight : Dict RequestId Nat
  rounds : Dict Str (Nat × OpenRound)
  /-- `_sessions`. -/
  tracked : Dict Str Nat
  idle : Dict Str Nat
  pending : Dict RequestId Nat
  waiting : Dict RequestId Nat
  cancelled : Dict RequestId Nat
  nextId : Nat
  queue : List QueuedFrame
  identities : Nat
  inbox : List Frame
  toSession : List Frame
  out : List Frame
  issued : List IssuedRound
  /-- The tokens that resumed a retry, with the place of the retry in the inbox; and those that were refused. -/
  resumed : List (Str × Nat)
  refused : List (Str × Nat)
  /-- The ids the session wrote an answer for. -/
  written : List RequestId
  /-- The ids of calls whose end was forgotten before the session's answer came. -/
  forgotten : List RequestId

namespace ToolSeam

variable {W : World}

def noCall : ToolCall where
  originalId := .int 0
  modern := true
  hostCapability := none
  audit := none
  ownSessionId := []
  taskAugmented := false
  currentId := none
  ids := []
  finished := true
  ended := true
  released := true

def start : ToolSeam W where
  calls := fun _ => noCall
  callCount := 0
  sessions := fun _ => ⟨[], none, 0⟩
  sessionCount := 0
  attempts := fun _ => { call := 0, event := [], requestId := none }
  attemptCount := 0
  handshakeId := none
  handshakeSeen := false
  handshakeCapability := none
  inFlight := .empty
  rounds := .empty
  tracked := .empty
  idle := .empty
  pending := .empty
  waiting := .empty
  cancelled := .empty
  nextId := 0
  queue := []
  identities := 0
  inbox := []
  toSession := []
  out := []
  issued := []
  resumed := []
  refused := []
  written := []
  forgotten := []

def updateCall (c : Nat) (f : ToolCall → ToolCall) (s : ToolSeam W) : ToolSeam W :=
  { s with calls := Function.update s.calls c (f (s.calls c)) }

def updateSession (g : Nat) (f : AuditSession → AuditSession) (s : ToolSeam W) : ToolSeam W :=
  { s with sessions := Function.update s.sessions g (f (s.sessions g)) }

def settle (answers : List (Nat × AttemptResponse W)) (s : ToolSeam W) : ToolSeam W :=
  { s with attempts := settleAll answers s.attempts }

/-- The attempts, each answered unavailable. -/
def unanswered (attempts : List Nat) : List (Nat × AttemptResponse W) := attempts.map (·, .unavailable)

/-- `_send_frame`. -/
def sendFrame (frame : Frame) (s : ToolSeam W) : ToolSeam W := { s with queue := s.queue ++ [⟨frame, false⟩] }

/-- The session id of an event's call: `_ToolCall.session_id`. -/
def sessionIdOf (s : ToolSeam W) (c : Nat) : Str :=
  match (s.calls c).negotiated, (s.calls c).audit with
  | true, some g => (s.sessions g).sessionId
  | _, _ => (s.calls c).ownSessionId

/-- Whose numbering a call's events take. -/
inductive NumberedBy
  | session (g : Nat)
  | own (c : Nat)
deriving DecidableEq

/-- `McpAuditCall.numbering`. -/
def numberedBy (s : ToolSeam W) (c : Nat) : NumberedBy :=
  match (s.calls c).negotiated, (s.calls c).audit with
  | true, some g => .session g
  | _, _ => .own c

/-! ## Audit sessions -/

/-- The loop of `_keep_idle`, for so many turns at most. -/
def evictIdle : Nat → ToolSeam W → ToolSeam W
  | 0, s => s
  | turns + 1, s =>
    if s.idle.items.length ≤ MAX_IDLE then s
    else match s.idle.items with
      | (evicted, _) :: _ => evictIdle turns { s with idle := s.idle.pop evicted, tracked := s.tracked.pop evicted }
      | [] => s

def keepIdle (g : Nat) (s : ToolSeam W) : ToolSeam W :=
  let name := (s.sessions g).sessionId
  let kept := { s with idle := (s.idle.pop name).set name g }
  evictIdle kept.idle.items.length kept

def release (final : Bool) (c : Nat) (s : ToolSeam W) : ToolSeam W :=
  match (s.calls c).audit with
  | none => s
  | some g =>
    if (s.calls c).released then s
    else
      let less := (s.updateCall c .release).updateSession g fun a => { a with live := a.live - 1 }
      if 0 < (less.sessions g).live then less
      else if final then
        { less with
          tracked := less.tracked.pop (less.sessions g).sessionId
          idle := less.idle.pop (less.sessions g).sessionId }
      else less.keepIdle g

/-! ## The end of a call -/

/-- The attempts a call waits for: by request id, in its round, and those not sent. -/
def awaited (c : Nat) (s : ToolSeam W) : List Nat :=
  (s.pending.values.filter fun a => (s.attempts a).call == c) ++
    (((s.calls c).round.elim [] fun r => r.awaiting.values) ++ (s.calls c).bufferedAwaiting.values)

/-- `_end_call`, with `final=True`. -/
def endCall (c : Nat) (s : ToolSeam W) : ToolSeam W :=
  let call := s.calls c
  let mine := (s.pending.items.filter fun p => (s.attempts p.2).call == c).map Prod.fst
  ({ s.updateCall c .drop with
    inFlight := s.inFlight.pop call.originalId
    waiting := s.waiting.pop call.originalId
    pending := s.pending.popAll mine
    rounds := call.round.elim s.rounds fun r => s.rounds.pop r.token
    attempts := settleAll (unanswered (s.awaited c)) s.attempts }).release true c

/-- The loop of `_keep_waiting`, for so many turns at most. -/
def evictWaiting : Nat → ToolSeam W → ToolSeam W
  | 0, s => s
  | turns + 1, s =>
    if s.waiting.items.length ≤ MAX_IDLE then s
    else match s.waiting.items with
      | (_, evicted) :: _ => evictWaiting turns (s.endCall evicted)
      | [] => s

def keepWaiting (frame : Frame) (c : Nat) (s : ToolSeam W) : ToolSeam W :=
  let id := (s.calls c).originalId
  let kept := { s.updateCall c (·.park frame) with waiting := (s.waiting.pop id).set id c }
  evictWaiting kept.waiting.items.length kept

/-- `_schedule_round`. -/
def scheduleRound (c : Nat) (s : ToolSeam W) : ToolSeam W := s.updateCall c .schedule

/-- `_conclude_waiting`, with the outcomes the final frame carries. -/
def concludeWaiting (outcomes : List Emission) (c : Nat) (s : ToolSeam W) : ToolSeam W :=
  { s.updateCall c (·.conclude outcomes) with
    waiting := s.waiting.pop (s.calls c).originalId }

/-- The `_meta` member of a round or a final result (`:1067`, `:1413`). -/
def resultMeta (session : Str) (events : List Emission) : Json :=
  .obj [(SESSION_ID, .str session), (EVENTS, .arr (events.map fun e => .obj e.event))]

def finalFrame (frame : Frame) (c : Nat) (s : ToolSeam W) : ToolSeam W × Option Frame :=
  match (s.calls c).currentId with
  | none => (s, none)
  | some id =>
    let outcomes := (s.calls c).buffered.filter fun e => !isAttempt e.event
    let settled := s.settle (unanswered (s.calls c).bufferedAwaiting.values)
    match frame with
    | .error _ code message =>
      if outcomes.isEmpty then
        ((settled.updateCall c (·.keepOnly [])).concludeWaiting [] c, some (.error (some id) code message))
      else (((settled.updateCall c (·.keepOnly outcomes)).keepWaiting frame c).scheduleRound c, none)
    | .response _ result =>
      let carried := if outcomes.isEmpty then result
        else Dict.assign META (.obj (Dict.assign EXTENSION_ID (resultMeta (s.sessionIdOf c) outcomes) (metaOf result))) result
      ((settled.updateCall c (·.keepOnly [])).concludeWaiting outcomes c, some (.response id carried))
    | _ => (s, none)

/-- `_finish`. -/
def finish (frame : Frame) (c : Nat) (s : ToolSeam W) : ToolSeam W × Option Frame :=
  let continues := !concludes frame
  let left := s.release (!continues) c
  if !(s.calls c).modern then (left.updateCall c .close, some frame)
  else match (s.calls c).round with
    | some r => ((left.settle (unanswered r.awaiting.values)).keepWaiting frame c, none)
    | none => left.finalFrame frame c

/-- A frame answers the request of this id. -/
def answerId : Frame → Option RequestId
  | .response id _ => some id
  | .error id _ _ => id
  | _ => none

/-- The handshake's result declares the tool's capability (`:1300-1305`). -/
def declaring (capability : AuditCapability) (result : Members) : Members :=
  match get result CAPABILITIES with
  | none => Dict.assign CAPABILITIES (.obj (declareInto [] capability.toWire)) result
  | some (.obj capabilities) => Dict.assign CAPABILITIES (.obj (declareInto capabilities capability.toWire)) result
  | some _ => result

/-- `_outbound`. -/
def outbound (C : SeamConfig) (frame : Frame) (s : ToolSeam W) : ToolSeam W × Option Frame :=
  match frame with
  | .response id result =>
    if s.handshakeId = some id then (s, some (.response id (declaring C.declares result)))
    else answer id
  | .error (some id) _ _ => answer id
  | _ => (s, some frame)
where
  answer (id : RequestId) : ToolSeam W × Option Frame :=
    if (s.cancelled.get id).isSome then ({ s with cancelled := s.cancelled.pop id }, none)
    else match s.inFlight.get id with
      | some c => finish frame c { s.updateCall c .finish with inFlight := s.inFlight.pop id }
      | none => (s, some frame)

/-! ## What comes in -/

/-- The token a request presents: a `requestState` under the reserved prefix. -/
def presents (params : Members) : Option Str :=
  match get params REQUEST_STATE with
  | some (.str state) => if ROUND_TOKEN_PREFIX.isPrefixOf state then some state else none
  | _ => none

/-- What a retry says of the round's attempts, where it names the call's session (`:1082-1097`). -/
def responsesTo (s : ToolSeam W) (params : Members) (c : Nat) : List (Str × AttemptResponse W) :=
  match auditMetaOf params, (s.calls c).audit with
  | some m, some g => if m.sessionId == (s.sessions g).sessionId then m.responses else []
  | _, _ => []

def acceptRetry (id : RequestId) (params : Members) (c : Nat) (r : OpenRound) (s : ToolSeam W) : ToolSeam W :=
  let responses := s.responsesTo params c
  (s.settle (r.awaiting.items.map fun e => (e.2, (responses.lookup e.1).getD .unavailable))).updateCall c (·.resumeOn id)

/-- `_deliver_final`. -/
def deliverFinal (frame : Frame) (c : Nat) (s : ToolSeam W) : ToolSeam W :=
  match s.finalFrame frame c with
  | (s, some sent) => s.sendFrame sent
  | (s, none) => s

/-- A request that presents a token: the retry of its round, or refused. -/
def retry (id : RequestId) (params : Members) (token : Str) (s : ToolSeam W) : ToolSeam W :=
  match s.rounds.get token with
  | none => sendFrame (.error (some id) INVALID_PARAMS NO_OPEN_ROUND_MESSAGE)
      { s with refused := s.refused ++ [(token, s.inbox.length)] }
  | some (c, r) =>
    let accepted := { s with
      rounds := s.rounds.pop token
      resumed := s.resumed ++ [(token, s.inbox.length)] }.acceptRetry id params c r
    match (accepted.calls c).final with
    | some frame => accepted.deliverFinal frame c
    | none => accepted

/-- The audit session a request names, tracked and no longer idle. -/
def findSession (declared : Option AuditCapability) (name : Str) (s : ToolSeam W) : ToolSeam W :=
  let found := match s.tracked.get name with
    | some _ => s
    | none => { s with
        sessions := Function.update s.sessions s.sessionCount ⟨name, declared, 0⟩
        sessionCount := s.sessionCount + 1
        tracked := s.tracked.set name s.sessionCount }
  { found with idle := found.idle.pop name }

/-- It has one request in flight more. -/
def joinSession (declared : Option AuditCapability) (name : Str) (s : ToolSeam W) : ToolSeam W :=
  let found := s.findSession declared name
  match found.tracked.get name with
  | some g => found.updateSession g fun a => { a with live := a.live + 1 }
  | none => found

/-- What the host declared for a call that opens. -/
def declaredBy (C : SeamConfig) (s : ToolSeam W) (params : Members) : Option AuditCapability :=
  if isModern C.modernVersions params then capabilityOf (get (metaOf params) CLIENT_CAPABILITIES_META_KEY)
  else s.handshakeCapability

/-- The audit session a request names. -/
def sessionNamed (W : World) (params : Members) : Option Str :=
  (auditMetaOf params : Option (AuditRequestMeta W)).map (·.sessionId)

def enrol (call : ToolCall) (s : ToolSeam W) : ToolSeam W :=
  { s with
    calls := Function.update s.calls s.callCount call
    callCount := s.callCount + 1
    inFlight := s.inFlight.set call.originalId s.callCount }

/-- The opening of a call. -/
def openCall (C : SeamConfig) (id : RequestId) (params : Members) (ownSessionId : Str) (s : ToolSeam W) : ToolSeam W :=
  let named := sessionNamed W params
  let declared := s.declaredBy C params
  let joined := named.elim s fun name => s.joinSession declared name
  let audit := named.bind joined.tracked.get
  joined.enrol {
    originalId := id
    modern := isModern C.modernVersions params
    hostCapability := audit.elim declared fun g => (joined.sessions g).hostCapability
    audit
    ownSessionId
    taskAugmented := match get params TASK with
      | some (.obj _) => true
      | _ => false
    currentId := some id
    ids := [id]
    declared }

/-- `_take_call`. -/
def takeCall (C : SeamConfig) (id : RequestId) (method : Str) (params : Option Members) (ownSessionId : Str) (s : ToolSeam W) :
    ToolSeam W × Option Frame :=
  match presents (params.getD []) with
  | some token => (s.retry id (params.getD []) token, none)
  | none => (s.openCall C id (params.getD []) ownSessionId, some (.request id method params))

def readHandshake (id : RequestId) (method : Str) (params : Option Members) (s : ToolSeam W) : ToolSeam W :=
  let capabilities := if method == DISCOVER_METHOD then get (metaOf (params.getD [])) CLIENT_CAPABILITIES_META_KEY
    else get (params.getD []) CAPABILITIES
  { s with
    handshakeId := some id
    handshakeSeen := true
    handshakeCapability := capabilityOf capabilities }

/-- The call in flight or waiting that was served under this id. -/
def callNamed (s : ToolSeam W) (id : RequestId) : Option Nat :=
  (s.inFlight.values ++ s.waiting.values).find? fun c => (s.calls c).ids.contains id

/-- `_cancel`. -/
def cancel (params : Option Members) (s : ToolSeam W) : ToolSeam W × Option Frame :=
  let target := (get (params.getD []) REQUEST_ID).bind RequestId.ofJson
  match target.bind s.callNamed with
  | none => (s, some (.notification CANCELLED_METHOD params))
  | some c =>
    let original := (s.calls c).originalId
    let dropped := (s.endCall c).updateCall c (·.cancel s.out.length)
    if (s.calls c).finished then (dropped, none)
    else
      ({ dropped with cancelled := dropped.cancelled.set original c },
        some (.notification CANCELLED_METHOD (if target == some original then params
          else some (Dict.assign REQUEST_ID original.toJson (params.getD [])))))

/-- The answer to an attempt this seam asked for (`:1121-1132`). -/
def answerAttempt (id : RequestId) (frame : Frame) (s : ToolSeam W) : ToolSeam W × Option Frame :=
  if id.isSeams then
    match s.pending.get id with
    | none => (s, none)
    | some a => ({ s with pending := s.pending.pop id }.settle [(a, decision frame)], none)
  else (s, some frame)

/-- `_inbound`. -/
def inbound (C : SeamConfig) (frame : Frame) (ownSessionId : Str) (s : ToolSeam W) : ToolSeam W × Option Frame :=
  match frame with
  | .request id method params =>
    if HANDSHAKE_METHODS.contains method then (s.readHandshake id method params, some frame)
    else if method == TOOLS_CALL_METHOD then s.takeCall C id method params ownSessionId
    else (s, some frame)
  | .response id _ => s.answerAttempt id frame
  | .error (some id) _ _ => s.answerAttempt id frame
  | .error none _ _ => (s, some frame)
  | .notification method params => if method == CANCELLED_METHOD then s.cancel params else (s, some frame)

/-! ## What the handlers and the tasks do -/

/-- `McpAuditCall.negotiate`: whether the call is audit-negotiated. -/
def negotiate (C : SeamConfig) (offered : AuditCapability) (c : Nat) (s : ToolSeam W) : Option (ToolSeam W) :=
  if offered == C.declares && ((s.calls c).modern || s.handshakeSeen) then some (s.updateCall c (·.negotiate offered))
  else none

/-- `str(event.get('id'))`: the events a session makes have a text there. -/
def idText (W : World) (event : Event) : Str :=
  match getNull event ID with
  | .str s => s
  | v => W.repr v

/-- `_send_attempt`, to its wait. -/
def sendAttempt (event : Event) (c : Nat) (s : ToolSeam W) : ToolSeam W :=
  let a := s.attemptCount
  let made (requestId : Option RequestId) : PendingAttempt W := { call := c, event, requestId, since := s.inbox.length }
  if (s.calls c).isOver then
    { s with
      attempts := Function.update s.attempts a { made none with returned := some .unavailable, returnedAt := s.inbox.length }
      attemptCount := a + 1 }
  else if (s.calls c).modern then
    { s with
      attempts := Function.update s.attempts a (made none)
      attemptCount := a + 1 }.updateCall c (·.ask event (idText W event) a)
  else
    let id := newId s.nextId
    { s with
      attempts := Function.update s.attempts a (made (some id))
      attemptCount := a + 1
      nextId := s.nextId + 1
      pending := s.pending.set id a }.sendFrame (.request id ATTEMPT_METHOD (some event))

/-- `_send_attempt`, from its wait on: an answer came, or the bound passed. -/
def resume (a : Nat) (s : ToolSeam W) : ToolSeam W :=
  let attempt := s.attempts a
  let response := attempt.response.getD .unavailable
  let pending := if attempt.response.isSome then s.pending else attempt.requestId.elim s.pending s.pending.pop
  { s with
    attempts := Function.update s.attempts a ((attempt.settle .unavailable).done response s.inbox.length)
    pending }.updateCall attempt.call (·.answered response (idText W attempt.event))

/-- `_send_attempt`, where its request could not be sent. -/
def sendFails (a : Nat) (id : RequestId) (s : ToolSeam W) : ToolSeam W :=
  { s with
    pending := s.pending.pop id
    attempts := Function.update s.attempts a ((s.attempts a).done .unavailable s.inbox.length)
    queue := s.queue.filter fun q => q != ⟨.request id ATTEMPT_METHOD (some (s.attempts a).event), false⟩
    identities := s.identities + 1 }

/-- `_send_outcome`. -/
def sendOutcome (event : Event) (c : Nat) (s : ToolSeam W) : ToolSeam W :=
  let left := s.updateCall c (·.concluded (idText W event))
  if (s.calls c).isOver then left
  else if (s.calls c).modern then left.updateCall c (·.emit event none)
  else left.sendFrame (.notification OUTCOME_METHOD (some event))

/-- `amcp.<instance>.<secret>`. -/
def roundToken (C : SeamConfig) (secret : Str) : Str := ROUND_TOKEN_PREFIX ++ C.instanceName ++ lit "." ++ secret

/-- `_end_round`, from its checkpoint on. -/
def endRound (token : Str) (c : Nat) (s : ToolSeam W) : ToolSeam W :=
  let begun := s.updateCall c .beginRound
  let call := s.calls c
  match call.currentId with
  | none => begun
  | some id =>
    if call.ended || call.round.isSome || call.buffered.isEmpty then begun
    else
      sendFrame
        (.response id [(RESULT_TYPE, .str INPUT_REQUIRED), (REQUEST_STATE, .str token),
          (META, .obj [(EXTENSION_ID, resultMeta (s.sessionIdOf c) call.buffered)])])
        { begun.updateCall c (·.sendRound token) with
          rounds := s.rounds.set token (c, ⟨token, call.bufferedAwaiting⟩)
          issued := s.issued ++ [⟨token, c, call.bufferedAwaiting, s.inbox.length, call.buffered⟩] }

/-- The calls in flight whose own id a round answered, and those cancelled. -/
def answeredBefore (s : ToolSeam W) : List RequestId :=
  (s.inFlight.items.filter fun e => (s.calls e.2).currentId != some e.1).map Prod.fst ++ s.cancelled.items.map Prod.fst

/-- `_on_close`. -/
def close (s : ToolSeam W) : ToolSeam W :=
  let settled := { s.settle (unanswered s.pending.values) with pending := .empty }
  let ended := (s.inFlight.values ++ s.waiting.values).foldl (fun s c => s.endCall c) settled
  let owners := ended.rounds.values.map Prod.fst
  { ended.settle (unanswered (ended.rounds.values.flatMap fun r => r.2.awaiting.values)) with
    calls := fun c => if owners.contains c then (ended.calls c).close else ended.calls c
    rounds := .empty
    tracked := .empty
    idle := .empty
    cancelled := .empty
    forgotten := s.forgotten ++ s.answeredBefore }

/-! ## Runs -/

/-- What happens between two awaits. -/
inductive Act
  | inbound (frame : Frame) (ownSessionId : Str)
  | negotiate (c : Nat) (offered : AuditCapability)
  | attempt (c : Nat) (event : Event)
  | resume (a : Nat)
  | sendFails (a : Nat)
  | outcome (c : Nat) (event : Event)
  | endRound (c : Nat) (secret : Str)
  /-- The session writes a frame, which may have the identity of a message of the seam's that is gone. -/
  | write (frame : Frame) (stale : Bool)
  /-- A sender that waits gives up. -/
  | withdraw (place : Nat)
  | pump
  /-- The bound after a cancellation has passed. -/
  | forget (id : RequestId)
  | close

/-- The pump passes one frame on. -/
def pump (C : SeamConfig) (s : ToolSeam W) : Option (ToolSeam W) :=
  match s.queue with
  | [] => none
  | q :: rest =>
    if q.hooked then
      let (after, sent) := { s with queue := rest }.outbound C q.frame
      some { after with out := after.out ++ sent.toList }
    else some { s with queue := rest, out := s.out ++ [q.frame] }

/-- One act, where it can happen. A token is drawn once. -/
def step (C : SeamConfig) (s : ToolSeam W) : Act → Option (ToolSeam W)
  | .inbound frame ownSessionId =>
    let (after, forward) := s.inbound C frame ownSessionId
    some { after with
      inbox := after.inbox ++ [frame]
      toSession := after.toSession ++ forward.toList }
  | .negotiate c offered => if c < s.callCount then s.negotiate C offered c else none
  | .attempt c event => if c < s.callCount && (s.calls c).negotiated then some (s.sendAttempt event c) else none
  | .resume a => if a < s.attemptCount && (s.attempts a).returned.isNone then some (s.resume a) else none
  | .sendFails a =>
    if a < s.attemptCount && (s.attempts a).returned.isNone then (s.attempts a).requestId.map (s.sendFails a) else none
  | .outcome c event => if c < s.callCount && (s.calls c).negotiated then some (s.sendOutcome event c) else none
  | .endRound c secret =>
    if c < s.callCount && (s.calls c).roundScheduled && !s.issued.any (·.token == roundToken C secret) then
      some (s.endRound (roundToken C secret) c)
    else none
  | .write frame stale =>
    let made := { s with written := s.written ++ (answerId frame).toList }
    if !stale then some { made with queue := s.queue ++ [⟨frame, true⟩] }
    else if 0 < s.identities then some { made with queue := s.queue ++ [⟨frame, false⟩], identities := s.identities - 1 }
    else none
  | .withdraw place => match s.queue[place]? with
    | none => none
    | some q => some { s with
        queue := s.queue.eraseIdx place
        identities := if q.hooked then s.identities else s.identities + 1 }
  | .pump => s.pump C
  | .forget id => some { s with
      cancelled := s.cancelled.pop id
      forgotten := if (s.cancelled.get id).isSome then s.forgotten ++ [id] else s.forgotten }
  | .close => some s.close

/-- The connection stays open. -/
def Act.stays : Act → Bool
  | .close => false
  | _ => true

/-- One act, of those a run is about. -/
def StepIf (C : SeamConfig) (q : ToolSeam W → Act → Bool) (s s' : ToolSeam W) : Prop :=
  ∃ a, q s a = true ∧ s.step C a = some s'

/-- A run from the start, all of whose acts are such. -/
def Run (C : SeamConfig) (q : ToolSeam W → Act → Bool) (s : ToolSeam W) : Prop :=
  Relation.ReflTransGen (StepIf C q) start s

/-- The acts in turn, where they are such. -/
def steps (C : SeamConfig) (q : ToolSeam W → Act → Bool) (s : ToolSeam W) : List Act → Option (ToolSeam W)
  | [] => some s
  | a :: as => if q s a then (s.step C a).bind fun s => steps C q s as else none

theorem run_of_steps {C : SeamConfig} {q : ToolSeam W → Act → Bool} {acts : List Act} {s : ToolSeam W}
    (h : start.steps C q acts = some s) : Run C q s := by
  have hrun : ∀ (acts : List Act) (before : ToolSeam W), before.steps C q acts = some s →
      Relation.ReflTransGen (StepIf C q) before s := by
    intro acts
    induction acts with
    | nil =>
      intro before hbefore
      obtain rfl := Option.some.inj hbefore
      exact .refl
    | cons a acts ih =>
      intro before hbefore
      obtain ⟨ha, hbefore⟩ := Option.ite_none_right_eq_some.1 hbefore
      obtain ⟨mid, hmid, hafter⟩ := Option.bind_eq_some_iff.1 hbefore
      exact .head ⟨a, ha, hmid⟩ (ih mid hafter)
  exact hrun acts start h

end ToolSeam

/-! ## A call to run -/

def sampleSeam : SeamConfig where
  declares := ⟨SPEC_VERSION, .l1, .none⟩
  instanceName := lit "tool"
  modernVersions := [lit "draft"]

/-- What the host declares and the session it issued, of a request of a call. -/
def sampleMeta (responses : Members) : Json :=
  .obj [(PROTOCOL_VERSION_META_KEY, .str (lit "draft")),
    (CLIENT_CAPABILITIES_META_KEY, .obj [(EXTENSIONS_MEMBER, .obj [(EXTENSION_ID, .obj sampleSeam.declares.toWire)])]),
    (EXTENSION_ID, .obj [(SESSION_ID, .str SAMPLE_SESSION), (RESPONSES, .obj responses)])]

def sampleOpening (id : Int) : ToolSeam.Act :=
  .inbound (.request (.int id) TOOLS_CALL_METHOD (some [(META, sampleMeta [])])) (lit "own-session")

/-- The retry of the sample call's round, with the host's answer to its attempt. -/
def sampleRetry (id : Int) (secret : Str) (responses : Members) : ToolSeam.Act :=
  .inbound (.request (.int id) TOOLS_CALL_METHOD
    (some [(REQUEST_STATE, .str (ToolSeam.roundToken sampleSeam secret)), (META, sampleMeta responses)])) []

end AuditableMcp
