import Mathlib.Logic.Function.Basic
import AuditableMcp.Frames
/-!
# `mcp/seam.py`: the host's side, `McpAuditReceiver` (`:1464-2287`)

One run of the receiver interleaves the tasks of its connection: the two pumps, one worker for each session's lane,
and for each round in progress a task that works through its events. `Act` names what each does between two awaits.

| here | there |
| --- | --- |
| `Job`, `Lane`, `HostCall`, `RoundWork` | the jobs `_dispatch` is given, `_Lane`, `_HostCall`, `_RoundWork` |
| `Progress`              | where the job a lane has taken up stands |
| `Receiver`              | the seam's tables, and what it sent to the tool and delivered to its session |
| `outbound`, `inbound`   | `_outbound` with `_declare` and `_cancel`; `_inbound` |
| `takeUp`                | `_run_lane` takes the next job: `_follow`, `_conclude`, `_seal_all`, `_close` to their first await |
| `takeItem`, `decided`   | `_work_through`, `_seal_all` and the loop of `_conclude`; the endpoint's answer to an attempt |
| `cutOff`                | `_work_until` returns, at its deadline or before, and `_follow` or `_abandon` goes on |
| `hold`, `evictBeyond`, `evict`, `detach` | `_hold`, its loop, `_evict`, `_detach` |
| `received`, `handed`    | what arrived for a call and what was given to `endpoint.handle_outcome`, which no code reads |

A call is a reference into `heap`, as it is an object there. The round's task that is past its deadline only waits
for the item it has taken up, so the model drops it. The headers of a request, the counts `_owed` and the closing of
the connection are left out.
-/
namespace AuditableMcp

open JsonValue

def MAX_ROUNDS_PER_CALL : Nat := 256
def MAX_IDLE_SESSIONS : Nat := 1024
def RETRY_NOT_SENT_MESSAGE : Str := lit "the retry of an audit round could not be sent (§6.4)"

/-- `unavailable().to_wire()`. -/
def unavailableWire : Json := .obj [(lit "status", .str (lit "unavailable")), (lit "reason", .str (lit "internal-error"))]

/-- The items that are no attempts. -/
def outcomesOf (events : List Json) : List Json := events.filter (!isAttemptItem ·)

/-- The items a tool's answer carries. -/
def frameEvents : Frame → List Json
  | .response _ result => eventsOf result
  | _ => []

/-- `declare_into`. -/
def declareInto (capabilities capability : Members) : Members :=
  let extensions := match get capabilities EXTENSIONS_MEMBER with
    | some (.obj ms) => ms
    | _ => []
  Dict.assign EXTENSIONS_MEMBER (.obj (Dict.assign EXTENSION_ID (.obj capability) extensions)) capabilities

/-- `_declare`. -/
def declare (capability : Members) (method : Str) (params : Members) : Members :=
  if method == INITIALIZE_METHOD then
    match get params CAPABILITIES with
    | none => Dict.assign CAPABILITIES (.obj (declareInto [] capability)) params
    | some (.obj capabilities) => Dict.assign CAPABILITIES (.obj (declareInto capabilities capability)) params
    | _ => params
  else match get (metaOf params) CLIENT_CAPABILITIES_META_KEY with
    | some (.obj capabilities) =>
      Dict.assign META (.obj (Dict.assign CLIENT_CAPABILITIES_META_KEY (.obj (declareInto capabilities capability)) (metaOf params)))
        params
    | _ => params

/-! ## The state -/

/-- A job of a lane; the last two are the events of section 6.5. -/
inductive Job
  | follow (frame : Frame)
  | conclude (frame : Frame)
  | sealAll (events : List Json)
  | close
  | answerAttempt (id : RequestId)
  | sealOutcome (params : Option Members)
deriving DecidableEq

/-- A round's events as they are worked through. -/
structure RoundWork where
  events : List Json
  decide : Bool
  /-- `events[next:]`. -/
  todo : List Json
  /-- The attempt the endpoint has in hand. -/
  deciding : Option Json
  responses : Members
deriving DecidableEq

def RoundWork.start (events : List Json) (decide : Bool) : RoundWork := ⟨events, decide, events, none, []⟩

/-- One item of a round is taken up, and handed to `endpoint.handle_outcome` unless it is an attempt. -/
def RoundWork.takeItem (work : RoundWork) : Option (RoundWork × List Json) :=
  match work.deciding, work.todo with
  | none, event :: todo =>
    if !isAttemptItem event then some ({ work with todo }, [event])
    else if work.decide then some ({ work with todo, deciding := some event }, [])
    else some ({ work with todo }, [])
  | _, _ => none

/-- The answers the retry of a round carries, one to each attempt that has an id. -/
def RoundWork.answers (work : RoundWork) : Members :=
  work.events.foldl (fun responses event =>
    match if isAttemptItem event then itemId event else none with
    | some id => Dict.assign id ((get work.responses id).getD unavailableWire) responses
    | none => responses) []

/-- Where the job a lane has taken up stands: the await it is in. -/
inductive Progress
  | following (result : Members) (state : Str) (work : RoundWork)
  | abandoning (message : Str) (work : RoundWork)
  | sealing (events : List Json) (closes : Bool)
  | delivering (frame : Frame)
  | retrying (frame : Frame)
  | closing
  | answering (id : RequestId)
  | handing (params : Option Members)
deriving DecidableEq

/-- A session's work. `taken` is every job that was taken up, the one in progress last. -/
structure Lane where
  queue : List Job
  running : Option Progress
  taken : List Job
  closed : Bool
deriving DecidableEq

structure HostCall where
  originalId : RequestId
  params : Members
  sessionId : Str
  currentId : RequestId
  clientId : RequestId
  lane : Lane
  rounds : Nat
  held : List Str
  ended : Bool
  received : List Json
  handed : List Json
deriving DecidableEq

def HostCall.new (id : RequestId) (params : Members) (session : Str) : HostCall :=
  ⟨id, params, session, id, id, ⟨[], none, [], false⟩, 0, [], false, [], []⟩

/-- A job joins the call's lane. -/
def HostCall.queueJob (job : Job) (c : HostCall) : HostCall :=
  { c with lane := { c.lane with queue := c.lane.queue ++ [job] } }

/-- The lane takes up its next job. -/
def HostCall.takeJob (job : Job) (rest : List Job) (c : HostCall) : HostCall :=
  { c with lane := { c.lane with queue := rest, taken := c.lane.taken ++ [job] } }

/-- The job in progress is in this await, or done. -/
def HostCall.await (p : Option Progress) (c : HostCall) : HostCall := { c with lane := { c.lane with running := p } }

def HostCall.count (c : HostCall) : HostCall := { c with rounds := c.rounds + 1 }

def HostCall.detached (c : HostCall) : HostCall := { c with ended := true, held := [] }

/-- The call answers on this id from now on. -/
def HostCall.keyed (id : RequestId) (c : HostCall) : HostCall := { c with currentId := id }

/-- `held.add`. -/
def HostCall.hold (state : Str) (c : HostCall) : HostCall := { c with held := c.held.insert state }

/-- `held.discard`. -/
def HostCall.release (state : Str) (c : HostCall) : HostCall := { c with held := c.held.filter (· != state) }

/-- A frame handed to the session, and whether it is under the id of an audited call's request. -/
structure Delivery where
  frame : Frame
  audited : Bool
deriving DecidableEq

structure Receiver where
  capability : Members
  heap : Nat → HostCall
  allocated : Nat
  calls : Dict RequestId Nat
  held : Dict Str (Nat × Members)
  nextId : Nat
  handshakeId : Option RequestId
  handshakeRead : Bool
  /-- Work for no open session, which runs on its own. -/
  onOwn : List Job
  toTool : List Frame
  delivered : List Delivery
  /-- The ids the client used. -/
  clientIds : List RequestId
  /-- The ids an audited call's requests went out under. -/
  auditedIds : List RequestId

namespace Receiver

def new (capability : Members) : Receiver :=
  ⟨capability, fun _ => .new (.int 0) [] [], 0, .empty, .empty, 0, none, false, [], [], [], [], []⟩

def update (r : Nat) (f : HostCall → HostCall) (s : Receiver) : Receiver :=
  { s with heap := Function.update s.heap r (f (s.heap r)) }

theorem update_heap (r k : Nat) (f : HostCall → HostCall) (s : Receiver) :
    (s.update r f).heap k = if k = r then f (s.heap r) else s.heap k := Function.update_apply ..

@[simp] theorem update_heap_self (r : Nat) (f : HostCall → HostCall) (s : Receiver) :
    (s.update r f).heap r = f (s.heap r) := Function.update_self ..

theorem update_heap_ne {r k : Nat} (h : k ≠ r) (f : HostCall → HostCall) (s : Receiver) :
    (s.update r f).heap k = s.heap k := Function.update_of_ne h ..

/-! ## The tables -/

/-- `_dispatch`. -/
def dispatch (lane : Option Nat) (job : Job) (s : Receiver) : Receiver :=
  match lane with
  | some r =>
    if (s.heap r).lane.closed then { s with onOwn := s.onOwn ++ [job] }
    else s.update r (.queueJob job)
  | none => { s with onOwn := s.onOwn ++ [job] }

/-- `_detach`. -/
def detach (r : Nat) (s : Receiver) : Receiver :=
  { s.update r .detached with
    calls := s.calls.pop (s.heap r).currentId
    held := s.held.popAll (s.heap r).held }

/-- `_evict`. -/
def evict (r : Nat) (s : Receiver) : Receiver := (s.detach r).dispatch (some r) .close

/-- The loop of `_hold`, for so many times at most. -/
def evictBeyond : Nat → Receiver → Option Receiver
  | 0, s => if s.held.items.length ≤ MAX_IDLE_SESSIONS then some s else none
  | fuel + 1, s =>
    if s.held.items.length ≤ MAX_IDLE_SESSIONS then some s
    else match s.held.items with
      | (_, r, _) :: _ => evictBeyond fuel (s.evict r)
      | [] => none

/-- `_hold`, up to its loop. -/
def putHeld (r : Nat) (state : Str) (responses : Members) (s : Receiver) : Receiver :=
  let before := match s.held.get state with
    | some (previous, _) =>
      let popped := { s with held := s.held.pop state }
      if previous == r then popped else popped.evict previous
    | none => s
  { before.update r (.hold state) with
    held := before.held.set state (r, responses) }

/-- `_hold`; none where its loop does not end. -/
def hold (r : Nat) (state : Str) (responses : Members) (s : Receiver) : Option Receiver :=
  let put := s.putHeld r state responses
  evictBeyond put.held.items.length put

def rekey (r : Nat) (id : RequestId) (s : Receiver) : Receiver :=
  { s.update r (.keyed id) with
    calls := (s.calls.pop (s.heap r).currentId).set id r
    auditedIds := s.auditedIds ++ [id] }

def deliver (frame : Frame) (s : Receiver) : Receiver :=
  let audited := match frame with
    | .response id _ => s.auditedIds.contains id
    | .error (some id) _ _ => s.auditedIds.contains id
    | _ => false
  { s with delivered := s.delivered ++ [⟨frame, audited⟩] }

/-! ## Frames of the client's session -/

/-- The client's own retry of a held round. -/
def retryHeld (id : RequestId) (params : Members) (state : Str) (r : Nat) (responses : Members) (s : Receiver) :
    Frame × Receiver :=
  let popped := { s.update r (.release state) with held := s.held.pop state }
  let keyed := (popped.rekey r id).update r fun c => { c with clientId := id }
  let carried := [(SESSION_ID, .str (s.heap r).sessionId), (RESPONSES, .obj responses)]
  (.request id TOOLS_CALL_METHOD (some (carrying carried params)), keyed)

/-- A call opens, under the session the endpoint issued. -/
def openCall (id : RequestId) (params : Members) (session : Str) (s : Receiver) : Frame × Receiver :=
  let carried := carrying [(SESSION_ID, .str session)] params
  (.request id TOOLS_CALL_METHOD (some carried),
    { s with
      heap := Function.update s.heap s.allocated (.new id carried session)
      allocated := s.allocated + 1
      calls := s.calls.set id s.allocated
      auditedIds := s.auditedIds ++ [id] })

/-- The held round a request's `requestState` names. -/
def heldRound (s : Receiver) (params : Members) : Option (Str × Nat × Members) :=
  match get params REQUEST_STATE with
  | some (.str state) => (s.held.get state).map (state, ·)
  | _ => none

def isObject : Option Json → Bool
  | some (.obj _) => true
  | _ => false

/-- `_outbound`, of a `tools/call`. -/
def toolsCall (id : RequestId) (params : Members) (session : Str) (s : Receiver) : Frame × Receiver :=
  if (get params META).isSome && !isObject (get params META) then (.request id TOOLS_CALL_METHOD (some params), s)
  else match s.heldRound params with
    | some (state, r, responses) => s.retryHeld id params state r responses
    | none =>
      if isObject (get params TASK) then (.request id TOOLS_CALL_METHOD (some params), s)
      else s.openCall id params session

/-- `_outbound`, of a request. -/
def outboundRequest (id : RequestId) (method : Str) (params : Option Members) (session : Str) (s : Receiver) :
    Frame × Receiver :=
  let noted := if HANDSHAKE_METHODS.contains method && !s.handshakeRead then { s with handshakeId := some id } else s
  match params with
  | none => (.request id method none, noted)
  | some params =>
    let declared := declare s.capability method params
    if method == TOOLS_CALL_METHOD then noted.toolsCall id declared session
    else (.request id method (some declared), noted)

/-- The call a cancellation names, by the id the client awaits. -/
def cancelled (s : Receiver) (params : Members) : Option Nat :=
  ((get params REQUEST_ID).bind RequestId.ofJson).bind fun target =>
    s.calls.values.find? fun r => (s.heap r).clientId == target

/-- `_cancel`. -/
def cancel (params : Members) (s : Receiver) : Frame × Receiver :=
  match s.cancelled params with
  | none => (.notification CANCELLED_METHOD (some params), s)
  | some r =>
    let call := s.heap r
    if call.currentId == call.clientId then (.notification CANCELLED_METHOD (some params), s.evict r)
    else (.notification CANCELLED_METHOD (some (Dict.assign REQUEST_ID call.currentId.toJson params)), s.evict r)

/-- `_outbound`. -/
def outbound (frame : Frame) (session : Str) (s : Receiver) : Frame × Receiver :=
  match frame with
  | .request id method params =>
    ({ s with clientIds := s.clientIds ++ [id] } : Receiver).outboundRequest id method params session
  | .notification method params =>
    if method == CANCELLED_METHOD then s.cancel (params.getD []) else (frame, s)
  | _ => (frame, s)

/-! ## Frames of the tool -/

/-- `_route`: the call an event of section 6.5 arrived on. -/
def route (params : Option Members) (related : Option RequestId) (s : Receiver) : Option Nat :=
  match related.bind s.calls.get with
  | some r => some r
  | none => s.calls.values.find? fun r =>
    (params.bind fun ms => get ms SESSION_ID) == some (.str (s.heap r).sessionId)

/-- The call's answer, for its client. -/
def answerTo (clientId : RequestId) : Frame → Frame
  | .response _ result => .response clientId (withoutAudit result)
  | .error _ code message => .error (some clientId) code message
  | frame => frame

/-- `_inbound`, of an answer to the call: it ends the call, or is a round to follow. -/
def answered (r : Nat) (frame : Frame) (s : Receiver) : Receiver :=
  let received := s.update r fun c => { c with received := c.received ++ outcomesOf (frameEvents frame) }
  if !(s.heap r).ended && concludes frame then
    ((received.detach r).dispatch (some r) (.conclude frame)).deliver (answerTo (s.heap r).clientId frame)
  else received.dispatch (some r) (.follow frame)

/-- `_inbound`, of an answer. -/
def inboundAnswer (id : Option RequestId) (frame : Frame) (s : Receiver) : Receiver :=
  match id.bind s.calls.get with
  | some r => s.answered r frame
  | none => s.deliver frame

/-- `_inbound`. -/
def inbound (frame : Frame) (related : Option RequestId) (s : Receiver) : Receiver :=
  match frame with
  | .request id method params =>
    if method == ATTEMPT_METHOD then s.dispatch (s.route params related) (.answerAttempt id)
    else if method == OUTCOME_METHOD then
      { s with toTool := s.toTool ++ [.error (some id) INVALID_REQUEST (lit "audit/outcome is a notification (§6.5)")] }
    else s.deliver frame
  | .notification method params =>
    if method == OUTCOME_METHOD then s.dispatch (s.route params related) (.sealOutcome params)
    else if method == ATTEMPT_METHOD then s
    else s.deliver frame
  | .response id _ =>
    if s.handshakeId == some id then { s.deliver frame with handshakeId := none, handshakeRead := true }
    else s.inboundAnswer (some id) frame
  | .error id _ _ => s.inboundAnswer id frame

/-! ## The lanes -/

def proceed (r : Nat) (p : Progress) (s : Receiver) : Receiver := s.update r (.await (some p))

def endJob (r : Nat) (s : Receiver) : Receiver := s.update r (.await none)

/-- `_abandon`, up to its wait. -/
def abandon (r : Nat) (events : List Json) (message : Str) (s : Receiver) : Receiver :=
  (s.detach r).proceed r (.abandoning message (.start events false))

/-- `_follow`, up to its wait. -/
def follow (r : Nat) (frame : Frame) (s : Receiver) : Receiver :=
  match (s.heap r).ended, frame with
  | false, .response _ result =>
    let counted := s.update r .count
    if MAX_ROUNDS_PER_CALL < (s.heap r).rounds + 1 then
      counted.abandon r (eventsOf result) (lit "the tool exceeded the limit of 256 audit rounds for one call")
    else match get result REQUEST_STATE with
      | some (.str state) => counted.proceed r (.following result state (.start (eventsOf result) true))
      | _ => counted.abandon r (eventsOf result) (lit "the tool asked for input without a requestState (§6.4)")
  | _, _ => s.endJob r

/-- A round is dropped where its call has ended, and followed or abandoned where it has not. -/
theorem follow_cases (r : Nat) (frame : Frame) (s : Receiver) :
    (s.follow r frame = s.endJob r ∧ ((s.heap r).ended = true ∨ frameEvents frame = [])) ∨
    ((s.heap r).ended = false ∧ ((∃ result state, s.follow r frame =
        (s.update r .count).proceed r (.following result state (.start (frameEvents frame) true))) ∨
      ∃ message, s.follow r frame = (s.update r .count).abandon r (frameEvents frame) message)) := by
  unfold follow
  cases hended : (s.heap r).ended with
  | true => exact .inl ⟨rfl, .inl rfl⟩
  | false =>
    cases frame with
    | response id result =>
      refine .inr ⟨rfl, ?_⟩
      dsimp only
      split
      · exact .inr ⟨_, rfl⟩
      · split
        · exact .inl ⟨result, _, rfl⟩
        · exact .inr ⟨_, rfl⟩
    | _ => exact .inl ⟨rfl, .inr rfl⟩

/-- A lane's worker takes up its next job. -/
def takeUp (r : Nat) (s : Receiver) : Option Receiver :=
  let lane := (s.heap r).lane
  match lane.running, lane.queue with
  | none, job :: rest =>
    let taken := s.update r (.takeJob job rest)
    match job with
    | .follow frame => some (taken.follow r frame)
    | .conclude frame => some (taken.proceed r (.sealing (frameEvents frame) true))
    | .sealAll events => some (taken.proceed r (.sealing events false))
    | .close => some (taken.proceed r .closing)
    | .answerAttempt id => some (taken.proceed r (.answering id))
    | .sealOutcome params => some (taken.proceed r (.handing params))
  | _, _ => none

/-- One item of what the job in progress has is taken up. -/
def takeItem (r : Nat) (s : Receiver) : Option Receiver :=
  let hand (events : List Json) (p : Progress) : Receiver :=
    (s.proceed r p).update r fun c => { c with handed := c.handed ++ events }
  match (s.heap r).lane.running with
  | some (.following result state work) =>
    work.takeItem.map fun (work, events) => hand events (.following result state work)
  | some (.abandoning message work) => work.takeItem.map fun (work, events) => hand events (.abandoning message work)
  | some (.sealing (event :: events) closes) => some (hand [event] (.sealing events closes))
  | _ => none

/-- The endpoint's answer to the attempt it has in hand. -/
def decided (r : Nat) (answer : Members) (s : Receiver) : Option Receiver :=
  match (s.heap r).lane.running with
  | some (.following result state work) => work.deciding.map fun event =>
    let responses := match itemId event with
      | some id => Dict.assign id (.obj answer) work.responses
      | none => work.responses
    s.proceed r (.following result state { work with deciding := none, responses })
  | some (.answering id) =>
    some (({ s with toTool := s.toTool ++ [.response id answer] } : Receiver).endJob r)
  | _ => none

/-- The round's items that are not taken up, and are no attempts, are a job of their own. -/
def queueLeftover (r : Nat) (leftover : List Json) (s : Receiver) : Receiver :=
  if leftover.isEmpty then s else s.dispatch (some r) (.sealAll leftover)

/-- `_follow`, from the retry it makes to the send of it. -/
def retry (r : Nat) (state : Str) (responses : Members) (s : Receiver) : Receiver :=
  let call := s.heap r
  let keyed : Receiver := { s.rekey r (newId s.nextId) with nextId := s.nextId + 1 }
  let carried := [(SESSION_ID, .str call.sessionId), (RESPONSES, .obj responses)]
  keyed.proceed r (.retrying (.request (newId s.nextId) TOOLS_CALL_METHOD
    (some (carrying carried (Dict.assign REQUEST_STATE (.str state) call.params)))))

/-- `_work_until` returns: the rest of `_follow` and of `_abandon`, to their next await. -/
def cutOff (r : Nat) (s : Receiver) : Option Receiver :=
  let call := s.heap r
  match call.lane.running with
  | some (.following result state work) =>
    let leftover := outcomesOf work.todo
    if call.ended then some (s.proceed r (.sealing leftover false))
    else
      let queued := s.queueLeftover r leftover
      if truthy (get result INPUT_REQUESTS) then
        (queued.hold r state work.answers).map (·.proceed r (.delivering (.response call.clientId (withoutAudit result))))
      else some (queued.retry r state work.answers)
  | some (.abandoning message work) =>
    some (((s.queueLeftover r (outcomesOf work.todo)).dispatch (some r) .close).proceed r
      (.delivering (.error (some call.clientId) INTERNAL_ERROR message)))
  | _ => none

/-- The send of a retry raises. -/
def unsent (r : Nat) (s : Receiver) : Option Receiver :=
  let call := s.heap r
  match call.lane.running with
  | some (.retrying _) =>
    if call.ended then some (s.endJob r)
    else some ((s.evict r).proceed r (.delivering (.error (some call.clientId) INTERNAL_ERROR RETRY_NOT_SENT_MESSAGE)))
  | _ => none

/-- The last await of the job in progress returns. -/
def finish (r : Nat) (s : Receiver) : Option Receiver :=
  match (s.heap r).lane.running with
  | some (.sealing [] false) => some (s.endJob r)
  | some (.sealing [] true) => some (s.proceed r .closing)
  | some (.delivering frame) => some ((s.deliver frame).endJob r)
  | some (.retrying frame) => some (({ s with toTool := s.toTool ++ [frame] } : Receiver).endJob r)
  | some .closing => some ((s.update r fun c => { c with lane := { c.lane with closed := true } }).endJob r)
  | some (.handing _) => some (s.endJob r)
  | _ => none

/-! ## Runs -/

/-- What happens between two awaits. -/
inductive Act
  | outbound (frame : Frame) (session : Str)
  | inbound (frame : Frame) (related : Option RequestId)
  | takeUp (r : Nat)
  | takeItem (r : Nat)
  | decided (r : Nat) (answer : Members)
  | cutOff (r : Nat)
  | unsent (r : Nat)
  | finish (r : Nat)

/-- A client's request has an id of its own, outside the seam's space. -/
def newToClient (s : Receiver) : Frame → Bool
  | .request id _ _ => !id.isSeams && !s.clientIds.contains id
  | _ => true

def step (s : Receiver) : Act → Option Receiver
  | .outbound frame session =>
    if s.newToClient frame then
      let (sent, after) := s.outbound frame session
      some { after with toTool := after.toTool ++ [sent] }
    else none
  | .inbound frame related => some (s.inbound frame related)
  | .takeUp r => s.takeUp r
  | .takeItem r => s.takeItem r
  | .decided r answer => s.decided r answer
  | .cutOff r => s.cutOff r
  | .unsent r => s.unsent r
  | .finish r => s.finish r

def Step (s s' : Receiver) : Prop := ∃ a, s.step a = some s'

/-- The acts in turn. -/
def steps (s : Receiver) : List Act → Option Receiver
  | [] => some s
  | a :: as => (s.step a).bind (steps · as)

end Receiver

end AuditableMcp
