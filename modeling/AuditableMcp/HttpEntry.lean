import AuditableMcp.Lib.Runs
import AuditableMcp.ToolSeam
/-!
# `mcp/http.py`: the calls a Streamable HTTP endpoint holds, `AuditedStreamableHTTP`

One run of the entry interleaves the POSTs it serves, each a task of its own, the tools' servers behind their
connections, and the watchers that close what is idle. `Act` names what each does between two awaits; a POST that is
served takes more of them than it has awaits, so more orders are told apart here than the code has.

| here | there |
| --- | --- |
| `Post`, `servedHere`      | a POST's body and headers; `_handle_post`, `_claims` and the checks of `_serve` |
| `Waiter`, `CallConnection` | `_Waiter`, `_CallConnection` |
| `Serving`                 | the task that serves a POST: `_serve_retry`, `_serve_opening`, `_input_schema`, `_exchange` |
| `serveRetry`, `serveOpening`, `makeRoom` | `_serve_retry`, to its first await; `_serve_opening`; `_open` |
| `proceed`, `answered`, `timeout`, `disconnect`, `abort` | the rest of a serving, to its next await, and its ends |
| `enter`, `leave`, `restore`, `close` | `_enter`, `_leave`, `restore`, `_close` |
| `noteRound`, `readTool`, `expire` | `_note_round`, `_read_tool`, `_expire` |
| `opener`, `closing`, `log`, `issued`, `lost` | what happened, which no code reads |

The official handler's own checks of a POST are its `admitted`; the seam behind a connection is where it is (`Act.seam`),
and whether a write finds the tool's side reading is the act's `accepts`.
-/
namespace AuditableMcp

open JsonValue

def TOOLS_LIST_METHOD : Str := lit "tools/list"
def NAME : Str := lit "name"
def ARGUMENTS : Str := lit "arguments"
def TOOLS : Str := lit "tools"
def INPUT_SCHEMA : Str := lit "inputSchema"
def NEXT_CURSOR : Str := lit "nextCursor"
def CURSOR : Str := lit "cursor"
def CONNECTION_CLOSED_MESSAGE : Str := lit "the audited call ended before it answered this request"
def METHOD_NOT_FOUND : Int := -32601
def TOOLS_LIST_PAGE_CAP : Nat := 100

namespace ToolSeam

variable {W : World} (s : ToolSeam W)

/-- A call on this connection is at work. -/
def running : Bool :=
  s.inFlight.values.any fun c =>
    !(s.calls c).ended && !(s.calls c).finished && ((s.calls c).round.isNone || !(s.calls c).acceptedOpen.isEmpty)

/-- A call on this connection holds outcomes or a final answer that its host has not received. -/
def undelivered : Bool :=
  (s.inFlight.values.any fun c => !(s.calls c).ended && !(s.calls c).buffered.isEmpty) ||
    s.waiting.values.any fun c => !(s.calls c).ended

end ToolSeam

def Frame.withId (id : RequestId) : Frame → Frame
  | .request _ method params => .request id method params
  | .response _ result => .response id result
  | .error _ code message => .error (some id) code message
  | .notification method params => .notification method params

/-! ## A POST -/

/-- A JSON-RPC request that was posted. -/
structure Post where
  id : RequestId
  method : Str
  params : Option Members
  /-- The `Auditable-Mcp-Session` header. -/
  affinity : Option Str
  principal : Option Str
  /-- The `Mcp-Param-*` headers. -/
  paramHeaders : List (Str × Str)
  /-- What the official classification read, as a `tools/list` of this entry's own carries it. -/
  envelope : Members
  /-- It is a request of the 2026-07-28 envelope, and passes every check of the official handler's. -/
  admitted : Bool
deriving DecidableEq

/-- `_body_session`. -/
def bodySession (params : Option Members) : Option Str :=
  match get (metaOf (params.getD [])) EXTENSION_ID with
  | some (.obj m) => match get m SESSION_ID with
    | some (.str s) => some s
    | _ => none
  | _ => none

/-- A `requestState` under the reserved prefix. -/
def reserved : Json → Option Str
  | .str s => if ROUND_TOKEN_PREFIX.isPrefixOf s then some s else none
  | _ => none

namespace Post

variable (p : Post)

def requestState : Option Json := (get (p.params.getD []) REQUEST_STATE).filter (· != .null)

/-- `_claims`. -/
def claimed : Bool :=
  p.method == TOOLS_CALL_METHOD && ((p.requestState.bind reserved).isSome || (bodySession p.params).isSome)

/-- The POST is served by this entry, and by no check refused. -/
def servedHere : Bool := p.affinity == bodySession p.params && p.claimed && p.admitted

/-- The tool and the arguments whose headers are checked (`:1336-1343`). -/
def checked : Option (Str × Members) :=
  match get (p.params.getD []) NAME with
  | some (.str name) => match get (p.params.getD []) ARGUMENTS with
    | some (.obj arguments) => if arguments.isEmpty && p.paramHeaders.isEmpty then none else some (name, arguments)
    | none | some .null => if p.paramHeaders.isEmpty then none else some (name, [])
    | some _ => none
  | _ => none

def request : Frame := .request p.id p.method p.params

/-- The request, with the `requestState` the tool's own round had (`:966-969`). -/
def requestWith (own : Json) : Frame := .request p.id p.method (some (Dict.assign REQUEST_STATE own (p.params.getD [])))

/-- A page of the tools' listing. -/
def listing (page : Nat) (cursor : Option Str) : Frame :=
  .request (.int page) TOOLS_LIST_METHOD
    (some ((META, .obj p.envelope) :: (cursor.map fun c => (CURSOR, Json.str c)).toList))

end Post

/-! ## The state of the entry -/

structure HttpConfig where
  seam : SeamConfig
  maxHeldCalls : Nat
  held_pos : 0 < maxHeldCalls
  /-- `validate_mcp_param_headers` rejects. -/
  paramMismatch : Json → Members → List (Str × Str) → Bool

structure Waiter where
  requestId : RequestId
  answer : Option Frame
deriving DecidableEq

/-- The first answer stands. -/
def Waiter.put (frame : Frame) (w : Waiter) : Waiter :=
  match w.answer with
  | none => { w with answer := some (frame.withId w.requestId) }
  | some _ => w

inductive Why
  | room
  | idle
  | ended
deriving DecidableEq

/-- Why a connection was closed, and where it stood. -/
structure Closing where
  why : Why
  running : Bool
  undelivered : Bool
deriving DecidableEq

structure CallConnection (W : World) where
  sessionId : Str
  principal : Option Str
  /-- The serving that opened it. -/
  opener : Nat
  waiters : Dict Int Waiter := .empty
  tokens : List Str := []
  ownRounds : Dict Str Json := .empty
  seam : Option (ToolSeam W) := none
  schema : Option (Option Json) := none
  inFlight : Int := 0
  nextId : Nat := 0
  closing : Option Closing := none

namespace CallConnection

variable {W : World} (call : CallConnection W)

def closed : Bool := call.closing.isSome

def running : Bool := call.inFlight != 0 || call.seam.any (·.running)

def undelivered : Bool := call.seam.any (·.undelivered)

def evictable : Bool := !call.running && !call.undelivered

/-- A round of this token is out, whose retry is given this `requestState`. -/
def hold (token : Str) (own : Option Json) : CallConnection W :=
  { call with
    tokens := call.tokens.insert token
    ownRounds := own.elim call.ownRounds (call.ownRounds.set token) }

/-- A retry presents this token. -/
def consume (token : Str) : CallConnection W :=
  { call with tokens := call.tokens.filter (· != token), ownRounds := call.ownRounds.pop token }

def enter (requestId : RequestId) : CallConnection W :=
  { call with
    nextId := call.nextId + 1
    waiters := call.waiters.set (call.nextId + 1 : Nat) ⟨requestId, none⟩
    inFlight := call.inFlight + 1 }

def leave (id : Int) : CallConnection W :=
  match call.waiters.get id with
  | some _ => { call with waiters := call.waiters.pop id, inFlight := call.inFlight - 1 }
  | none => call

def answer (id : Int) (frame : Frame) : CallConnection W :=
  match call.waiters.get id with
  | some w => { call with waiters := call.waiters.set id (w.put frame) }
  | none => call

/-- Every request is answered with an error. -/
def answerAll (frame : Frame) : CallConnection W :=
  call.waiters.items.foldl (fun call e => call.answer e.1 frame) call

def shut (why : Why) : CallConnection W :=
  let shut : CallConnection W := { call with
    tokens := []
    closing := some ⟨why, call.running, call.undelivered⟩ }
  shut.answerAll (.error none INTERNAL_ERROR CONNECTION_CLOSED_MESSAGE)

def schemaRead (schema : Option Json) : CallConnection W := { call with schema := some schema }

def seamMoves (seam : ToolSeam W) : CallConnection W := { call with seam := some seam }

end CallConnection

/-- What a POST asks for: a call to open, or a round to resume, with the `requestState` its retry is given back. -/
inductive Purpose
  | opening
  | retry (token : Str) (own : Option Json)
deriving DecidableEq

/-- Where a serving stands: what it is about to do, or waits for. -/
inductive Stage
  | checking (page : Nat) (cursor : Option Str) (seen : List Str)
  | listing (waiter : Int) (page : Nat) (seen : List Str)
  | judging
  | responding (waiter : Int)
  | done
deriving DecidableEq

structure Serving where
  post : Post
  connection : Nat
  purpose : Purpose
  stage : Stage
deriving DecidableEq

/-- The retry is taken in, and its frame is not written. -/
def Stage.undecided : Stage → Bool
  | .checking .. | .listing .. | .judging => true
  | .responding _ | .done => false

/-- What was written into a connection, and for which serving. -/
inductive Origin
  | opening (k : Nat)
  | retry (k : Nat) (token : Str)
  | listing (k : Nat)
  | cancellation (k : Nat)
  | refusal
deriving DecidableEq

structure Letter where
  connection : Nat
  origin : Origin
  frame : Frame
deriving DecidableEq

/-- A token that went out, and the tool's own `requestState` where it took its place. -/
structure Issue where
  token : Str
  connection : Nat
  own : Option Json
deriving DecidableEq

structure HttpEntry (W : World) where
  connections : Nat → CallConnection W
  connectionCount : Nat
  servings : Nat → Serving
  servingCount : Nat
  /-- Held calls by session, least recently used first. -/
  sessions : Dict Str Nat
  tokens : Dict Str Nat
  isRunning : Bool
  log : List Letter
  issued : List Issue
  /-- The tokens of retries whose serving was cut off before their frame was written, the connection open. -/
  lost : List Str

namespace HttpEntry

variable {W : World}

def noConnection : CallConnection W where
  sessionId := []
  principal := none
  opener := 0
  closing := some ⟨.ended, false, false⟩

def noPost : Post := ⟨.int 0, [], none, none, none, [], [], false⟩

def start : HttpEntry W where
  connections := fun _ => noConnection
  connectionCount := 0
  servings := fun _ => ⟨noPost, 0, .opening, .done⟩
  servingCount := 0
  sessions := .empty
  tokens := .empty
  isRunning := true
  log := []
  issued := []
  lost := []

def updateConnection (c : Nat) (f : CallConnection W → CallConnection W) (s : HttpEntry W) : HttpEntry W :=
  { s with connections := Function.update s.connections c (f (s.connections c)) }

def setStage (k : Nat) (stage : Stage) (s : HttpEntry W) : HttpEntry W :=
  { s with servings := Function.update s.servings k { s.servings k with stage } }

/-- `_use`. -/
def use (c : Nat) (s : HttpEntry W) : HttpEntry W :=
  let name := (s.connections c).sessionId
  if s.sessions.get name = some c then { s with sessions := (s.sessions.pop name).set name c } else s

def close (why : Why) (c : Nat) (s : HttpEntry W) : HttpEntry W :=
  let call := s.connections c
  if call.closed then s
  else { s.updateConnection c (·.shut why) with
    sessions := if s.sessions.get call.sessionId = some c then s.sessions.pop call.sessionId else s.sessions
    tokens := s.tokens.popAll call.tokens }

def leave (c : Nat) (id : Int) (s : HttpEntry W) : HttpEntry W := s.updateConnection c (·.leave id)

/-- `_enter`, with the id its waiter waits under. -/
def enter (c : Nat) (frame : Frame) (requestId : RequestId) (origin : Origin) (accepts : Bool) (s : HttpEntry W) :
    HttpEntry W × Option Int :=
  if (s.connections c).closed then (s, none)
  else
    let id : Int := ((s.connections c).nextId + 1 : Nat)
    let entered := (s.updateConnection c (·.enter requestId)).use c
    if accepts then ({ entered with log := entered.log ++ [⟨c, origin, frame.withId (.int id)⟩] }, some id)
    else (entered.leave c id, none)

/-- A token is in the index and its connection's. -/
def index (token : Str) (c : Nat) (own : Option Json) (s : HttpEntry W) : HttpEntry W :=
  { s.updateConnection c (·.hold token own) with tokens := s.tokens.set token c }

/-- `restore`. -/
def restore (token : Str) (c : Nat) (own : Option Json) (s : HttpEntry W) : HttpEntry W :=
  if (s.connections c).closed then s else s.index token c own

/-- The token a frame of the tool's goes out under, where it is a round. -/
def roundOf (C : HttpConfig) (frame : Frame) (secret : Str) : Option (Str × Option Json) :=
  match frame with
  | .response _ result =>
    if !hasText result RESULT_TYPE INPUT_REQUIRED then none
    else ((get result REQUEST_STATE).filter (· != .null)).map fun state => match reserved state with
      | some token => (token, none)
      | none => (ToolSeam.roundToken C.seam secret, some state)
  | _ => none

/-- `_note_round`. -/
def noteRound (C : HttpConfig) (c : Nat) (frame : Frame) (secret : Str) (s : HttpEntry W) : HttpEntry W × Frame :=
  if (s.connections c).closed then (s, frame)
  else match roundOf C frame secret with
    | none => (s, frame)
    | some (token, own) =>
      ({ s.index token c own with issued := s.issued ++ [⟨token, c, own⟩] }, match frame, own with
        | .response id result, some _ => .response id (Dict.assign REQUEST_STATE (.str token) result)
        | _, _ => frame)

/-- The waiter of an answer, by the connection's own ids. -/
def waiterOf : Frame → Option Int
  | .response (.int id) _ => some id
  | .error (some (.int id)) _ _ => some id
  | _ => none

/-- `_read_tool`, of one frame. -/
def readTool (C : HttpConfig) (c : Nat) (frame : Frame) (secret : Str) (accepts : Bool) (s : HttpEntry W) : HttpEntry W :=
  match frame with
  | .notification .. => s
  | .request id _ _ =>
    if (s.connections c).closed || !accepts then s
    else { s with log := s.log ++ [⟨c, .refusal, .error (some id) METHOD_NOT_FOUND []⟩] }
  | _ =>
    let (noted, sent) := s.noteRound C c frame secret
    match waiterOf frame with
    | some id => noted.updateConnection c (·.answer id sent)
    | none => noted

/-- `_open`, to the connection it makes. -/
def makeRoom (C : HttpConfig) (s : HttpEntry W) : Option (HttpEntry W) :=
  if s.sessions.items.length < C.maxHeldCalls then some s
  else (s.sessions.values.find? fun c => (s.connections c).evictable).map fun c => s.close .room c

/-- A serving starts. -/
def serve (x : Serving) (s : HttpEntry W) : HttpEntry W :=
  { s with servings := Function.update s.servings s.servingCount x, servingCount := s.servingCount + 1 }

/-- Its POST is answered, by the official handler or with a refusal. -/
def refuse (p : Post) (s : HttpEntry W) : HttpEntry W := s.serve ⟨p, 0, .opening, .done⟩

/-- What is checked first, on this connection. -/
def firstStage (p : Post) (call : CallConnection W) : Stage :=
  if p.checked.isSome && call.schema.isNone then .checking 0 none [] else .judging

def serveRetry (p : Post) (token : Str) (s : HttpEntry W) : HttpEntry W :=
  match s.tokens.get token with
  | none => s.refuse p
  | some c =>
    let call := s.connections c
    if (call.ownRounds.get token).isSome && bodySession p.params != some call.sessionId then s.refuse p
    else if p.principal != call.principal then s.refuse p
    else serve ⟨p, c, .retry token (call.ownRounds.get token), firstStage p call⟩
      { s.updateConnection c (·.consume token) with tokens := s.tokens.pop token }

def serveOpening (C : HttpConfig) (p : Post) (name : Str) (s : HttpEntry W) : HttpEntry W :=
  if (s.sessions.get name).isSome || !s.isRunning then s.refuse p
  else match s.makeRoom C with
    | none => s.refuse p
    | some s =>
      let call : CallConnection W := { sessionId := name, principal := p.principal, opener := s.servingCount }
      serve ⟨p, s.connectionCount, .opening, firstStage p call⟩
        { s with
          connections := Function.update s.connections s.connectionCount call
          connectionCount := s.connectionCount + 1
          sessions := s.sessions.set name s.connectionCount }

/-- `_serve`. -/
def post (C : HttpConfig) (p : Post) (s : HttpEntry W) : HttpEntry W :=
  if !p.servedHere then s.refuse p
  else match p.requestState with
    | some state => match reserved state with
      | some token => s.serveRetry p token
      | none => s.refuse p
    | none => match bodySession p.params with
      | some name => s.serveOpening C p name
      | none => s.refuse p

/-! ## A serving goes on -/

/-- The schema that was found, or that none was. -/
def found (k : Nat) (schema : Option Json) (s : HttpEntry W) : HttpEntry W :=
  (s.updateConnection (s.servings k).connection (·.schemaRead schema)).setStage k .judging

/-- `_param_rejection`, with the schema at hand. -/
def mismatch (C : HttpConfig) (p : Post) (call : CallConnection W) : Bool :=
  match p.checked, call.schema.join with
  | some (_, arguments), some schema => C.paramMismatch schema arguments p.paramHeaders
  | _, _ => false

/-- A serving ends with its request not written (`:961-964`, `:1441-1450`). -/
def turnAway (k : Nat) (s : HttpEntry W) : HttpEntry W :=
  match (s.servings k).purpose with
  | .opening => s.setStage k .done
  | .retry token own => (s.restore token (s.servings k).connection own).setStage k .done

/-- What is written for a serving. -/
def frameFor (x : Serving) : Frame :=
  match x.purpose with
  | .retry _ (some own) => x.post.requestWith own
  | _ => x.post.request

def originFor (k : Nat) (x : Serving) : Origin :=
  match x.purpose with
  | .retry token _ => .retry k token
  | .opening => .opening k

def proceed (C : HttpConfig) (k : Nat) (accepts : Bool) (s : HttpEntry W) : Option (HttpEntry W) :=
  let x := s.servings k
  match x.stage with
  | .checking page cursor seen =>
    let (entered, waiter) := s.enter x.connection (x.post.listing page cursor) (.int page) (.listing k) accepts
    match waiter with
    | some id => some (entered.setStage k (.listing id page seen))
    | none => some (entered.found k none)
  | .judging =>
    if mismatch C x.post (s.connections x.connection) then
      match x.purpose with
      | .opening => some ((s.close .ended x.connection).turnAway k)
      | .retry .. => some (s.turnAway k)
    else
      let (entered, waiter) := s.enter x.connection (frameFor x) x.post.id (originFor k x) accepts
      match waiter with
      | some id => some (entered.setStage k (.responding id))
      | none => some (entered.turnAway k)
  | _ => none

/-- The tools a listing names, unless going through them raises (`:1380-1384`). -/
def toolsOf (result : Members) : Option (List Json) :=
  match get result TOOLS with
  | some (.arr tools) => some tools
  | some (.bool true) => none
  | some (.int n) => if n = 0 then some [] else none
  | some (.float f) => if f = .fin 0 then some [] else none
  | _ => some []

/-- A tool of a listing is the one called. -/
def isNamed (name : Option Str) : Json → Bool
  | .obj tool => name.any (hasText tool NAME)
  | _ => false

/-- A page of the listing has come (`:1375-1394`). -/
def readPage (k : Nat) (page : Nat) (seen : List Str) (answer : Frame) (s : HttpEntry W) : Option (HttpEntry W) :=
  match answer with
  | .response _ result => (toolsOf result).map fun tools =>
    match tools.find? (isNamed ((s.servings k).post.checked.map Prod.fst)) with
    | some (.obj tool) => s.found k ((get tool INPUT_SCHEMA).filter (· != .null))
    | _ => match get result NEXT_CURSOR with
      | some (.str cursor) =>
        if seen.contains cursor || TOOLS_LIST_PAGE_CAP ≤ page + 1 then s.found k none
        else s.setStage k (.checking (page + 1) (some cursor) (cursor :: seen))
      | _ => s.found k none
  | _ => some (s.found k none)

/-- What a serving waits for has come. -/
def answered (k : Nat) (s : HttpEntry W) : Option (HttpEntry W) :=
  let x := s.servings k
  match x.stage with
  | .listing id page seen =>
    (((s.connections x.connection).waiters.get id).bind Waiter.answer).bind fun answer =>
      (s.leave x.connection id).readPage k page seen answer
  | .responding id =>
    (((s.connections x.connection).waiters.get id).bind Waiter.answer).map fun answer =>
      let left := (s.leave x.connection id).setStage k .done
      if concludes answer then left.close .ended x.connection else left
  | _ => none

/-- The bound on a listing has passed. -/
def timeout (k : Nat) (s : HttpEntry W) : Option (HttpEntry W) :=
  let x := s.servings k
  match x.stage with
  | .listing id _ _ => some ((s.leave x.connection id).found k none)
  | _ => none

/-- The client closed the request: `_cancel`. -/
def disconnect (k : Nat) (accepts : Bool) (s : HttpEntry W) : Option (HttpEntry W) :=
  let x := s.servings k
  match x.stage with
  | .responding id =>
    let cancellation : Frame := .notification CANCELLED_METHOD
      (some [(REQUEST_ID, .int id), (REASON, .str (lit "response stream closed"))])
    let told := if (s.connections x.connection).closed || !accepts then s
      else { s with log := s.log ++ [⟨x.connection, .cancellation k, cancellation⟩] }
    some (((told.close .ended x.connection).leave x.connection id).setStage k .done)
  | _ => none

/-- The token that is lost when a serving is cut off. -/
def lostWith (x : Serving) (call : CallConnection W) : Option Str :=
  match x.purpose with
  | .retry token _ => if x.stage.undecided && !call.closed then some token else none
  | .opening => none

/-- An exception or a cancellation ends the serving where it stands. -/
def abort (k : Nat) (s : HttpEntry W) : Option (HttpEntry W) :=
  let x := s.servings k
  let ended : HttpEntry W := { s with lost := s.lost ++ (lostWith x (s.connections x.connection)).toList }
  match x.stage with
  | .listing id _ _ | .responding id => some ((ended.leave x.connection id).setStage k .done)
  | .checking .. | .judging => some (ended.setStage k .done)
  | .done => none

/-! ## Runs -/

/-- What happens between two awaits. -/
inductive Act (W : World)
  | post (p : Post)
  | proceed (k : Nat) (accepts : Bool)
  | answered (k : Nat)
  | timeout (k : Nat)
  | disconnect (k : Nat) (accepts : Bool)
  | abort (k : Nat)
  | tool (c : Nat) (frame : Frame) (secret : Str) (accepts : Bool)
  | seam (c : Nat) (seam : ToolSeam W)
  | expire (c : Nat)
  /-- The task of a connection ends, or fails. -/
  | ends (c : Nat)
  /-- The entry's lifespan ends. -/
  | shutdown

/-- One act, where it can happen. -/
def step (C : HttpConfig) (s : HttpEntry W) : Act W → Option (HttpEntry W)
  | .post p => some (s.post C p)
  | .proceed k accepts => s.proceed C k accepts
  | .answered k => s.answered k
  | .timeout k => s.timeout k
  | .disconnect k accepts => s.disconnect k accepts
  | .abort k => s.abort k
  | .tool c frame secret accepts => if c < s.connectionCount then some (s.readTool C c frame secret accepts) else none
  | .seam c seam => if c < s.connectionCount then some (s.updateConnection c (·.seamMoves seam)) else none
  | .expire c => if (s.connections c).closed || (s.connections c).running then none else some (s.close .idle c)
  | .ends c => if c < s.connectionCount then some (s.close .ended c) else none
  | .shutdown => some (s.sessions.values.foldl (fun s c => s.close .ended c) { s with isRunning := false })

/-- A round goes out under a token that no round went out under before. -/
def fresh (C : HttpConfig) (s : HttpEntry W) : Act W → Bool
  | .tool _ frame secret _ => (roundOf C frame secret).all fun r => !s.issued.any (·.token == r.1)
  | _ => true

end HttpEntry

end AuditableMcp
