import AuditableMcp.Host
import AuditableMcp.Lib.Dict
import AuditableMcp.Lib.Jcs
/-!
# `mcp/seam.py`: JSON-RPC messages and what they carry for the audit (`:87-109`, `:343-375`, `:1537-1554`)

| here | there |
| --- | --- |
| `RequestId`, `RequestId.ofJson` | `RequestId`; `_key`, which tells `1` from `"1"` |
| `Frame`                         | `JSONRPCMessage` |
| `metaOf`, `isModern`, `concludes`, `isAttemptItem` | `_meta_of`, `_is_modern`, `_concludes`, `_is_attempt` |
| `withoutAudit`                  | `_without_audit` |
| `eventsOf`                      | `_events_of` |
-/
namespace AuditableMcp

open JsonValue

/-! ## The messages -/

/-- A JSON-RPC id. -/
inductive RequestId
  | int (i : Int)
  | str (s : Str)
deriving DecidableEq, Repr

instance RequestId.lawfulBEq : LawfulBEq RequestId := inferInstance

/-- The id a JSON value is, if it is one. -/
def RequestId.ofJson : Json → Option RequestId
  | .int i => some (.int i)
  | .str s => some (.str s)
  | _ => none

def RequestId.toJson : RequestId → Json
  | .int i => .int i
  | .str s => .str s

@[simp] theorem RequestId.ofJson_toJson (id : RequestId) : RequestId.ofJson id.toJson = some id := by
  cases id <;> rfl

/-- The ids a seam mints are strings under this prefix. -/
def ID_PREFIX : Str := lit "amcp-"

/-- `_new_id`, after `n` ids. -/
def newId (n : Nat) : RequestId := .str (ID_PREFIX ++ natText (n + 1))

/-- An id of the space the seams mint in. -/
def RequestId.isSeams : RequestId → Bool
  | .int _ => false
  | .str s => ID_PREFIX.isPrefixOf s

@[simp] theorem newId_isSeams (n : Nat) : (newId n).isSeams = true :=
  List.isPrefixOf_iff_prefix.2 (List.prefix_append _ _)

theorem newId_inj {m n : Nat} (h : newId m = newId n) : m = n := by
  have htext : natText (m + 1) = natText (n + 1) := List.append_cancel_left (RequestId.str.inj h)
  exact Nat.succ.inj (natText_inj' htext)

/-- A JSON-RPC message. An error may answer no request it could read. -/
inductive Frame
  | request (id : RequestId) (method : Str) (params : Option Members)
  | notification (method : Str) (params : Option Members)
  | response (id : RequestId) (result : Members)
  | error (id : Option RequestId) (code : Int) (message : Str)
deriving DecidableEq

def ATTEMPT_METHOD : Str := lit "audit/attempt"
def OUTCOME_METHOD : Str := lit "audit/outcome"
def TOOLS_CALL_METHOD : Str := lit "tools/call"
def CANCELLED_METHOD : Str := lit "notifications/cancelled"
def INITIALIZE_METHOD : Str := lit "initialize"
def DISCOVER_METHOD : Str := lit "server/discover"
def HANDSHAKE_METHODS : List Str := [INITIALIZE_METHOD, DISCOVER_METHOD]

def RESULT_TYPE : Str := lit "resultType"
def INPUT_REQUIRED : Str := lit "input_required"
def INPUT_REQUESTS : Str := lit "inputRequests"
def REQUEST_STATE : Str := lit "requestState"
def META : Str := lit "_meta"
def REQUEST_ID : Str := lit "requestId"
def TASK : Str := lit "task"
def CAPABILITIES : Str := lit "capabilities"
def EXTENSIONS_MEMBER : Str := lit "extensions"
def EXTENSION_ID : Str := lit "com.timberlandchapel/auditable-mcp"
def PROTOCOL_VERSION_META_KEY : Str := lit "io.modelcontextprotocol/protocolVersion"
def CLIENT_CAPABILITIES_META_KEY : Str := lit "io.modelcontextprotocol/clientCapabilities"
def RESPONSES : Str := lit "responses"
def EVENTS : Str := lit "events"

def INVALID_REQUEST : Int := -32600
def INVALID_PARAMS : Int := -32602
def INTERNAL_ERROR : Int := -32603

/-! ## What they carry -/

/-- `_meta_of`. -/
def metaOf (ms : Members) : Members :=
  match get ms META with
  | some (.obj m) => m
  | _ => []

/-- `_is_modern`, under the protocol versions the MCP package calls modern. -/
def isModern (MODERN_PROTOCOL_VERSIONS : List Str) (params : Members) : Bool :=
  match get (metaOf params) PROTOCOL_VERSION_META_KEY with
  | some (.str v) => MODERN_PROTOCOL_VERSIONS.contains v
  | _ => false

/-- `_concludes`: an error, or a result that is not an input round. -/
def concludes : Frame → Bool
  | .response _ result => !hasText result RESULT_TYPE INPUT_REQUIRED
  | _ => true

/-- `_is_attempt`, of an item of any shape. -/
def isAttemptItem : Json → Bool
  | .obj e => isAttempt e
  | _ => false

/-- The `id` an item is answered under. -/
def itemId : Json → Option Str
  | .obj e => match get e ID with
    | some (.str s) => some s
    | _ => none
  | _ => none

/-- `params.setdefault(META, {})[EXTENSION_ID] = carried`. -/
def carrying (carried : Members) (params : Members) : Members :=
  Dict.assign META (.obj (Dict.assign EXTENSION_ID (.obj carried) (metaOf params))) params

/-- Whether the `_meta` of a result carries this extension's member. -/
def carriesAudit (result : Members) : Bool := (get (metaOf result) EXTENSION_ID).isSome

/-- `_without_audit`. -/
def withoutAudit (result : Members) : Members :=
  if carriesAudit result then
    let rest := Dict.without EXTENSION_ID (metaOf result)
    if rest.isEmpty then Dict.without META result else Dict.assign META (.obj rest) result
  else result

/-- `_events_of`: every item, an invalid one included. -/
def eventsOf (result : Members) : List Json :=
  match get (metaOf result) EXTENSION_ID with
  | some (.obj carried) => match get carried EVENTS with
    | some (.arr events) => events
    | _ => []
  | _ => []

theorem get_assign (ms : Members) (k j : Str) (v : Json) :
    get (Dict.assign k v ms) j = if j == k then some v else get ms j := Dict.lookup_assign k j v ms

theorem get_without (ms : Members) (k j : Str) :
    get (Dict.without k ms) j = if j == k then none else get ms j := Dict.lookup_without k j ms

/-- The host's caller sees none of the audit. -/
@[simp] theorem withoutAudit_carries (result : Members) : carriesAudit (withoutAudit result) = false := by
  unfold withoutAudit
  split
  · dsimp only
    split
    · have hmeta : metaOf (Dict.without META result) = [] := by simp [metaOf, get_without]
      simp [carriesAudit, hmeta, get_nil]
    · have hmeta : metaOf (Dict.assign META (.obj (Dict.without EXTENSION_ID (metaOf result))) result) =
          Dict.without EXTENSION_ID (metaOf result) := by simp [metaOf, get_assign]
      simp [carriesAudit, hmeta, get_without]
  · next h => exact Bool.eq_false_iff.2 h

/-- What the result carries besides is as it was. -/
theorem get_withoutAudit {result : Members} {k : Str} (hk : k ≠ META) :
    get (withoutAudit result) k = get result k := by
  unfold withoutAudit
  split
  · dsimp only
    split
    · simp [get_without, hk]
    · simp [get_assign, hk]
  · rfl

end AuditableMcp
