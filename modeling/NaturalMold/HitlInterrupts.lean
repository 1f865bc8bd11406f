import NaturalMold.JavaScriptObjects

/-!
# Interrupts and the messages they stand in

A card stands for a call that waits for a person.
-/

namespace NaturalMold.HitlInterrupts

abbrev Args := List (String × JsValue)

structure ActionRequest where
  name : String
  args : Args

/-- `isAuthRequired` is `native === 'auth_required'`. -/
structure StandardInterruptPayload where
  interruptId : String
  isAuthRequired : Bool := false
  actionRequests : List ActionRequest

structure ToolCall where
  id : Option String
  name : String
  args : Args

structure AIMessage where
  id : Option String
  content : JsValue
  toolCalls : Option (List ToolCall)

namespace AIMessage

/-- `message.tool_calls ?? []`. -/
def calls (message : AIMessage) : List ToolCall :=
  message.toolCalls.getD []

def withToolCalls (message : AIMessage) (toolCalls : List ToolCall) : AIMessage :=
  { message with toolCalls := some toolCalls }

end AIMessage

inductive BaseMessage
  | ai (message : AIMessage)
  | tool (id : Option String) (content : JsValue) (toolCallId : Option String)
  | other (id : Option String) (content : JsValue)

namespace BaseMessage

def isAI : BaseMessage → Bool
  | ai _ => true
  | tool .. | other .. => false

def isTool : BaseMessage → Bool
  | tool .. => true
  | ai _ | other .. => false

def toolCallId? : BaseMessage → Option String
  | tool _ _ toolCallId => toolCallId
  | ai _ | other .. => none

end BaseMessage

structure ResolvedInterruptToolCall where
  toolCall : ToolCall
  action : Option ActionRequest

mutual

def stableStringify : JsValue → String
  | .null => "null"
  | .bool value => if value then "true" else "false"
  | .number text => text
  | .string value => JsValue.quoted value
  | .array items => "[" ++ String.intercalate "," (stringifyItems items) ++ "]"
  | .object fields =>
      "\x7b" ++ String.intercalate "," ((JsValue.sortEntries (stringifyFields fields)).map
        fun field => JsValue.quoted field.1 ++ ":" ++ field.2) ++ "\x7d"

def stringifyItems : List JsValue → List String
  | [] => []
  | item :: items => stableStringify item :: stringifyItems items

def stringifyFields : List (String × JsValue) → List (String × String)
  | [] => []
  | (name, value) :: fields => (name, stableStringify value) :: stringifyFields fields

end

def sameArgs (left right : Args) : Bool :=
  stableStringify (.object left) = stableStringify (.object right)

def interruptedActionKey (name : String) (args : Args) : String :=
  name ++ " " ++ stableStringify (.object args)

def attemptOf (args : Args) : Option String :=
  match args.lookup "attempt" with
  | some (.number text) => some text
  | _ => none

def authRequiredAttempt (payload : StandardInterruptPayload) : Option String :=
  if payload.isAuthRequired then
    payload.actionRequests.head?.bind fun action => attemptOf action.args
  else none

def identityOf (interruptId : String) : Option String → String
  | none => interruptId
  | some attempt => interruptId ++ "#" ++ attempt

def interruptIdentity (payload : StandardInterruptPayload) : String :=
  identityOf payload.interruptId (authRequiredAttempt payload)

def resolvedIdentity (name : String) (args : Args) : String :=
  identityOf
    (match args.lookup "hitl_interrupt_id" with
      | none | some .null => ""
      | some value => value.toText)
    (if name = "moldy_auth_required" then attemptOf args else none)

def resolvedInterruptId (item : ResolvedInterruptToolCall) : String :=
  resolvedIdentity item.toolCall.name item.toolCall.args

def completedToolCallIds (messages : List BaseMessage) : List String :=
  messages.filterMap BaseMessage.toolCallId?

def answers (completedIds : List String) (action : ActionRequest) (call : ToolCall) : Bool :=
  (call.id.any fun id => completedIds.contains id) && call.name = action.name &&
    sameArgs call.args action.args

def actionHasCompletedToolResult (action : ActionRequest) (messages : List BaseMessage)
    (completedIds : List String) : Bool :=
  messages.any fun message =>
    match message with
    | .ai message => message.calls.any (answers completedIds action)
    | .tool .. | .other .. => false

def interruptPayloadResolvedByMessages (messages : List BaseMessage)
    (payload : StandardInterruptPayload) : Bool :=
  let completedIds := completedToolCallIds messages
  if completedIds.isEmpty then false
  else
    payload.actionRequests.all fun action =>
      actionHasCompletedToolResult action messages completedIds

def activeInterruptPayloads (payloads : List StandardInterruptPayload)
    (messages : List BaseMessage) (resolved : List ResolvedInterruptToolCall) :
    List StandardInterruptPayload :=
  let resolvedIds :=
    (payloads.filter (interruptPayloadResolvedByMessages messages)).map interruptIdentity ++
      resolved.map resolvedInterruptId
  payloads.filter fun payload => !resolvedIds.contains (interruptIdentity payload)

def resolvedKey (item : ResolvedInterruptToolCall) : Option String :=
  match item.action with
  | some action =>
      if action.name = "ask_user" then fromToolCall
      else some (interruptedActionKey action.name action.args)
  | none => fromToolCall
where
  fromToolCall : Option String :=
    if item.toolCall.name = "request_approval" then
      match item.toolCall.args.lookup "tool_name", item.toolCall.args.lookup "tool_args" with
      | some (.string toolName), some (.object toolArgs) =>
          some (interruptedActionKey toolName toolArgs)
      | _, _ => none
    else none

def interruptedRawToolCallKeys (payloads : List StandardInterruptPayload)
    (resolved : List ResolvedInterruptToolCall) : List String :=
  ((payloads.flatMap StandardInterruptPayload.actionRequests).filterMap fun action =>
      if action.name = "ask_user" then none
      else some (interruptedActionKey action.name action.args)) ++
    resolved.filterMap resolvedKey

def blockHasText : JsValue → Bool
  | .string value => JsValue.hasText value
  | .object fields =>
      match fields.lookup "type" with
      | some (.string type) => type ≠ "tool_use" && type ≠ "tool_call"
      | _ => true
  | .null | .bool _ | .number _ | .array _ => false

def messageHasText (content : JsValue) : Bool :=
  match content with
  | .string value => JsValue.hasText value
  | .array blocks => blocks.any blockHasText
  | .null | .bool _ | .number _ | .object _ => false

def stripMessages (keys : List String) : List String → List BaseMessage → List BaseMessage
  | _, [] => []
  | hiddenIds, .ai message :: messages =>
      let hides (call : ToolCall) := keys.contains (interruptedActionKey call.name call.args)
      let kept := message.calls.filter fun call => !hides call
      let hidden := hiddenIds ++ (message.calls.filter hides).filterMap ToolCall.id
      if kept.length ≠ message.calls.length then
        if kept.isEmpty && !messageHasText message.content then
          stripMessages keys hidden messages
        else .ai (message.withToolCalls kept) :: stripMessages keys hidden messages
      else .ai message :: stripMessages keys hidden messages
  | hiddenIds, .tool id content toolCallId :: messages =>
      if toolCallId.any fun toolCallId => hiddenIds.contains toolCallId then
        stripMessages keys hiddenIds messages
      else .tool id content toolCallId :: stripMessages keys hiddenIds messages
  | hiddenIds, .other id content :: messages =>
      .other id content :: stripMessages keys hiddenIds messages

def stripInterruptedRawToolCalls (messages : List BaseMessage)
    (payloads : List StandardInterruptPayload) (resolved : List ResolvedInterruptToolCall) :
    List BaseMessage :=
  let keys := interruptedRawToolCallKeys payloads resolved
  if keys.isEmpty then messages else stripMessages keys [] messages

end NaturalMold.HitlInterrupts
