import NaturalMold.SensitiveDisplay

/-!
# Showing an interrupt among the tool calls

A standard interrupt asks about several actions.
-/

namespace NaturalMold.InterruptToolCalls

open SensitiveDisplay (redactSensitiveRecord)

structure ToolCallInfo where
  id : Option String
  name : String
  args : JsObject

inductive DecisionType
  | approve
  | edit
  | reject
  | respond
  deriving DecidableEq

def DecisionType.text : DecisionType → String
  | approve => "approve"
  | edit => "edit"
  | reject => "reject"
  | respond => "respond"

structure ActionRequest where
  name : String
  args : JsObject
  description : Option String

structure ReviewConfig where
  actionName : String
  allowedDecisions : List DecisionType
  sessionConsentEligible : Bool := false

inductive Native
  | authRequired
  deriving DecidableEq

structure StandardInterruptPayload where
  interruptId : String
  actionRequests : List ActionRequest
  reviewConfigs : List ReviewConfig
  native : Option Native := none

def authRequiredAction : String :=
  "moldy_auth_required"

def hitlMetadataKeys : List String :=
  ["approval_id", "allowed_decisions", "hitl_interrupt_id", "hitl_action_index",
    "hitl_total_actions", "session_consent_eligible"]

def reviewForAction (action : ActionRequest) (reviewConfigs : List ReviewConfig) (index : ℕ) :
    ReviewConfig :=
  let own := reviewConfigs.find? fun config => config.actionName = action.name
  (reviewConfigs[index]?.or own).getD
    { actionName := action.name, allowedDecisions := [] }

/-- The id of an action, which its approval has unless it takes over a tool call. -/
def approvalId (payload : StandardInterruptPayload) (index : ℕ) : String :=
  payload.interruptId ++ ":" ++ toString index

def metadataForAction (payload : StandardInterruptPayload) (reviewConfig : ReviewConfig)
    (index : ℕ) : JsObject :=
  .ofEntries ([
    ("approval_id", .string (approvalId payload index)),
    ("allowed_decisions",
      .array (reviewConfig.allowedDecisions.map fun decision => .string decision.text)),
    ("hitl_interrupt_id", .string payload.interruptId),
    ("hitl_action_index", .number (toString index)),
    ("hitl_total_actions", .number (toString payload.actionRequests.length))] ++
    if reviewConfig.sessionConsentEligible then [("session_consent_eligible", .bool true)] else [])

def isAskUserRespondOnly (action : ActionRequest) (reviewConfig : ReviewConfig) : Bool :=
  action.name = "ask_user" && reviewConfig.allowedDecisions = [.respond]

def stripHitLMetadata (args : JsObject) : JsObject :=
  redactSensitiveRecord (args.filterKeys fun key => !hitlMetadataKeys.contains key)

def equivalentToolArgs (left right : JsObject) : Bool :=
  JsValue.sameFields (stripHitLMetadata left).entries (stripHitLMetadata right).entries

def containsToolArgs (superset subset : JsObject) : Bool :=
  (stripHitLMetadata subset).entries.all fun entry =>
    ((stripHitLMetadata superset).property entry.1).any fun value => JsValue.same value entry.2

def isEmptyObject (value : JsObject) : Bool :=
  value.entries.isEmpty

structure ApprovalTarget where
  name : String
  args : JsObject

def approvalTarget (synthetic : ToolCallInfo) : Option ApprovalTarget :=
  if synthetic.name ≠ "request_approval" then none
  else
    match synthetic.args.get? "tool_name" with
    | some (.string name) =>
        some {
          name
          args :=
            match synthetic.args.get? "tool_args" with
            | some (.object fields) => .ofEntries fields
            | _ => .empty }
    | _ => none

def withReplacementId (synthetic existing : ToolCallInfo) : ToolCallInfo :=
  match existing.id.or synthetic.id with
  | none => synthetic
  | some fallbackId =>
      if fallbackId = "" then synthetic
      else
        { synthetic with
          id := some fallbackId
          args := synthetic.args.set "approval_id" (.string fallbackId) }

def attemptText (args : JsObject) : String :=
  match args.get? "attempt" with
  | none | some .null => "1"
  | some value => value.toText

/-- A description is shown unless it is missing or empty. -/
def descriptionEntries : Option String → List (String × JsValue)
  | none => []
  | some description => if description = "" then [] else [("description", .string description)]

def syntheticToolCall (payload : StandardInterruptPayload) (action : ActionRequest) (index : ℕ) :
    ToolCallInfo :=
  let reviewConfig := reviewForAction action payload.reviewConfigs index
  let metadata := metadataForAction payload reviewConfig index
  let safeArgs := redactSensitiveRecord action.args
  if payload.native = some .authRequired then
    { id := some (approvalId payload index ++ "#" ++ attemptText action.args)
      name := authRequiredAction
      args := safeArgs.spread metadata }
  else if isAskUserRespondOnly action reviewConfig then
    { id := some (approvalId payload index), name := "ask_user", args := safeArgs.spread metadata }
  else
    { id := some (approvalId payload index)
      name := "request_approval"
      args := JsObject.spread
        (.ofEntries
          ([("tool_name", .string action.name), ("tool_args", .object safeArgs.entries)] ++
            descriptionEntries action.description))
        metadata }

def standardInterruptToToolCalls (payload : StandardInterruptPayload) : List ToolCallInfo :=
  payload.actionRequests.mapIdx fun index action => syntheticToolCall payload action index

def lastIndex (test : ℕ → Bool) : ℕ → Option ℕ
  | 0 => none
  | count + 1 => if test count then some count else lastIndex test count

theorem lastIndex_spec {test : ℕ → Bool} {count index : ℕ}
    (found : lastIndex test count = some index) :
    index < count ∧ test index = true := by
  induction count with
  | zero => cases found
  | succ count ih =>
      rw [lastIndex] at found
      split at found
      · next passes =>
          cases found
          exact ⟨Nat.lt_succ_self _, passes⟩
      · have earlier := ih found
        exact ⟨by omega, earlier.2⟩

structure Merging where
  next : List ToolCallInfo
  replacedIndices : List ℕ := []

inductive Rule
  | question
  | approval
  | added
  deriving DecidableEq

/-- Where an action is put, and by which rule. -/
structure Placement where
  slot : ℕ
  rule : Rule
  deriving DecidableEq

def isQuestionSlot (merging : Merging) (synthetic : ToolCallInfo) (index : ℕ) : Bool :=
  merging.next[index]?.any fun existing =>
    existing.name = synthetic.name && equivalentToolArgs existing.args synthetic.args

def isApprovalSlot (merging : Merging) (target : ApprovalTarget) (index : ℕ) : Bool :=
  !merging.replacedIndices.contains index &&
    merging.next[index]?.any fun existing =>
      existing.name = target.name &&
        (equivalentToolArgs existing.args target.args ||
          containsToolArgs target.args existing.args ||
          containsToolArgs existing.args target.args || isEmptyObject existing.args ||
          isEmptyObject target.args)

def questionSlot (merging : Merging) (synthetic : ToolCallInfo) : Option ℕ :=
  if synthetic.name = "ask_user" then
    lastIndex (isQuestionSlot merging synthetic) merging.next.length
  else none

def approvalSlot (merging : Merging) (synthetic : ToolCallInfo) : Option ℕ :=
  (approvalTarget synthetic).bind fun target =>
    lastIndex (isApprovalSlot merging target) merging.next.length

def placement (merging : Merging) (synthetic : ToolCallInfo) : Placement :=
  match questionSlot merging synthetic with
  | some slot => { slot, rule := .question }
  | none =>
      match approvalSlot merging synthetic with
      | some slot => { slot, rule := .approval }
      | none => { slot := merging.next.length, rule := .added }

def merge (merging : Merging) (synthetic : ToolCallInfo) : Merging :=
  match placement merging synthetic with
  | { slot, rule := .question } =>
      { merging with
        next := merging.next.modify slot fun existing =>
          { existing with args := existing.args.spread synthetic.args } }
  | { slot, rule := .approval } =>
      { next := merging.next.modify slot (withReplacementId synthetic)
        replacedIndices := slot :: merging.replacedIndices }
  | { rule := .added, .. } => { merging with next := merging.next ++ [synthetic] }

def mergeInterruptToolCalls (toolCalls : List ToolCallInfo) (payload : StandardInterruptPayload) :
    List ToolCallInfo :=
  ((standardInterruptToToolCalls payload).foldl merge { next := toolCalls }).next

def placements (merging : Merging) : List ToolCallInfo → List Placement
  | [] => []
  | synthetic :: synthetics =>
      placement merging synthetic :: placements (merge merging synthetic) synthetics

end NaturalMold.InterruptToolCalls
