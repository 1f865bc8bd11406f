import NaturalMold.OrderedDictionaries

/-! # Approvals of runs that nobody watches -/

namespace NaturalMold.UnattendedApprovals

variable {Args Result : Type*}

inductive DecisionType
  | approve
  | edit
  | reject
  | respond
  deriving DecidableEq

structure ToolCall (Args : Type*) where
  name : Option String
  id : Option String
  args : Args

/-- How a tool is approved; a config allows some decision. -/
structure InterruptOnConfig (Args : Type*) where
  allowedDecisions : List DecisionType
  allowsSome : allowedDecisions ≠ []
  when : Option (ToolCall Args → Bool) := none
  description : Option String := none
  argsSchema : Option String := none

/-- An entry of a policy: `None`, a Boolean, the empty dictionary or a config. -/
inductive Entry (Args : Type*)
  | null
  | flag (value : Bool)
  | empty
  | config (entry : InterruptOnConfig Args)

def Entry.truthy : Entry Args → Bool
  | null => false
  | flag value => value
  | empty => false
  | config _ => true

/-- Whether the `when` predicate of an entry holds; one that is missing always does. -/
def Entry.holds (entry : Entry Args) (call : ToolCall Args) : Bool :=
  match entry with
  | config entry => entry.when.all fun holds => holds call
  | _ => true

abbrev Policy (Args : Type*) := OrderedDict String (Entry Args)

def Policy.keep (policy : Policy Args) (test : String → Entry Args → Bool) : Policy Args where
  entries := policy.entries.filter fun item => test item.1 item.2
  nodup := policy.nodup.sublist (List.filter_sublist.map Prod.fst)

structure ToolMessage where
  status : String
  reason : String
  tool : String
  requiredApproval : Bool
  toolCallId : String
  name : String
  messageStatus : String
  deriving DecidableEq

def blockedResult (call : ToolCall Args) : ToolMessage where
  status := "blocked"
  reason := "이 도구는 사람의 승인이 필요하지만 이 실행에는 승인할 사람이 없어 " ++
    "실행하지 않았습니다. 다른 방법을 찾거나, 사람이 할 일로 남기세요."
  tool := call.name.getD ""
  requiredApproval := true
  toolCallId := call.id.getD ""
  name := call.name.getD ""
  messageStatus := "error"

def blocked (policy : Policy Args) (call : ToolCall Args) : Option ToolMessage :=
  match call.name.bind policy.get? with
  | none => none
  | some entry =>
      if entry.truthy then if entry.holds call then some (blockedResult call) else none else none

def defaultDeepagentsInterruptPolicy : List (String × List DecisionType) :=
  [("write_file", [.approve, .reject]), ("edit_file", [.approve, .edit, .reject]),
    ("execute", [.approve, .reject])]

def isBuiltinDefault (name : String) : Entry Args → Bool
  | .config entry =>
      entry.when.isNone && entry.description.isNone && entry.argsSchema.isNone &&
        defaultDeepagentsInterruptPolicy.lookup name = some entry.allowedDecisions
  | _ => false

def stripBuiltinDefaults (policy : Policy Args) : Policy Args :=
  policy.keep fun name entry =>
    entry.truthy && name ≠ "ask_user" && !isBuiltinDefault name entry

/-- A field `interrupt_on`. -/
inductive InterruptOn (Args : Type*)
  | null
  | flag (value : Bool)
  | policy (entries : Policy Args)

def InterruptOn.stripped : InterruptOn Args → Policy Args
  | policy entries => stripBuiltinDefaults entries
  | null => .empty
  | flag _ => .empty

/-- What the human-in-the-loop middleware documents about the entries that ask: `True` and a
config do, and an entry that is not set does not. -/
structure Documented (asks : Entry Args → Bool) : Prop where
  unset : ∀ entry, entry.truthy = false → asks entry = false
  always : asks (.flag true) = true
  config : ∀ entry, asks (.config entry) = true

def interrupts (asks : Entry Args → Bool) (interruptOn : InterruptOn Args)
    (call : ToolCall Args) : Bool :=
  match interruptOn with
  | .policy policy => (call.name.bind policy.get?).any fun entry => asks entry && entry.holds call
  | _ => false

/-- Whether the entry for a call is `ask_user` or a built-in file tool at its default. -/
def exempt (interruptOn : InterruptOn Args) (call : ToolCall Args) : Bool :=
  match interruptOn with
  | .policy policy => call.name.any fun name =>
      name = "ask_user" || (policy.get? name).any fun entry => isBuiltinDefault name entry
  | _ => false

variable {asks : Entry Args → Bool}

end NaturalMold.UnattendedApprovals
