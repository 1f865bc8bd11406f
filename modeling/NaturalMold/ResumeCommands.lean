import NaturalMold.Approvals
import NaturalMold.ConversationRuns
import NaturalMold.OrderedDictionaries

/-! # Commands that resume a run -/

namespace NaturalMold.Approvals

open Conversations (Uuid Time)

structure InputRespondEntry where
  ns : List String := []
  interruptId : String
  response : Json

/-- The parameters of the command that a resume reads; `responses` is missing or names at
least one interrupt. -/
structure AgentCommandParams where
  ns : Option (List String) := none
  interruptId : Option String := none
  response : Json := .null
  responses : Option { entries : List InputRespondEntry // entries ≠ [] } := none

structure SubmittedInterruptResponse where
  interruptId : String
  ns : List String
  response : Json

structure ResumePayload where
  inputPayload : Json
  interruptId : Option String
  submitted : List SubmittedInterruptResponse

def buildResumePayload (params : AgentCommandParams) : ResumePayload :=
  match params.responses with
  | some responses =>
      let submitted := responses.val.map fun entry =>
        ({ interruptId := entry.interruptId, ns := entry.ns, response := entry.response } :
          SubmittedInterruptResponse)
      let answers := OrderedDict.ofEntries
        (responses.val.map fun entry => (entry.interruptId, entry.response))
      { inputPayload := .obj answers.entries
        interruptId := submitted.head?.map SubmittedInterruptResponse.interruptId
        submitted := submitted }
  | none =>
      { inputPayload := params.response
        interruptId := params.interruptId
        submitted :=
          match Conversations.truthy params.interruptId with
          | none => []
          | some interruptId =>
              [{ interruptId := interruptId
                 ns := params.ns.getD []
                 response := params.response }] }

structure ThreadInterrupt where
  id : String
  value : Json
  ns : List String

/-- The body and status of `command_error`. -/
structure CommandError where
  code : String
  message : String
  statusCode : ℕ := 200
  deriving DecidableEq

def staleInterrupt (message : String) : CommandError where
  code := "STALE_INTERRUPT"
  message := message

def interruptsById (pending : List ThreadInterrupt) : OrderedDict String ThreadInterrupt :=
  OrderedDict.ofEntries (pending.map fun interrupt => (interrupt.id, interrupt))

/-- The first problem of the answers that were not looked at yet. -/
def submittedProblem (decisionProblem : Json → Json → Option CommandError)
    (pending : OrderedDict String ThreadInterrupt) (seenIds : List String) :
    List SubmittedInterruptResponse → Option CommandError
  | [] => none
  | submitted :: rest =>
      if submitted.interruptId ∈ seenIds then
        some (staleInterrupt "input.respond contains duplicate interrupt_id")
      else
        match pending.get? submitted.interruptId with
        | none => some (staleInterrupt "input.respond interrupt_id is not pending")
        | some interrupt =>
            if submitted.ns ≠ interrupt.ns then
              some (staleInterrupt
                "input.respond namespace does not match the pending interrupt")
            else
              (decisionProblem submitted.response interrupt.value).or
                (submittedProblem decisionProblem pending (submitted.interruptId :: seenIds) rest)

/-- `validate_resume_payload`, for what `decision_problem` says of an answer to the value of
an interrupt. -/
def validateResumePayload (decisionProblem : Json → Json → Option CommandError)
    (resume : ResumePayload) (pending : List ThreadInterrupt) : Option CommandError :=
  if pending.isEmpty then none
  else submittedProblem decisionProblem (interruptsById pending) [] resume.submitted

def resumeRunInterruptId (resume : ResumePayload) (parentInterruptId : Option String) :
    Option String :=
  match parentInterruptId with
  | none => resume.interruptId
  | some interruptId =>
      if resume.submitted.any (·.interruptId = interruptId) then some interruptId
      else resume.interruptId

def responseDecisions : Json → List Json
  | .obj response =>
      match Json.getField "decisions" .null response with
      | .arr decisions => decisions
      | _ => []
  | _ => []

/-- `decision_types`; `text` is Python's `str` of a value that is no string. -/
def decisionTypes (text : Json → String) (response : Json) : List String :=
  (responseDecisions response).filterMap fun decision =>
    match decision with
    | .obj fields =>
        match Json.getField "type" .null fields with
        | .str type => some type
        | value => some (text value)
    | _ => none

structure ActionRequest where
  name : String
  args : List (String × Json)

/-- `_action_requests`: the readable actions of an interrupt. -/
def actionRequests : Json → List ActionRequest
  | .obj value =>
      match Json.getField "action_requests" .null value with
      | .arr rawActions =>
          rawActions.filterMap fun item =>
            match item with
            | .obj action =>
                match Json.getField "name" .null action, Json.getField "args" .null action with
                | .str name, .obj args => some { name := name, args := args }
                | _, _ => none
            | _ => none
      | _ => []
  | _ => []

def sessionConsentEligibleTools : List String := ["test_skill_draft"]

def requestedTool (actions : List ActionRequest) (decision : Json) (index : ℕ) :
    Option String :=
  match decision with
  | .obj fields =>
      if (Json.getField "scope" .null fields).str? = some "session" ∧
          (Json.getField "type" .null fields).str? = some "approve" then
        (actions[index]?.map ActionRequest.name).filter (· ∈ sessionConsentEligibleTools)
      else none
  | _ => none

/-- The tools that the answers ask to allow for the session. -/
def requestedTools (resume : ResumePayload) (pending : List ThreadInterrupt) : List String :=
  resume.submitted.flatMap fun submitted =>
    let actions := ((interruptsById pending).get? submitted.interruptId).elim []
      fun interrupt => actionRequests interrupt.value
    (responseDecisions submitted.response).zipIdx.filterMap fun decision =>
      requestedTool actions decision.1 decision.2

/-- `sorted(set(requested))`. -/
def consentedNames (resume : ResumePayload) (pending : List ThreadInterrupt) : List String :=
  (requestedTools resume pending).dedup.insertionSort (· ≤ ·)

end NaturalMold.Approvals
