import Mathlib.Data.List.Infix
import NaturalMold.FirstOccurrences
import NaturalMold.JsonValues

/-!
# The connection guard

Before the tools of a model step run, calls outside the plan of the run are refused and the
credentials of the others are read. A broken connection is asked about, and a resumed execution
replays the answers that are recorded.
-/

namespace NaturalMold.ConnectionGuard

structure ToolCall where
  id : String
  name : String
  deriving DecidableEq

/-- An error message for a call, with the code of its artifact. -/
structure ToolMessage where
  content : String
  toolCallId : String
  name : String
  code : String
  deriving DecidableEq

inductive Message where
  | ai (toolCalls : List ToolCall)
  | tool (toolCallId : String)
  | other

structure GuardedTool where
  name : String
  resourceType : String
  resourceName : String
  credentialId : String
  credentialMode : String
  accountUserId : Option String

structure CredentialState where
  status : String
  userId : Option String
  definitionKey : String
  bound : Option Bool

inductive FixableBy where
  | me
  | owner
  deriving DecidableEq

structure Item where
  resourceType : String
  resourceName : String
  toolNames : List String
  credentialId : String
  fixableBy : FixableBy
  connectKind : String
  deriving DecidableEq

structure Problem where
  call : ToolCall
  reason : String
  item : Item
  deriving DecidableEq

inductive Mode where
  | interrupt
  | raise
  | refuse
  deriving DecidableEq

structure Policy where
  mode : Mode
  denied : String → Option String
  guarded : String → Option GuardedTool
  actorUserId : Option String

inductive Decision where
  | retry
  | skip
  | cancel
  deriving DecidableEq

/-- The payload of an interrupt, without its attempt. -/
structure Payload where
  reason : String
  items : List Item
  deriving DecidableEq

/-- What a read of the credentials returns; a read may fail. -/
abbrev Read := List GuardedTool → Option (String → Option CredentialState)

def details : String → String
  | "permission_required" => "this run is not allowed to use this tool"
  | "auth_required" => "the connection this tool needs is not usable; it must be reconnected"
  | "tool_not_allowed" => "this tool is not part of the agent's authorized tools"
  | "authz_unavailable" => "permission could not be checked; try again later"
  | "owner_reconnect_required" => "the connection must be repaired by its owner (notified)"
  | "skipped" => "skipped by the user"
  | "cancelled" => "the run was cancelled by the user"
  | "reconnected" => "the connection was updated; call the tool again if it is still needed"
  | code => code

def refusal (code : String) (call : ToolCall) : ToolMessage where
  content := "[Connection Guard] " ++ call.name ++ ": " ++ code ++ ": " ++ details code
  toolCallId := call.id
  name := call.name
  code := code

/-- `_last_step` on the messages before a place, from the last one on. -/
def lastStepBefore : List Message → List String → Option (List ToolCall × List String)
  | [], _ => none
  | .ai toolCalls :: _, trailing => some (toolCalls, trailing)
  | .tool id :: messages, trailing => lastStepBefore messages (id :: trailing)
  | .other :: messages, trailing => lastStepBefore messages trailing

def lastStep (messages : List Message) : Option (List ToolCall × List String) :=
  lastStepBefore messages.reverse []

def usable : List String := ["active", "auth_needed"]

def fixableBy (actor user : Option String) : FixableBy :=
  if user ≠ none ∧ user = actor then .me else .owner

def itemOf (tool : GuardedTool) (fixableBy : FixableBy) (connectKind : String) : Item where
  resourceType := tool.resourceType
  resourceName := tool.resourceName
  toolNames := [tool.name]
  credentialId := tool.credentialId
  fixableBy := fixableBy
  connectKind := connectKind

/-- The body of the loop of `_problems`. -/
def problemOf (policy : Policy) (states : String → Option CredentialState)
    (target : ToolCall × GuardedTool) : Option Problem :=
  (states target.2.credentialId).bind fun state =>
    if state.status ∉ usable then
      some ⟨target.1, if state.status = "expired" then "expired" else "auth_needed",
        itemOf target.2 (fixableBy policy.actorUserId state.userId)
          (if "oauth".toList <:+: state.definitionKey.toList then "oauth" else "api_key")⟩
    else if target.2.credentialMode = "per_user" ∧ state.bound = some false then
      some ⟨target.1, "auth_needed",
        itemOf target.2 (fixableBy policy.actorUserId target.2.accountUserId) "binding"⟩
    else none

/-- `_problems`. -/
def problems (policy : Policy) (read : Read) (calls : List ToolCall) : List Problem :=
  let targets := calls.filterMap fun call => (policy.guarded call.name).map (call, ·)
  if targets.isEmpty then []
  else
    match read (targets.map Prod.snd) with
    | none => []
    | some states => targets.filterMap (problemOf policy states)

/-- The fields that make the key of an item. -/
def Item.key (item : Item) : String × String × String × FixableBy × String :=
  (item.resourceType, item.resourceName, item.credentialId, item.fixableBy, item.connectKind)

def mergeItem (merged : List Item) (item : Item) : List Item :=
  if item.key ∈ merged.map Item.key then
    merged.map fun entry =>
      if entry.key = item.key then
        { entry with
          toolNames := entry.toolNames ++ item.toolNames.filter (· ∉ entry.toolNames) }
      else entry
  else merged ++ [{ item with toolNames := FirstOccurrences.distinctOn id item.toolNames }]

def bundle (problems : List (String × Item)) : Option Payload :=
  let merged := (problems.map Prod.snd).foldl mergeItem []
  if merged.isEmpty then none
  else
    some
      { reason :=
          match FirstOccurrences.distinctOn id (problems.map Prod.fst) with
          | [reason] => reason
          | _ => "auth_needed"
        items := merged }

def decisionOfText (message : Option String) : Option Decision :=
  if message = some "retry" then some .retry
  else if message = some "skip" then some .skip
  else if message = some "cancel" then some .cancel
  else none

/-- The message of a decision of type `respond`. -/
def respondMessage : Json → Option Json
  | .obj fields =>
      if (Json.getField "type" .null fields).str? = some "respond" then
        some (Json.getField "message" .null fields)
      else none
  | _ => none

def decisionOf : Json → Option Decision
  | .obj fields =>
      let candidates :=
        match Json.getField "decisions" .null fields with
        | .arr decisions => decisions
        | _ => [.obj fields]
      decisionOfText ((candidates.findSome? respondMessage).bind Json.str?)
  | response => decisionOfText response.str?

/-- The rest of `ask`: the answers that are recorded after the first one. -/
def replay : List Json → ℕ → Option Decision → List ℕ × Option Decision × ℕ
  | [], asked, decision => ([], decision, asked)
  | answer :: answers, asked, _ =>
      let later := replay answers (asked + 1) (decisionOf answer)
      ((asked + 1) :: later.1, later.2)

/-- `ask`: the attempts of its interrupts, and the last decision with its attempt unless an
interrupt is not answered. -/
def ask (answers : List Json) (asked : ℕ) : List ℕ × Option (Option Decision × ℕ) :=
  match answers.drop asked with
  | [] => ([asked + 1], none)
  | answer :: later =>
      let replayed := replay later (asked + 1) (decisionOf answer)
      ((asked + 1) :: replayed.1, some replayed.2)

def lastDecision (answers : List Json) : Option Decision :=
  answers.getLast?.bind decisionOf

theorem replay_eq (answers : List Json) (asked : ℕ) (decision : Option Decision) :
    replay answers asked decision =
      (List.range' (asked + 1) answers.length,
        (answers.getLast?.map decisionOf).getD decision, asked + answers.length) := by
  induction answers generalizing asked decision with
  | nil => rfl
  | cons answer answers ih =>
      rw [replay, ih, List.length_cons, List.range'_succ, List.getLast?_cons]
      cases answers.getLast? <;> simp <;> omega

theorem ask_of_le {answers : List Json} {asked : ℕ} (all : answers.length ≤ asked) :
    ask answers asked = ([asked + 1], none) := by
  rw [ask, List.drop_eq_nil_of_le all]

theorem ask_of_lt {answers : List Json} {asked : ℕ} (waiting : asked < answers.length) :
    ask answers asked =
      (List.range' (asked + 1) (answers.length - asked),
        some (lastDecision answers, answers.length)) := by
  rw [ask, lastDecision]
  cases rest : answers.drop asked with
  | nil => exact absurd (List.drop_eq_nil_iff.mp rest) (Nat.not_le.mpr waiting)
  | cons answer later =>
      have length := congrArg List.length rest
      have last := List.getLast?_drop (l := answers) (i := asked)
      rw [List.length_drop, List.length_cons] at length
      rw [rest, if_neg (Nat.not_le.mpr waiting), List.getLast?_cons] at last
      have total : answers.length = asked + 1 + later.length := by omega
      dsimp only
      rw [length, List.range'_succ, replay_eq, ← last, total]
      cases later.getLast? <;> rfl

theorem ask_eq_some {answers : List Json} {asked latest : ℕ} {attempts : List ℕ}
    {decision : Option Decision} (returned : ask answers asked = (attempts, some (decision, latest))) :
    asked < answers.length ∧ attempts = List.range' (asked + 1) (answers.length - asked) ∧
      decision = lastDecision answers ∧ latest = answers.length := by
  rcases Nat.lt_or_ge asked answers.length with waiting | all
  · rw [ask_of_lt waiting] at returned
    obtain ⟨rfl, same⟩ := Prod.mk.inj returned
    obtain ⟨rfl, rfl⟩ := Prod.mk.inj (Option.some.inj same)
    exact ⟨waiting, rfl, rfl, rfl⟩
  · rw [ask_of_le all] at returned
    exact absurd (Prod.mk.inj returned).2 nofun

structure Update where
  messages : List ToolMessage
  jumpToEnd : Bool
  deriving DecidableEq

inductive Ending where
  | returned (update : Option Update)
  | interrupted
  | blocked (payload : Payload)
  deriving DecidableEq

/-- A look at the credentials that some calls need. -/
structure Pass where
  calls : List ToolCall
  problems : List Problem

/-- An execution of the hook: what it has read, its interrupts with their attempts, and its end. -/
structure Execution where
  passes : List Pass
  interrupts : List (Option Payload × ℕ)
  ending : Ending

def finish (messages : List ToolMessage) (jumpToEnd : Bool) : Ending :=
  .returned (if messages = [] ∧ jumpToEnd = false then none else some ⟨messages, jumpToEnd⟩)

section Loop

variable (policy : Policy) (answers : List Json) (answered : List String)
  (pending : List ToolCall)

/-- The calls that have no answer yet. -/
def unanswered (messages : List ToolMessage) (calls : List ToolCall) : List ToolCall :=
  calls.filter fun call => call.id ∉ answered ++ messages.map ToolMessage.toolCallId

def Pass.owners (pass : Pass) : List ToolCall :=
  (pass.problems.filter fun problem => problem.item.fixableBy = .owner).map Problem.call

/-- The problems that the runner can fix. -/
def Pass.own (pass : Pass) : List Problem :=
  pass.problems.filter fun problem => problem.item.fixableBy ≠ .owner

/-- The calls that an answer is about. -/
def Pass.asked (pass : Pass) : List ToolCall :=
  if pass.own = [] then pending.filter fun call => (policy.guarded call.name).isSome
  else pass.own.map Problem.call

/-- The loop of `aafter_model`. -/
def loop (reads : ℕ → Read) (passes : List Pass) (interrupts : List (Option Payload × ℕ))
    (attempt : ℕ) (pass : Pass) (messages : List ToolMessage) : Execution :=
  if pass.problems = [] ∧ answers.length ≤ attempt then
    ⟨passes ++ [pass], interrupts, finish messages false⟩
  else
    let messages := messages ++
      (unanswered answered messages pass.owners).map (refusal "owner_reconnect_required")
    let payload := bundle (pass.own.map fun problem => (problem.reason, problem.item))
    if payload = none ∧ (policy.mode ≠ .interrupt ∨ answers.length ≤ attempt) then
      ⟨passes ++ [pass], interrupts, finish messages false⟩
    else
      match policy.mode, payload with
      | .raise, some payload => ⟨passes ++ [pass], interrupts, .blocked payload⟩
      | .refuse, _ =>
          ⟨passes ++ [pass], interrupts, finish (messages ++
            (pass.own.map Problem.call).map (refusal "auth_required")) false⟩
      | _, payload =>
          match _asked : ask answers attempt with
          | (attempts, none) =>
              ⟨passes ++ [pass], interrupts ++ attempts.map (payload, ·), .interrupted⟩
          | (attempts, some (decision, latest)) =>
              let interrupts := interrupts ++ attempts.map (payload, ·)
              let asked := pass.asked policy pending
              match decision with
              | some .skip =>
                  ⟨passes ++ [pass], interrupts, finish (messages ++
                    (unanswered answered messages asked).map (refusal "skipped")) false⟩
              | some .cancel =>
                  ⟨passes ++ [pass], interrupts, finish (messages ++
                    (unanswered answered messages pending).map (refusal "cancelled")) true⟩
              | _ =>
                  loop reads (passes ++ [pass]) interrupts latest
                    ⟨asked, problems policy (reads (passes.length + 1)) asked⟩ messages
termination_by answers.length - attempt
decreasing_by
  obtain ⟨waiting, _, _, rfl⟩ := ask_eq_some _asked
  omega

end Loop

def deniedCode (policy : Policy) (call : ToolCall) : Option String :=
  (policy.denied call.name).filter (· ≠ "")

def aafterModel (policy : Policy) (reads : ℕ → Read) (answers : List Json)
    (messages : List Message) : Execution :=
  match lastStep messages with
  | none => ⟨[], [], .returned none⟩
  | some ([], _) => ⟨[], [], .returned none⟩
  | some (toolCalls, answered) =>
      let open_ := toolCalls.filter (·.id ∉ answered)
      let refused := open_.filterMap fun call => (deniedCode policy call).map (refusal · call)
      let pending := open_.filter (·.id ∉ refused.map ToolMessage.toolCallId)
      loop policy answers answered pending reads [] [] 0
        ⟨pending, problems policy (reads 0) pending⟩ refused

def Ending.messages : Ending → List ToolMessage
  | .returned (some update) => update.messages
  | _ => []

def Ending.jumps : Ending → Bool
  | .returned (some update) => update.jumpToEnd
  | _ => false

def Ending.Returns : Ending → Prop
  | .returned _ => True
  | _ => False

theorem finish_messages (messages : List ToolMessage) (jumpToEnd : Bool) :
    (finish messages jumpToEnd).messages = messages := by
  rw [finish]
  split
  next nothing => exact nothing.1.symm
  next => rfl

theorem finish_jumps (messages : List ToolMessage) (jumpToEnd : Bool) :
    (finish messages jumpToEnd).jumps = jumpToEnd := by
  rw [finish]
  split
  next nothing => exact nothing.2.symm
  next => rfl

def Answered (messages : List ToolMessage) (call : ToolCall) : Prop :=
  call.id ∈ messages.map ToolMessage.toolCallId

/-- The last pass that has looked at a call. -/
def lastReading (passes : List Pass) (call : ToolCall) : Option Pass :=
  (passes.filter (call ∈ ·.calls)).getLast?

theorem lastReading_concat (passes : List Pass) (pass : Pass) (call : ToolCall) :
    lastReading (passes ++ [pass]) call =
      if call ∈ pass.calls then some pass else lastReading passes call := by
  rw [lastReading, List.filter_append]
  split
  next looked => simp [looked]
  next other => simp [other, lastReading]

/-- Why a call is answered with a code. -/
inductive Reason (policy : Policy) (answers : List Json) (passes : List Pass) (call : ToolCall) :
    String → Prop
  | denied {code : String} (denied : deniedCode policy call = some code) :
      Reason policy answers passes call code
  | owner {pass : Pass} (member : pass ∈ passes) (broken : call ∈ pass.owners) :
      Reason policy answers passes call "owner_reconnect_required"
  | refused {pass : Pass} (mode : policy.mode = .refuse) (member : pass ∈ passes)
      (broken : call ∈ pass.own.map Problem.call) :
      Reason policy answers passes call "auth_required"
  | skipped {pass : Pass} (mode : policy.mode = .interrupt)
      (skip : lastDecision answers = some .skip) (last : passes.getLast? = some pass)
      (broken : call ∈ pass.own.map Problem.call) : Reason policy answers passes call "skipped"
  | watched {pass : Pass} (mode : policy.mode = .interrupt)
      (skip : lastDecision answers = some .skip) (last : passes.getLast? = some pass)
      (repaired : pass.own = []) (guarded : (policy.guarded call.name).isSome = true) :
      Reason policy answers passes call "skipped"
  | cancelled (mode : policy.mode = .interrupt) (cancel : lastDecision answers = some .cancel) :
      Reason policy answers passes call "cancelled"

/-- What holds of every execution of the guard on the calls without a result. -/
structure Obeys (policy : Policy) (answers : List Json) (calls : List ToolCall)
    (execution : Execution) : Prop where
  attempts : execution.interrupts.map Prod.snd = List.range' 1 execution.interrupts.length
  distinct : (execution.ending.messages.map ToolMessage.toolCallId).Nodup
  reasons : ∀ message ∈ execution.ending.messages, ∃ call ∈ calls, ∃ code,
    message = refusal code call ∧ Reason policy answers execution.passes call code
  denied : execution.ending.Returns → ∀ call ∈ calls, deniedCode policy call ≠ none →
    Answered execution.ending.messages call
  unusable : execution.ending.Returns → ∀ call ∈ calls, ∀ pass,
    lastReading execution.passes call = some pass → call ∈ pass.problems.map Problem.call →
      Answered execution.ending.messages call
  skip : policy.mode = .interrupt → lastDecision answers = some .skip →
    execution.ending.Returns ∧ execution.ending.jumps = false ∧
      ∃ pass, execution.passes.getLast? = some pass ∧ ∀ call ∈ calls,
        call ∈ pass.own.map Problem.call ∨
            pass.own = [] ∧ (policy.guarded call.name).isSome = true →
          Answered execution.ending.messages call
  cancel : policy.mode = .interrupt → lastDecision answers = some .cancel →
    execution.ending.Returns ∧ execution.ending.jumps = true ∧
      ∀ call ∈ calls, Answered execution.ending.messages call

/-- The messages answer some of the calls, each at most once and for a reason. -/
structure Sound (policy : Policy) (answers : List Json) (calls : List ToolCall)
    (passes : List Pass) (messages : List ToolMessage) : Prop where
  distinct : (messages.map ToolMessage.toolCallId).Nodup
  reasons : ∀ message ∈ messages, ∃ call ∈ calls, ∃ code,
    message = refusal code call ∧ Reason policy answers passes call code

section Answers

variable {policy : Policy} {answers : List Json} {calls : List ToolCall} {passes : List Pass}
  {messages : List ToolMessage}

theorem answered_append {more : List ToolCall} {code : String} {call : ToolCall} :
    Answered (messages ++ more.map (refusal code)) call ↔
      Answered messages call ∨ call.id ∈ more.map ToolCall.id := by
  rw [Answered, List.map_append, List.mem_append, List.map_map]
  rfl

theorem Sound.add (sound : Sound policy answers calls passes messages) {more : List ToolCall}
    {code : String} (distinct : (more.map ToolCall.id).Nodup)
    (each : ∀ call ∈ more, call ∈ calls ∧ ¬Answered messages call ∧
      Reason policy answers passes call code) :
    Sound policy answers calls passes (messages ++ more.map (refusal code)) where
  distinct := by
    rw [List.map_append, List.map_map]
    refine List.nodup_append'.mpr ⟨sound.distinct, distinct, ?_⟩
    intro id old new
    obtain ⟨call, member, rfl⟩ := List.mem_map.mp new
    exact (each call member).2.1 old
  reasons := by
    intro message member
    rcases List.mem_append.mp member with old | new
    · exact sound.reasons message old
    · obtain ⟨call, listed, rfl⟩ := List.mem_map.mp new
      exact ⟨call, (each call listed).1, code, rfl, (each call listed).2.2⟩

/-- A reason that is about an answer is given in the last pass only. -/
theorem Sound.concat (sound : Sound policy answers calls passes messages)
    (undecided : policy.mode = .interrupt →
      lastDecision answers ≠ some .skip ∧ lastDecision answers ≠ some .cancel) (pass : Pass) :
    Sound policy answers calls (passes ++ [pass]) messages where
  distinct := sound.distinct
  reasons := by
    intro message member
    obtain ⟨call, listed, code, same, reason⟩ := sound.reasons message member
    refine ⟨call, listed, code, same, ?_⟩
    cases reason with
    | denied denied => exact .denied denied
    | owner member broken => exact .owner (List.mem_append_left _ member) broken
    | refused mode member broken => exact .refused mode (List.mem_append_left _ member) broken
    | skipped mode skip => exact absurd skip (undecided mode).1
    | watched mode skip => exact absurd skip (undecided mode).1
    | cancelled mode cancel => exact absurd cancel (undecided mode).2

end Answers

section Steps

variable {policy : Policy} {answers : List Json} {answered : List String}
  {calls pending : List ToolCall} {passes : List Pass}
  {interrupts : List (Option Payload × ℕ)} {attempt : ℕ} {pass : Pass}
  {messages : List ToolMessage}

/-- The calls that are looked at are open calls that the run may make. -/
structure Pending (policy : Policy) (answered : List String) (calls pending : List ToolCall) :
    Prop where
  listed : pending.Sublist calls
  distinct : (calls.map ToolCall.id).Nodup
  open_ : ∀ call ∈ calls, call.id ∉ answered
  allowed : ∀ call ∈ pending, deniedCode policy call = none

theorem Pending.openCall (allows : Pending policy answered calls pending) {call : ToolCall}
    (given : call ∈ pending) : call.id ∉ answered :=
  allows.open_ call (allows.listed.subset given)

/-- What is known before a pass of the loop. -/
structure Inv (policy : Policy) (answers : List Json) (calls pending : List ToolCall)
    (passes : List Pass) (interrupts : List (Option Payload × ℕ)) (attempt : ℕ) (pass : Pass)
    (messages : List ToolMessage) : Prop where
  sound : Sound policy answers calls (passes ++ [pass]) messages
  looked : pass.calls.Sublist pending
  found : (pass.problems.map Problem.call).Sublist pass.calls
  attempts : interrupts.map Prod.snd = List.range' 1 attempt
  earlier : ∀ call old, call ∉ pass.calls → lastReading passes call = some old →
    call ∈ old.problems.map Problem.call → Answered messages call
  live : lastDecision answers = some .skip ∨ lastDecision answers = some .cancel →
    attempt < answers.length
  fresh : policy.mode ≠ .interrupt → ∀ call ∈ pending, ¬Answered messages call
  refused : ∀ call ∈ calls, call ∉ pending → Answered messages call

theorem mem_owners_or_own {call : ToolCall} (broken : call ∈ pass.problems.map Problem.call) :
    call ∈ pass.owners ∨ call ∈ pass.own.map Problem.call := by
  obtain ⟨problem, member, rfl⟩ := List.mem_map.mp broken
  by_cases owner : problem.item.fixableBy = .owner
  · exact .inl (List.mem_map_of_mem (List.mem_filter.mpr ⟨member, decide_eq_true owner⟩))
  · exact .inr (List.mem_map_of_mem (List.mem_filter.mpr ⟨member, decide_eq_true owner⟩))

theorem mem_asked {call : ToolCall} (own : call ∈ pass.own.map Problem.call) :
    call ∈ pass.asked policy pending := by
  rw [Pass.asked, if_neg]
  · exact own
  · intro none
    rw [none] at own
    cases own

/-- The calls that an answer is about are calls that the guard looks at. -/
theorem asked_sublist (looked : pass.calls.Sublist pending)
    (found : (pass.problems.map Problem.call).Sublist pass.calls) :
    (pass.asked policy pending).Sublist pending := by
  rw [Pass.asked]
  split
  · exact List.filter_sublist
  · exact ((List.filter_sublist.map Problem.call).trans found).trans looked

theorem answered_of_unanswered {code : String} {more : List ToolCall} {call : ToolCall}
    (listed : call ∈ more) (open_ : call.id ∉ answered) :
    Answered (messages ++ (unanswered answered messages more).map (refusal code)) call := by
  rw [answered_append]
  by_cases already : Answered messages call
  · exact .inl already
  · refine .inr (List.mem_map_of_mem (List.mem_filter.mpr ⟨listed, ?_⟩))
    rw [decide_eq_true_iff, List.mem_append, not_or]
    exact ⟨open_, already⟩

theorem add_unanswered (allows : Pending policy answered calls pending)
    (sound : Sound policy answers calls passes messages) {more : List ToolCall} {code : String}
    (listed : more.Sublist pending) (reason : ∀ call ∈ more, Reason policy answers passes call code) :
    Sound policy answers calls passes
      (messages ++ (unanswered answered messages more).map (refusal code)) := by
  have inCalls := listed.trans allows.listed
  apply sound.add
  · exact allows.distinct.sublist ((List.filter_sublist.trans inCalls).map ToolCall.id)
  · intro call member
    obtain ⟨given, open_⟩ := List.mem_filter.mp member
    rw [decide_eq_true_iff, List.mem_append, not_or] at open_
    exact ⟨inCalls.subset given, open_.2, reason call given⟩

theorem length_of_attempts {count : ℕ}
    (attempts : interrupts.map Prod.snd = List.range' 1 count) : interrupts.length = count := by
  have lengths := congrArg List.length attempts
  rwa [List.length_map, List.length_range'] at lengths

theorem Inv.ends (inv : Inv policy answers calls pending passes interrupts attempt pass messages)
    (allows : Pending policy answered calls pending) {final : List ToolMessage} {jumps : Bool}
    {issued : List (Option Payload × ℕ)} {count : ℕ}
    (sound : Sound policy answers calls (passes ++ [pass]) final)
    (attempts : issued.map Prod.snd = List.range' 1 count)
    (grows : ∀ call, Answered messages call → Answered final call)
    (settled : ∀ call ∈ pass.problems.map Problem.call, Answered final call)
    (skip : policy.mode = .interrupt → lastDecision answers = some .skip →
      jumps = false ∧ ∀ call ∈ pass.asked policy pending, Answered final call)
    (cancel : policy.mode = .interrupt → lastDecision answers = some .cancel →
      jumps = true ∧ ∀ call ∈ pending, Answered final call) :
    Obeys policy answers calls ⟨passes ++ [pass], issued, finish final jumps⟩ := by
  constructor
  case attempts => rwa [length_of_attempts attempts]
  case distinct =>
      rw [finish_messages]
      exact sound.distinct
  case reasons =>
      rw [finish_messages]
      exact sound.reasons
  case denied =>
      rw [finish_messages]
      intro _ call member denied
      exact grows call (inv.refused call member fun given => denied (allows.allowed call given))
  case unusable =>
      rw [finish_messages]
      intro _ call _ last reading broken
      dsimp only at reading
      rw [lastReading_concat] at reading
      split at reading
      · obtain rfl := Option.some.inj reading
        exact settled call broken
      · exact grows call (inv.earlier call last ‹_› reading broken)
  case skip =>
      intro mode decided
      obtain ⟨stays, answersAsked⟩ := skip mode decided
      refine ⟨trivial, (finish_jumps _ _).trans stays, pass, List.getLast?_concat .., ?_⟩
      rw [finish_messages]
      rintro call member (own | ⟨repaired, guarded⟩)
      · apply answersAsked
        exact mem_asked own
      · by_cases given : call ∈ pending
        · apply answersAsked
          rw [Pass.asked, if_pos repaired]
          exact List.mem_filter.mpr ⟨given, guarded⟩
        · exact grows call (inv.refused call member given)
  case cancel =>
  intro mode decided
  obtain ⟨leaves, answersAll⟩ := cancel mode decided
  refine ⟨trivial, (finish_jumps _ _).trans leaves, ?_⟩
  rw [finish_messages]
  intro call member
  by_cases given : call ∈ pending
  · exact answersAll call given
  · exact grows call (inv.refused call member given)

theorem foldl_mergeItem_ne_nil {merged items : List Item} (present : merged ≠ [] ∨ items ≠ []) :
    items.foldl mergeItem merged ≠ [] := by
  induction items generalizing merged with
  | nil => exact present.resolve_right fun absent => absent rfl
  | cons item items ih =>
      apply ih
      left
      rw [mergeItem]
      split
      next listed =>
          rintro none
          rw [List.map_eq_nil_iff.mp none] at listed
          cases listed
      next => exact List.append_ne_nil_of_right_ne_nil _ (List.cons_ne_nil _ _)

theorem own_of_bundle (nothing : bundle (pass.own.map fun problem =>
    (problem.reason, problem.item)) = none) : pass.own = [] := by
  by_contra present
  rw [bundle] at nothing
  split at nothing
  next empty =>
      rw [List.isEmpty_iff] at empty
      exact foldl_mergeItem_ne_nil (.inr (by simpa using present)) empty
  next => cases nothing

/-- The interrupts of a pass carry the attempts that come next. -/
theorem Inv.issues (inv : Inv policy answers calls pending passes interrupts attempt pass messages)
    (payload : Option Payload) (count : ℕ) :
    (interrupts ++ (List.range' (attempt + 1) count).map (payload, ·)).map Prod.snd =
      List.range' 1 (attempt + count) := by
  rw [List.map_append, inv.attempts, List.map_map]
  change _ ++ (List.range' (attempt + 1) count).map id = _
  rw [List.map_id, Nat.add_comm attempt 1, List.range'_append_1]

/-- An execution that does not return asks, or ends the run. -/
theorem obeys_of_not_returns {ending : Ending} {issued : List (Option Payload × ℕ)} {count : ℕ}
    (raised : ¬ending.Returns) (silent : ending.messages = [])
    (attempts : issued.map Prod.snd = List.range' 1 count)
    (undecided : policy.mode = .interrupt →
      lastDecision answers ≠ some .skip ∧ lastDecision answers ≠ some .cancel) :
    Obeys policy answers calls ⟨passes, issued, ending⟩ where
  attempts := by rwa [length_of_attempts attempts]
  distinct := by
    rw [silent]
    exact List.nodup_nil
  reasons := by
    rw [silent]
    exact List.forall_mem_nil _
  denied := fun returns => absurd returns raised
  unusable := fun returns => absurd returns raised
  skip := fun mode skip => absurd skip (undecided mode).1
  cancel := fun mode cancel => absurd cancel (undecided mode).2

theorem Inv.undecided
    (inv : Inv policy answers calls pending passes interrupts attempt pass messages)
    (all : answers.length ≤ attempt) :
    lastDecision answers ≠ some .skip ∧ lastDecision answers ≠ some .cancel :=
  ⟨fun skip => absurd (inv.live (.inl skip)) (Nat.not_lt.mpr all),
    fun cancel => absurd (inv.live (.inr cancel)) (Nat.not_lt.mpr all)⟩

/-- A call whose connection the runner can fix is no call that waits for an owner. -/
theorem own_not_owner (distinct : ((pass.problems.map Problem.call).map ToolCall.id).Nodup)
    {call : ToolCall} (own : call ∈ pass.own.map Problem.call) :
    call.id ∉ pass.owners.map ToolCall.id := by
  intro owner
  obtain ⟨problem, mine, rfl⟩ := List.mem_map.mp own
  obtain ⟨broken, listed, same⟩ := List.mem_map.mp owner
  obtain ⟨other, theirs, rfl⟩ := List.mem_map.mp listed
  obtain ⟨there, notOwner⟩ := List.mem_filter.mp mine
  obtain ⟨here, isOwner⟩ := List.mem_filter.mp theirs
  rw [List.map_map] at distinct
  obtain rfl := List.inj_on_of_nodup_map distinct here there same
  exact of_decide_eq_true notOwner (of_decide_eq_true isOwner)

theorem map_filterMap_sublist {α β γ : Type} {f : α → Option β} {g : β → γ} {h : α → γ}
    (same : ∀ x y, f x = some y → g y = h x) (l : List α) :
    ((l.filterMap f).map g).Sublist (l.map h) := by
  induction l with
  | nil => exact List.Sublist.refl _
  | cons x l ih =>
      rw [List.filterMap_cons]
      cases found : f x with
      | none => exact ih.cons _
      | some y =>
          rw [List.map_cons, List.map_cons, same x y found]
          exact ih.cons_cons _

theorem call_of_problemOf {states : String → Option CredentialState}
    {target : ToolCall × GuardedTool} {problem : Problem}
    (found : problemOf policy states target = some problem) : problem.call = target.1 := by
  obtain ⟨state, _, shown⟩ := Option.bind_eq_some_iff.mp found
  split at shown
  · rw [← Option.some.inj shown]
  · split at shown
    · rw [← Option.some.inj shown]
    · cases shown

theorem problems_sublist (policy : Policy) (read : Read) (calls : List ToolCall) :
    ((problems policy read calls).map Problem.call).Sublist calls := by
  have targets : ((calls.filterMap fun call =>
      (policy.guarded call.name).map (call, ·)).map Prod.fst).Sublist (calls.map id) := by
    apply map_filterMap_sublist
    intro call target guarded
    obtain ⟨tool, _, rfl⟩ := Option.map_eq_some_iff.mp guarded
    rfl
  rw [List.map_id] at targets
  rw [problems]
  split
  · exact List.nil_sublist _
  · split
    · exact List.nil_sublist _
    · exact (map_filterMap_sublist (fun _ _ => call_of_problemOf) _).trans targets

/-- What the messages are once the owners are told. -/
structure Told (policy : Policy) (answers : List Json) (calls : List ToolCall)
    (passes : List Pass) (pass : Pass) (messages after : List ToolMessage) : Prop where
  sound : Sound policy answers calls (passes ++ [pass]) after
  owners : ∀ call ∈ pass.owners, Answered after call
  grows : ∀ call, Answered messages call → Answered after call
  open_ : ∀ call ∈ pass.own.map Problem.call, ¬Answered messages call → ¬Answered after call

section Branches

variable {after : List ToolMessage} {payload : Option Payload} {count : ℕ}
  (inv : Inv policy answers calls pending passes interrupts attempt pass messages)
  (allows : Pending policy answered calls pending)
  (told : Told policy answers calls passes pass messages after)

include inv in
theorem Inv.ownListed : (pass.own.map Problem.call).Sublist pending :=
  ((List.filter_sublist.map Problem.call).trans inv.found).trans inv.looked

include inv allows in
theorem Inv.tells : Told policy answers calls passes pass messages (messages ++
    (unanswered answered messages pass.owners).map (refusal "owner_reconnect_required")) := by
  have listed : pass.owners.Sublist pending :=
    ((List.filter_sublist.map Problem.call).trans inv.found).trans inv.looked
  constructor
  case sound =>
      exact add_unanswered allows inv.sound listed fun call broken =>
        .owner (List.mem_append_right _ List.mem_cons_self) broken
  case owners =>
      intro call broken
      exact answered_of_unanswered broken (allows.openCall (listed.subset broken))
  case grows => exact fun call already => answered_append.mpr (.inl already)
  case open_ =>
  intro call own unanswered
  have distinct := allows.distinct.sublist
    (((inv.found.trans inv.looked).trans allows.listed).map ToolCall.id)
  rw [answered_append, not_or]
  exact ⟨unanswered, fun owner =>
    own_not_owner distinct own ((List.filter_sublist.map ToolCall.id).subset owner)⟩

include told in
/-- The calls with a broken connection are answered when those that the runner can fix are. -/
theorem Told.settled {final : List ToolMessage}
    (grows : ∀ call, Answered after call → Answered final call)
    (own : ∀ call ∈ pass.own.map Problem.call, Answered final call) :
    ∀ call ∈ pass.problems.map Problem.call, Answered final call := by
  intro call broken
  rcases mem_owners_or_own broken with owner | mine
  · exact grows call (told.owners call owner)
  · exact own call mine

include inv allows told in
theorem Inv.rests (nothing : pass.own = [])
    (silent : policy.mode ≠ .interrupt ∨ answers.length ≤ attempt) :
    Obeys policy answers calls ⟨passes ++ [pass], interrupts, finish after false⟩ := by
  have undecided (mode : policy.mode = .interrupt) :=
    inv.undecided (silent.resolve_left fun other => other mode)
  apply inv.ends allows told.sound inv.attempts told.grows
  case settled =>
      apply told.settled fun _ => id
      rw [nothing]
      exact List.forall_mem_nil _
  case skip => exact fun mode skip => absurd skip (undecided mode).1
  case cancel => exact fun mode cancel => absurd cancel (undecided mode).2

include inv allows told in
theorem Inv.refuses (mode : policy.mode = .refuse) :
    Obeys policy answers calls ⟨passes ++ [pass], interrupts,
      finish (after ++ (pass.own.map Problem.call).map (refusal "auth_required")) false⟩ := by
  have listed := inv.ownListed
  have uninterrupted : policy.mode ≠ .interrupt := by simp [mode]
  have sound : Sound policy answers calls (passes ++ [pass])
      (after ++ (pass.own.map Problem.call).map (refusal "auth_required")) := by
    apply told.sound.add
    · exact allows.distinct.sublist ((listed.trans allows.listed).map _)
    · intro call own
      have given := listed.subset own
      exact ⟨allows.listed.subset given,
        told.open_ call own (inv.fresh uninterrupted call given),
        .refused mode (List.mem_append_right _ List.mem_cons_self) own⟩
  have grows (call : ToolCall) (already : Answered after call) : Answered (after ++
      (pass.own.map Problem.call).map (refusal "auth_required")) call :=
    answered_append.mpr (.inl already)
  apply inv.ends allows sound inv.attempts fun call already => grows call (told.grows call already)
  case settled =>
      exact told.settled grows fun call own => answered_append.mpr (.inr (List.mem_map_of_mem own))
  case skip => exact fun interrupts => absurd interrupts uninterrupted
  case cancel => exact fun interrupts => absurd interrupts uninterrupted

include inv allows told in
theorem Inv.skips {issued : List (Option Payload × ℕ)}
    (attempts : issued.map Prod.snd = List.range' 1 count) (mode : policy.mode = .interrupt)
    (skip : lastDecision answers = some .skip) :
    Obeys policy answers calls ⟨passes ++ [pass], issued, finish (after ++
      (unanswered answered after (pass.asked policy pending)).map (refusal "skipped"))
        false⟩ := by
  have listed : (pass.asked policy pending).Sublist pending := asked_sublist inv.looked inv.found
  have last : (passes ++ [pass]).getLast? = some pass := List.getLast?_concat ..
  have reasons : ∀ call ∈ pass.asked policy pending,
      Reason policy answers (passes ++ [pass]) call "skipped" := by
    intro call given
    rw [Pass.asked] at given
    split at given
    next repaired => exact .watched mode skip last repaired (List.mem_filter.mp given).2
    next => exact .skipped mode skip last given
  have answers (call : ToolCall) (given : call ∈ pass.asked policy pending) :
      Answered (after ++ (unanswered answered after (pass.asked policy pending)).map
        (refusal "skipped")) call :=
    answered_of_unanswered given (allows.openCall (listed.subset given))
  apply inv.ends allows (add_unanswered allows told.sound listed reasons) attempts
  case grows => exact fun call already => answered_append.mpr (.inl (told.grows call already))
  case settled =>
      exact told.settled (fun call already => answered_append.mpr (.inl already))
        fun call own => answers call (mem_asked own)
  case skip => exact fun _ _ => ⟨rfl, answers⟩
  case cancel => exact fun _ cancel => absurd (skip.symm.trans cancel) (by decide)

include inv allows told in
theorem Inv.cancels {issued : List (Option Payload × ℕ)}
    (attempts : issued.map Prod.snd = List.range' 1 count) (mode : policy.mode = .interrupt)
    (cancel : lastDecision answers = some .cancel) :
    Obeys policy answers calls ⟨passes ++ [pass], issued, finish (after ++
      (unanswered answered after pending).map (refusal "cancelled")) true⟩ := by
  have answers (call : ToolCall) (given : call ∈ pending) : Answered (after ++
      (unanswered answered after pending).map (refusal "cancelled")) call :=
    answered_of_unanswered given (allows.openCall given)
  apply inv.ends allows (add_unanswered allows told.sound (List.Sublist.refl _)
    fun _ _ => .cancelled mode cancel) attempts
  case grows => exact fun call already => answered_append.mpr (.inl (told.grows call already))
  case settled =>
      exact fun call broken => answers call (inv.looked.subset (inv.found.subset broken))
  case skip => exact fun _ skip => absurd (cancel.symm.trans skip) (by decide)
  case cancel => exact fun _ _ => ⟨rfl, answers⟩

include inv told in
/-- An answer that is neither a skip nor a cancel has the connections read again. -/
theorem Inv.next {issued : List (Option Payload × ℕ)} (read : Read)
    (attempts : issued.map Prod.snd = List.range' 1 answers.length)
    (mode : policy.mode = .interrupt)
    (undecided : lastDecision answers ≠ some .skip ∧ lastDecision answers ≠ some .cancel) :
    Inv policy answers calls pending (passes ++ [pass]) issued answers.length
      ⟨pass.asked policy pending, problems policy read (pass.asked policy pending)⟩ after where
  sound := told.sound.concat (fun _ => undecided) _
  looked := asked_sublist inv.looked inv.found
  found := problems_sublist _ _ _
  attempts := attempts
  earlier := by
    intro call old notAsked reading broken
    rw [lastReading_concat] at reading
    split at reading
    · obtain rfl := Option.some.inj reading
      rcases mem_owners_or_own broken with owner | own
      · exact told.owners call owner
      · exact absurd (mem_asked own) notAsked
    · exact told.grows call (inv.earlier call old ‹_› reading broken)
  live := fun decided => (decided.elim undecided.1 undecided.2).elim
  fresh := fun other => absurd mode other
  refused := fun call member given => told.grows call (inv.refused call member given)

end Branches

theorem Inv.obeys {passes : List Pass} {interrupts : List (Option Payload × ℕ)} {attempt : ℕ}
    {pass : Pass} {messages : List ToolMessage}
    (inv : Inv policy answers calls pending passes interrupts attempt pass messages)
    (allows : Pending policy answered calls pending) (reads : ℕ → Read) :
    Obeys policy answers calls
      (loop policy answers answered pending reads passes interrupts attempt pass messages) := by
  rw [loop]
  split
  case isTrue idle =>
      apply inv.ends allows inv.sound inv.attempts fun _ => id
      case settled =>
          rw [idle.1]
          exact List.forall_mem_nil _
      case skip => exact fun _ skip => absurd skip (inv.undecided idle.2).1
      case cancel => exact fun _ cancel => absurd cancel (inv.undecided idle.2).2
  case isFalse =>
  have told := inv.tells allows
  generalize messages ++ (unanswered answered messages pass.owners).map
    (refusal "owner_reconnect_required") = after at told ⊢
  dsimp only
  split
  case isTrue nothing => exact inv.rests allows told (own_of_bundle nothing.1) nothing.2
  case isFalse asks =>
  split
  case h_1 payload mode _ =>
      apply obeys_of_not_returns id rfl inv.attempts
      intro interrupts
      rw [mode] at interrupts
      cases interrupts
  case h_2 mode => exact inv.refuses allows told mode
  case h_3 unrefused unblocked =>
  have mode : policy.mode = .interrupt := by
    by_contra other
    cases items : bundle (pass.own.map fun problem =>
      (problem.reason, problem.item)) with
    | none => exact asks ⟨items, .inl other⟩
    | some payload =>
        cases given : policy.mode with
        | interrupt => exact other given
        | raise => exact unblocked payload given items
        | refuse => exact unrefused given
  generalize bundle (pass.own.map fun problem => (problem.reason, problem.item)) =
    payload
  split
  case h_1 attempts unread =>
      rcases Nat.lt_or_ge attempt answers.length with waiting | all
      · rw [ask_of_lt waiting] at unread
        cases unread
      · rw [ask_of_le all] at unread
        obtain ⟨rfl, _⟩ := Prod.mk.inj unread
        exact obeys_of_not_returns id rfl (inv.issues payload 1) fun _ =>
          inv.undecided all
  case h_2 attempts decision latest returned =>
  obtain ⟨waiting, rfl, last, rfl⟩ := ask_eq_some returned
  have issued := inv.issues payload (answers.length - attempt)
  rw [Nat.add_sub_cancel' waiting.le] at issued
  have next := inv.next told (reads (passes.length + 1)) issued mode
  rw [← last] at next
  cases decision with
  | none => exact (next ⟨by decide, by decide⟩).obeys allows reads
  | some decision =>
      cases decision with
      | retry => exact (next ⟨by decide, by decide⟩).obeys allows reads
      | skip => exact inv.skips allows told issued mode last.symm
      | cancel => exact inv.cancels allows told issued mode last.symm
termination_by answers.length - attempt
decreasing_by
  all_goals omega

end Steps

/-- The refusals of the calls that the run may not make. -/
theorem refused_sublist (policy : Policy) (calls : List ToolCall) :
    ((calls.filterMap fun call => (deniedCode policy call).map (refusal · call)).map
      ToolMessage.toolCallId).Sublist (calls.map ToolCall.id) := by
  apply map_filterMap_sublist
  intro call message denied
  obtain ⟨code, _, rfl⟩ := Option.map_eq_some_iff.mp denied
  rfl

/-- On a step with calls of distinct ids, every call without a result is answered at most once and
for a reason, and the last answer is obeyed. -/
theorem aafterModel_obeys (policy : Policy) (reads : ℕ → Read) (answers : List Json)
    {messages : List Message} {toolCalls : List ToolCall} {answered : List String}
    (step : lastStep messages = some (toolCalls, answered)) (called : toolCalls ≠ [])
    (distinct : (toolCalls.map ToolCall.id).Nodup) :
    Obeys policy answers (toolCalls.filter (·.id ∉ answered))
      (aafterModel policy reads answers messages) := by
  cases toolCalls with
  | nil => exact absurd rfl called
  | cons first others =>
      rw [aafterModel, step]
      dsimp only
      generalize first :: others = toolCalls at distinct ⊢
      have open_ : ∀ call ∈ toolCalls.filter (·.id ∉ answered), call.id ∉ answered :=
        fun call member => of_decide_eq_true (List.mem_filter.mp member).2
      have ids : ((toolCalls.filter (·.id ∉ answered)).map ToolCall.id).Nodup :=
        distinct.sublist (List.filter_sublist.map ToolCall.id)
      generalize toolCalls.filter (·.id ∉ answered) = calls at open_ ids ⊢
      have denied : ∀ call ∈ calls, ∀ code, deniedCode policy call = some code →
          Answered (calls.filterMap fun call => (deniedCode policy call).map (refusal · call))
            call := by
        intro call member code given
        exact List.mem_map.mpr ⟨refusal code call, List.mem_filterMap.mpr
          ⟨call, member, by rw [given]; rfl⟩, rfl⟩
      have sound : ∀ passes, Sound policy answers calls passes
          (calls.filterMap fun call => (deniedCode policy call).map (refusal · call)) := by
        intro passes
        refine ⟨ids.sublist (refused_sublist policy calls), ?_⟩
        intro message member
        obtain ⟨call, listed, found⟩ := List.mem_filterMap.mp member
        obtain ⟨code, denies, rfl⟩ := Option.map_eq_some_iff.mp found
        exact ⟨call, listed, code, rfl, .denied denies⟩
      generalize calls.filterMap (fun call => (deniedCode policy call).map (refusal · call)) =
        refused at denied sound ⊢
      have unrefused : ∀ call ∈ calls.filter (·.id ∉ refused.map ToolMessage.toolCallId),
          ¬Answered refused call :=
        fun call given answered =>
          of_decide_eq_true (p := call.id ∉ _) (List.mem_filter.mp given).2 answered
      have allows : Pending policy answered calls
          (calls.filter (·.id ∉ refused.map ToolMessage.toolCallId)) := by
        refine ⟨List.filter_sublist, ids, open_, ?_⟩
        intro call given
        by_contra code
        obtain ⟨code, given'⟩ := Option.ne_none_iff_exists'.mp code
        exact unrefused call given (denied call (List.mem_filter.mp given).1 code given')
      refine Inv.obeys ?_ allows reads
      constructor
      case sound => exact sound _
      case looked => exact List.Sublist.refl _
      case found => exact problems_sublist _ _ _
      case attempts => rfl
      case earlier =>
          intro call old _ reading
          cases reading
      case live =>
          intro decided
          cases answers with
          | nil => rcases decided with none | none <;> cases none
          | cons => exact Nat.succ_pos _
      case fresh => exact fun _ => unrefused
      case refused =>
          intro call member given
          by_contra unanswered
          exact given (List.mem_filter.mpr ⟨member, decide_eq_true unanswered⟩)

section Runs

def search : ToolCall := ⟨"1", "search"⟩

def notify : ToolCall := ⟨"2", "notify"⟩

/-- Both tools are guarded, each with a credential of its own that the runner can fix. -/
def watching (mode : Mode) : Policy where
  mode := mode
  denied := fun _ => none
  guarded := fun name => some ⟨name, "mcp", name, name, "shared", none⟩
  actorUserId := some "u"

def repaired : Read := fun _ => some fun _ => some ⟨"active", some "u", "key", none⟩

def expired : Read := fun _ => some fun id =>
  some ⟨if id = "search" then "expired" else "active", some "u", "key", none⟩

theorem watching_obeys : Obeys (watching .interrupt) [.str "skip"]
    ([search, notify].filter (·.id ∉ []))
    (aafterModel (watching .interrupt) (fun _ => repaired) [.str "skip"]
      [.ai [search, notify]]) :=
  aafterModel_obeys _ _ _ rfl (List.cons_ne_nil _ _) (by decide)

theorem watching_skips :
    (aafterModel (watching .interrupt) (fun _ => expired) [] [.ai [search, notify]]).interrupts =
        [(some ⟨"expired", [⟨"mcp", "search", ["search"], "search", .me, "api_key"⟩]⟩, 1)] ∧
      (aafterModel (watching .interrupt) (fun _ => repaired) [.str "skip"]
        [.ai [search, notify]]).ending =
          .returned (some ⟨[refusal "skipped" search, refusal "skipped" notify], false⟩) ∧
      aafterModel (watching .refuse) (fun _ => expired) [.str "cancel"] [.ai [search, notify]] =
        ⟨[⟨[search, notify], [⟨search, "expired",
          ⟨"mcp", "search", ["search"], "search", .me, "api_key"⟩⟩]⟩], [],
          .returned (some ⟨[refusal "auth_required" search], false⟩)⟩ := by
  have step : lastStep [.ai [search, notify]] = some ([search, notify], []) := rfl
  simp only [aafterModel, step]
  refine ⟨?_, ?_, ?_⟩
  · rw [loop]
    rfl
  · rw [loop]
    rfl
  · rw [loop]
    rfl

end Runs

end NaturalMold.ConnectionGuard
