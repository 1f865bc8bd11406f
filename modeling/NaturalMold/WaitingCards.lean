import NaturalMold.HitlInterrupts

/-! # What the cards show and hide -/

namespace NaturalMold.HitlInterrupts

def Answered (messages : List BaseMessage) (call : ToolCall) : Prop :=
  ∃ id ∈ call.id, id ∈ completedToolCallIds messages

instance (messages : List BaseMessage) (call : ToolCall) : Decidable (Answered messages call) :=
  inferInstanceAs (Decidable (∃ id ∈ call.id, _))

def earlierMessages : List BaseMessage → List BaseMessage
  | [] => []
  | message :: messages =>
      if messages.any BaseMessage.isAI then message :: earlierMessages messages else []

def lastAssistant? : List BaseMessage → Option AIMessage
  | [] => none
  | message :: messages =>
      (lastAssistant? messages).or
        (match message with
          | .ai message => some message
          | .tool .. | .other .. => none)

/-- Each action stands for a call of the last message that has no result yet. -/
def PausedOn (messages : List BaseMessage) (payloads : List StandardInterruptPayload) : Prop :=
  ∃ message ∈ lastAssistant? messages, ∀ payload ∈ payloads, ∀ action ∈ payload.actionRequests,
    ∃ call ∈ message.calls, call.name = action.name ∧ sameArgs call.args action.args ∧
      ¬ Answered messages call

structure WaitingShown (messages : List BaseMessage) (payloads : List StandardInterruptPayload)
    (resolved : List ResolvedInterruptToolCall) : Prop where
  active : activeInterruptPayloads payloads messages resolved = payloads
  calls : ∀ message : AIMessage, .ai message ∈ earlierMessages messages →
    ∀ call ∈ message.calls, Answered messages call →
      ∃ kept, .ai kept ∈ stripInterruptedRawToolCalls messages payloads resolved ∧
        kept.id = message.id ∧ kept.content = message.content ∧ call ∈ kept.calls
  results : ((earlierMessages messages).filter BaseMessage.isTool).Sublist
    (stripInterruptedRawToolCalls messages payloads resolved)

/-- No interrupt repeats calls that have a result, none was decided in this view, and no call
of an earlier message that has a result repeats an action that has a card. -/
structure Unrepeated (messages : List BaseMessage) (payloads : List StandardInterruptPayload)
    (resolved : List ResolvedInterruptToolCall) : Prop where
  actions : ∀ payload ∈ payloads, completedToolCallIds messages ≠ [] →
    ∃ action ∈ payload.actionRequests, ∀ message : AIMessage, .ai message ∈ messages →
      ∀ call ∈ message.calls, Answered messages call → call.name = action.name →
        ¬ sameArgs call.args action.args
  undecided : ∀ payload ∈ payloads, ∀ item ∈ resolved,
    resolvedInterruptId item ≠ interruptIdentity payload
  calls : ∀ message : AIMessage, .ai message ∈ earlierMessages messages →
    ∀ call ∈ message.calls, Answered messages call →
      interruptedActionKey call.name call.args ∉ interruptedRawToolCallKeys payloads resolved

section

variable {messages : List BaseMessage} {payloads : List StandardInterruptPayload}
  {resolved : List ResolvedInterruptToolCall} {payload : StandardInterruptPayload}

theorem answers_iff {action : ActionRequest} {call : ToolCall} :
    answers (completedToolCallIds messages) action call ↔
      Answered messages call ∧ call.name = action.name ∧ sameArgs call.args action.args := by
  unfold answers Answered
  rw [Bool.and_eq_true, Bool.and_eq_true, Option.any_eq_true, decide_eq_true_eq, and_assoc]
  simp only [List.contains_iff_mem, Option.mem_def]

theorem actionHasCompletedToolResult_iff {action : ActionRequest} :
    actionHasCompletedToolResult action messages (completedToolCallIds messages) ↔
      ∃ message : AIMessage, .ai message ∈ messages ∧ ∃ call ∈ message.calls,
        Answered messages call ∧ call.name = action.name ∧ sameArgs call.args action.args := by
  unfold actionHasCompletedToolResult
  rw [List.any_eq_true]
  constructor
  · rintro ⟨message, member, completed⟩
    cases message with
    | ai message =>
        obtain ⟨call, called, same⟩ := List.any_eq_true.mp completed
        exact ⟨message, member, call, called, answers_iff.mp same⟩
    | tool => cases completed
    | other => cases completed
  · rintro ⟨message, member, call, called, same⟩
    exact ⟨_, member, List.any_eq_true.mpr ⟨call, called, answers_iff.mpr same⟩⟩

theorem interruptPayloadResolvedByMessages_iff :
    interruptPayloadResolvedByMessages messages payload ↔
      completedToolCallIds messages ≠ [] ∧ ∀ action ∈ payload.actionRequests,
        ∃ message : AIMessage, .ai message ∈ messages ∧ ∃ call ∈ message.calls,
          Answered messages call ∧ call.name = action.name ∧ sameArgs call.args action.args := by
  unfold interruptPayloadResolvedByMessages
  dsimp only
  split
  case isTrue empty =>
      rw [List.isEmpty_iff] at empty
      exact iff_of_false Bool.false_ne_true fun completed => completed.1 empty
  case isFalse present =>
  rw [List.isEmpty_iff] at present
  rw [List.all_eq_true]
  simp only [actionHasCompletedToolResult_iff]
  exact (and_iff_right present).symm

theorem activeInterruptPayloads_eq_iff :
    activeInterruptPayloads payloads messages resolved = payloads ↔
      ∀ payload ∈ payloads, ¬ interruptPayloadResolvedByMessages messages payload ∧
        ∀ item ∈ resolved, resolvedInterruptId item ≠ interruptIdentity payload := by
  unfold activeInterruptPayloads
  dsimp only
  rw [List.filter_eq_self]
  simp only [Bool.not_eq_true', ← Bool.not_eq_true, List.contains_iff_mem, List.mem_append,
    List.mem_map, List.mem_filter, not_or, not_exists, not_and]
  constructor
  · intro shown payload member
    exact ⟨fun completed => (shown payload member).1 payload ⟨member, completed⟩ rfl,
      (shown payload member).2⟩
  · intro shown payload member
    refine ⟨?_, (shown payload member).2⟩
    rintro other ⟨otherMember, completed⟩
    exact absurd completed (shown other otherMember).1

variable {keys hiddenIds : List String}

theorem exists_mem_stripMessages {message : AIMessage} {call : ToolCall}
    (member : .ai message ∈ messages) (called : call ∈ message.calls)
    (shown : interruptedActionKey call.name call.args ∉ keys) :
    ∃ kept, .ai kept ∈ stripMessages keys hiddenIds messages ∧ kept.id = message.id ∧
      kept.content = message.content ∧ call ∈ kept.calls := by
  induction messages generalizing hiddenIds with
  | nil => cases member
  | cons first messages ih =>
      rcases List.mem_cons.mp member with rfl | later
      · have stays : call ∈ message.calls.filter fun call =>
            !keys.contains (interruptedActionKey call.name call.args) := by
          rw [List.mem_filter, Bool.not_eq_true', ← Bool.not_eq_true, List.contains_iff_mem]
          exact ⟨called, shown⟩
        simp only [stripMessages]
        split
        · rw [if_neg]
          · exact ⟨_, List.mem_cons_self, rfl, rfl, stays⟩
          · rw [Bool.and_eq_true, List.isEmpty_iff]
            exact fun both => List.ne_nil_of_mem stays both.1
        · exact ⟨message, List.mem_cons_self, rfl, rfl, called⟩
      · cases first with
        | ai first =>
            simp only [stripMessages]
            split
            · split
              · exact ih later
              · obtain ⟨kept, keptMember, same⟩ := ih later
                exact ⟨kept, List.mem_cons_of_mem _ keptMember, same⟩
            · obtain ⟨kept, keptMember, same⟩ := ih later
              exact ⟨kept, List.mem_cons_of_mem _ keptMember, same⟩
        | tool id content toolCallId =>
            simp only [stripMessages]
            split
            · exact ih later
            · obtain ⟨kept, keptMember, same⟩ := ih later
              exact ⟨kept, List.mem_cons_of_mem _ keptMember, same⟩
        | other id content =>
            simp only [stripMessages]
            obtain ⟨kept, keptMember, same⟩ := ih later
            exact ⟨kept, List.mem_cons_of_mem _ keptMember, same⟩

theorem not_mem_keys_of_mem_stripMessages {message : AIMessage} {call : ToolCall}
    (member : .ai message ∈ stripMessages keys hiddenIds messages)
    (called : call ∈ message.calls) : interruptedActionKey call.name call.args ∉ keys := by
  induction messages generalizing hiddenIds with
  | nil => cases member
  | cons first messages ih =>
      cases first with
      | ai first =>
          simp only [stripMessages] at member
          split at member
          case isTrue some =>
              split at member
              · exact ih member
              · rcases List.mem_cons.mp member with same | later
                · obtain rfl := BaseMessage.ai.inj same
                  have stays := (List.mem_filter.mp called).2
                  rwa [Bool.not_eq_true', ← Bool.not_eq_true, List.contains_iff_mem] at stays
                · exact ih later
          case isFalse all =>
          rcases List.mem_cons.mp member with same | later
          · obtain rfl := BaseMessage.ai.inj same
            have stays := List.length_filter_eq_length_iff.mp (not_not.mp all) call called
            rwa [Bool.not_eq_true', ← Bool.not_eq_true, List.contains_iff_mem] at stays
          · exact ih later
      | tool id content toolCallId =>
          simp only [stripMessages] at member
          split at member
          · exact ih member
          · rcases List.mem_cons.mp member with same | later
            · cases same
            · exact ih later
      | other id content =>
          simp only [stripMessages] at member
          rcases List.mem_cons.mp member with same | later
          · cases same
          · exact ih later

theorem results_sublist_stripMessages (completedIds : List String)
    (shown : ∀ message : AIMessage, .ai message ∈ earlierMessages messages →
      ∀ call ∈ message.calls, (∃ id ∈ call.id, id ∈ completedIds) →
        interruptedActionKey call.name call.args ∉ keys)
    (completed : ∀ id ∈ completedToolCallIds messages, id ∈ completedIds)
    (unhidden : ∀ id ∈ hiddenIds, id ∉ completedIds) :
    ((earlierMessages messages).filter BaseMessage.isTool).Sublist
      (stripMessages keys hiddenIds messages) := by
  induction messages generalizing hiddenIds with
  | nil => exact List.nil_sublist _
  | cons first messages ih =>
      by_cases followed : messages.any BaseMessage.isAI
      case neg =>
          rw [earlierMessages, if_neg followed]
          exact List.nil_sublist _
      case pos =>
      rw [earlierMessages, if_pos followed] at shown ⊢
      have rest {ids : List String} (unhidden : ∀ id ∈ ids, id ∉ completedIds) :
          ((earlierMessages messages).filter BaseMessage.isTool).Sublist
            (stripMessages keys ids messages) := by
        apply ih
        · exact fun message member => shown message (List.mem_cons_of_mem _ member)
        · intro id member
          apply completed
          unfold completedToolCallIds at member ⊢
          rw [List.filterMap_cons]
          split
          · exact member
          · exact List.mem_cons_of_mem _ member
        · exact unhidden
      cases first with
      | ai first =>
          have stillUnhidden : ∀ id ∈ hiddenIds ++ (first.calls.filter fun call =>
              keys.contains (interruptedActionKey call.name call.args)).filterMap ToolCall.id,
              id ∉ completedIds := by
            intro id member
            rcases List.mem_append.mp member with old | new
            · exact unhidden id old
            · obtain ⟨call, hidden, ofCall⟩ := List.mem_filterMap.mp new
              rw [List.mem_filter, List.contains_iff_mem] at hidden
              exact fun answered =>
                shown first List.mem_cons_self call hidden.1 ⟨id, ofCall, answered⟩ hidden.2
          rw [List.filter_cons_of_neg Bool.false_ne_true]
          simp only [stripMessages]
          split
          · split
            · exact rest stillUnhidden
            · exact (rest stillUnhidden).cons _
          · exact (rest stillUnhidden).cons _
      | tool id content toolCallId =>
          rw [List.filter_cons_of_pos rfl]
          simp only [stripMessages]
          rw [if_neg]
          · exact (rest unhidden).cons_cons _
          · rw [Option.any_eq_true]
            rintro ⟨answered, ofMessage, hidden⟩
            rw [List.contains_iff_mem] at hidden
            apply unhidden answered hidden
            apply completed
            exact List.mem_filterMap.mpr ⟨_, List.mem_cons_self, ofMessage⟩
      | other id content =>
          rw [List.filter_cons_of_neg Bool.false_ne_true]
          simp only [stripMessages]
          exact (rest unhidden).cons _

theorem earlier_sublist : (earlierMessages messages).Sublist messages := by
  induction messages with
  | nil => exact List.nil_sublist _
  | cons first messages ih =>
      unfold earlierMessages
      split
      · exact ih.cons_cons _
      · exact List.nil_sublist _

/-- The waiting interrupts and the completed calls are told apart exactly when none repeats
the other. -/
theorem waitingShown_iff : WaitingShown messages payloads resolved ↔
    Unrepeated messages payloads resolved := by
  constructor
  · intro waiting
    have active := activeInterruptPayloads_eq_iff.mp waiting.active
    constructor
    case actions =>
        intro payload member present
        by_contra repeated
        push Not at repeated
        refine (active payload member).1 (interruptPayloadResolvedByMessages_iff.mpr
          ⟨present, fun action listed => ?_⟩)
        obtain ⟨message, said, call, called, answered, sameName, same⟩ := repeated action listed
        exact ⟨message, said, call, called, answered, sameName, same⟩
    case undecided => exact fun payload member => (active payload member).2
    case calls =>
    intro message earlier call called answered repeated
    obtain ⟨kept, keptMember, _, _, stays⟩ := waiting.calls message earlier call called answered
    unfold stripInterruptedRawToolCalls at keptMember
    dsimp only at keptMember
    rw [if_neg] at keptMember
    · exact not_mem_keys_of_mem_stripMessages keptMember stays repeated
    · rw [List.isEmpty_iff]
      exact List.ne_nil_of_mem repeated
  · intro unrepeated
    constructor
    case active =>
        rw [activeInterruptPayloads_eq_iff]
        intro payload member
        refine ⟨?_, unrepeated.undecided payload member⟩
        rw [interruptPayloadResolvedByMessages_iff]
        rintro ⟨present, completed⟩
        obtain ⟨action, listed, distinct⟩ := unrepeated.actions payload member present
        obtain ⟨message, said, call, called, answered, sameName, same⟩ := completed action listed
        exact distinct message said call called answered sameName same
    case calls =>
        intro message earlier call called answered
        have shown := unrepeated.calls message earlier call called answered
        unfold stripInterruptedRawToolCalls
        dsimp only
        split
        · exact ⟨message, earlier_sublist.subset earlier, rfl, rfl, called⟩
        · exact exists_mem_stripMessages (earlier_sublist.subset earlier) called shown
    case results =>
    unfold stripInterruptedRawToolCalls
    dsimp only
    split
    · exact List.filter_sublist.trans earlier_sublist
    · exact results_sublist_stripMessages (completedToolCallIds messages) unrepeated.calls
        (fun _ member => member) (fun _ member => absurd member List.not_mem_nil)

end

def sendMail : ActionRequest where
  name := "send_mail"
  args := [("to", .string "a@b.c")]

def sendMailMessage (callId : String) : AIMessage where
  id := none
  content := .string ""
  toolCalls := some [{ id := some callId, name := "send_mail", args := sendMail.args }]

/-- The same call in two turns; the first one has its result. -/
def repeatedCall : List BaseMessage :=
  [.ai (sendMailMessage "c1"), .tool none (.string "sent") (some "c1"),
    .other none (.string "again"), .ai (sendMailMessage "c2")]

def sendMailApproval : StandardInterruptPayload where
  interruptId := "i"
  actionRequests := [sendMail]

theorem sameArgs_self (args : Args) : sameArgs args args :=
  decide_eq_true rfl

/-- The graph is paused on the second call, whose card is not shown. -/
theorem repeatedCall_unshown : PausedOn repeatedCall [sendMailApproval] ∧
    ¬ WaitingShown repeatedCall [sendMailApproval] [] := by
  constructor
  · refine ⟨sendMailMessage "c2", rfl, ?_⟩
    intro payload member action listed
    obtain rfl := List.mem_singleton.mp member
    obtain rfl := List.mem_singleton.mp listed
    exact ⟨_, List.mem_cons_self, rfl, sameArgs_self _, by decide⟩
  · intro waiting
    have unresolved := (activeInterruptPayloads_eq_iff.mp waiting.active sendMailApproval
      List.mem_cons_self).1
    rw [interruptPayloadResolvedByMessages_iff] at unresolved
    refine unresolved ⟨by decide, ?_⟩
    intro action listed
    obtain rfl := List.mem_singleton.mp listed
    exact ⟨sendMailMessage "c1", List.mem_cons_self, _, List.mem_cons_self, by decide, rfl,
      sameArgs_self _⟩

end NaturalMold.HitlInterrupts
