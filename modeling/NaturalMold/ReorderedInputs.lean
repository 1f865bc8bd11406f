import NaturalMold.ConversationRunQueueSteps
import NaturalMold.StableOrders

/-!
# The order in which queued inputs are executed

The pending inputs of a conversation are listed and claimed by falling priority, and by position
within one priority.
-/

namespace NaturalMold.Conversations

open KeyedTables Fallible StableOrders

def listInputs (db : Database) (conversationId : Uuid) (context : OrgContext) :
    Except Raised (List ConversationRunInput) := do
  let _ ← lockOwnedConversation db conversationId context
  return (db.inputs.rows.filter fun input =>
    input.conversationId = conversationId).insertionSort QueuedBefore

def pendingOrder (db : Database) (conversationId : Uuid) (context : OrgContext) :
    List ConversationRunInput :=
  (pendingInputs db conversationId context).insertionSort QueuedBefore

def OnlyClaims (conversationId : Uuid) (context : OrgContext) : QueueAction → Prop
  | .run _ | .pauseQueue _ _ _ | .resumeQueue _ _ _ => True
  | .claimNextInput _ _ claimedIn claimer _ => claimedIn = conversationId ∧ claimer = context
  | _ => False

def claimedIds (db : Database) : QueueAction → List Uuid
  | .claimNextInput env denial conversationId context _ =>
      match claimNextInput env denial conversationId context db with
      | .ok (_, some claimed) => [claimed.input.id]
      | _ => []
  | _ => []

section

variable {db after : Database} {conversationId : Uuid} {context : OrgContext}

theorem listInputs_filter_pending {listed : List ConversationRunInput}
    (succeeded : listInputs db conversationId context = .ok listed) :
    listed.filter (fun input => OwnedInput context input ∧ input.status = .pending) =
      pendingOrder db conversationId context := by
  obtain ⟨_, _, returned⟩ := bind_eq_ok.mp succeeded
  obtain rfl := Except.ok.inj returned
  rw [filter_insertionSort, List.filter_filter, pendingOrder, pendingInputs]
  congr 2
  ext input
  by_cases inConversation : input.conversationId = conversationId <;> simp [inConversation]

theorem nodup_pendingInputs :
    ((pendingInputs db conversationId context).map ConversationRunInput.id).Nodup :=
  db.inputs.distinct.sublist (List.filter_sublist.map _)

theorem perm_pendingOrder : (pendingOrder db conversationId context).Perm
    (pendingInputs db conversationId context) :=
  List.perm_insertionSort QueuedBefore _

theorem nodup_pendingOrder :
    ((pendingOrder db conversationId context).map ConversationRunInput.id).Nodup :=
  (perm_pendingOrder.map _).nodup_iff.mpr nodup_pendingInputs

theorem pendingOrder_congr (same : after.inputs = db.inputs) :
    pendingOrder after conversationId context = pendingOrder db conversationId context := by
  rw [pendingOrder, pendingInputs, same]
  rfl

theorem filter_map_save {Row Key : Type*} [DecidableEq Key] {key : Row → Key} {test : Row → Bool}
    {new : Row} (unselected : test new = false) (rows : List Row) :
    (rows.map fun old => if key old = key new then new else old).filter test =
      (rows.filter test).filter fun row => key row ≠ key new := by
  induction rows with
  | nil => rfl
  | cons row rows ih =>
      rw [List.map_cons]
      by_cases same : key row = key new
      · rw [if_pos same, List.filter_cons_of_neg (by simp [unselected]), ih]
        by_cases selected : test row
        · rw [List.filter_cons_of_pos selected, List.filter_cons_of_neg (by simp [same])]
        · rw [List.filter_cons_of_neg selected]
      · rw [if_neg same]
        by_cases selected : test row
        · rw [List.filter_cons_of_pos selected, List.filter_cons_of_pos selected,
            List.filter_cons_of_pos (by simp [same]), ih]
        · rw [List.filter_cons_of_neg selected, List.filter_cons_of_neg selected, ih]

theorem pendingOrder_saveInput {new : ConversationRunInput} (left : new.status ≠ .pending) :
    pendingOrder (db.saveInput new) conversationId context =
      (pendingOrder db conversationId context).filter fun input => input.id ≠ new.id := by
  rw [pendingOrder, pendingInputs, pendingOrder, filter_insertionSort, pendingInputs]
  congr 1
  exact filter_map_save (by simp [left]) db.inputs.rows

theorem pendingOrder_claim {env : Environment} {denial : Option (Option BlockReason)}
    {claimed : ClaimedConversationInput}
    (succeeded : claimNextInput env denial conversationId context db =
      .ok (after, some claimed)) :
    (pendingOrder db conversationId context).map ConversationRunInput.id =
      claimed.input.id ::
        (pendingOrder after conversationId context).map ConversationRunInput.id := by
  obtain ⟨_, _, queued, _, _, _, _, _, found, bound⟩ := claimNextInput_eq_some succeeded
  obtain ⟨runs, _, _, _, _, inputEq, rfl⟩ := bindInput_eq_ok bound
  obtain ⟨rest, order⟩ : ∃ rest, pendingOrder db conversationId context = queued :: rest :=
    List.head?_eq_some_iff.mp found
  have distinct := @nodup_pendingOrder db conversationId context
  rw [order, List.map_cons, List.nodup_cons] at distinct
  have others : ∀ input ∈ rest, input.id ≠ queued.id := fun input member same =>
    distinct.1 (same ▸ List.mem_map_of_mem member)
  have sameId : claimed.input.id = queued.id := by rw [inputEq]
  have left : claimed.input.status ≠ .pending := by
    rw [inputEq]
    simp
  have unchanged : pendingOrder { db with runs := runs } conversationId context =
      pendingOrder db conversationId context := pendingOrder_congr rfl
  rw [pendingOrder_saveInput left, unchanged, order, sameId,
    List.filter_cons_of_neg (by simp), List.filter_eq_self.mpr (by simpa using others),
    List.map_cons]

theorem pendingOrder_stepQueue {action : QueueAction}
    (only : OnlyClaims conversationId context action) :
    claimedIds db action ++
        (pendingOrder (stepQueue db action) conversationId context).map ConversationRunInput.id =
      (pendingOrder db conversationId context).map ConversationRunInput.id := by
  have kept : ∀ {action : QueueAction}, claimedIds db action = [] →
      (∀ after, performQueue db action = .ok after → after.inputs = db.inputs) →
      claimedIds db action ++ (pendingOrder (stepQueue db action) conversationId context).map
          ConversationRunInput.id =
        (pendingOrder db conversationId context).map ConversationRunInput.id := by
    intro action nothing keeps
    rw [nothing, List.nil_append, stepQueue]
    split
    · next succeeded => rw [pendingOrder_congr (keeps _ succeeded)]
    · rfl
  cases action with
  | run action => exact kept rfl fun after succeeded => (performRun_keeps succeeded).2
  | pauseQueue env pausedIn pauser =>
      refine kept rfl fun after succeeded => ?_
      simp only [performQueue, pauseQueue, bind_eq_ok] at succeeded
      obtain ⟨_, _, _, _, returned⟩ := succeeded
      obtain rfl := Except.ok.inj returned
      rfl
  | resumeQueue env resumedIn resumer =>
      refine kept rfl fun after succeeded => ?_
      simp only [performQueue, resumeQueue, bind_eq_ok] at succeeded
      obtain ⟨_, _, _, _, returned⟩ := succeeded
      obtain rfl := Except.ok.inj returned
      rfl
  | claimNextInput env denial claimedIn claimer commitsUnclaimed =>
      obtain ⟨rfl, rfl⟩ := only
      rw [claimedIds, stepQueue, performQueue]
      cases outcome : claimNextInput env denial claimedIn claimer db with
      | error raised => rfl
      | ok result =>
          obtain ⟨after, claimed⟩ := result
          cases claimed with
          | some claimed => exact (pendingOrder_claim outcome).symm
          | none =>
              change [] ++ (pendingOrder (if commitsUnclaimed then after else db) _ _).map _ = _
              rw [List.nil_append]
              split
              · rw [pendingOrder_congr (claimNextInput_saves outcome).inputs]
              · rfl
  | _ => exact only.elim

theorem claimed_append_pendingOrder (db : Database) {actions : List QueueAction}
    (only : ∀ action ∈ actions, OnlyClaims conversationId context action) :
    StepRuns.outputs stepQueue claimedIds db actions ++
        (pendingOrder (StepRuns.run stepQueue db actions) conversationId context).map
          ConversationRunInput.id =
      (pendingOrder db conversationId context).map ConversationRunInput.id := by
  induction actions generalizing db with
  | nil => rfl
  | cons action actions ih =>
      obtain ⟨first, rest⟩ := List.forall_mem_cons.mp only
      rw [StepRuns.outputs, StepRuns.run_cons, List.append_assoc, ih _ rest,
        pendingOrder_stepQueue first]

end

def renumbered (position : ℕ) (inputIds : List Uuid) (input : ConversationRunInput) :
    ConversationRunInput :=
  if input.id ∈ inputIds then
    { input with
      position := position + inputIds.idxOf input.id
      revision := input.revision + 1 }
  else input

@[simp]
theorem renumbered_id (position : ℕ) (inputIds : List Uuid) (input : ConversationRunInput) :
    (renumbered position inputIds input).id = input.id := by
  rw [renumbered]
  split <;> rfl

@[simp]
theorem renumbered_priority (position : ℕ) (inputIds : List Uuid) (input : ConversationRunInput) :
    (renumbered position inputIds input).priority = input.priority := by
  rw [renumbered]
  split <;> rfl

theorem renumbered_position {position : ℕ} {inputIds : List Uuid} {input : ConversationRunInput}
    (listed : input.id ∈ inputIds) :
    (renumbered position inputIds input).position = position + inputIds.idxOf input.id := by
  rw [renumbered, if_pos listed]

def priorityOf (db : Database) (inputId : Uuid) : ℤ :=
  ((db.inputs.get? inputId).map ConversationRunInput.priority).getD 0

def PrioritizedBefore (db : Database) (first second : Uuid) : Prop :=
  priorityOf db second ≤ priorityOf db first

instance (db : Database) : DecidableRel (PrioritizedBefore db) :=
  fun _ _ => inferInstanceAs (Decidable (_ ≤ _))

instance (db : Database) : Std.Total (PrioritizedBefore db) where
  total first second := le_total (priorityOf db second) (priorityOf db first)

instance (db : Database) : IsTrans Uuid (PrioritizedBefore db) where
  trans _ _ _ first second := le_trans second first

def executionOrder (db : Database) (orderedInputIds : List Uuid) : List Uuid :=
  orderedInputIds.insertionSort (PrioritizedBefore db)

def RequestedBefore (db : Database) (orderedInputIds : List Uuid) (first second : Uuid) : Prop :=
  PrioritizedBefore db first second ∧ (PrioritizedBefore db second first →
    orderedInputIds.idxOf first < orderedInputIds.idxOf second)

section

variable {env : Environment} {db after : Database} {conversationId : Uuid} {context : OrgContext}
  {orderedInputIds : List Uuid} {expectedRevisions : List (Uuid × ℕ)}

theorem priorityOf_eq {input : ConversationRunInput} (member : input ∈ db.inputs.rows) :
    priorityOf db input.id = input.priority := by
  rw [priorityOf, Table.get?_eq_some_iff.mpr ⟨member, rfl⟩]
  rfl

theorem rows_reorderFrom {position : ℕ} {inputIds : List Uuid} (distinct : inputIds.Nodup)
    (succeeded : reorderFrom expectedRevisions position inputIds db = .ok after) :
    after.inputs.rows = db.inputs.rows.map (renumbered position inputIds) := by
  induction inputIds generalizing position db with
  | nil =>
      obtain rfl := Except.ok.inj succeeded
      have unchanged : renumbered position [] = id := by
        ext1 input
        rw [renumbered, if_neg List.not_mem_nil, id]
      rw [unchanged, List.map_id]
  | cons first rest ih =>
      rw [reorderFrom] at succeeded
      split at succeeded
      case h_1 => cases succeeded
      case h_2 item found =>
      obtain ⟨member, rfl⟩ := Table.get?_eq_some_iff.mp found
      simp only [bind_eq_ok, ensure_eq_ok] at succeeded
      obtain ⟨_, _, remaining⟩ := succeeded
      obtain ⟨notLater, restDistinct⟩ := List.nodup_cons.mp distinct
      rw [ih restDistinct remaining, Database.saveInput, Table.save, List.map_map]
      apply List.map_congr_left
      intro input listed
      rw [Function.comp_apply]
      by_cases same : input.id = item.id
      · obtain rfl := db.inputs.eq_of_key_eq listed member same
        rw [if_pos rfl, renumbered, if_neg notLater, renumbered, if_pos List.mem_cons_self,
          List.idxOf_cons_self]
        rfl
      · rw [if_neg same, renumbered, renumbered]
        by_cases later : input.id ∈ rest
        · rw [if_pos later, if_pos (List.mem_cons_of_mem _ later),
            List.idxOf_cons_ne _ (Ne.symm same)]
          congr 1
          omega
        · rw [if_neg later, if_neg (by simp [same, later])]

theorem reorderPendingInputs_rows
    (succeeded : reorderPendingInputs env conversationId context orderedInputIds
      expectedRevisions db = .ok after) :
    orderedInputIds.Nodup ∧
      (orderedInputIds.Perm
        ((pendingInputs db conversationId context).map ConversationRunInput.id)) ∧
      after.inputs.rows = db.inputs.rows.map (renumbered 1 orderedInputIds) := by
  simp only [reorderPendingInputs, bind_eq_ok, ensure_eq_ok] at succeeded
  obtain ⟨_, _, _, _, _, ⟨distinct, known, complete⟩, reordered⟩ := succeeded
  refine ⟨distinct, ?_, rows_reorderFrom distinct reordered⟩
  exact (List.perm_ext_iff_of_nodup distinct nodup_pendingInputs).mpr fun inputId =>
    ⟨known inputId, complete inputId⟩

theorem pendingInputs_renumbered
    (rows : after.inputs.rows = db.inputs.rows.map (renumbered 1 orderedInputIds)) :
    pendingInputs after conversationId context =
      (pendingInputs db conversationId context).map (renumbered 1 orderedInputIds) := by
  rw [pendingInputs, rows, List.filter_map, pendingInputs]
  congr 2
  ext input
  rw [Function.comp_apply, renumbered]
  split <;> rfl

/-- After a reordering the pending inputs are claimed in the requested order, those of higher
priority first. -/
theorem pendingOrder_reordered
    (succeeded : reorderPendingInputs env conversationId context orderedInputIds
      expectedRevisions db = .ok after) :
    (pendingOrder after conversationId context).map ConversationRunInput.id =
      executionOrder db orderedInputIds := by
  obtain ⟨distinct, same, rows⟩ := reorderPendingInputs_rows succeeded
  have renumberedInputs := @pendingInputs_renumbered _ _ conversationId context _ rows
  have perm : ((pendingOrder after conversationId context).map ConversationRunInput.id).Perm
      (executionOrder db orderedInputIds) := by
    have ids : (pendingInputs after conversationId context).map ConversationRunInput.id =
        (pendingInputs db conversationId context).map ConversationRunInput.id := by
      rw [renumberedInputs, List.map_map]
      exact List.map_congr_left fun input _ => renumbered_id 1 orderedInputIds input
    refine (perm_pendingOrder.map _).trans ?_
    rw [ids]
    exact same.symm.trans (List.perm_insertionSort _ _).symm
  -- Both lists go by falling priority, and by the requested order within one priority.
  have requested : ∀ input ∈ pendingOrder after conversationId context,
      input.id ∈ orderedInputIds ∧ priorityOf db input.id = input.priority ∧
        input.position = 1 + orderedInputIds.idxOf input.id := by
    intro input member
    have listed := perm_pendingOrder.mem_iff.mp member
    rw [renumberedInputs] at listed
    obtain ⟨original, isPending, rfl⟩ := List.mem_map.mp listed
    have wanted : original.id ∈ orderedInputIds :=
      same.mem_iff.mpr (List.mem_map_of_mem isPending)
    rw [renumbered_id, renumbered_priority, renumbered_position wanted]
    exact ⟨wanted, priorityOf_eq (mem_pendingInputs.mp isPending).1, rfl⟩
  have claims : ((pendingOrder after conversationId context).map
      ConversationRunInput.id).Pairwise (RequestedBefore db orderedInputIds) := by
    rw [List.pairwise_map]
    have sorted := List.pairwise_insertionSort QueuedBefore
      (pendingInputs after conversationId context)
    have apart := List.pairwise_map.mp (@nodup_pendingOrder after conversationId context)
    refine (sorted.and apart).imp_of_mem ?_
    intro first second firstMember secondMember ⟨before, different⟩
    obtain ⟨listed, firstPriority, firstPosition⟩ := requested first firstMember
    obtain ⟨_, secondPriority, secondPosition⟩ := requested second secondMember
    have places : first.position ≠ second.position := fun equal =>
      different ((List.idxOf_inj listed).mp (by omega))
    rw [RequestedBefore, PrioritizedBefore, PrioritizedBefore, firstPriority, secondPriority]
    rcases before with higher | ⟨equal, ahead | ⟨samePosition, _⟩⟩
    · exact ⟨higher.le, fun back => absurd back (not_le_of_gt higher)⟩
    · exact ⟨equal.ge, fun _ => by omega⟩
    · exact absurd samePosition places
  have sorted : (executionOrder db orderedInputIds).Pairwise
      (RequestedBefore db orderedInputIds) :=
    pairwise_insertionSort_stable (pairwise_idxOf_lt distinct)
  refine List.Perm.eq_of_pairwise ?_ claims sorted perm
  intro first second _ _ forward backward
  have ahead := forward.2 backward.1
  have behind := backward.2 forward.1
  omega

theorem le_foldl_max (numbers : List ℕ) (start : ℕ) :
    start ≤ numbers.foldl max start ∧ ∀ number ∈ numbers, number ≤ numbers.foldl max start := by
  induction numbers generalizing start with
  | nil => exact ⟨le_rfl, fun _ member => absurd member List.not_mem_nil⟩
  | cons head numbers ih =>
      obtain ⟨above, bounded⟩ := ih (max start head)
      rw [List.foldl_cons]
      refine ⟨(le_max_left _ _).trans above, fun number member => ?_⟩
      rcases List.mem_cons.mp member with rfl | later
      · exact (le_max_right _ _).trans above
      · exact bounded number later

theorem position_le_maxPosition {input : ConversationRunInput} (member : input ∈ db.inputs.rows) :
    input.position ≤ maxPosition db input.conversationId := by
  apply (le_foldl_max _ 0).2
  apply List.mem_map_of_mem
  exact List.mem_filter.mpr ⟨member, decide_eq_true rfl⟩

/-- A new input stands strictly behind all inputs of the conversation with its priority. -/
theorem queuedBefore_enqueued {encodedSize : List (String × Json) → ℕ} {queued : QueueInput}
    {input other : ConversationRunInput}
    (succeeded : enqueueInputWithResult env encodedSize queued db = .ok (after, input, true))
    (member : other ∈ after.inputs.rows) (inConversation : other.conversationId =
      input.conversationId) (different : other ≠ input) (samePriority : other.priority =
      input.priority) : QueuedBefore other input ∧ ¬QueuedBefore input other := by
  simp only [enqueueInputWithResult, bind_eq_ok] at succeeded
  obtain ⟨_, _, agentId, _, conversation, locked, _, _, rest⟩ := succeeded
  obtain ⟨_, sameId, _⟩ := lockOwnedConversation_eq_ok locked
  split at rest
  case h_1 =>
      simp only [bind_eq_ok] at rest
      obtain ⟨_, _, returned⟩ := rest
      exact absurd (Prod.mk.inj (Prod.mk.inj (Except.ok.inj returned)).2).2 Bool.false_ne_true
  case h_2 =>
  simp only [bind_eq_ok] at rest
  obtain ⟨inserted, insertEq, returned⟩ := rest
  obtain ⟨rfl, created⟩ := Prod.mk.inj (Except.ok.inj returned)
  obtain ⟨rfl, _⟩ := Prod.mk.inj created
  obtain ⟨rows, _⟩ := Table.insert?_eq_some (insertInput_eq_ok insertEq).1
  rw [rows, List.mem_append, List.mem_singleton] at member
  have earlier := position_le_maxPosition (member.resolve_right different)
  rw [inConversation] at earlier
  dsimp only at earlier inConversation samePriority
  rw [sameId] at earlier
  unfold QueuedBefore
  dsimp only
  omega

end

/-- The pending inputs are listed in an order, and claimed in it by whatever claims come next. -/
structure Executes (db : Database) (conversationId : Uuid) (context : OrgContext)
    (order : List Uuid) : Prop where
  listed : ∀ listed, listInputs db conversationId context = .ok listed →
    (listed.filter fun input => OwnedInput context input ∧ input.status = .pending).map
      ConversationRunInput.id = order
  claimed : ∀ actions, (∀ action ∈ actions, OnlyClaims conversationId context action) →
    StepRuns.outputs stepQueue claimedIds db actions ++
      (pendingOrder (StepRuns.run stepQueue db actions) conversationId context).map
        ConversationRunInput.id = order

theorem executes_pendingOrder (db : Database) (conversationId : Uuid) (context : OrgContext) :
    Executes db conversationId context
      ((pendingOrder db conversationId context).map ConversationRunInput.id) where
  listed _ succeeded := by rw [listInputs_filter_pending succeeded]
  claimed _ only := claimed_append_pendingOrder db only

/-- A reordering that succeeds names every pending input at its revision, and decides the order of
execution within each priority; one that is refused changes nothing; and an input that is enqueued
stands behind all others of its priority. -/
theorem reorder_execution (env : Environment) (conversationId : Uuid) (context : OrgContext)
    (orderedInputIds : List Uuid) (expectedRevisions : List (Uuid × ℕ)) (db : Database) :
    (∀ after, reorderPendingInputs env conversationId context orderedInputIds expectedRevisions db =
        .ok after →
      (orderedInputIds.Perm
          ((pendingInputs db conversationId context).map ConversationRunInput.id) ∧
        ∀ inputId ∈ orderedInputIds, ∃ input ∈ db.inputs.rows, input.id = inputId ∧
          expectedRevisions.lookup inputId = some input.revision) ∧
      Executes after conversationId context (executionOrder db orderedInputIds)) ∧
    (∀ raised, reorderPendingInputs env conversationId context orderedInputIds expectedRevisions
        db = .error raised →
      stepQueue db (.reorderPendingInputs env conversationId context orderedInputIds
        expectedRevisions) = db) ∧
    ∀ encodedSize queued after input, enqueueInputWithResult env encodedSize queued db =
        .ok (after, input, true) →
      ∀ other ∈ after.inputs.rows, other.conversationId = input.conversationId → other ≠ input →
        other.priority = input.priority → QueuedBefore other input ∧ ¬QueuedBefore input other := by
  refine ⟨fun after succeeded => ⟨⟨?_, ?_⟩, ?_⟩, fun raised refused => ?_, ?_⟩
  · exact (reorderPendingInputs_rows succeeded).2.1
  · intro inputId listed
    obtain ⟨_, _, _, found⟩ := reorderPendingInputs_eq_ok succeeded
    obtain ⟨input, member, sameId, current, _⟩ := found inputId listed
    exact ⟨input, member, sameId, current⟩
  · rw [← pendingOrder_reordered succeeded]
    exact executes_pendingOrder after conversationId context
  · rw [stepQueue, performQueue, refused]
  · intro encodedSize queued after input succeeded other member inConversation different same
    exact queuedBefore_enqueued succeeded member inConversation different same

section Instances

def owner : OrgContext := { orgId := 3, tenantId := 4, userId := 2 }

def environmentAt (now : Time) : Environment :=
  { now := now, newId := now, runtimePolicy := .ok ⟨1, "hash", "conversation"⟩ }

def ownConversation : Table Conversation.id :=
  ⟨[{ id := 1, agentId := some 7, userId := 2, orgId := 3, tenantId := 4 }], by decide⟩

def chatInput (clientRequestId : String) : QueueInput :=
  { conversationId := 1, context := owner, clientRequestId := clientRequestId, inputPayload := [] }

def twoInputs : Database :=
  queueAfter ownConversation
    [.enqueueInput (environmentAt 10) (fun _ => 2) (chatInput "first"),
      .enqueueInput (environmentAt 11) (fun _ => 2) (chatInput "second")]

def promotedInput : Database :=
  stepQueue twoInputs (.promotePendingInput (environmentAt 12) 1 11 owner 1)

/-- Two inputs of one priority are executed in the opposite order. -/
theorem reorder_execution_twoInputs :
    ∃ after, reorderPendingInputs (environmentAt 13) 1 owner [11, 10] [(10, 1), (11, 1)]
        twoInputs = .ok after ∧ Executes after 1 owner [11, 10] := by
  have accepted : (reorderPendingInputs (environmentAt 13) 1 owner [11, 10] [(10, 1), (11, 1)]
    twoInputs).isOk = true := by decide
  have order : executionOrder twoInputs [11, 10] = [11, 10] := by decide
  cases succeeded : reorderPendingInputs (environmentAt 13) 1 owner [11, 10] [(10, 1), (11, 1)]
    twoInputs with
  | error raised =>
      rw [succeeded] at accepted
      cases accepted
  | ok after =>
      have executes := ((reorder_execution _ _ _ _ _ _).1 after succeeded).2
      rw [order] at executes
      exact ⟨after, rfl, executes⟩

/-- The promoted input is claimed first although it was requested last. -/
theorem not_executes_promotedInput :
    ∃ after, reorderPendingInputs (environmentAt 13) 1 owner [10, 11] [(10, 1), (11, 2)]
        promotedInput = .ok after ∧ ¬Executes after 1 owner [10, 11] := by
  have accepted : (reorderPendingInputs (environmentAt 13) 1 owner [10, 11] [(10, 1), (11, 2)]
    promotedInput).isOk = true := by decide
  have order : executionOrder promotedInput [10, 11] = [11, 10] := by decide
  cases succeeded : reorderPendingInputs (environmentAt 13) 1 owner [10, 11] [(10, 1), (11, 2)]
    promotedInput with
  | error raised =>
      rw [succeeded] at accepted
      cases accepted
  | ok after =>
      refine ⟨after, rfl, fun executes => ?_⟩
      have claimed := executes.claimed [] (fun _ listed => absurd listed List.not_mem_nil)
      rw [StepRuns.outputs, List.nil_append, StepRuns.run_nil, pendingOrder_reordered succeeded,
        order] at claimed
      exact absurd claimed (by decide)

end Instances

end NaturalMold.Conversations
