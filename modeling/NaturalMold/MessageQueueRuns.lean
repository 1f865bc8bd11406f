import NaturalMold.ServerMessageQueue

/-! # Runs of a message queue controller -/

namespace NaturalMold.ServerMessageQueue

open StepRuns (run EveryStep)

variable {Id Payload : Type*} [DecidableEq Id] [DecidableEq Payload]

def versions : VersionOrder (RunInput Id Payload) Id where
  key := RunInput.id
  le := Supersedes
  refl input := .inl rfl
  trans := by
    rintro first second third (rfl | ⟨id, raised, kept⟩) later
    · exact later
    · rcases later with rfl | ⟨id', raised', kept'⟩
      · exact .inr ⟨id, raised, kept⟩
      · exact .inr ⟨id'.trans id, Nat.lt_trans raised raised', fun pending => kept (kept' pending)⟩
  antisymm := by
    rintro first second (rfl | ⟨-, raised, -⟩) back
    · rfl
    · rcases back with rfl | ⟨-, raised', -⟩
      · rfl
      · omega
  key_eq := by
    rintro first second (rfl | ⟨id, -⟩)
    · rfl
    · exact id.symm

omit [DecidableEq Payload] in
theorem mem_replaceInput {inputs : List (RunInput Id Payload)}
    {replacement item : RunInput Id Payload} :
    item ∈ replaceInput inputs replacement ↔
      item = replacement ∨ (item ∈ inputs ∧ replacement.id ≠ item.id) := by
  unfold replaceInput
  split
  · next present =>
      obtain ⟨old, member, same⟩ := List.any_eq_true.mp present
      rw [List.mem_map]
      constructor
      · rintro ⟨input, kept, rfl⟩
        split
        · exact .inl rfl
        · next differs => exact .inr ⟨kept, Ne.symm differs⟩
      · rintro (rfl | ⟨kept, differs⟩)
        · exact ⟨old, member, if_pos (of_decide_eq_true same)⟩
        · exact ⟨item, kept, if_neg (Ne.symm differs)⟩
  · next absent =>
      rw [List.mem_append, List.mem_singleton]
      constructor
      · rintro (kept | rfl)
        · refine .inr ⟨kept, fun same => absent (List.any_eq_true.mpr ⟨item, kept, ?_⟩)⟩
          exact decide_eq_true same.symm
        · exact .inl rfl
      · rintro (rfl | ⟨kept, -⟩)
        · exact .inr rfl
        · exact .inl kept

theorem unique_replaceInput {inputs : List (RunInput Id Payload)}
    (unique : versions.Unique inputs) (replacement : RunInput Id Payload) :
    versions.Unique (replaceInput inputs replacement) := by
  unfold replaceInput
  split
  · have ids : (inputs.map fun input =>
        if input.id = replacement.id then replacement else input).map RunInput.id =
          inputs.map RunInput.id := by
      rw [List.map_map]
      apply List.map_congr_left
      intro input member
      rw [Function.comp_apply]
      split
      · next same => exact same.symm
      · rfl
    change ((inputs.map _).map RunInput.id).Nodup
    rw [ids]
    exact unique
  · next absent =>
      change ((inputs ++ [replacement]).map RunInput.id).Nodup
      rw [List.map_append, List.map_singleton]
      refine List.Nodup.append unique (List.nodup_singleton _) ?_
      intro id member last
      obtain ⟨input, kept, rfl⟩ := List.mem_map.mp member
      apply absent
      exact List.any_eq_true.mpr ⟨input, kept, decide_eq_true (List.mem_singleton.mp last)⟩

structure Changes (server changed : List (RunInput Id Payload)) : Prop where
  unique : versions.Unique changed
  raised : ∀ later ∈ changed, ∃ input ∈ server,
    input.id = later.id ∧ isPending input = true ∧ input.revision < later.revision

theorem MayAnswer.changes {server answer : List (RunInput Id Payload)} {request : Request Id}
    (answers : MayAnswer server answer request) (other : request.listsAll = false) :
    Changes server answer := by
  cases request with
  | list => cases other
  | resume => cases other
  | mutate mutation inputId expectedRevision =>
      obtain ⟨input, member, rfl, pending, -, changed, -, rfl, same, raised⟩ := answers
      refine ⟨List.nodup_singleton _, fun later only => ?_⟩
      obtain rfl := List.mem_singleton.mp only
      exact ⟨input, member, same.symm, pending, raised⟩
  | reorder items =>
      obtain ⟨nodup, -, ids, changed⟩ := answers
      refine ⟨?_, fun later member => ?_⟩
      · change (answer.map RunInput.id).Nodup
        rw [ids]
        exact nodup
      · obtain ⟨-, input, present, pending, -, same, raised⟩ := changed later member
        exact ⟨input, present, same, pending, raised⟩

section Install

variable {server changed : List (RunInput Id Payload)}

omit [DecidableEq Payload] in
theorem find_id {id : Id} {later : RunInput Id Payload}
    (found : (changed.find? fun later => later.id = id) = some later) :
    later ∈ changed ∧ later.id = id :=
  ⟨List.mem_of_find?_eq_some found, by simpa using List.find?_some found⟩

theorem unique_install (unique : versions.Unique server) :
    versions.Unique (install server changed) := by
  have ids : (install server changed).map RunInput.id = server.map RunInput.id := by
    rw [install, List.map_map]
    apply List.map_congr_left
    intro input member
    rw [Function.comp_apply]
    cases found : changed.find? fun later => later.id = input.id with
    | none => rfl
    | some later => exact (find_id found).2
  change ((install server changed).map RunInput.id).Nodup
  rw [ids]
  exact unique

theorem Changes.overlay (changes : Changes server changed) :
    versions.Overlay server changed (install server changed) := by
  intro item
  rw [install, List.mem_map]
  constructor
  · rintro ⟨input, member, rfl⟩
    cases found : changed.find? fun later => later.id = input.id with
    | none =>
        refine .inr ⟨member, fun update present => ?_⟩
        have differs := List.find?_eq_none.mp found update present
        exact fun same => differs (decide_eq_true same)
    | some later => exact .inl (find_id found).1
  · rintro (update | ⟨member, unchanged⟩)
    · obtain ⟨input, present, same, -⟩ := changes.raised item update
      refine ⟨input, present, ?_⟩
      cases found : changed.find? fun later => later.id = input.id with
      | none =>
          exact absurd (decide_eq_true same.symm) (List.find?_eq_none.mp found item update)
      | some later =>
          obtain ⟨present', id⟩ := find_id found
          exact changes.unique.eq_of_key present' update (id.trans same)
    · refine ⟨item, member, ?_⟩
      have absent : (changed.find? fun later => later.id = item.id) = none :=
        List.find?_eq_none.mpr fun update present same =>
          unchanged update present (of_decide_eq_true same)
      rw [absent]
      rfl

theorem Changes.below_install (changes : Changes server changed)
    (unique : versions.Unique server) : versions.Below server (install server changed) := by
  apply changes.overlay.below
  intro input member later update same
  obtain ⟨old, present, id, pending, raised⟩ := changes.raised later update
  obtain rfl : old = input := unique.eq_of_key present member (id.trans same)
  exact .inr ⟨same, raised, fun _ => of_decide_eq_true pending⟩

end Install

omit [DecidableEq Payload] in
theorem mem_ids_reorderedInputs {inputs reordered : List (RunInput Id Payload)} {inputId : Id}
    {placement : Placement Id} (order : reorderedInputs inputs inputId placement = some reordered)
    (id : Id) : id ∈ reordered.map RunInput.id ↔ id ∈ inputs.map RunInput.id := by
  unfold reorderedInputs at order
  cases found : inputs.find? fun input => input.id = inputId with
  | none =>
      rw [found] at order
      cases order
  | some moving =>
      rw [found] at order
      obtain ⟨member, moved⟩ := find_id found
      have rest : id ∈ inputs.map RunInput.id ↔
          id = inputId ∨ id ∈ (inputs.filter fun input => input.id ≠ inputId).map RunInput.id := by
        rw [List.mem_map, List.mem_map]
        constructor
        · rintro ⟨input, present, rfl⟩
          by_cases same : input.id = inputId
          · exact .inl same
          · exact .inr ⟨input, List.mem_filter.mpr ⟨present, decide_eq_true same⟩, rfl⟩
        · rintro (rfl | ⟨input, present, rfl⟩)
          · exact ⟨moving, member, moved⟩
          · exact ⟨input, (List.mem_filter.mp present).1, rfl⟩
      dsimp only at order
      split at order
      · split at order
        · obtain rfl := Option.some.inj order
          rw [rest, List.map_cons, List.mem_cons, moved]
        · obtain rfl := Option.some.inj order
          rw [rest, List.map_append, List.mem_append, List.map_singleton, List.mem_singleton, moved,
            or_comm]
      · obtain rfl := Option.some.inj order
        rfl
      · split at order
        · cases order
        · obtain rfl := Option.some.inj order
          rw [rest, List.map_append, List.mem_append, List.map_cons, List.mem_cons, moved,
            or_left_comm, ← List.mem_append, ← List.map_append, List.take_append_drop]

def Expects (captured : List (RunInput Id Payload)) : Request Id → Prop
  | .reorder items => ∀ input ∈ captured, isPending input = true ↔ input.id ∈ items.map Prod.fst
  | _ => True

/-- What an answer to a request for a change puts on display. -/
structure Displays (captured inputs shown : List (RunInput Id Payload)) : Prop where
  overlay : versions.Overlay captured inputs shown
  unique : versions.Unique shown
  later : ∀ input ∈ captured, ∀ changed ∈ inputs, changed.id = input.id → Supersedes input changed

theorem displays {server captured answer : List (RunInput Id Payload)} {request : Request Id}
    (answers : MayAnswer server answer request) (other : request.listsAll = false)
    (serverUnique : versions.Unique server) (capturedUnique : versions.Unique captured)
    (below : versions.Below captured server) (expects : Expects captured request) :
    Displays captured answer (display captured answer request) := by
  have changes := answers.changes other
  have later : ∀ input ∈ captured, ∀ changed ∈ answer, changed.id = input.id →
      Supersedes input changed := by
    intro input member changed update same
    apply (below.trans (changes.below_install serverUnique)).le (unique_install serverUnique) member
      ((changes.overlay changed).mpr (.inl update)) same.symm
  cases request with
  | list => cases other
  | resume => cases other
  | mutate mutation inputId expectedRevision =>
      obtain ⟨input, -, -, -, -, changed, -, rfl, -⟩ := answers
      refine ⟨fun item => ?_, unique_replaceInput capturedUnique changed, later⟩
      rw [List.mem_singleton, List.forall_mem_singleton]
      exact mem_replaceInput
  | reorder items =>
      obtain ⟨nodup, -, ids, -⟩ := answers
      have named : ∀ item : RunInput Id Payload,
          item.id ∈ items.map Prod.fst ↔ ∃ update ∈ answer, update.id = item.id := by
        intro item
        rw [← ids, List.mem_map]
      refine ⟨fun item => ?_, ?_, later⟩
      · change item ∈ _ ++ answer ↔ _
        rw [List.mem_append, List.mem_filter, Bool.not_eq_true', or_comm]
        apply or_congr_right
        apply and_congr_right
        intro member
        rw [← Bool.not_eq_true, expects item member, named item]
        push Not
        rfl
      · change (((captured.filter fun input => !isPending input) ++ answer).map RunInput.id).Nodup
        rw [List.map_append, ids]
        have kept : ((captured.filter fun input => !isPending input).map RunInput.id).Nodup :=
          capturedUnique.sublist (List.filter_sublist.map _)
        refine List.Nodup.append kept nodup fun id left right => ?_
        obtain ⟨input, member, rfl⟩ := List.mem_map.mp left
        obtain ⟨present, settled⟩ := List.mem_filter.mp member
        rw [(expects input present).mpr right] at settled
        cases settled

/-- What is known of a request that the controller has made. -/
structure Tracked (state : State Id Payload) (exchange : Exchange Id Payload) : Prop where
  capturedUnique : versions.Unique exchange.captured
  capturedBelow : versions.Below exchange.captured state.server
  expects : Expects exchange.captured exchange.request
  early : ∀ time inputs, exchange.stage = .answered time inputs → time < state.time
  answerBelow : ∀ time inputs, exchange.stage = .answered time inputs →
    versions.Below inputs state.server
  lists : ∀ time inputs, exchange.stage = .answered time inputs →
    exchange.request.listsAll = true → versions.Unique inputs ∧
      (state.applied ≤ time → versions.Below state.serverInputs inputs)
  changes : ∀ time inputs, exchange.stage = .answered time inputs →
    exchange.request.listsAll = false →
      Displays exchange.captured inputs (display exchange.captured inputs exchange.request)

/-- Every version that the server has is shown or on its way, or a list that the server has
not answered yet will bring it. -/
def Covered (state : State Id Payload) : Prop :=
  (∃ exchange ∈ state.exchanges, exchange.request.listsAll = true ∧ exchange.stage = .sent) ∨
    ∀ input ∈ state.server, input ∈ state.serverInputs ∨
      ∃ exchange ∈ state.exchanges, ∃ time inputs,
        exchange.stage = .answered time inputs ∧ input ∈ inputs

structure Consistent (state : State Id Payload) : Prop where
  serverUnique : versions.Unique state.server
  shownUnique : versions.Unique state.serverInputs
  shownBelow : versions.Below state.serverInputs state.server
  tracked : ∀ exchange ∈ state.exchanges, Tracked state exchange
  ordered : ∀ exchange ∈ state.exchanges, ∀ list ∈ state.exchanges, ∀ time inputs time' inputs',
    exchange.stage = .answered time inputs → list.stage = .answered time' inputs' →
    list.request.listsAll = true → time ≤ time' → versions.Below inputs inputs'
  covered : state.failed = false → Covered state

/-- Answers are applied in turn.  A list is not applied after an answer that the server gave
later; the answer to a change is applied to the list that was shown when the change was
requested; and whatever else changes the server's queue does so while a list is on its way
to the server. -/
def InTurn (state : State Id Payload) : Action Id Payload → Prop
  | .change _ => ∃ exchange ∈ state.exchanges,
      exchange.request.listsAll = true ∧ exchange.stage = .sent
  | .apply number => ∀ exchange ∈ state.exchanges[number]?, ∀ time inputs,
      exchange.stage = .answered time inputs →
      if exchange.request.listsAll then state.applied ≤ time
      else ∀ input, input ∈ exchange.captured ↔ input ∈ state.serverInputs
  | _ => True

namespace Tracked

variable {state next : State Id Payload} {exchange : Exchange Id Payload}

/-- What is known stays known while the server moves on and the shown list stays. -/
theorem mono (tracked : Tracked state exchange) (server : versions.Below state.server next.server)
    (time : state.time ≤ next.time) (shown : next.serverInputs = state.serverInputs)
    (applied : next.applied = state.applied) : Tracked next exchange where
  capturedUnique := tracked.capturedUnique
  capturedBelow := tracked.capturedBelow.trans server
  expects := tracked.expects
  early answered inputs stage := Nat.lt_of_lt_of_le (tracked.early answered inputs stage) time
  answerBelow answered inputs stage := (tracked.answerBelow answered inputs stage).trans server
  lists answered inputs stage all := by
    rw [shown, applied]
    exact tracked.lists answered inputs stage all
  changes := tracked.changes

/-- A request without an answer that is not over or not answered yet. -/
theorem of_unanswered {stage : Stage Id Payload} (tracked : Tracked state exchange)
    (unanswered : ∀ time inputs, stage ≠ .answered time inputs) :
    Tracked state { exchange with stage } where
  capturedUnique := tracked.capturedUnique
  capturedBelow := tracked.capturedBelow
  expects := tracked.expects
  early time inputs answered := absurd answered (unanswered time inputs)
  answerBelow time inputs answered := absurd answered (unanswered time inputs)
  lists time inputs answered := absurd answered (unanswered time inputs)
  changes time inputs answered := absurd answered (unanswered time inputs)

end Tracked

theorem mem_set_of_mem {Item : Type*} {items : List Item} {number : ℕ} {old new item : Item}
    (found : items[number]? = some old) (member : item ∈ items) :
    item = old ∨ item ∈ items.set number new := by
  obtain ⟨index, at_index⟩ := List.getElem?_of_mem member
  by_cases same : number = index
  · subst same
    exact .inl (Option.some.inj (at_index.symm.trans found))
  · have kept : (items.set number new)[index]? = some item := by
      rwa [List.getElem?_set_ne same]
    exact .inr (List.mem_of_getElem? kept)

namespace State

variable (state : State Id Payload)

theorem change_serverInputs (queue : List (RunInput Id Payload)) :
    (state.change queue).serverInputs = state.serverInputs := by
  unfold change
  split
  · rfl
  · rfl

omit [DecidableEq Payload] in
theorem mutate_serverInputs (mutation : Mutation) (inputId : Id) :
    (state.mutate mutation inputId).serverInputs = state.serverInputs := by
  unfold mutate
  split
  · rfl
  · rfl

omit [DecidableEq Payload] in
theorem call_serverInputs (operation : Operation Id) :
    (state.call operation).serverInputs = state.serverInputs := by
  cases operation with
  | refresh => rfl
  | resume => rfl
  | edit inputId => exact state.mutate_serverInputs .edit inputId
  | remove inputId => exact state.mutate_serverInputs .remove inputId
  | move inputId placement =>
      unfold call
      dsimp only
      split
      · exact state.mutate_serverInputs .promote inputId
      · split
        · rfl
        · rfl

theorem answer_serverInputs (number : ℕ) (inputs : List (RunInput Id Payload)) :
    (state.answer number inputs).serverInputs = state.serverInputs := by
  unfold answer
  split
  · split
    · rfl
    · rfl
  · rfl

theorem fail_serverInputs (number : ℕ) : (state.fail number).serverInputs = state.serverInputs := by
  unfold fail
  split
  · split
    · rfl
    · rfl
  · rfl

end State

namespace Consistent

variable {state : State Id Payload}

theorem change (consistent : Consistent state) {queue : List (RunInput Id Payload)}
    (inTurn : InTurn state (.change queue)) : Consistent (state.change queue) := by
  unfold State.change
  split
  · next becomes =>
      have server : versions.Below state.server queue := becomes.2
      exact {
        serverUnique := becomes.1
        shownUnique := consistent.shownUnique
        shownBelow := consistent.shownBelow.trans server
        tracked := fun exchange member =>
          (consistent.tracked exchange member).mono server (Nat.le_refl _) rfl rfl
        ordered := consistent.ordered
        covered := fun _ => .inl inTurn }
  · exact consistent

theorem send (consistent : Consistent state) {request : Request Id}
    (expects : Expects state.serverInputs request) : Consistent (state.send request) where
  serverUnique := consistent.serverUnique
  shownUnique := consistent.shownUnique
  shownBelow := consistent.shownBelow
  tracked := by
    intro exchange member
    rcases List.mem_append.mp member with earlier | new
    · exact (consistent.tracked exchange earlier).mono (VersionOrder.below_refl _)
        (Nat.le_refl _) rfl rfl
    · obtain rfl := List.mem_singleton.mp new
      exact ⟨consistent.shownUnique, consistent.shownBelow, expects, nofun, nofun, nofun, nofun⟩
  ordered := by
    intro exchange member list member' time inputs time' inputs' stage stage'
    rcases List.mem_append.mp member with earlier | new
    · rcases List.mem_append.mp member' with earlier' | new'
      · exact consistent.ordered exchange earlier list earlier' time inputs time' inputs' stage
          stage'
      · obtain rfl := List.mem_singleton.mp new'
        cases stage'
    · obtain rfl := List.mem_singleton.mp new
      cases stage
  covered := by
    intro unfailed
    rcases consistent.covered unfailed with ⟨list, member, coming⟩ | here
    · exact .inl ⟨list, List.mem_append_left _ member, coming⟩
    · refine .inr fun input present => (here input present).imp_right ?_
      rintro ⟨exchange, member, answered⟩
      exact ⟨exchange, List.mem_append_left _ member, answered⟩

theorem mutate (consistent : Consistent state) (mutation : Mutation) (inputId : Id) :
    Consistent (state.mutate mutation inputId) := by
  unfold State.mutate
  split
  · exact consistent
  · exact consistent.send trivial

theorem call (consistent : Consistent state) (operation : Operation Id) :
    Consistent (state.call operation) := by
  cases operation with
  | refresh => exact consistent.send trivial
  | resume => exact consistent.send trivial
  | edit inputId => exact consistent.mutate .edit inputId
  | remove inputId => exact consistent.mutate .remove inputId
  | move inputId placement =>
      unfold State.call
      dsimp only
      split
      · exact consistent.mutate .promote inputId
      · split
        · exact consistent
        · next reordered order =>
            apply consistent.send
            intro input member
            have ids := mem_ids_reorderedInputs order input.id
            rw [List.map_map]
            change isPending input = true ↔ input.id ∈ reordered.map RunInput.id
            rw [ids, List.mem_map]
            constructor
            · intro pending
              exact ⟨input, List.mem_filter.mpr ⟨member, pending⟩, rfl⟩
            · rintro ⟨other, present, same⟩
              obtain ⟨shown, pending⟩ := List.mem_filter.mp present
              rwa [← consistent.shownUnique.eq_of_key shown member same]

theorem answered_server {inputs : List (RunInput Id Payload)} {request : Request Id}
    (consistent : Consistent state) (answers : MayAnswer state.server inputs request) :
    let server := if request.listsAll then state.server else install state.server inputs
    versions.Unique server ∧ versions.Below state.server server ∧ versions.Below inputs server ∧
      ∀ input ∈ server, input ∈ inputs ∨ (request.listsAll = false ∧ input ∈ state.server) := by
  intro server
  cases all : request.listsAll with
  | true =>
      have same : server = state.server := if_pos all
      have whole : inputs = state.server := by
        cases request with
        | list => exact answers
        | resume => exact answers
        | mutate => cases all
        | reorder => cases all
      rw [same, whole]
      exact ⟨consistent.serverUnique, VersionOrder.below_refl _, VersionOrder.below_refl _,
        fun input member => .inl member⟩
  | false =>
      have same : server = install state.server inputs := if_neg (by rw [all]; nofun)
      have changes := answers.changes all
      rw [same]
      refine ⟨unique_install consistent.serverUnique, changes.below_install consistent.serverUnique,
        fun input member => ⟨input, (changes.overlay input).mpr (.inl member), .inl rfl⟩, ?_⟩
      intro input member
      exact ((changes.overlay input).mp member).imp_right fun kept => ⟨rfl, kept.1⟩

theorem answer (consistent : Consistent state) (number : ℕ) (inputs : List (RunInput Id Payload)) :
    Consistent (state.answer number inputs) := by
  unfold State.answer
  split
  · next request captured found =>
      split
      · next answers =>
          obtain ⟨unique, server, below, parts⟩ := consistent.answered_server answers
          have asked := consistent.tracked _ (List.mem_of_getElem? found)
          have later : ∀ exchange ∈ state.exchanges, ∀ time inputs,
              exchange.stage = .answered time inputs → time < state.time :=
            fun exchange member => (consistent.tracked exchange member).early
          refine {
            serverUnique := unique
            shownUnique := consistent.shownUnique
            shownBelow := consistent.shownBelow.trans server
            tracked := ?_
            ordered := ?_
            covered := ?_ }
          · intro exchange member
            rcases List.mem_or_eq_of_mem_set member with earlier | rfl
            · exact (consistent.tracked exchange earlier).mono server (Nat.le_succ _) rfl rfl
            · refine ⟨asked.capturedUnique, asked.capturedBelow.trans server, asked.expects, ?_, ?_,
                ?_, ?_⟩
              · rintro time given ⟨⟩
                exact Nat.lt_succ_self _
              · rintro time given ⟨⟩
                exact below
              · rintro time given ⟨⟩ (all : request.listsAll = true)
                have whole : inputs = state.server := by
                  cases request with
                  | list => exact answers
                  | resume => exact answers
                  | mutate => cases all
                  | reorder => cases all
                rw [whole]
                exact ⟨consistent.serverUnique, fun _ => consistent.shownBelow⟩
              · rintro time given ⟨⟩ (other : request.listsAll = false)
                exact displays answers other consistent.serverUnique asked.capturedUnique
                  asked.capturedBelow asked.expects
          · intro exchange member list member' time given time' given' stage stage' all before
            rcases List.mem_or_eq_of_mem_set member with earlier | rfl
            · rcases List.mem_or_eq_of_mem_set member' with earlier' | rfl
              · exact consistent.ordered exchange earlier list earlier' time given time' given'
                  stage stage' all before
              · cases stage'
                have whole : inputs = state.server := by
                  cases request with
                  | list => exact answers
                  | resume => exact answers
                  | mutate => cases all
                  | reorder => cases all
                rw [whole]
                exact (consistent.tracked exchange earlier).answerBelow time given stage
            · cases stage
              rcases List.mem_or_eq_of_mem_set member' with earlier' | rfl
              · have := later list earlier' time' given' stage'
                omega
              · cases stage'
                exact VersionOrder.below_refl _
          · intro unfailed
            have new : ∀ input ∈ inputs, ∃ exchange ∈ state.exchanges.set number
                { request, captured, stage := .answered state.time inputs }, ∃ time given,
                exchange.stage = .answered time given ∧ input ∈ given := fun input member =>
              ⟨_, List.mem_set (List.getElem?_eq_some_iff.mp found).1 _, state.time, inputs, rfl,
                member⟩
            rcases consistent.covered unfailed with ⟨list, member, all, sent⟩ | here
            · rcases mem_set_of_mem found member with rfl | kept
              · refine .inr fun input present => .inr ?_
                rcases parts input present with answered | ⟨other, -⟩
                · exact new input answered
                · exact absurd (all.symm.trans other) (by decide)
              · exact .inl ⟨list, kept, all, sent⟩
            · refine .inr fun input present => ?_
              rcases parts input present with answered | ⟨-, old⟩
              · exact .inr (new input answered)
              · rcases here input old with shown | ⟨exchange, member, time, given, stage, among⟩
                · exact .inl shown
                · rcases mem_set_of_mem found member with rfl | kept
                  · cases stage
                  · exact .inr ⟨exchange, kept, time, given, stage, among⟩
      · exact consistent
  · exact consistent

theorem fail (consistent : Consistent state) (number : ℕ) : Consistent (state.fail number) := by
  unfold State.fail
  split
  · next exchange found =>
      split
      · exact consistent
      · refine {
          serverUnique := consistent.serverUnique
          shownUnique := consistent.shownUnique
          shownBelow := consistent.shownBelow
          tracked := ?_
          ordered := ?_
          covered := nofun }
        · intro other member
          rcases List.mem_or_eq_of_mem_set member with earlier | rfl
          · exact (consistent.tracked other earlier).mono (VersionOrder.below_refl _)
              (Nat.le_refl _) rfl rfl
          · have finished : ∀ time inputs, (.finished : Stage Id Payload) ≠ .answered time inputs := nofun
            have tracked := consistent.tracked exchange (List.mem_of_getElem? found)
            exact (tracked.of_unanswered finished).mono (VersionOrder.below_refl _) (Nat.le_refl _) rfl
              rfl
        · intro first member list member' time inputs time' inputs' stage stage'
          rcases List.mem_or_eq_of_mem_set member with earlier | rfl
          · rcases List.mem_or_eq_of_mem_set member' with earlier' | rfl
            · exact consistent.ordered first earlier list earlier' time inputs time' inputs' stage
                stage'
            · cases stage'
          · cases stage
  · exact consistent

theorem applied (consistent : Consistent state) {number time : ℕ} {request : Request Id}
    {captured inputs : List (RunInput Id Payload)}
    (found : state.exchanges[number]? = some ⟨request, captured, .answered time inputs⟩)
    (inTurn : InTurn state (.apply number)) :
    versions.Unique (display captured inputs request) ∧
      versions.Below (display captured inputs request) state.server ∧
      versions.Below state.serverInputs (display captured inputs request) ∧
      (∀ input ∈ inputs, input ∈ display captured inputs request) ∧
      ∀ list ∈ state.exchanges, ∀ time' inputs', list.stage = .answered time' inputs' →
        list.request.listsAll = true → max state.applied time ≤ time' →
        versions.Below (display captured inputs request) inputs' := by
  have member := List.mem_of_getElem? found
  have tracked := consistent.tracked _ member
  have turn := inTurn _ found time inputs rfl
  dsimp only at turn
  cases all : request.listsAll with
  | true =>
      rw [if_pos all] at turn
      have whole : display captured inputs request = inputs := by
        cases request with
        | list => rfl
        | resume => rfl
        | mutate => cases all
        | reorder => cases all
      obtain ⟨unique, below⟩ := tracked.lists time inputs rfl all
      rw [whole]
      refine ⟨unique, tracked.answerBelow time inputs rfl, below turn, fun _ => id, ?_⟩
      intro list member' time' inputs' stage' all' before
      exact consistent.ordered _ member list member' time inputs time' inputs' rfl stage' all'
        (by omega)
  | false =>
      rw [if_neg (by rw [all]; nofun)] at turn
      have displays := tracked.changes time inputs rfl all
      have shown : versions.Below state.serverInputs captured :=
        .of_same_members fun input => (turn input).symm
      refine ⟨displays.unique, ?_, shown.trans (displays.overlay.below displays.later), ?_, ?_⟩
      · exact displays.overlay.below_of_parts tracked.capturedBelow
          (tracked.answerBelow time inputs rfl)
      · exact fun input present => (displays.overlay input).mpr (.inl present)
      · intro list member' time' inputs' stage' all' before
        apply displays.overlay.below_of_parts
        · have fresh :=
            ((consistent.tracked list member').lists time' inputs' stage' all').2 (by omega)
          exact (VersionOrder.Below.of_same_members turn).trans fresh
        · exact consistent.ordered _ member list member' time inputs time' inputs' rfl stage' all'
            (by omega)

theorem apply (consistent : Consistent state) {number : ℕ} (inTurn : InTurn state (.apply number)) :
    Consistent (state.apply number) ∧
      versions.Below state.serverInputs (state.apply number).serverInputs := by
  unfold State.apply
  split
  · next request captured time inputs found =>
      obtain ⟨unique, below, forward, among, lists⟩ := consistent.applied found inTurn
      have given := consistent.tracked _ (List.mem_of_getElem? found)
      refine ⟨?_, forward⟩
      refine {
        serverUnique := consistent.serverUnique
        shownUnique := unique
        shownBelow := below
        tracked := ?_
        ordered := ?_
        covered := ?_ }
      · intro exchange member
        rcases List.mem_or_eq_of_mem_set member with earlier | rfl
        · have tracked := consistent.tracked exchange earlier
          refine ⟨tracked.capturedUnique, tracked.capturedBelow, tracked.expects, tracked.early,
            tracked.answerBelow, ?_, tracked.changes⟩
          intro time' inputs' stage all
          exact ⟨(tracked.lists time' inputs' stage all).1,
            lists exchange earlier time' inputs' stage all⟩
        · exact ⟨given.capturedUnique, given.capturedBelow, given.expects, nofun, nofun, nofun,
            nofun⟩
      · intro first member list member' time inputs time' inputs' stage stage'
        rcases List.mem_or_eq_of_mem_set member with earlier | rfl
        · rcases List.mem_or_eq_of_mem_set member' with earlier' | rfl
          · exact consistent.ordered first earlier list earlier' time inputs time' inputs' stage
              stage'
          · cases stage'
        · cases stage
      · intro unfailed
        rcases consistent.covered unfailed with ⟨list, member, all, sent⟩ | here
        · rcases mem_set_of_mem found member with rfl | kept
          · cases sent
          · exact .inl ⟨list, kept, all, sent⟩
        · refine .inr fun input present => ?_
          rcases here input present with shown | ⟨exchange, member, time', inputs', stage, coming⟩
          · exact .inl (forward.mem_between below consistent.serverUnique shown present)
          · rcases mem_set_of_mem found member with rfl | kept
            · cases stage
              exact .inl (among input coming)
            · exact .inr ⟨exchange, kept, time', inputs', stage, coming⟩
  · exact ⟨consistent, VersionOrder.below_refl _⟩

/-- One step in turn keeps everything consistent and moves the shown list forward. -/
theorem step (consistent : Consistent state) {action : Action Id Payload}
    (inTurn : InTurn state action) :
    Consistent (step state action) ∧
      versions.Below state.serverInputs (ServerMessageQueue.step state action).serverInputs := by
  cases action with
  | change queue =>
      refine ⟨consistent.change inTurn, ?_⟩
      rw [ServerMessageQueue.step, State.change_serverInputs]
      exact VersionOrder.below_refl _
  | call operation =>
      refine ⟨consistent.call operation, ?_⟩
      rw [ServerMessageQueue.step, State.call_serverInputs]
      exact VersionOrder.below_refl _
  | answer number inputs =>
      refine ⟨consistent.answer number inputs, ?_⟩
      rw [ServerMessageQueue.step, State.answer_serverInputs]
      exact VersionOrder.below_refl _
  | fail number =>
      refine ⟨consistent.fail number, ?_⟩
      rw [ServerMessageQueue.step, State.fail_serverInputs]
      exact VersionOrder.below_refl _
  | apply number => exact consistent.apply inTurn

theorem run {actions : List (Action Id Payload)} (consistent : Consistent state)
    (every : EveryStep ServerMessageQueue.step InTurn state actions) :
    Consistent (StepRuns.run ServerMessageQueue.step state actions) ∧
      versions.Below state.serverInputs
        (StepRuns.run ServerMessageQueue.step state actions).serverInputs := by
  induction actions generalizing state with
  | nil => exact ⟨consistent, VersionOrder.below_refl _⟩
  | cons action actions ih =>
      obtain ⟨next, forward⟩ := consistent.step every.1
      obtain ⟨last, further⟩ := ih next every.2
      exact ⟨last, forward.trans further⟩

end Consistent

theorem consistent_start {server : List (RunInput Id Payload)}
    (unique : (server.map RunInput.id).Nodup) :
    Consistent (start server) where
  serverUnique := unique
  shownUnique := List.nodup_nil
  shownBelow := VersionOrder.below_nil _
  tracked := by
    intro exchange member
    obtain rfl := List.mem_singleton.mp member
    exact ⟨List.nodup_nil, VersionOrder.below_nil _, trivial, nofun, nofun, nofun, nofun⟩
  ordered := by
    intro exchange member list member' time inputs time' inputs' stage
    obtain rfl := List.mem_singleton.mp member
    cases stage
  covered _ := .inl ⟨_, List.mem_singleton_self _, rfl, rfl⟩

/-- In a run, the revision that is shown for an input never decreases, an input that was shown
as removed or claimed is never shown as pending again, and once all requests are answered and
none has failed, the shown inputs are those of the server. -/
structure NeverGoesBack (server : List (RunInput Id Payload))
    (actions : List (Action Id Payload)) : Prop where
  revision : ∀ first second, first <+: second → second <+: actions →
    ∀ input ∈ (run step (start server) first).serverInputs,
    ∀ later ∈ (run step (start server) second).serverInputs,
      input.id = later.id → input.revision ≤ later.revision
  settled : ∀ first second, first <+: second → second <+: actions →
    ∀ input ∈ (run step (start server) first).serverInputs,
    ∀ later ∈ (run step (start server) second).serverInputs,
      input.id = later.id → input.status ≠ .pending → later.status ≠ .pending
  answered : ∀ front, front <+: actions →
    (∀ exchange ∈ (run step (start server) front).exchanges, exchange.stage = .finished) →
    (run step (start server) front).failed = false →
    ∀ input, input ∈ (run step (start server) front).serverInputs ↔
      input ∈ (run step (start server) front).server

theorem neverGoesBack {server : List (RunInput Id Payload)}
    (unique : (server.map RunInput.id).Nodup) {actions : List (Action Id Payload)}
    (every : EveryStep step InTurn (start server) actions) : NeverGoesBack server actions := by
  have initial := consistent_start unique
  have reached : ∀ front, front <+: actions → Consistent (run step (start server) front) := by
    rintro front ⟨rest, rfl⟩
    exact (initial.run ((StepRuns.everyStep_append ..).mp every).1).1
  have forward : ∀ first second, first <+: second → second <+: actions →
      ∀ input ∈ (run step (start server) first).serverInputs,
      ∀ later ∈ (run step (start server) second).serverInputs,
        input.id = later.id → Supersedes input later := by
    rintro first second ⟨middle, rfl⟩ ⟨rest, rfl⟩ input member later member' same
    have steps := (StepRuns.everyStep_append ..).mp ((StepRuns.everyStep_append ..).mp every).1
    have onward := ((initial.run steps.1).1.run steps.2).2
    rw [← StepRuns.run_append] at onward
    exact onward.le (reached (first ++ middle) ⟨rest, rfl⟩).shownUnique member member' same
  constructor
  · intro first second before inside input member later member' same
    rcases forward first second before inside input member later member' same with rfl | newer
    · exact Nat.le_refl _
    · exact Nat.le_of_lt newer.2.1
  · intro first second before inside input member later member' same settled
    rcases forward first second before inside input member later member' same with rfl | newer
    · exact settled
    · exact fun pending => settled (newer.2.2 pending)
  · intro front inside finished unfailed input
    have consistent := reached front inside
    have everything : ∀ input ∈ (run step (start server) front).server,
        input ∈ (run step (start server) front).serverInputs := by
      intro input present
      rcases consistent.covered unfailed with ⟨list, member, -, sent⟩ | here
      · rw [finished list member] at sent
        cases sent
      · rcases here input present with shown | ⟨exchange, member, time, inputs, stage, -⟩
        · exact shown
        · rw [finished exchange member] at stage
          cases stage
    constructor
    · intro shown
      obtain ⟨later, present, newer⟩ := consistent.shownBelow input shown
      rwa [consistent.shownUnique.eq_of_key shown (everything later present)
        (versions.key_eq newer)]
    · exact everything input

def waiting (id revision : ℕ) : RunInput ℕ Unit where
  id := id
  status := .pending
  priority := 0
  position := id
  revision := revision
  inputPayload := ()

/-- The first refresh is answered, and then an edit. -/
theorem neverGoesBack_edited :
    NeverGoesBack [waiting 1 1]
      [.answer 0 [waiting 1 1], .apply 0, .call (.edit 1), .answer 1 [waiting 1 2], .apply 1] := by
  refine neverGoesBack (by decide) ⟨trivial, ?_, trivial, trivial, ?_, trivial⟩
  · intro exchange found time inputs stage
    obtain rfl := Option.some.inj found
    cases stage
    exact Nat.zero_le _
  · intro exchange found time inputs stage
    obtain rfl := Option.some.inj found
    cases stage
    exact fun input => Iff.rfl

/-- While an edit is on its way, a refresh shows that the other input was claimed; the answer
to the edit then shows that input as it was when the edit was requested. -/
def claimedMeanwhile : List (Action ℕ Unit) :=
  let claimed : RunInput ℕ Unit := { waiting 2 2 with status := .claimed }
  [.answer 0 [waiting 1 1, waiting 2 1], .apply 0, .call (.edit 1), .call .refresh,
    .change [waiting 1 1, claimed], .answer 2 [waiting 1 1, claimed], .apply 2,
    .answer 1 [waiting 1 2], .apply 1]

theorem claimedMeanwhile_not_neverGoesBack :
    ¬ NeverGoesBack [waiting 1 1, waiting 2 1] claimedMeanwhile := by
  intro never
  have back := never.revision (claimedMeanwhile.take 7) claimedMeanwhile (List.take_prefix 7 _)
    List.prefix_rfl { waiting 2 2 with status := .claimed } (by decide) (waiting 2 1) (by decide)
    rfl
  exact absurd back (by decide)

end NaturalMold.ServerMessageQueue
