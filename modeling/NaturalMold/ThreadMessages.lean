import NaturalMold.FirstOccurrences
import NaturalMold.OrderedDictionaries
import NaturalMold.ThreadMessageIds

/-!
# Shown messages without duplicate ids

A pass over the messages of a thread keeps one message for each turn and source id: it stands where
the first of them stood and has the content of the last.
-/

namespace NaturalMold.ThreadMessages

open CronExpressions (Text)
open FirstOccurrences (distinctOn distinctOn_append mem_map_distinctOn)
open ThreadMessageIds

variable {Body : Type*}

/-- A message; an id that is not a string and a method that is not there are `none`. -/
structure Message (Body : Type*) where
  id : Option Text
  getType : Option Text
  role : Option Text
  body : Body
  deriving DecidableEq

inductive MessageTurnRole where
  | user
  | assistant
  | tool
  deriving DecidableEq

def typeTurnRole (type : Text) : Option MessageTurnRole :=
  if type = "human".toList then some .user
  else if type = "ai".toList then some .assistant
  else if type = "tool".toList then some .tool
  else none

def roleTurnRole (role : Text) : Option MessageTurnRole :=
  if role = "user".toList then some .user
  else if role = "assistant".toList then some .assistant
  else if role = "tool".toList then some .tool
  else none

namespace Message

def messageId (message : Message Body) : Option Text :=
  match message.id with
  | some [] => none
  | id => id

def messageTurnRole (message : Message Body) : Option MessageTurnRole :=
  match message.getType.bind typeTurnRole with
  | some role => some role
  | none => message.role.bind roleTurnRole

def isUser (message : Message Body) : Bool :=
  message.messageTurnRole == some .user

def messageWithId (message : Message Body) (id : Text) : Message Body :=
  { message with id := some id }

end Message

def scopedId (turnIndex : ℤ) (sourceId : Text) : Text :=
  wholeNumber turnIndex ++ ':' :: sourceId

structure Pass (Body : Type*) where
  indexByScopedId : OrderedDict Text ℕ := .empty
  firstTurnBySourceId : OrderedDict Text ℤ := .empty
  deduped : List (Message Body) := []
  changed : Bool := false
  turnIndex : ℤ := -1

/-- The body of the loop; `disambiguate` is the option `disambiguateCrossTurnIds`. -/
def Pass.step (disambiguate : Bool) (pass : Pass Body) (message : Message Body) : Pass Body :=
  let turnIndex := if message.isUser then pass.turnIndex + 1 else pass.turnIndex
  match message.messageId with
  | none => { pass with turnIndex, deduped := pass.deduped ++ [message] }
  | some id =>
      let sourceId := sourceOf id
      match pass.indexByScopedId.get? (scopedId turnIndex sourceId) with
      | none =>
          let firstTurn := pass.firstTurnBySourceId.get? sourceId
          let nextId :=
            if disambiguate ∧ firstTurn ≠ none ∧ firstTurn ≠ some turnIndex then
              threadMessageIdForTurn sourceId turnIndex
            else id
          { turnIndex
            indexByScopedId :=
              pass.indexByScopedId.set (scopedId turnIndex sourceId) pass.deduped.length
            firstTurnBySourceId :=
              pass.firstTurnBySourceId.set sourceId (firstTurn.getD turnIndex)
            deduped := pass.deduped ++
              [if nextId = id then message else message.messageWithId nextId]
            changed := pass.changed || nextId != id }
      | some existingIndex =>
          let existingId := pass.deduped[existingIndex]?.bind Message.messageId
          let nextMessage :=
            match existingId with
            | none => message
            | some existing =>
                if disambiguate ∧ existing ≠ id then message.messageWithId existing else message
          { pass with
            turnIndex
            deduped := pass.deduped.set existingIndex nextMessage
            changed := true }

def dedupeMessagesById (disambiguate : Bool) (messages : List (Message Body)) :
    List (Message Body) :=
  let pass := messages.foldl (Pass.step disambiguate) {}
  if pass.changed then pass.deduped else messages

def dedupeThreadMessagesById (messages : List (Message Body)) : List (Message Body) :=
  dedupeMessagesById true messages

def turnAfter (messages : List (Message Body)) : ℤ :=
  messages.countP Message.isUser - 1

/-- A message with its place and its turn. -/
structure Entry (Body : Type*) where
  place : ℕ
  turn : ℤ
  message : Message Body

def numberedAfter (before : List (Message Body)) : List (Message Body) → List (Entry Body)
  | [] => []
  | message :: messages =>
      ⟨before.length, turnAfter (before ++ [message]), message⟩ ::
        numberedAfter (before ++ [message]) messages

def numbered (messages : List (Message Body)) : List (Entry Body) :=
  numberedAfter [] messages

/-- What belongs together: a turn and a source id, or a message without id on its own. -/
inductive SlotKey where
  | scoped (turn : ℤ) (sourceId : Text)
  | alone (place : ℕ)
  deriving DecidableEq

namespace Entry

def sourceId? (entry : Entry Body) : Option Text :=
  entry.message.messageId.map sourceOf

def key (entry : Entry Body) : SlotKey :=
  match entry.sourceId? with
  | some sourceId => .scoped entry.turn sourceId
  | none => .alone entry.place

end Entry

def firstTurn (entries : List (Entry Body)) (sourceId : Text) : Option ℤ :=
  (entries.find? fun entry => entry.sourceId? == some sourceId).map Entry.turn

def lastLike (entries : List (Entry Body)) (entry : Entry Body) : Entry Body :=
  ((entries.filter fun other => other.key = entry.key).getLast?).getD entry

def shownId (entries : List (Entry Body)) (entry : Entry Body) (id : Text) : Text :=
  if firstTurn entries (sourceOf id) = some entry.turn then id
  else threadMessageIdForTurn (sourceOf id) entry.turn

def shown (entries : List (Entry Body)) (entry : Entry Body) : Message Body :=
  match entry.message.messageId with
  | none => entry.message
  | some id => (lastLike entries entry).message.messageWithId (shownId entries entry id)

/-- One message for each turn and source id, and each message without id. -/
def kept (entries : List (Entry Body)) : List (Entry Body) :=
  distinctOn Entry.key entries

def shownMessages (entries : List (Entry Body)) : List (Message Body) :=
  (kept entries).map (shown entries)

theorem numberedAfter_append (before first second : List (Message Body)) :
    numberedAfter before (first ++ second) =
      numberedAfter before first ++ numberedAfter (before ++ first) second := by
  induction first generalizing before with
  | nil => simp [numberedAfter]
  | cons message first ih => simp [numberedAfter, ih]

variable (messages : List (Message Body))

theorem numbered_concat (message : Message Body) :
    numbered (messages ++ [message]) =
      numbered messages ++ [⟨messages.length, turnAfter (messages ++ [message]), message⟩] := by
  rw [numbered, numberedAfter_append]
  rfl

theorem turnAfter_concat (message : Message Body) :
    turnAfter (messages ++ [message]) =
      if message.isUser then turnAfter messages + 1 else turnAfter messages := by
  rw [turnAfter, turnAfter, List.countP_append]
  by_cases user : message.isUser = true
  · rw [if_pos user, List.countP_cons_of_pos user]
    simp
  · rw [if_neg user, List.countP_cons_of_neg user]
    simp

theorem neg_one_le_turnAfter : -1 ≤ turnAfter messages := by
  rw [turnAfter]
  omega

variable {entry : Entry Body}

theorem place_lt_of_mem_numbered {messages : List (Message Body)}
    (member : entry ∈ numbered messages) : entry.place < messages.length := by
  induction messages using List.reverseRecOn with
  | nil => cases member
  | append_singleton messages message ih =>
      rw [numbered_concat, List.mem_append, List.mem_singleton] at member
      rw [List.length_append, List.length_singleton]
      rcases member with earlier | rfl
      · have before := ih earlier
        omega
      · exact Nat.lt_succ_self _

theorem Message.messageWithId_of_messageId {message : Message Body} {id : Text}
    (named : message.messageId = some id) : message.messageWithId id = message := by
  obtain ⟨value, getType, role, body⟩ := message
  unfold messageId at named
  unfold messageWithId
  split at named
  · cases named
  · rw [← named]

theorem Message.messageId_ne_nil {message : Message Body} {id : Text}
    (named : message.messageId = some id) : id ≠ [] := by
  rintro rfl
  unfold messageId at named
  split at named
  · cases named
  · next plain => exact plain named

theorem Message.messageId_messageWithId (message : Message Body) {id : Text} (present : id ≠ []) :
    (message.messageWithId id).messageId = some id := by
  unfold messageId messageWithId
  cases id with
  | nil => exact absurd rfl present
  | cons first rest => rfl

namespace Entry

theorem key_of_messageId {entry : Entry Body} {id : Text}
    (named : entry.message.messageId = some id) : entry.key = .scoped entry.turn (sourceOf id) := by
  rw [key, sourceId?, named]
  rfl

theorem key_of_unnamed {entry : Entry Body} (unnamed : entry.message.messageId = none) :
    entry.key = .alone entry.place := by
  rw [key, sourceId?, unnamed]
  rfl

theorem key_eq_scoped {entry : Entry Body} {turn : ℤ} {sourceId : Text}
    (same : entry.key = .scoped turn sourceId) :
    entry.turn = turn ∧ entry.sourceId? = some sourceId := by
  unfold key at same
  cases named : entry.sourceId? with
  | none =>
      rw [named] at same
      cases same
  | some other =>
      rw [named] at same
      cases same
      exact ⟨rfl, rfl⟩

end Entry

variable {entries : List (Entry Body)}

theorem firstTurn_append_of_mem {sourceId : Text} (member : entry ∈ entries)
    (source : entry.sourceId? = some sourceId) (more : List (Entry Body)) :
    firstTurn (entries ++ more) sourceId = firstTurn entries sourceId := by
  have present : (entries.find? fun entry => entry.sourceId? == some sourceId).isSome := by
    rw [List.find?_isSome]
    exact ⟨entry, member, by simp [source]⟩
  rw [firstTurn, firstTurn, List.find?_append, Option.or_of_isSome present]

theorem firstTurn_concat (entries : List (Entry Body)) (entry : Entry Body) (sourceId : Text) :
    firstTurn (entries ++ [entry]) sourceId =
      (firstTurn entries sourceId).or
        (if entry.sourceId? = some sourceId then some entry.turn else none) := by
  rw [firstTurn, firstTurn, List.find?_append]
  cases entries.find? fun entry => entry.sourceId? == some sourceId with
  | some first => rfl
  | none =>
      by_cases source : entry.sourceId? = some sourceId
      · simp [source]
      · simp [source]

theorem lastLike_concat (entries : List (Entry Body)) (entry other : Entry Body) :
    lastLike (entries ++ [entry]) other =
      if entry.key = other.key then entry else lastLike entries other := by
  rw [lastLike, lastLike, List.filter_append]
  by_cases same : entry.key = other.key
  · rw [if_pos same, List.filter_cons_of_pos (by simpa using same)]
    simp
  · rw [if_neg same, List.filter_cons_of_neg (by simpa using same)]
    simp

theorem shown_concat_of_ne {other : Entry Body} (member : other ∈ entries)
    (different : entry.key ≠ other.key) :
    shown (entries ++ [entry]) other = shown entries other := by
  unfold shown
  cases named : other.message.messageId with
  | none => rfl
  | some id =>
      have source : other.sourceId? = some (sourceOf id) := by rw [Entry.sourceId?, named]; rfl
      dsimp only
      rw [lastLike_concat, if_neg different, shownId, shownId,
        firstTurn_append_of_mem member source]

/-- An entry that belongs together with an earlier one only changes what is shown of it. -/
theorem shown_concat_of_eq {other : Entry Body} {id : Text} (member : other ∈ entries)
    (same : entry.key = other.key) (named : other.message.messageId = some id) :
    shown (entries ++ [entry]) other = entry.message.messageWithId (shownId entries other id) := by
  have source : other.sourceId? = some (sourceOf id) := by rw [Entry.sourceId?, named]; rfl
  rw [shown, named]
  dsimp only
  rw [lastLike_concat, if_pos same, shownId, shownId, firstTurn_append_of_mem member source]

theorem kept_concat_of_mem (known : entry.key ∈ entries.map Entry.key) :
    kept (entries ++ [entry]) = kept entries := by
  rw [kept, distinctOn_append, distinctOn, distinctOn, List.filter_nil,
    List.filter_cons_of_neg (by simpa using known), List.filter_nil, List.append_nil]
  rfl

theorem kept_concat_of_notMem (fresh : entry.key ∉ entries.map Entry.key) :
    kept (entries ++ [entry]) = kept entries ++ [entry] := by
  rw [kept, distinctOn_append, distinctOn, distinctOn, List.filter_nil,
    List.filter_cons_of_pos (by simpa using fresh), List.filter_nil]
  rfl

theorem map_eq_set {Item Key Image : Type*} {key : Item → Key} (before : Item → Image)
    {after : Item → Image} {items : List Item} {index : ℕ} {item : Item}
    (found : items[index]? = some item)
    (distinct : items.Pairwise fun first second => key first ≠ key second)
    (unchanged : ∀ other ∈ items, key other ≠ key item → after other = before other) :
    items.map after = (items.map before).set index (after item) := by
  induction items generalizing index with
  | nil => cases found
  | cons first items ih =>
      rw [List.pairwise_cons] at distinct
      cases index with
      | zero =>
          obtain rfl := Option.some.inj found
          rw [List.map_cons, List.map_cons, List.set_cons_zero]
          congr 1
          apply List.map_congr_left
          intro other member
          exact unchanged other (List.mem_cons_of_mem _ member) (distinct.1 other member).symm
      | succ index =>
          have within : item ∈ items := List.mem_of_getElem? found
          rw [List.map_cons, List.map_cons, List.set_cons_succ,
            unchanged first List.mem_cons_self (distinct.1 item within),
            ih found distinct.2 fun other member =>
              unchanged other (List.mem_cons_of_mem _ member)]

theorem shownMessages_concat_of_notMem (fresh : entry.key ∉ entries.map Entry.key) :
    shownMessages (entries ++ [entry]) =
      shownMessages entries ++ [shown (entries ++ [entry]) entry] := by
  rw [shownMessages, kept_concat_of_notMem fresh, List.map_append, shownMessages]
  congr 1
  apply List.map_congr_left
  intro other member
  have within := FirstOccurrences.mem_of_mem_distinctOn member
  apply shown_concat_of_ne within
  intro same
  exact fresh (same ▸ List.mem_map_of_mem within)

theorem shownMessages_concat_of_mem {other : Entry Body} {index : ℕ} {id : Text}
    (found : (kept entries)[index]? = some other) (same : entry.key = other.key)
    (named : other.message.messageId = some id) :
    shownMessages (entries ++ [entry]) =
      (shownMessages entries).set index
        (entry.message.messageWithId (shownId entries other id)) := by
  have member : other ∈ entries :=
    FirstOccurrences.mem_of_mem_distinctOn (List.mem_of_getElem? found)
  have known : entry.key ∈ entries.map Entry.key := same ▸ List.mem_map_of_mem member
  rw [shownMessages, kept_concat_of_mem known,
    map_eq_set (shown entries) found (FirstOccurrences.pairwise_distinctOn Entry.key entries),
    shown_concat_of_eq member same named]
  · rfl
  · intro another within different
    apply shown_concat_of_ne (FirstOccurrences.mem_of_mem_distinctOn within)
    rw [same]
    exact different.symm

theorem shownId_ne_nil {id : Text} (present : id ≠ []) : shownId entries entry id ≠ [] := by
  unfold shownId
  split
  · exact present
  · exact threadMessageIdForTurn_ne_nil _ _

theorem messageId_shown {id : Text} (named : entry.message.messageId = some id) :
    (shown entries entry).messageId = some (shownId entries entry id) := by
  rw [shown, named]
  exact Message.messageId_messageWithId _ (shownId_ne_nil (Message.messageId_ne_nil named))

theorem scopedId_injective {turn otherTurn : ℤ} {sourceId otherId : Text}
    (same : scopedId turn sourceId = scopedId otherTurn otherId) :
    turn = otherTurn ∧ sourceId = otherId := by
  have plain (number : ℤ) : ':' ∉ wholeNumber number := by
    intro member
    cases number with
    | ofNat value => exact absurd (isDigit_of_mem_toDigits member) (by decide)
    | negSucc value =>
        rcases List.mem_cons.mp member with sign | digit
        · exact absurd sign (by decide)
        · exact absurd (isDigit_of_mem_toDigits digit) (by decide)
  have parts := PythonText.append_cons_cancel (plain turn) (plain otherTurn) same
  exact ⟨wholeNumber_injective parts.1, parts.2⟩

structure Pass.Follows (pass : Pass Body) (messages : List (Message Body)) : Prop where
  turn : pass.turnIndex = turnAfter messages
  deduped : pass.deduped = shownMessages (numbered messages)
  unchanged : pass.changed = false → pass.deduped = messages
  index : ∀ turn sourceId index,
    pass.indexByScopedId.get? (scopedId turn sourceId) = some index →
    ∃ entry, (kept (numbered messages))[index]? = some entry ∧ entry.key = .scoped turn sourceId
  missing : ∀ turn sourceId, pass.indexByScopedId.get? (scopedId turn sourceId) = none →
    SlotKey.scoped turn sourceId ∉ (numbered messages).map Entry.key
  first : ∀ sourceId, pass.firstTurnBySourceId.get? sourceId =
    firstTurn (numbered messages) sourceId

theorem Pass.follows_start : Pass.Follows ({} : Pass Body) [] where
  turn := rfl
  deduped := rfl
  unchanged _ := rfl
  index _ _ _ found := by
    rw [OrderedDict.get?_empty] at found
    cases found
  missing _ _ _ := List.not_mem_nil
  first _ := OrderedDict.get?_empty _

theorem alone_notMem_numbered :
    SlotKey.alone messages.length ∉ (numbered messages).map Entry.key := by
  intro member
  obtain ⟨entry, within, same⟩ := List.mem_map.mp member
  have place := place_lt_of_mem_numbered within
  unfold Entry.key at same
  split at same
  · cases same
  · rw [SlotKey.alone.injEq] at same
    omega

namespace Pass.Follows

variable {pass : Pass Body} {messages : List (Message Body)} {message : Message Body}

theorem nextTurn (follows : pass.Follows messages) (message : Message Body) :
    (if message.isUser then pass.turnIndex + 1 else pass.turnIndex) =
      turnAfter (messages ++ [message]) := by
  rw [turnAfter_concat, follows.turn]

theorem step_unnamed (follows : pass.Follows messages) (unnamed : message.messageId = none) :
    (pass.step true message).Follows (messages ++ [message]) := by
  have key : (Entry.mk messages.length (turnAfter (messages ++ [message])) message).key =
      .alone messages.length := Entry.key_of_unnamed unnamed
  have fresh : (Entry.mk messages.length (turnAfter (messages ++ [message])) message).key ∉
      (numbered messages).map Entry.key := key ▸ alone_notMem_numbered messages
  have stepped : pass.step true message =
      { pass with
        turnIndex := turnAfter (messages ++ [message])
        deduped := pass.deduped ++ [message] } := by
    rw [Pass.step, unnamed, follows.nextTurn]
  rw [stepped]
  refine
    { turn := rfl
      deduped := ?_
      unchanged := fun same => by rw [follows.unchanged same]
      index := ?_
      missing := ?_
      first := ?_ }
  · rw [numbered_concat, shownMessages_concat_of_notMem fresh, follows.deduped, shown, unnamed]
  · intro turn sourceId index found
    obtain ⟨entry, at_, same⟩ := follows.index turn sourceId index found
    refine ⟨entry, ?_, same⟩
    rw [numbered_concat, kept_concat_of_notMem fresh, List.getElem?_append_left, at_]
    exact (List.getElem?_eq_some_iff.mp at_).1
  · intro turn sourceId missing member
    rw [numbered_concat, List.map_append, List.mem_append, List.map_singleton,
      List.mem_singleton, key] at member
    rcases member with earlier | own
    · exact follows.missing turn sourceId missing earlier
    · cases own
  · intro sourceId
    rw [numbered_concat, firstTurn_concat, if_neg, Option.or_none]
    · exact follows.first sourceId
    · rw [Entry.sourceId?, unnamed]
      nofun

theorem step_fresh (follows : pass.Follows messages) {id : Text}
    (named : message.messageId = some id)
    (missing : pass.indexByScopedId.get?
      (scopedId (turnAfter (messages ++ [message])) (sourceOf id)) = none) :
    (pass.step true message).Follows (messages ++ [message]) := by
  set turn := turnAfter (messages ++ [message]) with turnSet
  have key : (Entry.mk messages.length turn message).key = .scoped turn (sourceOf id) :=
    Entry.key_of_messageId named
  have source : (Entry.mk messages.length turn message).sourceId? = some (sourceOf id) := by
    rw [Entry.sourceId?, named]
    rfl
  have fresh : (Entry.mk messages.length turn message).key ∉
      (numbered messages).map Entry.key := key ▸ follows.missing _ _ missing
  have firstNow : firstTurn (numbered messages ++ [⟨messages.length, turn, message⟩])
      (sourceOf id) = (pass.firstTurnBySourceId.get? (sourceOf id)).or (some turn) := by
    rw [firstTurn_concat, if_pos source, follows.first]
  have given : (if true = true ∧ pass.firstTurnBySourceId.get? (sourceOf id) ≠ none ∧
        pass.firstTurnBySourceId.get? (sourceOf id) ≠ some turn then
      threadMessageIdForTurn (sourceOf id) turn else id) =
      shownId (numbered messages ++ [⟨messages.length, turn, message⟩])
        ⟨messages.length, turn, message⟩ id := by
    rw [shownId, firstNow]
    cases pass.firstTurnBySourceId.get? (sourceOf id) with
    | none => simp
    | some first => by_cases same : first = turn <;> simp [same]
  have length : pass.deduped.length = (kept (numbered messages)).length := by
    rw [follows.deduped, shownMessages, List.length_map]
  have renamed (nextId : Text) :
      (if nextId = id then message else message.messageWithId nextId) =
        message.messageWithId nextId := by
    by_cases same : nextId = id
    · rw [if_pos same, same, Message.messageWithId_of_messageId named]
    · rw [if_neg same]
  have added : shownMessages (numbered (messages ++ [message])) =
      shownMessages (numbered messages) ++ [message.messageWithId
        (shownId (numbered messages ++ [⟨messages.length, turn, message⟩])
          ⟨messages.length, turn, message⟩ id)] := by
    rw [numbered_concat, shownMessages_concat_of_notMem fresh, shown, named]
    dsimp only
    rw [lastLike_concat, if_pos rfl]
  have stepped : pass.step true message =
      { turnIndex := turn
        indexByScopedId :=
          pass.indexByScopedId.set (scopedId turn (sourceOf id)) pass.deduped.length
        firstTurnBySourceId := pass.firstTurnBySourceId.set (sourceOf id)
          ((pass.firstTurnBySourceId.get? (sourceOf id)).getD turn)
        deduped := shownMessages (numbered (messages ++ [message]))
        changed := pass.changed || shownId
          (numbered messages ++ [⟨messages.length, turn, message⟩])
          ⟨messages.length, turn, message⟩ id != id } := by
    rw [Pass.step, named, follows.nextTurn, ← turnSet]
    dsimp only
    rw [missing]
    dsimp only
    rw [given, renamed, added, follows.deduped]
  rw [stepped]
  refine
    { turn := rfl
      deduped := rfl
      unchanged := ?_
      index := ?_
      missing := ?_
      first := ?_ }
  · intro same
    dsimp only at same ⊢
    rw [Bool.or_eq_false_iff, bne_eq_false_iff_eq] at same
    rw [added, same.2, Message.messageWithId_of_messageId named, ← follows.deduped,
      follows.unchanged same.1]
  · intro other sourceId index found
    dsimp only at found
    rw [OrderedDict.get?_set] at found
    rw [numbered_concat, kept_concat_of_notMem fresh]
    by_cases own : scopedId turn (sourceOf id) = scopedId other sourceId
    · obtain ⟨rfl, rfl⟩ := scopedId_injective own
      rw [if_pos rfl, length, Option.some.injEq] at found
      subst found
      exact ⟨_, List.getElem?_concat_length, key⟩
    · rw [if_neg (Ne.symm own)] at found
      obtain ⟨entry, at_, same⟩ := follows.index other sourceId index found
      refine ⟨entry, ?_, same⟩
      rw [List.getElem?_append_left, at_]
      exact (List.getElem?_eq_some_iff.mp at_).1
  · intro other sourceId absent member
    dsimp only at absent
    rw [OrderedDict.get?_set] at absent
    rw [numbered_concat, List.map_append, List.mem_append, List.map_singleton,
      List.mem_singleton, key] at member
    by_cases own : scopedId turn (sourceOf id) = scopedId other sourceId
    · rw [if_pos own.symm] at absent
      cases absent
    · rw [if_neg (Ne.symm own)] at absent
      rcases member with earlier | same
      · exact follows.missing other sourceId absent earlier
      · rw [SlotKey.scoped.injEq] at same
        exact own (by rw [same.1, same.2])
  · intro sourceId
    dsimp only
    rw [OrderedDict.get?_set, numbered_concat, firstTurn_concat, source]
    by_cases own : sourceId = sourceOf id
    · subst own
      rw [if_pos rfl, if_pos rfl, follows.first]
      cases firstTurn (numbered messages) (sourceOf id) <;> rfl
    · rw [if_neg own, if_neg fun same => own (Option.some.inj same).symm, Option.or_none,
        follows.first]

/-- A message of a key that is shown already only changes what is shown of it. -/
theorem step_known (follows : pass.Follows messages) {id : Text} {index : ℕ}
    (named : message.messageId = some id)
    (known : pass.indexByScopedId.get?
      (scopedId (turnAfter (messages ++ [message])) (sourceOf id)) = some index) :
    (pass.step true message).Follows (messages ++ [message]) := by
  set turn := turnAfter (messages ++ [message]) with turnSet
  obtain ⟨other, found, otherKey⟩ := follows.index _ _ index known
  have key : (Entry.mk messages.length turn message).key = other.key :=
    (Entry.key_of_messageId named).trans otherKey.symm
  have member : other ∈ numbered messages :=
    FirstOccurrences.mem_of_mem_distinctOn (List.mem_of_getElem? found)
  obtain ⟨sameTurn, otherSource⟩ := Entry.key_eq_scoped otherKey
  obtain ⟨otherId, otherNamed, -⟩ := Option.map_eq_some_iff.mp otherSource
  have existing : pass.deduped[index]?.bind Message.messageId =
      some (shownId (numbered messages) other otherId) := by
    rw [follows.deduped, shownMessages, List.getElem?_map, found]
    exact messageId_shown otherNamed
  have renamed (nextId : Text) :
      (if true = true ∧ nextId ≠ id then message.messageWithId nextId else message) =
        message.messageWithId nextId := by
    by_cases same : nextId = id
    · rw [if_neg fun different => different.2 same, same,
        Message.messageWithId_of_messageId named]
    · rw [if_pos ⟨rfl, same⟩]
  have stepped : pass.step true message =
      { pass with
        turnIndex := turn
        deduped := shownMessages (numbered (messages ++ [message]))
        changed := true } := by
    rw [Pass.step, named, follows.nextTurn, ← turnSet]
    dsimp only
    rw [known]
    dsimp only
    rw [existing]
    dsimp only
    rw [renamed, numbered_concat, shownMessages_concat_of_mem found key otherNamed,
      follows.deduped]
  have keptSame : kept (numbered (messages ++ [message])) = kept (numbered messages) := by
    rw [numbered_concat]
    exact kept_concat_of_mem (key ▸ List.mem_map_of_mem member)
  rw [stepped]
  refine
    { turn := rfl
      deduped := rfl
      unchanged := nofun
      index := ?_
      missing := ?_
      first := ?_ }
  · rw [keptSame]
    exact follows.index
  · intro other sourceId absent within
    rw [numbered_concat, List.map_append, List.mem_append, List.map_singleton,
      List.mem_singleton, Entry.key_of_messageId named] at within
    rcases within with earlier | same
    · exact follows.missing other sourceId absent earlier
    · rw [SlotKey.scoped.injEq] at same
      dsimp only at absent
      rw [same.1, same.2, known] at absent
      cases absent
  · intro sourceId
    rw [numbered_concat, firstTurn_concat, ← follows.first]
    by_cases own : sourceId = sourceOf id
    · have shownBefore : (pass.firstTurnBySourceId.get? sourceId).isSome := by
        rw [follows.first, firstTurn, Option.isSome_map, List.find?_isSome]
        exact ⟨other, member, by simp [otherSource, own]⟩
      rw [Option.or_of_isSome shownBefore]
    · rw [if_neg, Option.or_none]
      rw [Entry.sourceId?, named]
      exact fun same => own (Option.some.inj same).symm

theorem step (follows : pass.Follows messages) (message : Message Body) :
    (pass.step true message).Follows (messages ++ [message]) := by
  cases named : message.messageId with
  | none => exact follows.step_unnamed named
  | some id =>
      cases known : pass.indexByScopedId.get?
          (scopedId (turnAfter (messages ++ [message])) (sourceOf id)) with
      | none => exact follows.step_fresh named known
      | some index => exact follows.step_known named known

theorem foldl (messages : List (Message Body)) :
    (messages.foldl (Pass.step true) {}).Follows messages := by
  induction messages using List.reverseRecOn with
  | nil => exact Pass.follows_start
  | append_singleton messages message ih =>
      rw [List.foldl_append]
      exact ih.step message

end Pass.Follows

/-- One message for each turn and source id, in the place of the first and with the content
of the last of them. -/
theorem dedupeThreadMessagesById_eq :
    dedupeThreadMessagesById messages = shownMessages (numbered messages) := by
  have follows := Pass.Follows.foldl messages
  rw [dedupeThreadMessagesById, dedupeMessagesById]
  by_cases changed : (messages.foldl (Pass.step true) {}).changed = true
  · rw [if_pos changed, follows.deduped]
  · rw [if_neg changed, ← follows.deduped]
    exact (follows.unchanged (Bool.eq_false_iff.mpr changed)).symm

end NaturalMold.ThreadMessages
