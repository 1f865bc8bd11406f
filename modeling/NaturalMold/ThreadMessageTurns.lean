import NaturalMold.ThreadMessages

/-! # When shown ids are unique -/

namespace NaturalMold.ThreadMessages

open CronExpressions (Text)
open FirstOccurrences (distinctOn mem_of_mem_distinctOn mem_map_distinctOn pairwise_distinctOn)
open ThreadMessageIds

variable {Body : Type*}

/-- Turns never go back, and a user message starts a new one. -/
structure Entry.Before (first second : Entry Body) : Prop where
  place : first.place < second.place
  turn : first.turn ≤ second.turn
  started : second.message.isUser = true → first.turn < second.turn

variable {messages : List (Message Body)} {entry : Entry Body}

theorem turn_of_mem_numbered (member : entry ∈ numbered messages) :
    -1 ≤ entry.turn ∧ entry.turn ≤ turnAfter messages := by
  induction messages using List.reverseRecOn with
  | nil => cases member
  | append_singleton messages message ih =>
      rw [numbered_concat, List.mem_append, List.mem_singleton] at member
      rcases member with earlier | rfl
      · have bounds := ih earlier
        rw [turnAfter_concat]
        split <;> omega
      · exact ⟨neg_one_le_turnAfter _, le_refl _⟩

theorem pairwise_numbered (messages : List (Message Body)) :
    (numbered messages).Pairwise Entry.Before := by
  induction messages using List.reverseRecOn with
  | nil => exact List.Pairwise.nil
  | append_singleton messages message ih =>
      rw [numbered_concat, List.pairwise_append]
      refine ⟨ih, List.pairwise_singleton _ _, ?_⟩
      intro entry member last isLast
      obtain rfl := List.mem_singleton.mp isLast
      have bounds := turn_of_mem_numbered member
      have next := turnAfter_concat messages message
      refine ⟨place_lt_of_mem_numbered member, ?_, fun user => ?_⟩
      · change entry.turn ≤ turnAfter (messages ++ [message])
        split at next <;> omega
      · change entry.turn < turnAfter (messages ++ [message])
        rw [if_pos user] at next
        omega

theorem pairwise_kept (messages : List (Message Body)) :
    (kept (numbered messages)).Pairwise Entry.Before :=
  (pairwise_numbered messages).sublist (FirstOccurrences.distinctOn_sublist _)

theorem firstTurn_le {sourceId : Text} (member : entry ∈ numbered messages)
    (source : entry.sourceId? = some sourceId) :
    ∃ turn, firstTurn (numbered messages) sourceId = some turn ∧ -1 ≤ turn ∧ turn ≤ entry.turn := by
  cases found : (numbered messages).find? fun entry => entry.sourceId? == some sourceId with
  | none =>
      rw [List.find?_eq_none] at found
      exact absurd (by simp [source]) (found entry member)
  | some first =>
      refine ⟨first.turn, by rw [firstTurn, found]; rfl, ?_, ?_⟩
      · exact (turn_of_mem_numbered (List.mem_of_find?_eq_some found)).1
      · obtain ⟨-, before, after, split, earlier⟩ := List.find?_eq_some_iff_append.mp found
        have ordered := pairwise_numbered messages
        rw [split] at member ordered
        rw [List.mem_append, List.mem_cons] at member
        rcases member with absent | rfl | later
        · have other := earlier entry absent
          rw [source] at other
          simp at other
        · exact le_refl _
        · have tail := (List.pairwise_append.mp ordered).2.1
          exact ((List.pairwise_cons.mp tail).1 entry later).turn

/-- A kept entry shows the source id that it came with. -/
theorem sourceOf_shownId {id : Text} (member : entry ∈ numbered messages)
    (named : entry.message.messageId = some id) :
    sourceOf (shownId (numbered messages) entry id) = sourceOf id := by
  have source : entry.sourceId? = some (sourceOf id) := by rw [Entry.sourceId?, named]; rfl
  obtain ⟨first, found, low, high⟩ := firstTurn_le member source
  unfold shownId
  split
  · rfl
  · next other =>
      rw [found, Option.some.injEq] at other
      exact sourceOf_threadMessageIdForTurn _ (by omega)

theorem sourceId?_shown (member : entry ∈ numbered messages) :
    (shown (numbered messages) entry).messageId.map sourceOf = entry.sourceId? := by
  rw [Entry.sourceId?]
  cases named : entry.message.messageId with
  | none =>
      rw [shown, named]
      dsimp only
      rw [named]
  | some id =>
      rw [messageId_shown named]
      exact congrArg some (sourceOf_shownId member named)

/-- The first message of a source id does not carry the number of another turn in which the
source id occurs. -/
def KeepsIds (entries : List (Entry Body)) : Prop :=
  ∀ first ∈ kept entries, ∀ other ∈ entries, ∀ id, first.message.messageId = some id →
    firstTurn entries (sourceOf id) = some first.turn → other.sourceId? = some (sourceOf id) →
    other.turn ≠ first.turn → id ≠ threadMessageIdForTurn (sourceOf id) other.turn

variable {entries : List (Entry Body)}

theorem messageId_shown_eq_some_iff {id : Text} : (shown entries entry).messageId = some id ↔
      ∃ own, entry.message.messageId = some own ∧ shownId entries entry own = id := by
  cases named : entry.message.messageId with
  | none =>
      rw [shown, named]
      simp [named]
  | some own =>
      rw [messageId_shown named]
      simp

theorem nodup_ids_iff (entries : List (Entry Body)) :
    ((shownMessages entries).filterMap Message.messageId).Nodup ↔
      (kept entries).Pairwise fun first second =>
        ∀ id, first.message.messageId = some id → ∀ otherId,
          second.message.messageId = some otherId →
          shownId entries first id ≠ shownId entries second otherId := by
  rw [List.Nodup, List.pairwise_filterMap, shownMessages, List.pairwise_map]
  apply List.Pairwise.iff
  intro first second
  simp only [messageId_shown_eq_some_iff]
  constructor
  · intro apart id named otherId otherNamed
    exact apart _ ⟨id, named, rfl⟩ _ ⟨otherId, otherNamed, rfl⟩
  · rintro apart _ ⟨id, named, rfl⟩ _ ⟨otherId, otherNamed, rfl⟩
    exact apart id named otherId otherNamed

theorem shownId_ne {first other : Entry Body} {id otherId : Text} (keeps : KeepsIds entries)
    (firstMember : first ∈ kept entries) (otherMember : other ∈ kept entries)
    (named : first.message.messageId = some id)
    (otherNamed : other.message.messageId = some otherId)
    (sameSource : sourceOf otherId = sourceOf id) (apart : other.turn ≠ first.turn)
    (shownFirst : firstTurn entries (sourceOf id) = some first.turn) :
    shownId entries first id ≠ shownId entries other otherId := by
  have later : firstTurn entries (sourceOf otherId) ≠ some other.turn := by
    rw [sameSource, shownFirst]
    exact fun same => apart (Option.some.inj same).symm
  rw [shownId, if_pos shownFirst, shownId, if_neg later, sameSource]
  refine keeps first firstMember other (mem_of_mem_distinctOn otherMember) id named shownFirst ?_
    apart
  rw [Entry.sourceId?, otherNamed, Option.map_some, sameSource]

theorem keepsIds_iff_nodup (messages : List (Message Body)) :
    KeepsIds (numbered messages) ↔
      ((shownMessages (numbered messages)).filterMap Message.messageId).Nodup := by
  rw [nodup_ids_iff]
  constructor
  · intro keeps
    have pairs := List.Pairwise.and_mem.mp (pairwise_distinctOn Entry.key (numbered messages))
    refine pairs.imp ?_
    rintro first other ⟨firstMember, otherMember, different⟩ id named otherId otherNamed same
    have sources := congrArg sourceOf same
    rw [sourceOf_shownId (mem_of_mem_distinctOn firstMember) named,
      sourceOf_shownId (mem_of_mem_distinctOn otherMember) otherNamed] at sources
    have apart : other.turn ≠ first.turn := by
      intro turns
      rw [Entry.key_of_messageId named, Entry.key_of_messageId otherNamed, turns, sources]
        at different
      exact different rfl
    by_cases firstShown : firstTurn (numbered messages) (sourceOf id) = some first.turn
    · exact shownId_ne keeps firstMember otherMember named otherNamed sources.symm apart firstShown
        same
    · by_cases otherShown : firstTurn (numbered messages) (sourceOf otherId) = some other.turn
      · exact shownId_ne keeps otherMember firstMember otherNamed named sources apart.symm
          otherShown same.symm
      · rw [shownId, if_neg firstShown, shownId, if_neg otherShown, sources] at same
        exact apart (threadMessageIdForTurn_injective same).symm
  · intro pairs first firstMember other otherMember id named firstShown source apart same
    have present : other.key ∈ (kept (numbered messages)).map Entry.key :=
      mem_map_distinctOn.mpr (List.mem_map_of_mem otherMember)
    obtain ⟨shownOther, shownMember, sameKey⟩ := List.mem_map.mp present
    have otherKey : other.key = .scoped other.turn (sourceOf id) := by rw [Entry.key, source]
    obtain ⟨sameTurn, shownSource⟩ := Entry.key_eq_scoped (sameKey.trans otherKey)
    obtain ⟨otherId, otherNamed, sameSource⟩ := Option.map_eq_some_iff.mp shownSource
    have different : first ≠ shownOther := by
      rintro rfl
      exact apart sameTurn.symm
    have symmetric : Std.Symm fun first second : Entry Body =>
        ∀ id, first.message.messageId = some id → ∀ otherId,
          second.message.messageId = some otherId →
          shownId (numbered messages) first id ≠ shownId (numbered messages) second otherId :=
      ⟨fun _ _ ne otherId otherNamed id named => (ne id named otherId otherNamed).symm⟩
    refine pairs.forall firstMember shownMember different id named otherId otherNamed ?_
    have later : firstTurn (numbered messages) (sourceOf otherId) ≠ some shownOther.turn := by
      rw [sameSource, firstShown, sameTurn]
      exact fun turns => apart (Option.some.inj turns).symm
    rw [shownId, if_pos firstShown, shownId, if_neg later, sameSource, sameTurn]
    exact same

/-- A user message that another message of its turn and source id took the place of. -/
structure Lost (entries : List (Entry Body)) (entry : Entry Body) : Prop where
  user : entry.message.isUser = true
  replaced : (lastLike entries entry).message.isUser = false
  named : entry.message.messageId ≠ none

/-- From the turn of a lost user message on, no source id occurs in two turns. -/
def KeepsTurns (entries : List (Entry Body)) : Prop :=
  ∀ lost ∈ kept entries, Lost entries lost → ∀ first ∈ entries, ∀ later ∈ entries, ∀ sourceId,
    first.sourceId? = some sourceId → later.sourceId? = some sourceId →
    first.turn < later.turn → later.turn < lost.turn

theorem eq_or_of_getLast? {Item : Type*} {before : Item → Item → Prop} {items : List Item}
    {item last : Item} (ordered : items.Pairwise before) (member : item ∈ items)
    (isLast : items.getLast? = some last) : item = last ∨ before item last := by
  obtain ⟨rest, rfl⟩ := List.getLast?_eq_some_iff.mp isLast
  rw [List.mem_append, List.mem_singleton] at member
  rcases member with earlier | same
  · exact .inr ((List.pairwise_append.mp ordered).2.2 item earlier last List.mem_cons_self)
  · exact .inl same

theorem lastLike_spec (member : entry ∈ numbered messages) :
    (lastLike (numbered messages) entry).key = entry.key ∧
      (entry = lastLike (numbered messages) entry ∨
        entry.Before (lastLike (numbered messages) entry)) := by
  have own : entry ∈ (numbered messages).filter fun other => decide (other.key = entry.key) :=
    List.mem_filter.mpr ⟨member, by simp⟩
  cases found : ((numbered messages).filter fun other =>
      decide (other.key = entry.key)).getLast? with
  | none =>
      rw [List.getLast?_eq_none_iff] at found
      rw [found] at own
      cases own
  | some last =>
      have within := List.mem_filter.mp (List.mem_of_getLast? found)
      rw [lastLike, found]
      exact ⟨by simpa using within.2,
        eq_or_of_getLast? ((pairwise_numbered messages).filter _) own found⟩

theorem isUser_shown_iff (member : entry ∈ numbered messages) :
    (shown (numbered messages) entry).isUser = true ↔
      entry.message.isUser = true ∧ ¬ Lost (numbered messages) entry := by
  obtain ⟨sameKey, follows⟩ := lastLike_spec member
  cases named : entry.message.messageId with
  | none =>
      rw [shown, named]
      exact ⟨fun user => ⟨user, fun lost => lost.named named⟩, And.left⟩
  | some id =>
      have image : (shown (numbered messages) entry).isUser =
          (lastLike (numbered messages) entry).message.isUser := by
        rw [shown, named]
        rfl
      rw [image]
      constructor
      · intro user
        rcases follows with same | before
        · exact ⟨same ▸ user, fun lost => by simp [lost.replaced] at user⟩
        · have turns := (Entry.key_eq_scoped (sameKey.trans (Entry.key_of_messageId named))).1
          have started := before.started user
          omega
      · rintro ⟨user, kept⟩
        by_contra other
        exact kept ⟨user, by simpa using other, by simp [named]⟩

theorem countP_eq_iff {Item : Type*} (test wider : Item → Bool) {items : List Item}
    (implies : ∀ item ∈ items, test item = true → wider item = true) :
    items.countP test ≤ items.countP wider ∧
      (items.countP test = items.countP wider ↔
        ∀ item ∈ items, wider item = true → test item = true) := by
  have fewer := List.countP_mono_left implies
  refine ⟨fewer, fun same => ?_, fun back => ?_⟩
  · induction items with
    | nil => nofun
    | cons item items ih =>
        have tailImplies : ∀ other ∈ items, test other = true → wider other = true :=
          fun other member => implies other (List.mem_cons_of_mem item member)
        have rest := List.countP_mono_left tailImplies
        rw [List.countP_cons, List.countP_cons] at same
        have tail : items.countP test = items.countP wider := by
          by_cases narrow : test item = true
          · rw [if_pos narrow, if_pos (implies item List.mem_cons_self narrow)] at same
            omega
          · rw [if_neg narrow] at same
            split at same <;> omega
        refine List.forall_mem_cons.mpr ⟨fun wide => ?_, ih tailImplies rest tail⟩
        by_contra narrow
        rw [if_neg narrow, if_pos wide] at same
        omega
  · exact List.countP_congr fun item member => ⟨implies item member, back item member⟩

theorem getElem?_numberedAfter (before messages : List (Message Body)) (index : ℕ) :
    (numberedAfter before messages)[index]? = messages[index]?.map fun message =>
      ⟨before.length + index, turnAfter (before ++ messages.take (index + 1)), message⟩ := by
  induction messages generalizing before index with
  | nil => rfl
  | cons message messages ih =>
      cases index with
      | zero => rfl
      | succ index =>
          rw [numberedAfter, List.getElem?_cons_succ, ih, List.getElem?_cons_succ]
          simp [Nat.add_assoc, Nat.add_comm 1]

theorem getElem?_numbered (messages : List (Message Body)) (index : ℕ) :
    (numbered messages)[index]? = messages[index]?.map fun message =>
      ⟨index, turnAfter (messages.take (index + 1)), message⟩ := by
  rw [numbered, getElem?_numberedAfter]
  simp

theorem turnAfter_append_congr {first second : List (Message Body)}
    (same : turnAfter first = turnAfter second) (message : Message Body) :
    turnAfter (first ++ [message]) = turnAfter (second ++ [message]) := by
  rw [turnAfter_concat, turnAfter_concat, same]

theorem turnAfter_kept (messages : List (Message Body)) :
    turnAfter ((kept (numbered messages)).map Entry.message) = turnAfter messages := by
  induction messages using List.reverseRecOn with
  | nil => rfl
  | append_singleton messages message ih =>
      rw [numbered_concat]
      by_cases known : (Entry.mk messages.length (turnAfter (messages ++ [message])) message).key ∈
          (numbered messages).map Entry.key
      · rw [kept_concat_of_mem known, ih, turnAfter_concat, if_neg]
        intro user
        obtain ⟨earlier, member, same⟩ := List.mem_map.mp known
        have bounds := turn_of_mem_numbered member
        have turn := turnAfter_concat messages message
        rw [if_pos user] at turn
        cases named : message.messageId with
        | none =>
            have key : (Entry.mk messages.length (turnAfter (messages ++ [message])) message).key =
                .alone messages.length := Entry.key_of_unnamed named
            rw [key] at known
            exact alone_notMem_numbered messages known
        | some id =>
            have key : (Entry.mk messages.length (turnAfter (messages ++ [message])) message).key =
                .scoped (turnAfter (messages ++ [message])) (sourceOf id) :=
              Entry.key_of_messageId named
            have turns := (Entry.key_eq_scoped (same.trans key)).1
            omega
      · rw [kept_concat_of_notMem known, List.map_append]
        exact turnAfter_append_congr ih message

theorem turn_of_getElem?_kept {index : ℕ}
    (found : (kept (numbered messages))[index]? = some entry) :
    entry.turn = turnAfter (((kept (numbered messages)).take (index + 1)).map Entry.message) := by
  induction messages using List.reverseRecOn with
  | nil => cases found
  | append_singleton messages message ih =>
      rw [numbered_concat] at found ⊢
      by_cases known : (Entry.mk messages.length (turnAfter (messages ++ [message])) message).key ∈
          (numbered messages).map Entry.key
      · rw [kept_concat_of_mem known] at found ⊢
        exact ih found
      · rw [kept_concat_of_notMem known] at found ⊢
        by_cases within : index < (kept (numbered messages)).length
        · rw [List.getElem?_append_left within] at found
          rw [List.take_append_of_le_length (by omega)]
          exact ih found
        · have bounded := (List.getElem?_eq_some_iff.mp found).1
          rw [List.length_append, List.length_singleton] at bounded
          obtain rfl : index = (kept (numbered messages)).length := by omega
          rw [List.getElem?_concat_length, Option.some.injEq] at found
          subst found
          rw [List.take_of_length_le (by simp), List.map_append]
          exact (turnAfter_append_congr (turnAfter_kept messages) message).symm

def secondTurn (entries : List (Entry Body)) (index : ℕ) : ℤ :=
  turnAfter (((kept entries).take (index + 1)).map (shown entries))

theorem getElem?_secondPass (entries : List (Entry Body)) (index : ℕ) :
    (numbered (shownMessages entries))[index]? = (kept entries)[index]?.map fun entry =>
      ⟨index, secondTurn entries index, shown entries entry⟩ := by
  rw [getElem?_numbered, shownMessages, List.getElem?_map, ← List.map_take, Option.map_map]
  rfl

theorem before_of_getElem? {index other : ℕ} {first second : Entry Body}
    (firstFound : (kept (numbered messages))[index]? = some first)
    (secondFound : (kept (numbered messages))[other]? = some second) (earlier : index < other) :
    first.Before second := by
  obtain ⟨within, rfl⟩ := List.getElem?_eq_some_iff.mp firstFound
  obtain ⟨otherWithin, rfl⟩ := List.getElem?_eq_some_iff.mp secondFound
  exact List.pairwise_iff_getElem.mp (pairwise_kept messages) index other within otherWithin earlier

theorem secondTurn_spec {index : ℕ} (found : (kept (numbered messages))[index]? = some entry) :
    secondTurn (numbered messages) index ≤ entry.turn ∧
      (secondTurn (numbered messages) index = entry.turn ↔
        ∀ lost ∈ kept (numbered messages), Lost (numbered messages) lost →
          entry.turn < lost.turn) := by
  have within : ∀ other ∈ (kept (numbered messages)).take (index + 1),
      other ∈ numbered messages := fun other member =>
    mem_of_mem_distinctOn (List.mem_of_mem_take member)
  obtain ⟨fewer, exactly⟩ := countP_eq_iff
    (fun other => (shown (numbered messages) other).isUser) (fun other => other.message.isUser)
    fun other member user => ((isUser_shown_iff (within other member)).mp user).1
  have first : secondTurn (numbered messages) index =
      ((kept (numbered messages)).take (index + 1)).countP
        (fun other => (shown (numbered messages) other).isUser) - 1 := by
    rw [secondTurn, turnAfter, List.countP_map]
    rfl
  have second : entry.turn = ((kept (numbered messages)).take (index + 1)).countP
        (fun other => other.message.isUser) - 1 := by
    rw [turn_of_getElem?_kept found, turnAfter, List.countP_map]
    rfl
  rw [first, second]
  refine ⟨by omega, ?_⟩
  rw [← second]
  constructor
  · intro same lost member isLost
    by_contra late
    obtain ⟨place, placed⟩ := List.mem_iff_getElem?.mp member
    have early : place ≤ index := by
      by_contra behind
      have started := (before_of_getElem? found placed (by omega)).started isLost.user
      exact late started
    have taken : lost ∈ (kept (numbered messages)).take (index + 1) := by
      refine List.mem_iff_getElem?.mpr ⟨place, ?_⟩
      rw [List.getElem?_take_of_lt (by omega), placed]
    have still := exactly.mp (by omega) lost taken isLost.user
    exact ((isUser_shown_iff (within lost taken)).mp still).2 isLost
  · intro clear
    have same := exactly.mpr fun other member user => by
      refine (isUser_shown_iff (within other member)).mpr ⟨user, fun isLost => ?_⟩
      have later := clear other (List.mem_of_mem_take member) isLost
      obtain ⟨place, placed⟩ := List.mem_iff_getElem?.mp member
      have bounded := (List.getElem?_eq_some_iff.mp placed).1
      rw [List.length_take] at bounded
      rw [List.getElem?_take_of_lt (by omega)] at placed
      rcases Nat.lt_or_ge place index with early | late
      · have turns := (before_of_getElem? placed found early).turn
        omega
      · obtain rfl : place = index := by omega
        rw [found, Option.some.injEq] at placed
        subst placed
        omega
    omega

theorem map_message_numbered (messages : List (Message Body)) :
    (numbered messages).map Entry.message = messages := by
  apply List.ext_getElem?
  intro index
  rw [List.getElem?_map, getElem?_numbered, Option.map_map]
  cases messages[index]? <;> rfl

theorem sourceId?_of_shown (member : entry ∈ numbered messages) (place : ℕ) (turn : ℤ) :
    (Entry.mk place turn (shown (numbered messages) entry)).sourceId? = entry.sourceId? :=
  sourceId?_shown member

theorem turns_of_same_source {index other : ℕ} {first second : Entry Body} {sourceId : Text}
    (keeps : KeepsTurns (numbered messages))
    (firstFound : (kept (numbered messages))[index]? = some first)
    (secondFound : (kept (numbered messages))[other]? = some second) (earlier : index < other)
    (firstSource : first.sourceId? = some sourceId)
    (secondSource : second.sourceId? = some sourceId) :
    first.turn < second.turn ∧ secondTurn (numbered messages) index = first.turn ∧
      secondTurn (numbered messages) other = second.turn := by
  have firstMember := mem_of_mem_distinctOn (List.mem_of_getElem? firstFound)
  have secondMember := mem_of_mem_distinctOn (List.mem_of_getElem? secondFound)
  have ordered := (before_of_getElem? firstFound secondFound earlier).turn
  have apart : first.key ≠ second.key := by
    obtain ⟨within, rfl⟩ := List.getElem?_eq_some_iff.mp firstFound
    obtain ⟨otherWithin, rfl⟩ := List.getElem?_eq_some_iff.mp secondFound
    exact List.pairwise_iff_getElem.mp (pairwise_distinctOn Entry.key (numbered messages))
      index other within otherWithin earlier
  have less : first.turn < second.turn := by
    rcases ordered.lt_or_eq with less | same
    · exact less
    · refine absurd ?_ apart
      rw [Entry.key, Entry.key, firstSource, secondSource, same]
  have clear (lost : Entry Body) (member : lost ∈ kept (numbered messages))
      (isLost : Lost (numbered messages) lost) : second.turn < lost.turn :=
    keeps lost member isLost first firstMember second secondMember sourceId firstSource
      secondSource less
  refine ⟨less, (secondTurn_spec firstFound).2.mpr fun lost member isLost => ?_,
    (secondTurn_spec secondFound).2.mpr clear⟩
  exact less.trans (clear lost member isLost)

theorem mem_secondPass (member : entry ∈ numbered (shownMessages (numbered messages))) :
    ∃ index original, (kept (numbered messages))[index]? = some original ∧
      (numbered (shownMessages (numbered messages)))[index]? = some entry ∧
      entry = ⟨index, secondTurn (numbered messages) index, shown (numbered messages) original⟩ ∧
      entry.sourceId? = original.sourceId? := by
  obtain ⟨index, placed⟩ := List.mem_iff_getElem?.mp member
  have described := placed
  rw [getElem?_secondPass, Option.map_eq_some_iff] at described
  obtain ⟨original, found, rfl⟩ := described
  exact ⟨index, original, found, placed, rfl,
    sourceId?_shown (mem_of_mem_distinctOn (List.mem_of_getElem? found))⟩

theorem pairwise_keys_secondPass (keeps : KeepsTurns (numbered messages)) :
    (numbered (shownMessages (numbered messages))).Pairwise fun first second =>
      first.key ≠ second.key := by
  rw [List.pairwise_iff_getElem]
  intro index other within otherWithin earlier same
  have placed := List.getElem?_eq_getElem within
  have otherPlaced := List.getElem?_eq_getElem otherWithin
  generalize (numbered (shownMessages (numbered messages)))[index] = first at placed same
  generalize (numbered (shownMessages (numbered messages)))[other] = second at otherPlaced same
  rw [getElem?_secondPass, Option.map_eq_some_iff] at placed otherPlaced
  obtain ⟨original, found, rfl⟩ := placed
  obtain ⟨otherOriginal, otherFound, rfl⟩ := otherPlaced
  have source := sourceId?_of_shown (mem_of_mem_distinctOn (List.mem_of_getElem? found))
    index (secondTurn (numbered messages) index)
  have otherSource := sourceId?_of_shown (mem_of_mem_distinctOn (List.mem_of_getElem? otherFound))
    other (secondTurn (numbered messages) other)
  cases named : original.sourceId? with
  | none =>
      rw [named] at source
      rw [Entry.key, source, Entry.key] at same
      dsimp only at same
      split at same
      · cases same
      · rw [SlotKey.alone.injEq] at same
        omega
  | some sourceId =>
      rw [named] at source
      rw [Entry.key, source] at same
      obtain ⟨turns, sources⟩ := Entry.key_eq_scoped same.symm
      rw [otherSource] at sources
      have kept := turns_of_same_source keeps found otherFound earlier named sources
      have bare : secondTurn (numbered messages) other = secondTurn (numbered messages) index :=
        turns
      omega

theorem lastLike_eq_self (distinct : entries.Pairwise fun first second => first.key ≠ second.key)
    (member : entry ∈ entries) : lastLike entries entry = entry := by
  have own : entry ∈ entries.filter fun other => decide (other.key = entry.key) :=
    List.mem_filter.mpr ⟨member, by simp⟩
  cases found : (entries.filter fun other => decide (other.key = entry.key)).getLast? with
  | none =>
      rw [List.getLast?_eq_none_iff] at found
      rw [found] at own
      cases own
  | some last =>
      have within := List.mem_filter.mp (List.mem_of_getLast? found)
      rw [lastLike, found]
      rcases eq_or_of_getLast? (distinct.filter _) own found with same | different
      · exact same.symm
      · exact absurd (by simpa using within.2) different.symm

theorem exists_of_firstTurn {sourceId : Text} {turn : ℤ}
    (first : firstTurn entries sourceId = some turn) :
    ∃ entry ∈ entries, entry.sourceId? = some sourceId ∧ entry.turn = turn := by
  obtain ⟨entry, found, rfl⟩ := Option.map_eq_some_iff.mp first
  exact ⟨entry, List.mem_of_find?_eq_some found, by simpa using List.find?_some found, rfl⟩

theorem shownId_secondPass (keeps : KeepsTurns (numbered messages)) {id : Text}
    (member : entry ∈ numbered (shownMessages (numbered messages)))
    (named : entry.message.messageId = some id)
    (again : firstTurn (numbered (shownMessages (numbered messages))) (sourceOf id) ≠
      some entry.turn) : threadMessageIdForTurn (sourceOf id) entry.turn = id := by
  obtain ⟨index, original, found, placed, rfl, sources⟩ := mem_secondPass member
  have source : (Entry.mk index (secondTurn (numbered messages) index)
      (shown (numbered messages) original)).sourceId? = some (sourceOf id) := by
    rw [Entry.sourceId?, named]
    rfl
  obtain ⟨turn, first, -, low⟩ := firstTurn_le member source
  obtain ⟨earlier, earlierMember, earlierSource, rfl⟩ := exists_of_firstTurn first
  obtain ⟨other, otherOriginal, otherFound, otherPlaced, rfl, otherSources⟩ :=
    mem_secondPass earlierMember
  have apart : secondTurn (numbered messages) other ≠ secondTurn (numbered messages) index :=
    fun same => again (by rw [first, same])
  have order : other < index := by
    by_contra late
    rcases Nat.lt_or_ge index other with later | same
    · have back := (List.pairwise_iff_getElem.mp
        (pairwise_numbered (shownMessages (numbered messages)))) index other
          (List.getElem?_eq_some_iff.mp placed).1 (List.getElem?_eq_some_iff.mp otherPlaced).1 later
      rw [(List.getElem?_eq_some_iff.mp placed).2, (List.getElem?_eq_some_iff.mp otherPlaced).2]
        at back
      have turns : secondTurn (numbered messages) index ≤ secondTurn (numbered messages) other :=
        back.turn
      exact apart (le_antisymm low turns)
    · obtain rfl : other = index := by omega
      exact apart rfl
  have kept := turns_of_same_source keeps otherFound found order
    (otherSources.symm.trans earlierSource) (sources.symm.trans source)
  obtain ⟨own, ownNamed, shownOwn⟩ := messageId_shown_eq_some_iff.mp named
  have ownMember := mem_of_mem_distinctOn (List.mem_of_getElem? found)
  have sameSource := sourceOf_shownId ownMember ownNamed
  rw [shownOwn] at sameSource
  obtain ⟨firstOwn, firstFound, -, bounded⟩ := firstTurn_le
    (mem_of_mem_distinctOn (List.mem_of_getElem? otherFound))
    (otherSources.symm.trans earlierSource)
  have unshown : firstTurn (numbered messages) (sourceOf own) ≠ some original.turn := by
    rw [← sameSource, firstFound]
    intro same
    have turns := Option.some.inj same
    omega
  rw [shownId, if_neg unshown] at shownOwn
  change threadMessageIdForTurn (sourceOf id) (secondTurn (numbered messages) index) = id
  rw [sameSource, kept.2.2]
  exact shownOwn

/-- A second pass leaves everything as it is while the turns are kept. -/
theorem shownMessages_secondPass (keeps : KeepsTurns (numbered messages)) :
    shownMessages (numbered (shownMessages (numbered messages))) =
      shownMessages (numbered messages) := by
  have distinct := pairwise_keys_secondPass keeps
  rw [shownMessages, kept, FirstOccurrences.distinctOn_eq_self distinct]
  conv_rhs => rw [← map_message_numbered (shownMessages (numbered messages))]
  apply List.map_congr_left
  intro entry member
  obtain ⟨index, original, found, placed, described, sources⟩ := mem_secondPass member
  cases named : entry.message.messageId with
  | none => rw [shown, named]
  | some id =>
      have source : entry.sourceId? = some (sourceOf id) := by rw [Entry.sourceId?, named]; rfl
      have same : shownId (numbered (shownMessages (numbered messages))) entry id = id := by
        by_cases first : firstTurn (numbered (shownMessages (numbered messages)))
            (sourceOf id) = some entry.turn
        · rw [shownId, if_pos first]
        · rw [shownId, if_neg first]
          exact shownId_secondPass keeps member named first
      rw [shown, named]
      dsimp only
      rw [lastLike_eq_self distinct member, same, Message.messageWithId_of_messageId named]

theorem exists_kept_of_source {sourceId : Text} (member : entry ∈ entries)
    (source : entry.sourceId? = some sourceId) :
    ∃ index : ℕ, ∃ original : Entry Body, (kept entries)[index]? = some original ∧
      original.turn = entry.turn ∧ original.sourceId? = some sourceId := by
  have present : entry.key ∈ (kept entries).map Entry.key :=
    mem_map_distinctOn.mpr (List.mem_map_of_mem member)
  obtain ⟨original, within, same⟩ := List.mem_map.mp present
  obtain ⟨index, found⟩ := List.mem_iff_getElem?.mp within
  have key : entry.key = .scoped entry.turn sourceId := by rw [Entry.key, source]
  exact ⟨index, original, found, Entry.key_eq_scoped (same.trans key)⟩

/-- A second pass that changes nothing leaves nothing out. -/
theorem kept_secondPass (again : shownMessages (numbered messages) = messages) :
    kept (numbered messages) = numbered messages := by
  apply (FirstOccurrences.distinctOn_sublist _).eq_of_length
  have lengths := congrArg List.length again
  rw [shownMessages, List.length_map] at lengths
  have same := congrArg List.length (map_message_numbered messages)
  rw [List.length_map] at same
  exact lengths.trans same.symm

theorem shown_secondPass (again : shownMessages (numbered messages) = messages)
    (member : entry ∈ numbered messages) : shown (numbered messages) entry = entry.message := by
  have images : (numbered messages).map (shown (numbered messages)) =
      (numbered messages).map Entry.message := by
    rw [map_message_numbered]
    conv_rhs => rw [← again, shownMessages, kept_secondPass again]
  exact List.map_inj_left.mp images entry member

theorem keepsTurns_of_secondPass
    (again : shownMessages (numbered (shownMessages (numbered messages))) =
      shownMessages (numbered messages)) : KeepsTurns (numbered messages) := by
  intro lost lostMember isLost first firstMember later laterMember sourceId firstSource
    laterSource less
  by_contra late
  obtain ⟨index, original, found, turn, source⟩ := exists_kept_of_source firstMember firstSource
  obtain ⟨place, other, otherFound, otherTurn, otherSource⟩ :=
    exists_kept_of_source laterMember laterSource
  have order : index < place := by
    by_contra behind
    rcases Nat.lt_or_ge place index with before | same
    · have turns := (before_of_getElem? otherFound found before).turn
      omega
    · obtain rfl : index = place := by omega
      rw [found, Option.some.injEq] at otherFound
      subst otherFound
      omega
  have otherMember := mem_of_mem_distinctOn (List.mem_of_getElem? otherFound)
  have placed := getElem?_secondPass (numbered messages) place
  have earlierPlaced := getElem?_secondPass (numbered messages) index
  rw [otherFound] at placed
  rw [found] at earlierPlaced
  obtain ⟨id, named, sameSource⟩ := Option.map_eq_some_iff.mp otherSource
  have shownNamed : (shown (numbered messages) other).messageId =
      some (shownId (numbered messages) other id) := messageId_shown named
  have shownSource := sourceOf_shownId otherMember named
  rw [sameSource] at shownSource
  -- The id shown in the first pass has the turn that was counted there.
  obtain ⟨firstNumber, firstFound, -, bounded⟩ := firstTurn_le firstMember firstSource
  have numberedId : shownId (numbered messages) other id =
      threadMessageIdForTurn sourceId other.turn := by
    rw [shownId, sameSource, if_neg]
    rw [firstFound]
    intro same
    have turns := Option.some.inj same
    omega
  -- The second pass shows the same id, for the turn that it counts.
  have kept := shown_secondPass again (List.mem_of_getElem? placed)
  have idKept := messageId_shown_eq_some_iff.mp ((congrArg Message.messageId kept).trans shownNamed)
  obtain ⟨own, ownNamed, ownShown⟩ := idKept
  obtain rfl : own = shownId (numbered messages) other id :=
    Option.some.inj (ownNamed.symm.trans shownNamed)
  have distinct := pairwise_distinctOn Entry.key (numbered (shownMessages (numbered messages)))
  rw [show distinctOn Entry.key _ = _ from kept_secondPass again] at distinct
  have ordered := pairwise_numbered (shownMessages (numbered messages))
  obtain ⟨within, isEarlier⟩ := List.getElem?_eq_some_iff.mp earlierPlaced
  obtain ⟨otherWithin, isLater⟩ := List.getElem?_eq_some_iff.mp placed
  have apart := List.pairwise_iff_getElem.mp distinct index place within otherWithin order
  have before := List.pairwise_iff_getElem.mp ordered index place within otherWithin order
  rw [isEarlier, isLater] at apart before
  have earlierSource := (sourceId?_of_shown
    (mem_of_mem_distinctOn (List.mem_of_getElem? found)) index
    (secondTurn (numbered messages) index)).trans source
  have laterSource' := (sourceId?_of_shown otherMember place
    (secondTurn (numbered messages) place)).trans otherSource
  by_cases shownFirst : firstTurn (numbered (shownMessages (numbered messages))) sourceId =
      some (secondTurn (numbered messages) place)
  · obtain ⟨number, numberFound, -, low⟩ :=
      firstTurn_le (List.mem_of_getElem? earlierPlaced) earlierSource
    have turns : secondTurn (numbered messages) index ≤ secondTurn (numbered messages) place :=
      before.turn
    rw [shownFirst, Option.some.injEq] at numberFound
    have bound : number ≤ secondTurn (numbered messages) index := low
    refine apart ?_
    rw [Entry.key, earlierSource, Entry.key, laterSource']
    dsimp only
    rw [le_antisymm turns (by omega)]
  · rw [shownId, shownSource, if_neg shownFirst, numberedId] at ownShown
    have same := threadMessageIdForTurn_injective ownShown
    have clear := (secondTurn_spec otherFound).2.mp same lost lostMember isLost
    omega

/-- A message stands for an entry: an entry without id is itself, another one has the content
of the last entry of its turn and source id, under an id with that source id. -/
def StandsFor (entries : List (Entry Body)) (entry : Entry Body) (message : Message Body) : Prop :=
  (entry.message.messageId = none → message = entry.message) ∧
    ∀ id, entry.message.messageId = some id → ∃ shownId,
      message = (lastLike entries entry).message.messageWithId shownId ∧
      sourceMessageIdFromThreadMessageId (some shownId) = some (sourceOf id)

/-- The ids are distinct, the first entry of each turn and source id keeps its place, and a
second pass changes nothing. -/
structure UniqueIds (messages : List (Message Body)) : Prop where
  distinct : ((dedupeThreadMessagesById messages).filterMap Message.messageId).Nodup
  places : List.Forall₂ (StandsFor (numbered messages)) (kept (numbered messages))
    (dedupeThreadMessagesById messages)
  again : dedupeThreadMessagesById (dedupeThreadMessagesById messages) =
    dedupeThreadMessagesById messages

theorem sourceMessageId_eq_sourceOf {id : Text} (present : id ≠ []) :
    sourceMessageIdFromThreadMessageId (some id) = some (sourceOf id) := by
  unfold sourceOf
  cases source : sourceMessageIdFromThreadMessageId (some id) with
  | some other => rfl
  | none =>
      unfold sourceMessageIdFromThreadMessageId at source
      split at source
      · next same => cases same
      · next same => exact absurd (Option.some.inj same) present
      · split at source
        · cases source
        · split at source <;> cases source

theorem standsFor_shown (member : entry ∈ numbered messages) :
    StandsFor (numbered messages) entry (shown (numbered messages) entry) := by
  constructor
  · intro unnamed
    rw [shown, unnamed]
  · intro id named
    refine ⟨shownId (numbered messages) entry id, by rw [shown, named], ?_⟩
    rw [sourceMessageId_eq_sourceOf (shownId_ne_nil (Message.messageId_ne_nil named)),
      sourceOf_shownId member named]

theorem uniqueIds_iff (messages : List (Message Body)) :
    UniqueIds messages ↔ KeepsIds (numbered messages) ∧ KeepsTurns (numbered messages) := by
  constructor
  · intro unique
    have distinct := unique.distinct
    have again := unique.again
    rw [dedupeThreadMessagesById_eq] at distinct again
    rw [dedupeThreadMessagesById_eq] at again
    exact ⟨(keepsIds_iff_nodup messages).mpr distinct, keepsTurns_of_secondPass again⟩
  · rintro ⟨keepsIds, keepsTurns⟩
    have distinct := (keepsIds_iff_nodup messages).mp keepsIds
    have again := shownMessages_secondPass keepsTurns
    refine ⟨by rwa [dedupeThreadMessagesById_eq], ?_, ?_⟩
    · rw [dedupeThreadMessagesById_eq, shownMessages, List.forall₂_map_right_iff,
        List.forall₂_same]
      exact fun entry member => standsFor_shown (mem_of_mem_distinctOn member)
    · rw [dedupeThreadMessagesById_eq, dedupeThreadMessagesById_eq]
      exact again

def userMessage (id : Text) : Message ℕ :=
  { id := some id, getType := none, role := some "user".toList, body := 0 }

def assistantMessage (id : Text) : Message ℕ :=
  { id := some id, getType := none, role := some "assistant".toList, body := 0 }

/-- An answer that still carries the number of a later turn, in which its source id occurs. -/
def trimmedThread : List (Message ℕ) :=
  [userMessage ['u'], assistantMessage (threadMessageIdForTurn ['a'] 1), userMessage ['v'],
    assistantMessage ['a']]

theorem trimmedThread_not_uniqueIds : ¬ UniqueIds trimmedThread := by
  intro unique
  have distinct := unique.distinct
  revert distinct
  decide

end NaturalMold.ThreadMessages
