import NaturalMold.TraceStorage

/-! # Stored turns are the first occurrences of their events -/

namespace NaturalMold.Traces

open Conversations (Uuid Time)
open Fallible FirstOccurrences KeyedTables TraceTables

def Identified (event : TraceEvent) : Prop :=
  ∃ id, nonemptyId event = some id

def idsOf (events : List TraceEvent) : Finset String :=
  (events.filterMap eventId).toFinset

variable {events : List TraceEvent}

theorem mem_idsOf {id : String} : id ∈ idsOf events ↔ some id ∈ events.map eventId := by
  rw [idsOf, List.mem_toFinset, List.mem_filterMap, List.mem_map]

theorem nonemptyId_eq_some_iff {event : TraceEvent} {id : String} :
    nonemptyId event = some id ↔ eventId event = some id ∧ id ≠ "" := by
  rw [nonemptyId, Option.filter_eq_some_iff]
  simp

theorem Identified.eventId {event : TraceEvent} (identified : Identified event) :
    ∃ id, eventId event = some id ∧ id ≠ "" ∧ nonemptyId event = some id := by
  obtain ⟨id, idEq⟩ := identified
  obtain ⟨eventIdEq, nonempty⟩ := nonemptyId_eq_some_iff.mp idEq
  exact ⟨id, eventIdEq, nonempty, idEq⟩

/-- Dropping repeated ids keeps the first occurrences. -/
theorem dedupeEvents_eq (identified : ∀ event ∈ events, Identified event) :
    dedupeEvents events = distinctOn eventId events := by
  have loop : ∀ (seen : List String),
      dedupeFrom seen events = (distinctOn eventId events).filter fun event =>
        !(eventId event).any fun id => id ∈ seen := by
    induction events with
    | nil => exact fun _ => rfl
    | cons event events ih =>
        intro seen
        obtain ⟨id, idEq, nonempty, nonemptyEq⟩ := (identified event List.mem_cons_self).eventId
        have ih := ih fun other member => identified other (List.mem_cons_of_mem _ member)
        simp only [dedupeFrom, nonemptyEq, distinctOn]
        split
        case isTrue known =>
            rw [List.filter_cons_of_neg (by simp [idEq, known]), List.filter_filter, ih]
            apply List.filter_congr
            intro other _
            cases otherEq : eventId other with
            | none => simp [idEq]
            | some otherId => by_cases same : otherId = id <;> simp [idEq, same, known]
        case isFalse new =>
        rw [List.filter_cons_of_pos (by simp [idEq, new]), List.filter_filter, ih]
        congr 1
        apply List.filter_congr
        intro other _
        cases otherEq : eventId other with
        | none => simp [idEq]
        | some otherId => by_cases same : otherId = id <;> simp [idEq, same]
  rw [dedupeEvents, loop]
  simp

/-- Chunks hold the first occurrences of the events that were flushed. -/
structure Persisted (chunks : List MessageEventChunk) (events : List TraceEvent) : Prop where
  identified : ∀ event ∈ events, Identified event
  loaded : distinctOn eventId (chunks.flatMap MessageEventChunk.events) =
    distinctOn eventId events
  eventIds : ∀ chunk ∈ chunks, chunk.eventIds = chunk.events.filterMap nonemptyId
  first : ∀ chunk ∈ chunks, ∃ id ∈ chunk.eventIds, chunk.firstEventId = some id
  increasing : chunks.Pairwise fun earlier later => earlier.seqStart < later.seqStart
  bounded : ∀ chunk ∈ chunks, chunk.seqStart ≤ (idsOf events).card

theorem Persisted.nil : Persisted [] [] where
  identified := by simp
  loaded := rfl
  eventIds := by simp
  first := by simp
  increasing := List.Pairwise.nil
  bounded := by simp

variable {chunks : List MessageEventChunk}

theorem Persisted.identified_stored (persisted : Persisted chunks events) :
    ∀ event ∈ chunks.flatMap MessageEventChunk.events, Identified event := by
  intro event member
  have listed : eventId event ∈ events.map eventId := by
    rw [← mem_map_distinctOn, ← persisted.loaded, mem_map_distinctOn]
    exact List.mem_map_of_mem member
  obtain ⟨other, otherMember, sameId⟩ := List.mem_map.mp listed
  obtain ⟨id, idEq, nonempty, _⟩ := (persisted.identified other otherMember).eventId
  exact ⟨id, nonemptyId_eq_some_iff.mpr ⟨sameId.symm.trans idEq, nonempty⟩⟩

theorem Persisted.mem_ids_iff (persisted : Persisted chunks events) {id : String} :
    (∃ chunk ∈ chunks, id ∈ chunk.eventIds) ↔ id ∈ idsOf events := by
  rw [mem_idsOf, ← mem_map_distinctOn, ← persisted.loaded, mem_map_distinctOn]
  rw [List.mem_map]
  constructor
  · rintro ⟨chunk, member, idMember⟩
    rw [persisted.eventIds chunk member, List.mem_filterMap] at idMember
    obtain ⟨event, eventMember, idEq⟩ := idMember
    exact ⟨event, List.mem_flatMap.mpr ⟨chunk, member, eventMember⟩,
      (nonemptyId_eq_some_iff.mp idEq).1⟩
  · rintro ⟨event, eventMember, idEq⟩
    obtain ⟨_, sameId, _, nonemptyEq⟩ :=
      (persisted.identified_stored event eventMember).eventId
    obtain rfl := Option.some.inj (idEq.symm.trans sameId)
    obtain ⟨chunk, member, eventMember⟩ := List.mem_flatMap.mp eventMember
    refine ⟨chunk, member, ?_⟩
    rw [persisted.eventIds chunk member]
    exact List.mem_filterMap.mpr ⟨event, eventMember, nonemptyEq⟩

/-- The events of a flush whose ids are new for the turn. -/
def freshEvents (events added : List TraceEvent) : List TraceEvent :=
  added.filter fun event => !(eventId event).any fun id => id ∈ idsOf events

theorem distinctOn_append_freshEvents {added : List TraceEvent}
    (identified : ∀ event ∈ events, Identified event) :
    distinctOn eventId (events ++ freshEvents events added) =
      distinctOn eventId (events ++ added) := by
  refine distinctOn_append_filter (Option.any fun id => id ∈ idsOf events) ?_
  intro wanted
  cases wanted with
  | none =>
      refine iff_of_false (by simp) ?_
      intro listed
      obtain ⟨event, member, idEq⟩ := List.mem_map.mp listed
      obtain ⟨id, someEq, _⟩ := (identified event member).eventId
      rw [idEq] at someEq
      cases someEq
  | some id => simp [mem_idsOf]

theorem idsOf_append_subset (events added : List TraceEvent) :
    idsOf events ⊆ idsOf (events ++ added) := by
  intro id member
  rw [mem_idsOf] at member ⊢
  rw [List.map_append]
  exact List.mem_append_left _ member

/-- A flush without new events changes nothing. -/
theorem Persisted.append_known {added : List TraceEvent} (persisted : Persisted chunks events)
    (identified : ∀ event ∈ added, Identified event) (known : freshEvents events added = []) :
    Persisted chunks (events ++ added) where
  identified := fun event member => (List.mem_append.mp member).elim
    (persisted.identified event) (identified event)
  loaded := by
    rw [persisted.loaded, ← distinctOn_append_freshEvents persisted.identified, known,
      List.append_nil]
  eventIds := persisted.eventIds
  first := persisted.first
  increasing := persisted.increasing
  bounded := fun chunk member =>
    (persisted.bounded chunk member).trans (Finset.card_le_card (idsOf_append_subset _ _))

theorem Persisted.append_chunk {added : List TraceEvent} (persisted : Persisted chunks events)
    (identified : ∀ event ∈ added, Identified event) (new : freshEvents events added ≠ [])
    {chunk : MessageEventChunk} (eventsEq : chunk.events = freshEvents events added)
    (eventIdsEq : chunk.eventIds = chunk.events.filterMap nonemptyId)
    (firstEq : chunk.firstEventId = chunk.eventIds.head?)
    (seqStartEq : chunk.seqStart = (idsOf events).card + 1) :
    Persisted (chunks ++ [chunk]) (events ++ added) := by
  obtain ⟨event, rest, freshEq⟩ := List.exists_cons_of_ne_nil new
  have fresh : event ∈ freshEvents events added := freshEq ▸ List.mem_cons_self
  obtain ⟨eventMember, unknown⟩ := List.mem_filter.mp fresh
  obtain ⟨id, idEq, _, nonemptyEq⟩ := (identified event eventMember).eventId
  have idNew : id ∉ idsOf events := by simpa [idEq] using unknown
  have larger : (idsOf events).card < (idsOf (events ++ added)).card := by
    apply Finset.card_lt_card
    rw [Finset.ssubset_iff_of_subset (idsOf_append_subset _ _)]
    refine ⟨id, ?_, idNew⟩
    rw [mem_idsOf, ← idEq]
    exact List.mem_map_of_mem (List.mem_append_right _ eventMember)
  have headEq : chunk.eventIds.head? = some id := by
    rw [eventIdsEq, eventsEq, freshEq, List.filterMap_cons, nonemptyEq]
    rfl
  constructor
  case identified =>
      exact fun event member => (List.mem_append.mp member).elim
        (persisted.identified event) (identified event)
  case loaded =>
      rw [List.flatMap_append, List.flatMap_singleton, eventsEq,
        distinctOn_congr_append _ persisted.loaded,
        distinctOn_append_freshEvents persisted.identified]
  case eventIds =>
      intro other member
      rcases List.mem_append.mp member with older | last
      · exact persisted.eventIds other older
      · rw [List.mem_singleton.mp last]
        exact eventIdsEq
  case first =>
      intro other member
      rcases List.mem_append.mp member with older | last
      · exact persisted.first other older
      · rw [List.mem_singleton.mp last]
        exact ⟨id, List.mem_of_mem_head? headEq, firstEq.trans headEq⟩
  case increasing =>
      rw [List.pairwise_append]
      refine ⟨persisted.increasing, List.pairwise_singleton _ _, ?_⟩
      intro earlier member later last
      rw [List.mem_singleton.mp last, seqStartEq]
      exact Nat.lt_succ_of_le (persisted.bounded earlier member)
  case bounded =>
  intro other member
  rcases List.mem_append.mp member with older | last
  · exact (persisted.bounded other older).trans larger.le
  · rw [List.mem_singleton.mp last, seqStartEq]
    exact larger

def turnEvents (calls : List AppendCall) (turn : String) : List TraceEvent :=
  (calls.filter fun call => call.assistantMsgId = turn).flatMap AppendCall.eventsChunk

theorem turnEvents_append_self (calls : List AppendCall) (call : AppendCall) :
    turnEvents (calls ++ [call]) call.assistantMsgId =
      turnEvents calls call.assistantMsgId ++ call.eventsChunk := by
  simp [turnEvents, List.filter_append]

variable {calls : List AppendCall}

theorem turnEvents_append_of_ne {call : AppendCall} {turn : String}
    (other : call.assistantMsgId ≠ turn) :
    turnEvents (calls ++ [call]) turn = turnEvents calls turn := by
  simp [turnEvents, List.filter_append, other]

structure History (db : TraceTables) (calls : List AppendCall) : Prop where
  legacy : ∀ record ∈ db.records.rows, record.events = []
  distinctIds : ∀ first ∈ db.records.rows, ∀ second ∈ db.records.rows, first.id = second.id →
    first.assistantMsgId = second.assistantMsgId
  owned : ∀ chunk ∈ db.chunks, ∃ record ∈ db.records.rows, record.id = chunk.messageEventId
  persisted : ∀ record ∈ db.records.rows,
    Persisted (db.chunksOf record.id) (turnEvents calls record.assistantMsgId)
  absent : ∀ turn, db.records.get? turn = none → turnEvents calls turn = []

theorem History.empty : History TraceTables.empty [] where
  legacy := by simp [TraceTables.empty, Table.empty]
  distinctIds := by simp [TraceTables.empty, Table.empty]
  owned := by simp [TraceTables.empty]
  persisted := by simp [TraceTables.empty, Table.empty]
  absent := fun _ _ => rfl

/-- A flush is called without known ids, or with exactly those of its turn. -/
def KnowsExactly (calls : List AppendCall) (call : AppendCall) : Prop :=
  call.knownEventIds = none ∨
    call.knownEventIds = some (idsOf (turnEvents calls call.assistantMsgId))

theorem lt_freshId (db : TraceTables) {record : MessageEvent} (member : record ∈ db.records.rows) :
    record.id < db.freshId := by
  have bound : ∀ {ids : List Uuid}, record.id ∈ ids → record.id ≤ ids.foldr max 0 := by
    intro ids listed
    induction ids with
    | nil => cases listed
    | cons id ids ih =>
        rw [List.foldr_cons]
        rcases List.mem_cons.mp listed with rfl | later
        · exact le_max_left _ _
        · exact (ih later).trans (le_max_right _ _)
  exact Nat.lt_succ_of_le (bound (List.mem_map_of_mem member))

theorem History.insert {db : TraceTables} (history : History db calls) {record : MessageEvent}
    {records : Table MessageEvent.assistantMsgId}
    (inserted : db.records.insert? record = some records) (fresh : record.id = db.freshId)
    (noEvents : record.events = []) : History { db with records } calls := by
  obtain ⟨rowsEq, different⟩ := Table.insert?_eq_some inserted
  have mem_rows : ∀ other, other ∈ records.rows ↔ other ∈ db.records.rows ∨ other = record := by
    intro other
    rw [rowsEq, List.mem_append, List.mem_singleton]
  have idNe : ∀ other ∈ db.records.rows, other.id ≠ record.id := by
    intro other member
    rw [fresh]
    exact (lt_freshId db member).ne
  have unsent : turnEvents calls record.assistantMsgId = [] := by
    apply history.absent
    rw [Table.get?_eq_none_iff]
    exact different
  constructor
  case legacy =>
      intro other member
      rcases (mem_rows other).mp member with older | rfl
      · exact history.legacy other older
      · exact noEvents
  case distinctIds =>
      intro first firstMember second secondMember same
      rcases (mem_rows first).mp firstMember with firstOlder | rfl
      · rcases (mem_rows second).mp secondMember with secondOlder | rfl
        · exact history.distinctIds first firstOlder second secondOlder same
        · exact absurd same (idNe first firstOlder)
      · rcases (mem_rows second).mp secondMember with secondOlder | rfl
        · exact absurd same.symm (idNe second secondOlder)
        · rfl
  case owned =>
      intro chunk member
      obtain ⟨other, otherMember, idEq⟩ := history.owned chunk member
      exact ⟨other, (mem_rows other).mpr (.inl otherMember), idEq⟩
  case persisted =>
      intro other member
      rcases (mem_rows other).mp member with older | rfl
      · exact history.persisted other older
      · have noChunks : db.chunksOf other.id = [] := by
          rw [chunksOf, List.filter_eq_nil_iff]
          intro chunk chunkMember
          obtain ⟨owner, ownerMember, idEq⟩ := history.owned chunk chunkMember
          rw [decide_eq_true_eq, ← idEq]
          exact idNe owner ownerMember
        rw [unsent]
        exact noChunks ▸ Persisted.nil
  case absent =>
  intro turn none
  apply history.absent
  rw [Table.get?_eq_none_iff] at none ⊢
  exact fun other member => none other ((mem_rows other).mpr (.inl member))

/-- The record of a turn is there, and the history is still what is stored. -/
theorem History.recordFor {db : TraceTables} (history : History db calls) (call : AppendCall)
    (lastEventId : Option String) :
    History (db.recordFor call lastEventId).1 calls ∧
      (db.recordFor call lastEventId).2 ∈ (db.recordFor call lastEventId).1.records.rows ∧
      (db.recordFor call lastEventId).2.assistantMsgId = call.assistantMsgId := by
  rw [TraceTables.recordFor]
  cases found : db.records.get? call.assistantMsgId with
  | some record =>
      obtain ⟨member, turnEq⟩ := Table.get?_eq_some_iff.mp found
      exact ⟨history, member, turnEq⟩
  | none =>
      rw [Table.get?_eq_none_iff] at found
      let record : MessageEvent :=
        { id := db.freshId, conversationId := call.conversationId
          assistantMsgId := call.assistantMsgId, events := [], lastEventId, status := call.status }
      obtain ⟨records, inserted⟩ : ∃ records, db.records.insert? record = some records := by
        rw [← Option.isSome_iff_exists, Option.isSome_iff_ne_none, ne_eq,
          Table.insert?_eq_none_iff]
        rintro ⟨old, member, same⟩
        exact found old member same
      simp only [record] at inserted
      simp only [inserted, Option.getD_some]
      refine ⟨history.insert inserted rfl rfl, ?_, trivial⟩
      rw [(Table.insert?_eq_some inserted).1]
      exact List.mem_append_right _ (List.mem_singleton_self _)

theorem History.loadExistingEventIds_eq {db : TraceTables} (history : History db calls)
    {record : MessageEvent} (member : record ∈ db.records.rows) :
    db.loadExistingEventIds record = idsOf (turnEvents calls record.assistantMsgId) := by
  have persisted := history.persisted record member
  ext id
  rw [loadExistingEventIds, history.legacy record member, ← persisted.mem_ids_iff]
  simp only [List.filterMap_nil, List.toFinset_nil, Finset.empty_union, List.mem_toFinset,
    List.mem_flatMap, List.mem_filter, decide_eq_true_eq]
  constructor
  · rintro ⟨chunk, chunkMember, idMember, _⟩
    exact ⟨chunk, chunkMember, idMember⟩
  · rintro ⟨chunk, chunkMember, idMember⟩
    refine ⟨chunk, chunkMember, idMember, ?_⟩
    rw [persisted.eventIds chunk chunkMember, List.mem_filterMap] at idMember
    obtain ⟨event, _, idEq⟩ := idMember
    exact (nonemptyId_eq_some_iff.mp idEq).2

section Flush

variable {db : TraceTables} {calls : List AppendCall} {call : AppendCall} {record : MessageEvent}

/-- Status and last event of a record are not what is loaded. -/
theorem History.save (history : History db calls) (member : record ∈ db.records.rows)
    {saved : MessageEvent} (sameId : saved.id = record.id) (noEvents : saved.events = [])
    (sameTurn : saved.assistantMsgId = record.assistantMsgId) :
    History { db with records := db.records.save saved } calls := by
  have cases_saved : ∀ other ∈ (db.records.save saved).rows,
      other = saved ∨ other ∈ db.records.rows := by
    intro other otherMember
    exact (Table.mem_save.mp otherMember).imp And.left And.left
  have standsFor : ∀ other ∈ (db.records.save saved).rows, ∃ old ∈ db.records.rows,
      old.id = other.id ∧ old.assistantMsgId = other.assistantMsgId := by
    intro other otherMember
    rcases cases_saved other otherMember with rfl | older
    · exact ⟨record, member, sameId.symm, sameTurn.symm⟩
    · exact ⟨other, older, rfl, rfl⟩
  constructor
  case legacy =>
      intro other otherMember
      rcases cases_saved other otherMember with rfl | older
      · exact noEvents
      · exact history.legacy other older
  case distinctIds =>
      intro first firstMember second secondMember same
      obtain ⟨firstOld, firstOldMember, firstId, firstTurn⟩ := standsFor first firstMember
      obtain ⟨secondOld, secondOldMember, secondId, secondTurn⟩ := standsFor second secondMember
      rw [← firstTurn, ← secondTurn]
      exact history.distinctIds _ firstOldMember _ secondOldMember
        (firstId.trans (same.trans secondId.symm))
  case owned =>
      intro chunk chunkMember
      obtain ⟨owner, ownerMember, idEq⟩ := history.owned chunk chunkMember
      by_cases same : owner.assistantMsgId = saved.assistantMsgId
      · refine ⟨saved, Table.mem_save.mpr (.inl ⟨rfl, owner, ownerMember, same⟩), ?_⟩
        obtain rfl := db.records.eq_of_key_eq ownerMember member (same.trans sameTurn)
        exact sameId.trans idEq
      · exact ⟨owner, Table.mem_save.mpr (.inr ⟨ownerMember, same⟩), idEq⟩
  case persisted =>
      intro other otherMember
      obtain ⟨old, oldMember, idEq, turnEq⟩ := standsFor other otherMember
      rw [← idEq, ← turnEq]
      exact history.persisted old oldMember
  case absent =>
  intro turn none
  apply history.absent
  rw [Table.get?_eq_none_iff] at none ⊢
  intro other otherMember same
  by_cases taken : other.assistantMsgId = saved.assistantMsgId
  · exact none saved (Table.mem_save.mpr (.inl ⟨rfl, other, otherMember, taken⟩))
      (taken.symm.trans same)
  · exact none other (Table.mem_save.mpr (.inr ⟨otherMember, taken⟩)) same

theorem History.extend (history : History db calls) (member : record ∈ db.records.rows)
    (turnEq : record.assistantMsgId = call.assistantMsgId) {chunks : List MessageEventChunk}
    (owned : ∀ chunk ∈ chunks, chunk.messageEventId = record.id)
    (persisted : Persisted (db.chunksOf record.id ++ chunks)
      (turnEvents calls call.assistantMsgId ++ call.eventsChunk)) :
    History { db with chunks := db.chunks ++ chunks } (calls ++ [call]) := by
  constructor
  case legacy => exact history.legacy
  case distinctIds => exact history.distinctIds
  case owned =>
      intro chunk chunkMember
      rcases List.mem_append.mp chunkMember with older | new
      · exact history.owned chunk older
      · exact ⟨record, member, (owned chunk new).symm⟩
  case persisted =>
      intro other otherMember
      change Persisted (List.filter _ (db.chunks ++ chunks)) _
      rw [List.filter_append]
      by_cases same : other.assistantMsgId = call.assistantMsgId
      · obtain rfl := db.records.eq_of_key_eq otherMember member (same.trans turnEq.symm)
        have all : chunks.filter (fun chunk => chunk.messageEventId = other.id) = chunks := by
          rw [List.filter_eq_self]
          intro chunk chunkMember
          rw [decide_eq_true_eq]
          exact owned chunk chunkMember
        rw [all, turnEq, turnEvents_append_self]
        exact persisted
      · have nothing : chunks.filter (fun chunk => chunk.messageEventId = other.id) = [] := by
          rw [List.filter_eq_nil_iff]
          intro chunk chunkMember ownedByOther
          rw [decide_eq_true_eq, owned chunk chunkMember] at ownedByOther
          exact same ((history.distinctIds other otherMember record member
            ownedByOther.symm).trans turnEq)
        rw [nothing, List.append_nil, turnEvents_append_of_ne (Ne.symm same)]
        exact history.persisted other otherMember
  case absent =>
  intro turn none
  have different : call.assistantMsgId ≠ turn := by
    rintro rfl
    rw [Table.get?_eq_none_iff] at none
    exact none record member turnEq
  rw [turnEvents_append_of_ne different]
  exact history.absent turn none

theorem History.congr (history : History db calls) {others : List AppendCall}
    (same : ∀ turn, turnEvents others turn = turnEvents calls turn) : History db others where
  legacy := history.legacy
  distinctIds := history.distinctIds
  owned := history.owned
  persisted := fun record member => same record.assistantMsgId ▸ history.persisted record member
  absent := fun turn none => (same turn).trans (history.absent turn none)

theorem History.skip (history : History db calls) (nothing : call.eventsChunk = []) :
    History db (calls ++ [call]) := by
  apply history.congr
  intro turn
  by_cases mine : call.assistantMsgId = turn
  · subst mine
    rw [turnEvents_append_self, nothing, List.append_nil]
  · exact turnEvents_append_of_ne mine

/-- The first id of a chunk of new events is not that of another chunk. -/
theorem History.insertChunk (history : History db calls) (member : record ∈ db.records.rows)
    (turnEq : record.assistantMsgId = call.assistantMsgId) :
    let chunk := chunkRow call record (idsOf (turnEvents calls call.assistantMsgId))
    db.insertChunk chunk = .ok { db with chunks := db.chunks ++ [chunk] } := by
  intro chunk
  rw [TraceTables.insertChunk, if_neg]
  rw [Bool.not_eq_true, List.any_eq_false]
  intro other otherMember clash
  simp only [Bool.and_eq_true, decide_eq_true_eq] at clash
  obtain ⟨⟨sameRecord, sameFirst⟩, _⟩ := clash
  have persisted := history.persisted record member
  have mine : other ∈ db.chunksOf record.id :=
    List.mem_filter.mpr ⟨otherMember, decide_eq_true sameRecord⟩
  obtain ⟨id, idMember, firstEq⟩ := persisted.first other mine
  have known : id ∈ idsOf (turnEvents calls call.assistantMsgId) := by
    rw [← turnEq]
    exact persisted.mem_ids_iff.mp ⟨other, mine, idMember⟩
  have new : id ∈ chunk.eventIds := List.mem_of_mem_head? (sameFirst.symm.trans firstEq)
  obtain ⟨event, eventMember, idEq⟩ := List.mem_filterMap.mp new
  have unknown := (List.mem_filter.mp eventMember).2
  rw [(nonemptyId_eq_some_iff.mp idEq).1] at unknown
  simp [known] at unknown

/-- A flush whose known ids are exact returns, and its events are stored. -/
theorem History.appendEvents (history : History db calls)
    (identified : ∀ event ∈ call.eventsChunk, Identified event)
    (known : KnowsExactly calls call) :
    ∃ after returned, db.appendEvents call = .ok (after, returned) ∧
      History after (calls ++ [call]) := by
  by_cases nothing : call.eventsChunk = []
  · refine ⟨db, none, ?_, history.skip nothing⟩
    rw [TraceTables.appendEvents, if_pos nothing]
    rfl
  · rw [TraceTables.appendEvents, if_neg nothing]
    obtain ⟨later, member, turnEq⟩ :=
      history.recordFor call (call.eventsChunk.getLast?.bind nonemptyId)
    cases pairEq : db.recordFor call (call.eventsChunk.getLast?.bind nonemptyId) with
    | mk found record =>
        rw [pairEq] at later member turnEq
        have existing : call.knownEventIds.getD (found.loadExistingEventIds record) =
            idsOf (turnEvents calls call.assistantMsgId) := by
          rcases known with unknown | exact
          · rw [unknown, Option.getD_none, later.loadExistingEventIds_eq member, turnEq]
          · rw [exact, Option.getD_some]
        simp only [pairEq, existing]
        have persisted := later.persisted record member
        rw [turnEq] at persisted
        have events : newEvents call (idsOf (turnEvents calls call.assistantMsgId)) =
            freshEvents (turnEvents calls call.assistantMsgId) call.eventsChunk := rfl
        by_cases allKnown : newEvents call (idsOf (turnEvents calls call.assistantMsgId)) = []
        · have extended : History { found with chunks := found.chunks ++ [] } (calls ++ [call]) :=
            later.extend member turnEq (by simp) (by
              rw [List.append_nil]
              exact persisted.append_known identified (events ▸ allKnown))
          rw [List.append_nil] at extended
          split
          · exact ⟨found, some record, rfl, extended⟩
          · exact ⟨_, _, rfl, extended.save member rfl (later.legacy record member) rfl⟩
        · have stored : Persisted (found.chunksOf record.id ++
                [chunkRow call record (idsOf (turnEvents calls call.assistantMsgId))])
              (turnEvents calls call.assistantMsgId ++ call.eventsChunk) :=
            persisted.append_chunk identified (events ▸ allKnown) rfl rfl rfl rfl
          have extended := later.extend member turnEq (by simp [chunkRow]) stored
          rw [if_neg fun same => allKnown same.1, if_neg allKnown,
            later.insertChunk member turnEq]
          exact ⟨_, _, rfl, extended.save member rfl (later.legacy record member) rfl⟩

end Flush

section Load

variable {db : TraceTables} {calls : List AppendCall} {record : MessageEvent}

instance : Std.Total chunkOrder where
  total first second := by
    rcases Nat.lt_trichotomy first.seqStart second.seqStart with smaller | same | larger
    · exact .inl (.inl smaller)
    · exact (le_total first.createdAt second.createdAt).imp (fun earlier => .inr ⟨same, earlier⟩)
        fun later => .inr ⟨same.symm, later⟩
    · exact .inr (.inl larger)

instance : IsTrans MessageEventChunk chunkOrder where
  trans first second third := by
    rintro (smaller | ⟨same, earlier⟩) (smaller' | ⟨same', earlier'⟩)
    · exact .inl (smaller.trans smaller')
    · exact .inl (same' ▸ smaller)
    · exact .inl (same ▸ smaller')
    · exact .inr ⟨same.trans same', earlier.trans earlier'⟩

theorem Persisted.ordered {chunks : List MessageEventChunk} {events : List TraceEvent}
    (persisted : Persisted chunks events) :
    chunks.Pairwise fun first second => chunkOrder first second ∧ ¬ chunkOrder second first := by
  apply persisted.increasing.imp
  intro earlier later smaller
  simp only [chunkOrder]
  omega

theorem History.loadEvents_eq (history : History db calls) (member : record ∈ db.records.rows) :
    db.loadEvents record = distinctOn eventId (turnEvents calls record.assistantMsgId) := by
  have persisted := history.persisted record member
  have sorted : (db.chunksOf record.id).insertionSort chunkOrder = db.chunksOf record.id :=
    (persisted.ordered.imp And.left).insertionSort_eq
  rw [loadEvents, history.legacy record member, sorted, List.nil_append,
    dedupeEvents_eq persisted.identified_stored, persisted.loaded]

/-- One pass over all chunks extends each bucket by the chunks of its record. -/
theorem foldl_buckets (chunks : List MessageEventChunk) (buckets : List (Uuid × List TraceEvent)) :
    (chunks.foldl (fun buckets chunk => buckets.map fun bucket =>
      if bucket.1 = chunk.messageEventId then (bucket.1, bucket.2 ++ chunk.events) else bucket)
        buckets) =
      buckets.map fun bucket => (bucket.1, bucket.2 ++
        (chunks.filter fun chunk => chunk.messageEventId = bucket.1).flatMap
          MessageEventChunk.events) := by
  induction chunks generalizing buckets with
  | nil => simp
  | cons chunk chunks ih =>
      rw [List.foldl_cons, ih, List.map_map]
      apply List.map_congr_left
      intro bucket _
      simp only [Function.comp_apply]
      by_cases same : bucket.1 = chunk.messageEventId
      · rw [if_pos same, List.filter_cons_of_pos (by simp [same]), List.flatMap_cons,
          List.append_assoc]
      · rw [if_neg same, List.filter_cons_of_neg (by simp [Ne.symm same])]

theorem History.loadEventsMany_eq (history : History db calls) {records : List MessageEvent}
    (listed : ∀ record ∈ records, record ∈ db.records.rows) :
    db.loadEventsMany records = records.map fun record => (record.id, db.loadEvents record) := by
  rw [loadEventsMany]
  simp only [foldl_buckets, List.map_map]
  apply List.map_congr_left
  intro record member
  have persisted := history.persisted record (listed record member)
  have mine : (db.chunks.filter fun chunk => chunk.messageEventId ∈ records.map
      (Prod.fst ∘ fun record : MessageEvent => (record.id, record.events))).filter
        (fun chunk => chunk.messageEventId = record.id) = db.chunksOf record.id := by
    rw [List.filter_filter, chunksOf]
    apply List.filter_congr
    intro chunk _
    by_cases same : chunk.messageEventId = record.id
    · have inside : record.id ∈ records.map
          (Prod.fst ∘ fun record : MessageEvent => (record.id, record.events)) :=
        List.mem_map.mpr ⟨record, member, rfl⟩
      simp [same, inside]
    · simp [same]
  have inOrder := filter_insertionSort_eq chunkOrder (by
    rw [mine]
    exact persisted.ordered)
  have sorted : (db.chunksOf record.id).insertionSort chunkOrder = db.chunksOf record.id :=
    (persisted.ordered.imp And.left).insertionSort_eq
  simp only [Function.comp_apply, loadEvents, sorted]
  rw [inOrder, mine]

end Load

/-- The flushes one after another, from empty tables. -/
def appendAll (calls : List AppendCall) : Except IntegrityError TraceTables :=
  calls.foldlM (fun db call => do
    let (after, _) ← db.appendEvents call
    return after) TraceTables.empty

/-- Each flush is called without known ids, or with exactly those of its turn so
far. -/
def AllKnowExactly (calls : List AppendCall) : Prop :=
  ∀ earlier call later, calls = earlier ++ call :: later → KnowsExactly earlier call

theorem exists_history (calls : List AppendCall)
    (identified : ∀ call ∈ calls, ∀ event ∈ call.eventsChunk, Identified event)
    (known : AllKnowExactly calls) :
    ∃ db, appendAll calls = .ok db ∧ History db calls := by
  induction calls using List.reverseRecOn with
  | nil => exact ⟨TraceTables.empty, rfl, History.empty⟩
  | append_singleton calls call ih =>
      have knownBefore : AllKnowExactly calls := by
        intro earlier middle later split
        apply known earlier middle (later ++ [call])
        rw [split, List.append_assoc, List.cons_append]
      obtain ⟨db, dbEq, history⟩ := ih
        (fun other member => identified other (List.mem_append_left _ member)) knownBefore
      obtain ⟨after, returned, afterEq, extended⟩ := history.appendEvents
        (identified call (List.mem_append_right _ (List.mem_singleton_self _)))
        (known calls call [] rfl)
      refine ⟨after, ?_, extended⟩
      rw [appendAll, List.foldlM_append, bind_eq_ok]
      refine ⟨db, dbEq, ?_⟩
      rw [List.foldlM_cons, afterEq]
      rfl

/-- Whatever the chunks and the repeated ids, the events of a turn are loaded
once each, in the order in which they first came. -/
theorem load_appended (calls : List AppendCall)
    (identified : ∀ call ∈ calls, ∀ event ∈ call.eventsChunk, Identified event)
    (known : AllKnowExactly calls) :
    ∃ db, appendAll calls = .ok db ∧
      (∀ turn, turnEvents calls turn ≠ [] → (db.records.get? turn).isSome) ∧
      (∀ record ∈ db.records.rows,
        db.loadEvents record = distinctOn eventId (turnEvents calls record.assistantMsgId)) ∧
      ∀ records, (∀ record ∈ records, record ∈ db.records.rows) →
        db.loadEventsMany records =
          records.map fun record => (record.id, db.loadEvents record) := by
  obtain ⟨db, dbEq, history⟩ := exists_history calls identified known
  refine ⟨db, dbEq, ?_, fun record member => history.loadEvents_eq member,
    fun records listed => history.loadEventsMany_eq listed⟩
  intro turn flushed
  rw [Option.isSome_iff_ne_none]
  exact fun none => flushed (history.absent turn none)

private def event (id : String) : TraceEvent :=
  [("id", .str id)]

private def flush (eventsChunk : List TraceEvent) (knownEventIds : Option (Finset String))
    (createdAt : Time) : AppendCall where
  conversationId := 1
  assistantMsgId := "turn"
  eventsChunk := eventsChunk
  status := .streaming
  knownEventIds := knownEventIds
  createdAt := createdAt

/-- A chunk that repeats an id, sent again with one more event. -/
def repeatedFlushes : List AppendCall :=
  [flush [event "a", event "b", event "a"] none 1, flush [event "b", event "c"] (some {"a", "b"}) 2]

theorem load_appended_repeated :
    ∃ db, appendAll repeatedFlushes = .ok db ∧
      (∀ turn, turnEvents repeatedFlushes turn ≠ [] → (db.records.get? turn).isSome) ∧
      (∀ record ∈ db.records.rows, db.loadEvents record =
        distinctOn eventId (turnEvents repeatedFlushes record.assistantMsgId)) ∧
      ∀ records, (∀ record ∈ records, record ∈ db.records.rows) →
        db.loadEventsMany records =
          records.map fun record => (record.id, db.loadEvents record) := by
  apply load_appended
  · intro call callMember sent sentMember
    simp only [repeatedFlushes, List.mem_cons, List.not_mem_nil, or_false] at callMember
    rcases callMember with rfl | rfl <;>
      simp only [flush, List.mem_cons, List.not_mem_nil, or_false] at sentMember <;>
      rcases sentMember with rfl | rfl | rfl <;>
      exact ⟨_, rfl⟩
  · intro earlier call later split
    rcases earlier with _ | ⟨first, _ | ⟨second, rest⟩⟩
    · obtain ⟨rfl, _⟩ := List.cons.inj split
      exact .inl rfl
    · obtain ⟨rfl, rest⟩ := List.cons.inj split
      obtain ⟨rfl, _⟩ := List.cons.inj rest
      exact .inr (by decide)
    · simp [repeatedFlushes] at split

def committed (flushes : List (AppendCall × Bool)) : List AppendCall :=
  (flushes.filter Prod.snd).map Prod.fst

/-- The tables have what was committed, and the cache is empty or exact. -/
structure CallbackInvariant (turn : String) (calls : List AppendCall) (state : CallbackState) :
    Prop where
  history : History state.db calls
  exact : state.seenEventIds = none ∨ state.seenEventIds = some (idsOf (turnEvents calls turn))

theorem History.loadPersistedEventIds_eq {db : TraceTables} (history : History db calls)
    (turn : String) : db.loadPersistedEventIds turn = idsOf (turnEvents calls turn) := by
  rw [loadPersistedEventIds]
  cases found : db.records.get? turn with
  | none => rw [history.absent turn found]; rfl
  | some record =>
      obtain ⟨member, rfl⟩ := Table.get?_eq_some_iff.mp found
      exact history.loadExistingEventIds_eq member

theorem CallbackInvariant.persistFlush {turn : String} {calls : List AppendCall}
    {state : CallbackState} (invariant : CallbackInvariant turn calls state) {call : AppendCall}
    (mine : call.assistantMsgId = turn)
    (identified : ∀ event ∈ call.eventsChunk, Identified event) (commits : Bool) :
    CallbackInvariant turn (if commits then calls ++ [call] else calls)
      (persistFlush state call commits) := by
  subst mine
  have grown := turnEvents_append_self calls call
  by_cases nothing : call.eventsChunk = []
  · rw [TraceTables.persistFlush, if_pos nothing]
    cases commits with
    | false => exact invariant
    | true =>
        refine ⟨invariant.history.skip nothing, ?_⟩
        rw [if_pos rfl, grown, nothing, List.append_nil]
        exact invariant.exact
  · have knownEq : state.seenEventIds.getD
        (state.db.loadPersistedEventIds call.assistantMsgId) =
          idsOf (turnEvents calls call.assistantMsgId) := by
      rcases invariant.exact with none | exact
      · rw [none, Option.getD_none, invariant.history.loadPersistedEventIds_eq]
      · rw [exact, Option.getD_some]
    rw [TraceTables.persistFlush, if_neg nothing]
    simp only [knownEq]
    let sent : AppendCall :=
      { call with
        status := .streaming
        knownEventIds := some (idsOf (turnEvents calls call.assistantMsgId)) }
    obtain ⟨after, returned, afterEq, stored⟩ : ∃ after returned,
        state.db.appendEvents sent = .ok (after, returned) ∧ History after (calls ++ [sent]) :=
      invariant.history.appendEvents identified (.inr rfl)
    rw [afterEq]
    cases commits with
    | false => exact ⟨invariant.history, .inl rfl⟩
    | true =>
        have sameEvents : ∀ turn,
            turnEvents (calls ++ [call]) turn = turnEvents (calls ++ [sent]) turn := by
          intro turn
          by_cases mine : call.assistantMsgId = turn
          · subst mine
            rw [grown]
            exact (turnEvents_append_self calls sent).symm
          · rw [turnEvents_append_of_ne mine]
            exact (@turnEvents_append_of_ne calls sent turn mine).symm
        refine ⟨stored.congr sameEvents, .inr ?_⟩
        have chunkIds : call.eventsChunk.filterMap nonemptyId =
            call.eventsChunk.filterMap eventId := by
          apply List.filterMap_congr
          intro event member
          obtain ⟨id, idEq, _, nonemptyEq⟩ := (identified event member).eventId
          rw [idEq, nonemptyEq]
        rw [if_pos rfl, grown, chunkIds, idsOf, idsOf, List.filterMap_append,
          List.toFinset_append]
        rfl

theorem callbackInvariant_foldl {turn : String} (flushes : List (AppendCall × Bool))
    (mine : ∀ flush ∈ flushes, flush.1.assistantMsgId = turn)
    (identified : ∀ flush ∈ flushes, ∀ event ∈ flush.1.eventsChunk, Identified event) :
    CallbackInvariant turn (committed flushes)
      (flushes.foldl (fun state flush => TraceTables.persistFlush state flush.1 flush.2)
        { db := TraceTables.empty, seenEventIds := none }) := by
  induction flushes using List.reverseRecOn with
  | nil => exact ⟨History.empty, .inl rfl⟩
  | append_singleton flushes flush ih =>
      have step := (ih (fun other member => mine other (List.mem_append_left _ member))
        fun other member => identified other (List.mem_append_left _ member)).persistFlush
          (mine flush (List.mem_append_right _ (List.mem_singleton_self _)))
          (identified flush (List.mem_append_right _ (List.mem_singleton_self _))) flush.2
      rw [List.foldl_append, List.foldl_cons, List.foldl_nil]
      have committedEq : committed (flushes ++ [flush]) =
          if flush.2 then committed flushes ++ [flush.1] else committed flushes := by
        rw [committed, List.filter_append]
        cases commits : flush.2 <;> simp [committed, commits]
      rw [committedEq]
      exact step

/-- However the flushes of a run's callback succeed or fail, its cache is empty or has exactly
the stored ids, and the turn loads the events of the flushes that were committed, each id once. -/
theorem callback_stores_committed {turn : String} (flushes : List (AppendCall × Bool))
    (mine : ∀ flush ∈ flushes, flush.1.assistantMsgId = turn)
    (identified : ∀ flush ∈ flushes, ∀ event ∈ flush.1.eventsChunk, Identified event) :
    let state := flushes.foldl (fun state flush => TraceTables.persistFlush state flush.1 flush.2)
      { db := TraceTables.empty, seenEventIds := none }
    (state.seenEventIds = none ∨
      state.seenEventIds = some (state.db.loadPersistedEventIds turn)) ∧
    (turnEvents (committed flushes) turn ≠ [] → (state.db.records.get? turn).isSome) ∧
    ∀ record, state.db.records.get? turn = some record →
      state.db.loadEvents record = distinctOn eventId (turnEvents (committed flushes) turn) := by
  intro state
  have kept : CallbackInvariant turn (committed flushes) state :=
    callbackInvariant_foldl flushes mine identified
  refine ⟨?_, ?_, ?_⟩
  · rw [kept.history.loadPersistedEventIds_eq]
    exact kept.exact
  · intro flushed
    rw [Option.isSome_iff_ne_none]
    exact fun none => flushed (kept.history.absent turn none)
  · intro record found
    obtain ⟨member, rfl⟩ := Table.get?_eq_some_iff.mp found
    exact kept.history.loadEvents_eq member

/-- A flush fails to commit, and its events are sent again with one more. -/
def retriedFlushes : List (AppendCall × Bool) :=
  [(flush [event "a"] none 1, true), (flush [event "b"] none 2, false),
    (flush [event "b", event "c"] none 3, true)]

theorem callback_stores_committed_retried :
    let state := retriedFlushes.foldl
      (fun state flush => TraceTables.persistFlush state flush.1 flush.2)
      { db := TraceTables.empty, seenEventIds := none }
    ∀ record, state.db.records.get? "turn" = some record →
      state.db.loadEvents record = [event "a", event "b", event "c"] := by
  intro state record found
  have identified : ∀ flush ∈ retriedFlushes, ∀ event ∈ flush.1.eventsChunk, Identified event := by
    simp [retriedFlushes, flush, Identified, event]
    exact ⟨⟨_, rfl⟩, ⟨_, rfl⟩, _, rfl⟩
  exact ((callback_stores_committed retriedFlushes (by decide) identified).2.2 record found).trans
    rfl

end NaturalMold.Traces
