import NaturalMold.ConversationTables
import NaturalMold.FallibleSteps
import NaturalMold.FirstOccurrences
import NaturalMold.JsonValues
import NaturalMold.KeyedTables
import Mathlib.Data.Finset.Card

/-!
# Storage of the events of a turn

The events of an assistant turn are appended in chunks while it streams. The columns for finished
turns are left out.
-/

namespace NaturalMold.Traces

open Conversations (Uuid Time)
open Fallible FirstOccurrences KeyedTables

/-- An event, by its fields. -/
abbrev TraceEvent := List (String × Json)

/-- `event.get("id")`, if it is a string. -/
def eventId (event : TraceEvent) : Option String :=
  (Json.getField "id" .null event).str?

def nonemptyId (event : TraceEvent) : Option String :=
  (eventId event).filter fun id => id ≠ ""

inductive TraceStatus
  | streaming
  | completed
  | failed
  deriving DecidableEq

/-- A row of `message_events`; `events` is filled by legacy turns only. -/
structure MessageEvent where
  id : Uuid
  conversationId : Uuid
  assistantMsgId : String
  events : List TraceEvent
  lastEventId : Option String
  status : TraceStatus

structure MessageEventChunk where
  messageEventId : Uuid
  conversationId : Uuid
  assistantMsgId : String
  seqStart : ℕ
  seqEnd : ℕ
  firstEventId : Option String
  lastEventId : Option String
  eventIds : List String
  events : List TraceEvent
  createdAt : Time

/-- The rows, in the order of their insertion; turns have distinct message ids. -/
structure TraceTables where
  records : Table MessageEvent.assistantMsgId
  chunks : List MessageEventChunk

def TraceTables.empty : TraceTables where
  records := Table.empty
  chunks := []

/-- The unique constraint on a record and the first id of a chunk. -/
inductive IntegrityError
  | firstEventId
  deriving DecidableEq

/-- What one flush is called with; `recordId` and `createdAt` are the defaults of
the rows it adds. -/
structure AppendCall where
  conversationId : Uuid
  assistantMsgId : String
  eventsChunk : List TraceEvent
  status : TraceStatus
  knownEventIds : Option (Finset String)
  createdAt : Time

namespace TraceTables

/-- An id that no record has. -/
def freshId (db : TraceTables) : Uuid :=
  (db.records.rows.map MessageEvent.id).foldr max 0 + 1

def chunksOf (db : TraceTables) (recordId : Uuid) : List MessageEventChunk :=
  db.chunks.filter fun chunk => chunk.messageEventId = recordId

def loadExistingEventIds (db : TraceTables) (record : MessageEvent) : Finset String :=
  (record.events.filterMap eventId).toFinset ∪
    ((db.chunksOf record.id).flatMap fun chunk => chunk.eventIds.filter (· ≠ "")).toFinset

def loadPersistedEventIds (db : TraceTables) (assistantMsgId : String) : Finset String :=
  match db.records.get? assistantMsgId with
  | none => ∅
  | some record => db.loadExistingEventIds record

/-- The record of a turn, inserted if it is new. -/
def recordFor (db : TraceTables) (call : AppendCall) (lastEventId : Option String) :
    TraceTables × MessageEvent :=
  match db.records.get? call.assistantMsgId with
  | some record => (db, record)
  | none =>
      let record : MessageEvent :=
        { id := db.freshId
          conversationId := call.conversationId
          assistantMsgId := call.assistantMsgId
          events := []
          lastEventId
          status := call.status }
      ({ db with records := (db.records.insert? record).getD db.records }, record)

def insertChunk (db : TraceTables) (chunk : MessageEventChunk) :
    Except IntegrityError TraceTables :=
  if db.chunks.any fun other => other.messageEventId = chunk.messageEventId &&
      other.firstEventId = chunk.firstEventId && chunk.firstEventId.isSome then
    .error .firstEventId
  else .ok { db with chunks := db.chunks ++ [chunk] }

def newEvents (call : AppendCall) (existingIds : Finset String) : List TraceEvent :=
  call.eventsChunk.filter fun event => !(eventId event).any fun id => id ∈ existingIds

def chunkRow (call : AppendCall) (record : MessageEvent) (existingIds : Finset String) :
    MessageEventChunk :=
  let events := newEvents call existingIds
  let eventIds := events.filterMap nonemptyId
  { messageEventId := record.id
    conversationId := call.conversationId
    assistantMsgId := call.assistantMsgId
    seqStart := existingIds.card + 1
    seqEnd := existingIds.card + 1 + events.length - 1
    firstEventId := eventIds.head?
    lastEventId := eventIds.getLast?
    eventIds
    events
    createdAt := call.createdAt }

def appendEvents (db : TraceTables) (call : AppendCall) :
    Except IntegrityError (TraceTables × Option MessageEvent) := do
  if call.eventsChunk = [] then
    return (db, none)
  let lastEventId := call.eventsChunk.getLast?.bind nonemptyId
  let (db, record) := db.recordFor call lastEventId
  let existingIds := call.knownEventIds.getD (db.loadExistingEventIds record)
  let events := newEvents call existingIds
  if events = [] ∧ lastEventId = record.lastEventId ∧ record.status = call.status then
    return (db, some record)
  let db ← if events = [] then pure db else db.insertChunk (chunkRow call record existingIds)
  let record :=
    { record with lastEventId := lastEventId.or record.lastEventId, status := call.status }
  return ({ db with records := db.records.save record }, some record)

/-- The tables, and the ids that the callback of a run has cached. -/
structure CallbackState where
  db : TraceTables
  seenEventIds : Option (Finset String)

def persistFlush (state : CallbackState) (call : AppendCall) (commits : Bool) : CallbackState :=
  if call.eventsChunk = [] then state
  else
    let known := state.seenEventIds.getD (state.db.loadPersistedEventIds call.assistantMsgId)
    match state.db.appendEvents
      { call with status := .streaming, knownEventIds := some known } with
    | .error _ => { state with seenEventIds := none }
    | .ok (after, _) =>
        if commits then
          { db := after
            seenEventIds := some (known ∪ (call.eventsChunk.filterMap nonemptyId).toFinset) }
        else { state with seenEventIds := none }

/-- The loop of `_dedupe_events`. -/
def dedupeFrom (seen : List String) : List TraceEvent → List TraceEvent
  | [] => []
  | event :: events =>
      match nonemptyId event with
      | none => event :: dedupeFrom seen events
      | some id => if id ∈ seen then dedupeFrom seen events else event :: dedupeFrom (id :: seen) events

def dedupeEvents (events : List TraceEvent) : List TraceEvent :=
  dedupeFrom [] events

/-- The order by `seq_start` and `created_at`. -/
def chunkOrder (first second : MessageEventChunk) : Prop :=
  first.seqStart < second.seqStart ∨
    first.seqStart = second.seqStart ∧ first.createdAt ≤ second.createdAt

instance : DecidableRel chunkOrder := fun _ _ => inferInstanceAs (Decidable (_ ∨ _))

def loadEvents (db : TraceTables) (record : MessageEvent) : List TraceEvent :=
  dedupeEvents (record.events ++
    ((db.chunksOf record.id).insertionSort chunkOrder).flatMap MessageEventChunk.events)

/-- A dictionary of events by record: one pass over the chunks of all records
extends each bucket. -/
def loadEventsMany (db : TraceTables) (records : List MessageEvent) :
    List (Uuid × List TraceEvent) :=
  let byRecord := records.map fun record => (record.id, record.events)
  let chunks := (db.chunks.filter fun chunk =>
    chunk.messageEventId ∈ byRecord.map Prod.fst).insertionSort chunkOrder
  let filled := chunks.foldl (fun buckets chunk => buckets.map fun bucket =>
    if bucket.1 = chunk.messageEventId then (bucket.1, bucket.2 ++ chunk.events) else bucket)
      byRecord
  filled.map fun bucket => (bucket.1, dedupeEvents bucket.2)

end TraceTables

end NaturalMold.Traces
