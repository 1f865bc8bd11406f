import NaturalMold.ConversationTables
import NaturalMold.CronExpressions
import NaturalMold.FallibleSteps
import NaturalMold.FirstOccurrences
import NaturalMold.StepRuns

/-! # Profile documents -/

namespace NaturalMold.MemoryProfiles

open Conversations (Uuid)
open CronExpressions (Text words)
open Fallible FirstOccurrences KeyedTables StepRuns

inductive Section
  | recent
  | basics
  | tips
  deriving DecidableEq

inductive LineOrigin
  | user
  | pinned
  | consolidation
  | schedule
  deriving DecidableEq

structure ProfileLine where
  id : Uuid
  text : Text
  origin : LineOrigin
  sources : List Uuid := []
  «section» : Option Section := none
  deriving DecidableEq

/-- What a document is found by. -/
inductive DocKey
  | userProfile
  | workMemo (agentId : Option Uuid)
  | triggerMemo (triggerId : Uuid)
  deriving DecidableEq

structure MemoryProfileDoc where
  key : DocKey
  lines : List ProfileLine
  version : ℕ
  deriving DecidableEq

structure MemoryRecord where
  id : Uuid
  content : Text
  isAgentScope : Bool
  agentId : Option Uuid
  isActive : Bool
  pinned : Bool
  deriving DecidableEq

/-- One person's memories and documents; the id of a new line is one that no line has had. -/
structure State where
  memories : Table MemoryRecord.id
  docs : Table MemoryProfileDoc.key := Table.empty
  nextLineId : ℕ := 0

structure ValidationError where
  code : String
  message : String
  deriving DecidableEq

/-- `str.lower`, and what the checks of a text refuse. -/
structure Environment where
  lower : Text → Text
  refuses : Text → Option ValidationError

def profileBudgetTokens : ℕ :=
  800

def triggerMemoBudgetTokens : ℕ :=
  1500

def lineMaxChars : ℕ :=
  300

def maxLines : ℕ :=
  60

def budgetFor : DocKey → ℕ
  | .triggerMemo _ => triggerMemoBudgetTokens
  | .userProfile | .workMemo _ => profileBudgetTokens

/-- `_lines`, of a document that may not be there yet. -/
def linesOf (docs : Table MemoryProfileDoc.key) (key : DocKey) : List ProfileLine :=
  (docs.get? key).elim [] MemoryProfileDoc.lines

def versionOf (docs : Table MemoryProfileDoc.key) (key : DocKey) : ℕ :=
  (docs.get? key).elim 0 MemoryProfileDoc.version

def estimateTokens (text : Text) : ℕ :=
  let hangul := text.countP fun char => 0xac00 ≤ char.toNat && char.toNat ≤ 0xd7a3
  hangul + (text.length - hangul + 3) / 4

def lineTokens (line : ProfileLine) : ℕ :=
  estimateTokens (['-', ' '] ++ line.text)

def docTokens : List ProfileLine → ℕ
  | [] => 0
  | line :: lines => lineTokens line + docTokens lines

/-- `" ".join(text.split())`. -/
def cleaned (text : Text) : Text :=
  List.intercalate [' '] (words text)

def lineEmpty : ValidationError :=
  ⟨"MEMORY_PROFILE_LINE_EMPTY", "빈 줄은 저장할 수 없습니다"⟩

def lineTooLong (message : String) : ValidationError :=
  ⟨"MEMORY_PROFILE_LINE_TOO_LONG", message⟩

def docTooLong (message : String) : ValidationError :=
  ⟨"MEMORY_PROFILE_TOO_LONG", message⟩

section

variable (env : Environment)

def checkLine (text : Text) : Except ValidationError Text := do
  let line := cleaned text
  ensure (line ≠ []) lineEmpty
  ensure (line.length ≤ lineMaxChars) (lineTooLong "한 줄은 300자까지 쓸 수 있습니다")
  match env.refuses line with
  | some refusal => .error refusal
  | none => .ok line

def longestLine (lines : List ProfileLine) : ℕ :=
  let lengths := lines.map fun line => line.text.length
  lengths.idxOf (lengths.foldl max 0)

def checkBudget (lines : List ProfileLine) (budget : ℕ) : Except ValidationError Unit := do
  ensure (lines.length ≤ maxLines) (docTooLong "60줄까지 쓸 수 있습니다")
  ensure (docTokens lines ≤ budget)
    (docTooLong (toString budget ++ "토큰을 넘습니다. 가장 긴 줄은 " ++
      toString (longestLine lines + 1) ++ "번째 줄입니다"))

def dedupe (lines : List ProfileLine) : List ProfileLine :=
  distinctOn (fun line => cleaned (env.lower line.text)) lines

/-- `_save`. -/
def saveDoc (docs : Table MemoryProfileDoc.key) (key : DocKey) (lines : List ProfileLine) :
    Table MemoryProfileDoc.key :=
  match docs.get? key with
  | some doc => docs.save { doc with lines, version := doc.version + 1 }
  | none => (docs.insert? { key, lines, version := 1 }).getD docs

def setPinned (ids : List Uuid) (pinned : Bool) (memories : Table MemoryRecord.id) :
    Table MemoryRecord.id :=
  memories.updateWhere (fun memory => ids.contains memory.id)
    (fun memory => { memory with pinned }) fun _ => rfl

def kindOf (memory : MemoryRecord) : DocKey :=
  if memory.isAgentScope then .workMemo memory.agentId else .userProfile

def Pins (line : ProfileLine) (id : Uuid) : Prop :=
  line.origin = .pinned ∧ id ∈ line.sources

instance (line : ProfileLine) (id : Uuid) : Decidable (Pins line id) :=
  inferInstanceAs (Decidable (_ ∧ _))

/-- A line of an edit, with the line that it was and the section that it names. -/
structure Entry where
  lineId : Option Uuid
  text : Text
  «section» : Option String := none

/-- `_section`. -/
def parseSection (key : DocKey) (value : Option String) :
    Except ValidationError (Option Section) :=
  match key with
  | .userProfile | .workMemo _ => .ok none
  | .triggerMemo _ =>
      match value with
      | none => .ok (some .basics)
      | some "recent" => .ok (some .recent)
      | some "basics" => .ok (some .basics)
      | some "tips" => .ok (some .tips)
      | some _ => .error ⟨"MEMORY_PROFILE_SECTION", "알 수 없는 절입니다"⟩

/-- The loop of `replace_lines`, with the id of its next new line. -/
def editLines (key : DocKey) (existing : List ProfileLine) :
    ℕ → List Entry → Except ValidationError (List ProfileLine × ℕ)
  | next, [] => .ok ([], next)
  | next, entry :: entries => do
      let «section» ← parseSection key entry.section
      let text ← checkLine env entry.text
      let known := existing.find? fun line =>
        some line.id = entry.lineId && line.text = text && line.section = «section»
      match known with
      | some line => do
          let (lines, after) ← editLines key existing next entries
          return (line :: lines, after)
      | none => do
          let (lines, after) ← editLines key existing (next + 1) entries
          return ({ id := next, text, origin := .user, «section» } :: lines, after)

def replaceLines (key : DocKey) (entries : List Entry) (expectedVersion : Option ℕ)
    (state : State) : Except ValidationError State := do
  ensure (∀ version ∈ expectedVersion, versionOf state.docs key = version)
    ⟨"MEMORY_PROFILE_CHANGED", "다른 곳에서 먼저 바뀌었습니다. 새로 불러와 주세요"⟩
  let existing := linesOf state.docs key
  let (edited, next) ← editLines env key existing state.nextLineId entries
  let lines := dedupe env edited
  checkBudget lines (budgetFor key)
  let removedPins := (existing.filter fun line => line.origin = .pinned &&
    !(lines.map ProfileLine.id).contains line.id).flatMap ProfileLine.sources
  return { memories := setPinned removedPins false state.memories
           docs := saveDoc state.docs key lines
           nextLineId := next }

def pinnedLine (id : Uuid) (text : Text) (memoryId : Uuid) : ProfileLine where
  id := id
  text := text
  origin := .pinned
  sources := [memoryId]

/-- `pin`; a memory that is not there is no refusal. -/
def pin (memoryId : Uuid) (state : State) : Except ValidationError State :=
  match state.memories.get? memoryId with
  | none => .ok state
  | some memory => do
      let lines := linesOf state.docs (kindOf memory)
      if ¬ memory.isActive ∨ ∃ line ∈ lines, Pins line memory.id then return state
      let text := cleaned memory.content
      ensure (text.length ≤ lineMaxChars)
        (lineTooLong "300자가 넘는 기억은 프로필에 올릴 수 없습니다. 줄여서 직접 써 주세요")
      let added := lines ++ [pinnedLine state.nextLineId text memory.id]
      checkBudget added profileBudgetTokens
      return { memories := setPinned [memory.id] true state.memories
               docs := saveDoc state.docs (kindOf memory) added
               nextLineId := state.nextLineId + 1 }

def unpin (memoryId : Uuid) (state : State) : State :=
  match state.memories.get? memoryId with
  | none => state
  | some memory =>
      if ¬ memory.isActive then state
      else
        let key := kindOf memory
        let lines := (linesOf state.docs key).filter fun line => ¬ Pins line memory.id
        { state with
          memories := setPinned [memory.id] false state.memories
          docs := if (state.docs.get? key).isSome then saveDoc state.docs key lines
            else state.docs }

def scheduleLines («section» : Section) (next : ℕ) (texts : List Text) : List ProfileLine :=
  (texts.zipIdx next).map fun text =>
    { id := text.2, text := text.1, origin := .schedule, «section» := some «section» }

def replaceRecent (next : ℕ) (lines : List ProfileLine) (recent tips : List Text) :
    List ProfileLine :=
  dedupe env (scheduleLines .recent next recent ++
    lines.filter (fun line => line.section ≠ some .recent) ++
      scheduleLines .tips (next + recent.length) tips)

inductive LineChange
  | remove (isWorkMemo : Bool) (agentId : Option Uuid) (lineId : Uuid)
  | add (isWorkMemo : Bool) (agentId : Option Uuid) (text : Text) (sources : List Uuid)
  | replaceRecent (triggerId : Uuid) (recent tips : List Text)

def changeKey (isWorkMemo : Bool) (agentId : Option Uuid) : DocKey :=
  if isWorkMemo then .workMemo agentId else .userProfile

def applyChange (change : LineChange) (state : State) : Except ValidationError State :=
  match change with
  | .remove isWorkMemo agentId lineId =>
      let key := changeKey isWorkMemo agentId
      let lines := linesOf state.docs key
      let kept := lines.filter fun line => line.id ≠ lineId
      if kept.length = lines.length then .ok state
      else .ok { state with docs := saveDoc state.docs key kept }
  | .add isWorkMemo agentId text sources => do
      let key := changeKey isWorkMemo agentId
      let line ← checkLine env text
      let lines := linesOf state.docs key
      let added := dedupe env (lines ++
        [{ id := state.nextLineId, text := line, origin := .consolidation, sources }])
      if added.length = lines.length then return state
      checkBudget added profileBudgetTokens
      return { state with
               docs := saveDoc state.docs key added
               nextLineId := state.nextLineId + 1 }
  | .replaceRecent triggerId recent tips => do
      let recent ← recent.mapM (checkLine env)
      let tips ← tips.mapM (checkLine env)
      let key := .triggerMemo triggerId
      let merged := replaceRecent env state.nextLineId (linesOf state.docs key) recent tips
      checkBudget merged triggerMemoBudgetTokens
      return { state with
               docs := saveDoc state.docs key merged
               nextLineId := state.nextLineId + recent.length + tips.length }

def Cites (ids : List Uuid) (line : ProfileLine) : Prop :=
  ∃ id ∈ line.sources, id ∈ ids

instance (ids : List Uuid) (line : ProfileLine) : Decidable (Cites ids line) :=
  inferInstanceAs (Decidable (∃ id ∈ line.sources, _))

def dropSources (ids : List Uuid) (docs : Table MemoryProfileDoc.key) :
    Table MemoryProfileDoc.key :=
  docs.updateWhere (fun doc => ∃ line ∈ doc.lines, Cites ids line)
    (fun doc =>
      { doc with
        lines := doc.lines.filter fun line => ¬ Cites ids line
        version := doc.version + 1 }) fun _ => rfl

/-- `purge_records`, of the memories and the documents. -/
def purgeRecords (ids : List Uuid) (state : State) : State :=
  { state with
    memories := state.memories.filter fun memory => !ids.contains memory.id
    docs := dropSources ids state.docs }

inductive Action
  | pin (memoryId : Uuid)
  | unpin (memoryId : Uuid)
  | replaceLines (key : DocKey) (entries : List Entry) (expectedVersion : Option ℕ)
  | applyChange (change : LineChange)
  | purgeRecords (ids : List Uuid)

/-- One operation of the person or of a job. -/
def perform (state : State) : Action → Except ValidationError State
  | .pin memoryId => pin memoryId state
  | .unpin memoryId => .ok (unpin memoryId state)
  | .replaceLines key entries expectedVersion => replaceLines env key entries expectedVersion state
  | .applyChange change => applyChange env change state
  | .purgeRecords ids => .ok (purgeRecords ids state)

/-- The transaction of a refused operation is rolled back. -/
def step (state : State) (action : Action) : State :=
  match perform env state action with
  | .ok after => after
  | .error _ => state

end

end NaturalMold.MemoryProfiles
