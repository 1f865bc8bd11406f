import NaturalMold.CronExpressions
import NaturalMold.JsonTexts
import NaturalMold.TextDecoding

/-!
# Parsing a stream of server-sent events

The chunks of a response are decoded, collected in a buffer and cut into lines; an `event` line and
an `id` line are remembered, and a `data` line yields an event with them.
-/

namespace NaturalMold.ServerSentEvents

open CronExpressions (Text)
open JsonTexts (JsonText)
open TextDecoding (TextDecoder)
open Transducers (feed feed_append feed_cons feed_nil)

structure SSEEvent where
  event : Text
  data : JsonText
  id : Option Text

/-- The ranges of what `trim` removes. -/
def blankRanges : List (ℕ × ℕ) :=
  [(0x9, 0xD), (0x20, 0x20), (0xA0, 0xA0), (0x1680, 0x1680), (0x2000, 0x200A),
    (0x2028, 0x2029), (0x202F, 0x202F), (0x205F, 0x205F), (0x3000, 0x3000), (0xFEFF, 0xFEFF)]

def isBlank (char : Char) : Bool :=
  blankRanges.any fun range => range.1 ≤ char.toNat && char.toNat ≤ range.2

/-- `text.trim()`. -/
def trim (text : Text) : Text :=
  ((text.dropWhile isBlank).reverse.dropWhile isBlank).reverse

/-- What the lines before have left for the next event. -/
structure Fields where
  currentEvent : Text
  currentId : Option Text

def withoutSpace (rawValue : Text) : Text :=
  match rawValue with
  | ' ' :: value => value
  | _ => rawValue

def processLine (fields : Fields) (line : Text) : Fields × List SSEEvent :=
  match line.span fun char => char != ':' with
  | (_, []) => (fields, [])
  | (field, _ :: rawValue) =>
      let value := withoutSpace rawValue
      if field = "event".toList then ({ fields with currentEvent := trim value }, [])
      else if field = "id".toList then ({ fields with currentId := some (trim value) }, [])
      else if field = "data".toList then
        match JsonTexts.parse value with
        | some data =>
            ({ fields with currentId := none },
              [{ event := fields.currentEvent, data, id := fields.currentId }])
        | none => ({ fields with currentId := none }, [])
      else (fields, [])

structure Parser where
  decoder : TextDecoder := {}
  buffer : Text := []
  fields : Fields

/-- One `reader.read()`. -/
def processChunk (parser : Parser) (chunk : List UInt8) : Parser × List SSEEvent :=
  let decoded := parser.decoder.decode chunk
  let pieces := (parser.buffer ++ decoded.2).splitOn '\n'
  let processed := feed processLine parser.fields pieces.dropLast
  ({ decoder := decoded.1, buffer := pieces.getLast?.getD [], fields := processed.1 },
    processed.2)

def parseSSEStream (defaultEvent : Text) (chunks : List (List UInt8)) : List SSEEvent :=
  (feed processChunk { fields := { currentEvent := defaultEvent, currentId := none } } chunks).2

def lineStep (buffer : Text) (char : Char) : Text × List Text :=
  if char = '\n' then ([], [buffer]) else (buffer ++ [char], [])

theorem splitOn_append_feed {buffer : Text} (open_ : '\n' ∉ buffer) (text : Text) :
    (buffer ++ text).splitOn '\n' =
      (feed lineStep buffer text).2 ++ [(feed lineStep buffer text).1] ∧
      '\n' ∉ (feed lineStep buffer text).1 := by
  induction text generalizing buffer with
  | nil => exact ⟨by simp [List.splitOn_eq_singleton open_], open_⟩
  | cons char text ih =>
      rw [feed_cons]
      by_cases ends : char = '\n'
      · subst ends
        obtain ⟨split, kept⟩ := ih (List.not_mem_nil (a := '\n'))
        rw [List.splitOn_append_cons_self, List.splitOn_eq_singleton open_]
        exact ⟨congrArg (buffer :: ·) split, kept⟩
      · have still : '\n' ∉ buffer ++ [char] := by
          simp [open_, Ne.symm ends]
        obtain ⟨split, kept⟩ := ih still
        rw [lineStep, if_neg ends]
        rw [List.append_assoc] at split
        exact ⟨split, kept⟩

theorem processChunk_eq {parser : Parser} (unfinished : '\n' ∉ parser.buffer)
    (chunk : List UInt8) :
    processChunk parser chunk =
      ({ decoder := (parser.decoder.decode chunk).1
         buffer := (feed lineStep parser.buffer (parser.decoder.decode chunk).2).1
         fields := (feed processLine parser.fields
           (feed lineStep parser.buffer (parser.decoder.decode chunk).2).2).1 },
        (feed processLine parser.fields
          (feed lineStep parser.buffer (parser.decoder.decode chunk).2).2).2) := by
  rw [processChunk, (splitOn_append_feed unfinished _).1]
  simp

/-- The chunks do not matter: what is emitted depends on the bytes they make up. -/
theorem feed_processChunk {parser : Parser} (unfinished : '\n' ∉ parser.buffer)
    (chunks : List (List UInt8)) :
    (feed processChunk parser chunks).2 =
      (feed processLine parser.fields (feed lineStep parser.buffer
        (parser.decoder.decode chunks.flatten).2).2).2 := by
  induction chunks generalizing parser with
  | nil => rfl
  | cons chunk chunks ih =>
      rw [feed_cons, processChunk_eq unfinished]
      dsimp only
      rw [ih (splitOn_append_feed unfinished _).2, List.flatten_cons, TextDecoding.decode_append]
      simp only [feed_append]

theorem parseSSEStream_eq (defaultEvent : Text) (chunks : List (List UInt8)) :
    parseSSEStream defaultEvent chunks =
      (feed processLine { currentEvent := defaultEvent, currentId := none }
        (feed lineStep [] (TextDecoder.decode {} chunks.flatten).2).2).2 :=
  feed_processChunk List.not_mem_nil chunks

/-- How the bytes of a response are cut into chunks makes no difference. -/
theorem parseSSEStream_flatten (defaultEvent : Text) (chunks : List (List UInt8)) :
    parseSSEStream defaultEvent chunks = parseSSEStream defaultEvent [chunks.flatten] := by
  rw [parseSSEStream_eq, parseSSEStream_eq, List.flatten_singleton]

theorem feed_lineStep_of_notMem {buffer : Text} {line : Text} (plain : '\n' ∉ line) :
    feed lineStep buffer line = (buffer ++ line, []) := by
  induction line generalizing buffer with
  | nil => simp
  | cons char line ih =>
      have other : char ≠ '\n' := (List.ne_of_not_mem_cons plain).symm
      rw [feed_cons, lineStep, if_neg other, ih (List.not_mem_of_not_mem_cons plain)]
      simp

theorem feed_lineStep_lines {lines : List Text} (plain : ∀ line ∈ lines, '\n' ∉ line) :
    feed lineStep [] (lines.flatMap (· ++ ['\n'])) = ([], lines) := by
  induction lines with
  | nil => rfl
  | cons line lines ih =>
      obtain ⟨first, rest⟩ := List.forall_mem_cons.mp plain
      have ended : feed lineStep [] (line ++ ['\n']) = ([], [line]) := by
        rw [feed_append, feed_lineStep_of_notMem first]
        rfl
      rw [List.flatMap_cons, feed_append, ended, ih rest]
      rfl

/-- The value of a line, which may stand right behind the colon or after one space. -/
structure LineValue where
  text : Text
  spaced : Bool
  oneLine : '\n' ∉ text
  unambiguous : spaced = false → text.head? ≠ some ' '

def LineValue.line (value : LineValue) (field : Text) : Text :=
  field ++ ':' :: (if value.spaced then ' ' :: value.text else value.text)

/-- A message of a stream with the value that its data line holds. -/
structure Message where
  event : Option LineValue
  id : Option LineValue
  data : LineValue
  value : JsonText
  parsed : JsonTexts.parse data.text = some value

namespace Message

def lines (message : Message) : List Text :=
  (message.event.map fun event => event.line "event".toList).toList ++
    ((message.id.map fun id => id.line "id".toList).toList ++
      [message.data.line "data".toList, []])

def text (messages : List Message) : Text :=
  (messages.flatMap lines).flatMap (· ++ ['\n'])

def own (defaultEvent : Text) (message : Message) : SSEEvent where
  event := (message.event.map LineValue.text).getD defaultEvent
  data := message.value
  id := message.id.map LineValue.text

end Message

theorem withoutSpace_line (value : LineValue) :
    withoutSpace (if value.spaced then ' ' :: value.text else value.text) = value.text := by
  by_cases spaced : value.spaced = true
  · rw [if_pos spaced]
    rfl
  · rw [if_neg spaced]
    have plain := value.unambiguous (by simpa using spaced)
    unfold withoutSpace
    split
    · next rest same =>
        rw [same] at plain
        exact absurd rfl plain
    · rfl

theorem span_line {field : Text} (plain : field.all (fun char => char != ':') = true)
    (value : Text) :
    (field ++ ':' :: value).span (fun char => char != ':') = (field, ':' :: value) := by
  have each := List.all_eq_true.mp plain
  rw [List.span_eq_takeWhile_dropWhile, List.takeWhile_append_of_pos each,
    List.dropWhile_append_of_pos each]
  simp

theorem processLine_event (fields : Fields) (value : LineValue) :
    processLine fields (value.line "event".toList) =
      ({ fields with currentEvent := trim value.text }, []) := by
  rw [processLine, LineValue.line, span_line (by decide)]
  simp [withoutSpace_line]

theorem processLine_id (fields : Fields) (value : LineValue) :
    processLine fields (value.line "id".toList) =
      ({ fields with currentId := some (trim value.text) }, []) := by
  rw [processLine, LineValue.line, span_line (by decide)]
  simp [withoutSpace_line]

theorem processLine_data (fields : Fields) {value : LineValue} {data : JsonText}
    (parsed : JsonTexts.parse value.text = some data) :
    processLine fields (value.line "data".toList) =
      ({ fields with currentId := none },
        [{ event := fields.currentEvent, data, id := fields.currentId }]) := by
  rw [processLine, LineValue.line, span_line (by decide)]
  simp [withoutSpace_line, parsed]

def Message.nextEvent (message : Message) (current : Text) : Text :=
  (message.event.map fun event => trim event.text).getD current

def receive (current : Text) (message : Message) : Text × List SSEEvent :=
  (message.nextEvent current,
    [{ event := message.nextEvent current
       data := message.value
       id := message.id.map fun id => trim id.text }])

theorem feed_lines (current : Text) (message : Message) :
    feed processLine { currentEvent := current, currentId := none } message.lines =
      ({ currentEvent := (receive current message).1, currentId := none },
        (receive current message).2) := by
  have blank (fields : Fields) : feed processLine fields [[]] = (fields, []) := rfl
  unfold Message.lines receive Message.nextEvent
  cases message.event with
  | none =>
      cases message.id with
      | none =>
          simp only [Option.map_none, Option.toList_none, List.nil_append, feed_cons,
            processLine_data _ message.parsed, blank]
          rfl
      | some id =>
          simp only [Option.map_none, Option.map_some, Option.toList_none, Option.toList_some,
            List.nil_append, List.cons_append, feed_cons, processLine_id,
            processLine_data _ message.parsed, blank]
          rfl
  | some event =>
      cases message.id with
      | none =>
          simp only [Option.map_none, Option.map_some, Option.toList_none, Option.toList_some,
            List.nil_append, List.cons_append, feed_cons, processLine_event,
            processLine_data _ message.parsed, blank]
          rfl
      | some id =>
          simp only [Option.map_some, Option.toList_some, List.nil_append, List.cons_append,
            feed_cons, processLine_event, processLine_id, processLine_data _ message.parsed, blank]
          rfl

theorem feed_flatMap_lines (current : Text) (messages : List Message) :
    (feed processLine { currentEvent := current, currentId := none }
      (messages.flatMap Message.lines)).2 = (feed receive current messages).2 := by
  induction messages generalizing current with
  | nil => rfl
  | cons message messages ih =>
      rw [List.flatMap_cons, feed_append, feed_lines, feed_cons]
      dsimp only
      rw [ih]

theorem LineValue.notMem_line (value : LineValue) {field : Text} (plain : '\n' ∉ field) :
    '\n' ∉ value.line field := by
  unfold LineValue.line
  split <;> simp [plain, value.oneLine]

theorem Message.notMem_lines (message : Message) : ∀ line ∈ message.lines, '\n' ∉ line := by
  intro line member
  rw [Message.lines, List.mem_append, List.mem_append] at member
  rcases member with event | id | data
  · rw [Option.mem_toList, Option.map_eq_some_iff] at event
    obtain ⟨value, -, rfl⟩ := event
    exact value.notMem_line (by decide)
  · rw [Option.mem_toList, Option.map_eq_some_iff] at id
    obtain ⟨value, -, rfl⟩ := id
    exact value.notMem_line (by decide)
  · rcases List.mem_pair.mp data with rfl | rfl
    · exact message.data.notMem_line (by decide)
    · exact List.not_mem_nil

theorem Message.exists_lines_eq (message : Message) :
    ∃ char line lines, message.lines = (char :: line) :: lines ∧ char.toNat ≠ 0xFEFF := by
  unfold Message.lines
  cases message.event with
  | some event => exact ⟨'e', _, _, rfl, by decide⟩
  | none =>
      cases message.id with
      | some id => exact ⟨'i', _, _, rfl, by decide⟩
      | none => exact ⟨'d', _, _, rfl, by decide⟩

/-- A text of messages starts with the name of a field. -/
theorem Message.head?_text (messages : List Message) (char : Char)
    (first : (Message.text messages).head? = some char) : char.toNat ≠ 0xFEFF := by
  cases messages with
  | nil => cases first
  | cons message messages =>
      obtain ⟨named, line, lines, same, plain⟩ := message.exists_lines_eq
      rw [Message.text, List.flatMap_cons, same] at first
      cases first
      exact plain

theorem parseSSEStream_text (defaultEvent : Text) {messages : List Message}
    {chunks : List (List UInt8)}
    (cut : chunks.flatten = TextDecoding.encode (Message.text messages)) :
    parseSSEStream defaultEvent chunks = (feed receive defaultEvent messages).2 := by
  rw [parseSSEStream_eq, cut, TextDecoding.decode_encode (Message.head?_text messages),
    Message.text, feed_lineStep_lines, feed_flatMap_lines]
  intro line member
  obtain ⟨message, -, among⟩ := List.mem_flatMap.mp member
  exact message.notMem_lines line among

def lastName (current : Text) (messages : List Message) : Text :=
  ((messages.filterMap Message.event).getLast?.map LineValue.text).getD current

/-- No name and no id is changed by trimming, and a message without a name comes only while
the last name before it is the default one. -/
structure KeepsNames (defaultEvent current : Text) (messages : List Message) : Prop where
  trimmedEvent : ∀ message ∈ messages, ∀ event, message.event = some event →
    trim event.text = event.text
  trimmedId : ∀ message ∈ messages, ∀ id, message.id = some id → trim id.text = id.text
  unnamed : ∀ before message after, messages = before ++ message :: after →
    message.event = none → lastName current before = defaultEvent

theorem lastName_cons {message : Message}
    (trimmed : ∀ event, message.event = some event → trim event.text = event.text)
    (current : Text) (messages : List Message) :
    lastName current (message :: messages) = lastName (message.nextEvent current) messages := by
  unfold lastName Message.nextEvent
  cases named : message.event with
  | none =>
      rw [List.filterMap_cons_none named]
      rfl
  | some event =>
      rw [List.filterMap_cons_some named, List.getLast?_cons]
      cases (messages.filterMap Message.event).getLast? with
      | none => exact (trimmed event named).symm
      | some last => rfl

theorem keepsNames_cons {defaultEvent current : Text} {message : Message}
    {messages : List Message} :
    KeepsNames defaultEvent current (message :: messages) ↔
      (∀ event, message.event = some event → trim event.text = event.text) ∧
      (∀ id, message.id = some id → trim id.text = id.text) ∧
      (message.event = none → current = defaultEvent) ∧
      KeepsNames defaultEvent (message.nextEvent current) messages := by
  constructor
  · intro keeps
    have trimmed := keeps.trimmedEvent message List.mem_cons_self
    refine ⟨trimmed, keeps.trimmedId message List.mem_cons_self,
      keeps.unnamed [] message messages rfl, ?_⟩
    refine ⟨fun other member => keeps.trimmedEvent other (List.mem_cons_of_mem _ member),
      fun other member => keeps.trimmedId other (List.mem_cons_of_mem _ member), ?_⟩
    intro before other after split none
    rw [← lastName_cons trimmed]
    exact keeps.unnamed (message :: before) other after (by rw [split]; rfl) none
  · rintro ⟨trimmed, trimmedId, unnamed, keeps⟩
    refine ⟨List.forall_mem_cons.mpr ⟨trimmed, keeps.trimmedEvent⟩,
      List.forall_mem_cons.mpr ⟨trimmedId, keeps.trimmedId⟩, ?_⟩
    intro before other after split none
    cases before with
    | nil =>
        obtain ⟨rfl, -⟩ := List.cons.inj split
        exact unnamed none
    | cons first before =>
        obtain ⟨rfl, rest⟩ := List.cons.inj split
        rw [lastName_cons trimmed]
        exact keeps.unnamed before other after rest none

/-- The event of one message is its own when its lines are trimmed and it needs no name. -/
theorem receive_eq_own {defaultEvent current : Text} {message : Message} :
    (receive current message).2 = [message.own defaultEvent] ↔
      (∀ event, message.event = some event → trim event.text = event.text) ∧
      (∀ id, message.id = some id → trim id.text = id.text) ∧
      (message.event = none → current = defaultEvent) := by
  unfold receive Message.own Message.nextEvent
  cases message.event <;> cases message.id <;> simp [and_comm]

theorem feed_receive_eq_iff {defaultEvent current : Text} {messages : List Message} :
    (feed receive current messages).2 = messages.map (Message.own defaultEvent) ↔
      KeepsNames defaultEvent current messages := by
  induction messages generalizing current with
  | nil => exact ⟨fun _ => ⟨nofun, nofun, by simp⟩, fun _ => rfl⟩
  | cons message messages ih =>
      have parted : (feed receive current (message :: messages)).2 =
            (message :: messages).map (Message.own defaultEvent) ↔
          (receive current message).2 = [message.own defaultEvent] ∧
            (feed receive (message.nextEvent current) messages).2 =
              messages.map (Message.own defaultEvent) := by
        rw [feed_cons, List.map_cons]
        simp [receive]
      rw [parted, ih, keepsNames_cons, receive_eq_own, and_assoc, and_assoc]

/-- However its bytes are cut, a stream yields each message's own event exactly if no name is
changed by trimming or carried over to a message without one. -/
theorem parseSSEStream_eq_own_iff (defaultEvent : Text) (messages : List Message)
    (chunks : List (List UInt8))
    (cut : chunks.flatten = TextDecoding.encode (Message.text messages)) :
    parseSSEStream defaultEvent chunks = messages.map (Message.own defaultEvent) ↔
      KeepsNames defaultEvent defaultEvent messages := by
  rw [parseSSEStream_text defaultEvent cut]
  exact feed_receive_eq_iff

def digitLine : LineValue where
  text := ['1']
  spaced := true
  oneLine := by decide
  unambiguous := by decide

def errorLine : LineValue where
  text := ['e', 'r', 'r', 'o', 'r']
  spaced := true
  oneLine := by decide
  unambiguous := by decide

/-- A message named `error` and one without a name. -/
def namedThenUnnamed : List Message :=
  [{ event := some errorLine, id := none, data := digitLine, value := .number ['1'],
     parsed := rfl },
    { event := none, id := none, data := digitLine, value := .number ['1'], parsed := rfl }]

theorem parseSSEStream_eq_own_iff_unnamed :
    parseSSEStream ['m'] [TextDecoding.encode (Message.text namedThenUnnamed.tail)] =
        namedThenUnnamed.tail.map (Message.own ['m']) ↔
      KeepsNames ['m'] ['m'] namedThenUnnamed.tail :=
  parseSSEStream_eq_own_iff ['m'] namedThenUnnamed.tail _ (by simp)

/-- The second message is given the name of the first. -/
theorem namedThenUnnamed_not_own :
    (parseSSEStream ['m'] [TextDecoding.encode (Message.text namedThenUnnamed)]).map
        SSEEvent.event = [['e', 'r', 'r', 'o', 'r'], ['e', 'r', 'r', 'o', 'r']] ∧
    parseSSEStream ['m'] [TextDecoding.encode (Message.text namedThenUnnamed)] ≠
      namedThenUnnamed.map (Message.own ['m']) := by
  have received : parseSSEStream ['m'] [TextDecoding.encode (Message.text namedThenUnnamed)] =
      (feed receive ['m'] namedThenUnnamed).2 := parseSSEStream_text _ (by simp)
  rw [received]
  refine ⟨by decide, fun same => ?_⟩
  have names := congrArg (List.map SSEEvent.event) same
  revert names
  decide

end NaturalMold.ServerSentEvents
