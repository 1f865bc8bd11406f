import NaturalMold.PythonText

/-! # Offload references in strings -/

namespace NaturalMold.OffloadReferences

open PythonText (afterPrefix? afterPrefix?_eq_some_iff length_of_afterPrefix?)
open TextSubstitution

abbrev Text := List Char

inductive OffloadKind
  | history
  | spill
  deriving DecidableEq

def OffloadKind.value : OffloadKind → Text
  | .history => "history".toList
  | .spill => "spill".toList

/-- `[0-9a-f]`. -/
def isHex (char : Char) : Bool :=
  (48 ≤ char.toNat && char.toNat ≤ 57) || (97 ≤ char.toNat && char.toNat ≤ 102)

/-- The digits of an id. -/
structure Token where
  digits : Text
  length : digits.length = 24
  hex : ∀ char ∈ digits, isHex char = true

/-- `logical_offload_id`, with the digests of the references of a kind. -/
def logicalOffloadId (token : OffloadKind → Text → Token) (kind : OffloadKind)
    (reference : Text) : Text :=
  kind.value ++ '_' :: (token kind reference).digits

/-- `_LOGICAL_ID_RE.fullmatch`, with the kind of the match. -/
def isLogicalId (kind : OffloadKind) (value : Text) : Bool :=
  (afterPrefix? (kind.value ++ ['_']) value).any fun digits =>
    digits.length = 24 && digits.all isHex

def internalReferenceRedacted : Text :=
  "internal_reference_redacted".toList

/-- `[a-z0-9]`. -/
def isLowerOrDigit (char : Char) : Bool :=
  (48 ≤ char.toNat && char.toNat ≤ 57) || (97 ≤ char.toNat && char.toNat ≤ 122)

/-- The characters of references: letters, digits, `_`, `.`, `/` and `-`. -/
def isReferenceChar (char : Char) : Bool :=
  isLowerOrDigit char || (65 ≤ char.toNat && char.toNat ≤ 90) || ['_', '.', '/', '-'].contains char

/-- `[^/\x00\r\n]`. -/
def isLeafChar (char : Char) : Bool :=
  !List.contains ['/', Char.ofNat 0, '\r', '\n'] char

/-- `_REFERENCE_BOUNDARY`: the character before is not one of a reference. -/
def referenceBoundary : Option Char → Bool
  | none => true
  | some char => !isReferenceChar char

def referenceEnd : Text → Bool
  | [] => true
  | char :: _ => !isReferenceChar char

/-- What follows a word at the boundary of a reference. -/
def opening (before : Option Char) (word text : Text) : Option Text :=
  if referenceBoundary before then afterPrefix? word text else none

/-- What follows a number of hexadecimal digits. -/
def hexDigits (count : ℕ) (text : Text) : Option Text :=
  if (text.take count).length = count ∧ (text.take count).all isHex then some (text.drop count)
  else none

/-- What follows three digests with slashes between them. -/
def scopeDigests (text : Text) : Option Text := do
  let text ← hexDigits 32 text
  let text ← afterPrefix? ['/'] text
  let text ← hexDigits 32 text
  let text ← afterPrefix? ['/'] text
  hexDigits 32 text

/-- What follows `_MEDIA`; a longer extension is not the end of a reference. -/
def media (text : Text) : Option Text := do
  let text ← afterPrefix? "media/".toList text
  let text ← hexDigits 16 text
  let text ← afterPrefix? ['.'] text
  let extension := (text.takeWhile isLowerOrDigit).length
  if 1 ≤ extension ∧ extension ≤ 10 then some (text.drop extension) else none

/-- What follows `_SESSION`. -/
def session (text : Text) : Option Text := do
  let text ← afterPrefix? "session_".toList text
  let text ← hexDigits 32 text
  afterPrefix? ".md".toList text

def historyFile (text : Text) : Option Text := do
  let text ← (session text).or (media text)
  if referenceEnd text then some text else none

/-- What follows a match of `_VIRTUAL_HISTORY_RE` at a position. -/
def virtualHistory (before : Option Char) (text : Text) : Option Text := do
  let text ← opening before "/.moldy-offload/".toList text
  let text ← scopeDigests text
  let text ← afterPrefix? "/conversation_history/".toList text
  historyFile text

/-- What follows a match of `_LEGACY_HISTORY_RE`. -/
def legacyHistory (before : Option Char) (text : Text) : Option Text := do
  let text ← opening before "/conversation_history/".toList text
  historyFile text

def isSpillLeaf (text : Text) : Bool :=
  text ≠ [] && text.all isLeafChar

/-- `_SCOPED_SPILL_FULL_RE.fullmatch`. -/
def scopedSpillFull (path : Text) : Bool :=
  ((afterPrefix? "/.moldy-offload/".toList path).bind fun text =>
    (scopeDigests text).bind (afterPrefix? "/large_tool_results/".toList)).any isSpillLeaf

/-- `_LEGACY_SPILL_FULL_RE.fullmatch`. -/
def legacySpillFull (path : Text) : Bool :=
  (afterPrefix? "/large_tool_results/".toList path).any isSpillLeaf

/-- `str(root.resolve() / ".moldy-internal" / "offload")`, of a root that is resolved. -/
def internalRoot (root : Text) : Text :=
  (if root = ['/'] then [] else root) ++ '/' :: ".moldy-internal/offload".toList

def nextDigest (text : Text) : Option Text :=
  (afterPrefix? ['/'] text).bind (hexDigits 32)

def physicalReference (root : Text) (kind : OffloadKind) (before : Option Char) (text : Text) :
    Option Text := do
  let text ← opening before (internalRoot root ++ '/' :: (kind.value ++ ['/'])) text
  let text ← scopeDigests text
  let text ← match kind with
    | .history => some ((nextDigest text).getD text)
    | .spill => (nextDigest text).bind nextDigest
  if referenceEnd text then some text else none

/-- The kinds in the order of `_physical_patterns`. -/
def physicalPatterns (roots : List Text) : List (Text × OffloadKind) :=
  roots.flatMap fun root => [(root, .history), (root, .spill)]

/-- `project_structural_reference`: the kind and the logical id of an exact internal path. -/
def projectStructuralReference (token : OffloadKind → Text → Token) (roots : List Text)
    (path : Text) : Option (OffloadKind × Text) :=
  if virtualHistory none path = some [] ∨ legacyHistory none path = some [] then
    some (.history, logicalOffloadId token .history path)
  else if scopedSpillFull path ∨ legacySpillFull path then
    some (.spill, logicalOffloadId token .spill path)
  else
    ((physicalPatterns roots).find? fun pattern =>
        physicalReference pattern.1 pattern.2 none path = some []).map
      fun pattern => (pattern.2, logicalOffloadId token pattern.2 path)

/-- `_INTERNAL_MARKER_RE` at a position. -/
def markerAt (before : Option Char) (text : Text) : Bool :=
  ".moldy-internal/offload/".toList.isPrefixOf text || "/.moldy-offload/".toList.isPrefixOf text ||
    (referenceBoundary before && ("/conversation_history/".toList.isPrefixOf text ||
      "/large_tool_results/".toList.isPrefixOf text))

/-- Whether a marker is found from a position on. -/
def markerFrom : Option Char → Text → Bool
  | _, [] => false
  | before, char :: text => markerAt before (char :: text) || markerFrom (some char) text

def containsInternalOffloadMarker (text : Text) : Bool :=
  markerFrom none text

def replaceMatches (token : OffloadKind → Text → Token) (kind : OffloadKind)
    (pattern : Option Char → Text → Option Text) (text : Text) : Text :=
  substitute (fun before text => (pattern before text).map fun rest =>
    (text.length - rest.length - 1,
      logicalOffloadId token kind (text.take (text.length - rest.length)))) text

def replacePhysical (token : OffloadKind → Text → Token) (roots : List Text) (text : Text) : Text :=
  (physicalPatterns roots).foldl (fun text pattern =>
    replaceMatches token pattern.2 (physicalReference pattern.1 pattern.2) text) text

def sanitizeToolCallId (toolCallId : Text) : Text :=
  toolCallId.map fun char => if ['.', '/', '\\'].contains char then '_' else char

/-- A match of `_TOOL_POINTER_RE`, and what follows it. -/
structure ToolPointer where
  messageId : Text
  path : Text
  leaf : Text
  rest : Text

def pointerPath (text : Text) : Option (Text × Text × Text) := do
  let below := (afterPrefix? "/.moldy-offload/".toList text).bind scopeDigests
  let file ← afterPrefix? "/large_tool_results/".toList (below.getD text)
  let leaf := file.takeWhile isLeafChar
  if leaf = [] then none
  else some (text.take (text.length - (file.length - leaf.length)), leaf, file.drop leaf.length)

def pointerTail (messageId text : Text) : Option ToolPointer := do
  let text ← afterPrefix? " was saved in the filesystem at this path: ".toList text
  let (path, leaf, text) ← pointerPath text
  let rest ← afterPrefix? ['\n', '\n'] text
  some { messageId, path, leaf, rest }

def pointerMessage : Text → Text → Option ToolPointer
  | _, [] => none
  | seen, char :: text =>
      match if seen = [] then none else pointerTail seen (char :: text) with
      | some pointer => some pointer
      | none =>
          if char = '\r' ∨ char = '\n' then none else pointerMessage (seen ++ [char]) text

def toolPointer (text : Text) : Option ToolPointer :=
  (afterPrefix? "Tool result too large, the result of this tool call ".toList text).bind
    (pointerMessage [])

/-- `text.replace(old, new, 1)`. -/
def replaceOnce (old new : Text) : Text → Text
  | [] => []
  | char :: text =>
      if old.isPrefixOf (char :: text) then new ++ (char :: text).drop old.length
      else char :: replaceOnce old new text

def replaceToolPointers (token : OffloadKind → Text → Token) (toolCallId : Option Text)
    (text : Text) : Text :=
  substitute (fun _ text => (toolPointer text).map fun pointer =>
    let found := text.take (text.length - pointer.rest.length)
    (found.length - 1,
      if toolCallId = some pointer.messageId ∧
          pointer.leaf = sanitizeToolCallId pointer.messageId then
        replaceOnce pointer.path (logicalOffloadId token .spill pointer.path) found
      else found)) text

def projectOffloadString (token : OffloadKind → Text → Token) (roots : List Text)
    (toolCallId : Option Text) (value : Text) : Text :=
  let projected := replaceToolPointers token toolCallId value
  let projected := replacePhysical token roots projected
  let projected := replaceMatches token .history virtualHistory projected
  let projected := replaceMatches token .history legacyHistory projected
  if containsInternalOffloadMarker projected then internalReferenceRedacted else projected

variable {token : OffloadKind → Text → Token} {roots : List Text} {before : Option Char}
  {text rest : Text}

theorem markerFrom_append {first : Text} (clean : markerFrom before (first ++ rest) = false) :
    markerFrom (endOf before first) rest = false := by
  induction first generalizing before with
  | nil => exact clean
  | cons char first ih =>
      rw [List.cons_append, markerFrom, Bool.or_eq_false_iff] at clean
      exact ih clean.2

theorem markerAt_eq_false (clean : markerFrom before text = false) (present : text ≠ []) :
    markerAt before text = false := by
  obtain ⟨char, rest, rfl⟩ := List.exists_cons_of_ne_nil present
  rw [markerFrom, Bool.or_eq_false_iff] at clean
  exact clean.1

def Silent {Found : Type} (pattern : Option Char → Text → Option Found) : Prop :=
  ∀ before text, markerFrom before text = false → pattern before text = none

theorem substitute_of_silent {matcher : Matcher Char} (silent : Silent matcher)
    (clean : containsInternalOffloadMarker text = false) : substitute matcher text = text := by
  apply substitute_of_quiet
  apply quietIn_of_forall
  intro first char last split
  apply silent
  rw [List.append_nil]
  rw [containsInternalOffloadMarker, split] at clean
  exact markerFrom_append clean

theorem opening_eq_some {word : Text} (found : opening before word text = some rest) :
    referenceBoundary before = true ∧ text = word ++ rest := by
  rw [opening] at found
  split at found
  · next boundary => exact ⟨boundary, afterPrefix?_eq_some_iff.mp found⟩
  · exact absurd found nofun

theorem markerAt_of_starts {word : Text}
    (marker : word = ".moldy-internal/offload/".toList ∨ word = "/.moldy-offload/".toList ∨
      referenceBoundary before = true ∧
        (word = "/conversation_history/".toList ∨ word = "/large_tool_results/".toList)) :
    markerAt before (word ++ rest) = true := by
  have starts : word.isPrefixOf (word ++ rest) = true :=
    List.isPrefixOf_iff_prefix.mpr (List.prefix_append _ _)
  rw [markerAt]
  rcases marker with rfl | rfl | ⟨boundary, rfl | rfl⟩
  · rw [starts, Bool.true_or, Bool.true_or]
  · rw [starts, Bool.or_true, Bool.true_or]
  · rw [starts, boundary, Bool.true_or, Bool.true_and, Bool.or_true]
  · rw [starts, boundary, Bool.or_true, Bool.true_and, Bool.or_true]

theorem silent_virtualHistory : Silent virtualHistory := by
  intro before text clean
  cases found : virtualHistory before text with
  | none => rfl
  | some last =>
      simp only [virtualHistory, Option.bind_eq_bind, Option.bind_eq_some_iff] at found
      obtain ⟨first, opened, _⟩ := found
      obtain ⟨_, rfl⟩ := opening_eq_some opened
      have marked := @markerAt_of_starts before first _ (Or.inr (Or.inl rfl))
      rw [markerAt_eq_false clean (by simp)] at marked
      exact absurd marked (by decide)

theorem silent_legacyHistory : Silent legacyHistory := by
  intro before text clean
  cases found : legacyHistory before text with
  | none => rfl
  | some last =>
      simp only [legacyHistory, Option.bind_eq_bind, Option.bind_eq_some_iff] at found
      obtain ⟨first, opened, _⟩ := found
      obtain ⟨boundary, rfl⟩ := opening_eq_some opened
      have marked := @markerAt_of_starts before first _ (Or.inr (Or.inr ⟨boundary, Or.inl rfl⟩))
      rw [markerAt_eq_false clean (by simp)] at marked
      exact absurd marked (by decide)

theorem silent_physicalReference (root : Text) (kind : OffloadKind) :
    Silent (physicalReference root kind) := by
  intro before text clean
  cases found : physicalReference root kind before text with
  | none => rfl
  | some last =>
      simp only [physicalReference, Option.bind_eq_bind, Option.bind_eq_some_iff] at found
      obtain ⟨first, opened, _⟩ := found
      obtain ⟨_, rfl⟩ := opening_eq_some opened
      -- Below the root the reference begins with a marker.
      have split : internalRoot root ++ '/' :: (kind.value ++ ['/']) ++ first =
          ((if root = ['/'] then [] else root) ++ ['/']) ++
            (".moldy-internal/offload/".toList ++ (kind.value ++ ['/'] ++ first)) := by
        rw [internalRoot]
        simp only [List.append_assoc, List.cons_append, List.nil_append]
        rfl
      rw [split] at clean
      have below := markerFrom_append clean
      have marked := @markerAt_of_starts
        (endOf before ((if root = ['/'] then [] else root) ++ ['/']))
        (kind.value ++ ['/'] ++ first) _ (Or.inl rfl)
      rw [markerAt_eq_false below (by simp)] at marked
      exact absurd marked (by decide)

theorem pointerPath_opening {found : Text × Text × Text} (path : pointerPath text = some found) :
    ∃ word rest, text = word ++ rest ∧
      (word = "/.moldy-offload/".toList ∨ word = "/large_tool_results/".toList) := by
  simp only [pointerPath, Option.bind_eq_bind, Option.bind_eq_some_iff] at path
  obtain ⟨file, fileEq, _⟩ := path
  cases below : afterPrefix? "/.moldy-offload/".toList text with
  | some rest => exact ⟨_, rest, afterPrefix?_eq_some_iff.mp below, Or.inl rfl⟩
  | none =>
      rw [below] at fileEq
      exact ⟨_, file, afterPrefix?_eq_some_iff.mp fileEq, Or.inr rfl⟩

variable {pointer : ToolPointer}

theorem pointerTail_opening {messageId : Text} (found : pointerTail messageId text = some pointer) :
    ∃ word rest, text = " was saved in the filesystem at this path: ".toList ++ (word ++ rest) ∧
      (word = "/.moldy-offload/".toList ∨ word = "/large_tool_results/".toList) := by
  simp only [pointerTail, Option.bind_eq_bind, Option.bind_eq_some_iff] at found
  obtain ⟨path, phrase, foundPath, pathEq, _⟩ := found
  obtain ⟨word, rest, rfl, marker⟩ := pointerPath_opening pathEq
  exact ⟨word, rest, afterPrefix?_eq_some_iff.mp phrase, marker⟩

theorem pointerMessage_opening {seen : Text} (found : pointerMessage seen text = some pointer) :
    ∃ message word rest,
      text = message ++ (" was saved in the filesystem at this path: ".toList ++ (word ++ rest)) ∧
        (word = "/.moldy-offload/".toList ∨ word = "/large_tool_results/".toList) := by
  induction text generalizing seen with
  | nil => exact absurd found nofun
  | cons char text ih =>
      rw [pointerMessage] at found
      split at found
      · next tail =>
          split at tail
          · exact absurd tail nofun
          · obtain ⟨word, rest, split, marker⟩ := pointerTail_opening tail
            exact ⟨[], word, rest, split, marker⟩
      · split at found
        · exact absurd found nofun
        · obtain ⟨message, word, rest, split, marker⟩ := ih found
          exact ⟨char :: message, word, rest, by rw [split]; rfl, marker⟩

theorem silent_toolPointer : Silent fun _ text => toolPointer text := by
  intro before text clean
  dsimp only
  cases found : toolPointer text with
  | none => rfl
  | some pointer =>
      rw [toolPointer, Option.bind_eq_some_iff] at found
      obtain ⟨message, phrase, messageEq⟩ := found
      obtain ⟨id, word, rest, rfl, marker⟩ := pointerMessage_opening messageEq
      obtain rfl := afterPrefix?_eq_some_iff.mp phrase
      rw [← List.append_assoc, ← List.append_assoc] at clean
      have below := markerFrom_append clean
      have blank : ∀ front : Text,
          endOf before (front ++ " was saved in the filesystem at this path: ".toList) =
            some ' ' := by
        intro front
        rw [endOf_append]
        rfl
      rw [blank] at below
      have marked := @markerAt_of_starts (some ' ') rest word (Or.inr (by
        rcases marker with same | same
        · exact Or.inl same
        · exact Or.inr ⟨by decide, Or.inr same⟩))
      rw [markerAt_eq_false below (by rcases marker with rfl | rfl <;> simp)] at marked
      exact absurd marked (by decide)

variable {kind : OffloadKind}

theorem replaceMatches_of_clean {pattern : Option Char → Text → Option Text}
    (silent : Silent pattern) (clean : containsInternalOffloadMarker text = false) :
    replaceMatches token kind pattern text = text := by
  apply substitute_of_silent _ clean
  intro before text clean
  dsimp only
  rw [silent before text clean]
  rfl

/-- A string without markers is left as it is. -/
theorem projectOffloadString_of_clean {toolCallId : Option Text}
    (clean : containsInternalOffloadMarker text = false) :
    projectOffloadString token roots toolCallId text = text := by
  have pointers : replaceToolPointers token toolCallId text = text := by
    apply substitute_of_silent _ clean
    intro before text clean
    have nothing : toolPointer text = none := silent_toolPointer before text clean
    dsimp only
    rw [nothing]
    rfl
  have physical : replacePhysical token roots text = text := by
    rw [replacePhysical]
    generalize physicalPatterns roots = patterns
    induction patterns with
    | nil => rfl
    | cons pattern patterns ih =>
        rw [List.foldl_cons, replaceMatches_of_clean (silent_physicalReference _ _) clean, ih]
  rw [projectOffloadString, pointers, physical,
    replaceMatches_of_clean silent_virtualHistory clean,
    replaceMatches_of_clean silent_legacyHistory clean]
  exact if_neg (by rw [clean]; exact Bool.false_ne_true)

theorem clean_internalReferenceRedacted :
    containsInternalOffloadMarker internalReferenceRedacted = false := by
  decide

theorem clean_projectOffloadString {toolCallId : Option Text} :
    containsInternalOffloadMarker (projectOffloadString token roots toolCallId text) = false := by
  rw [projectOffloadString]
  split
  · exact clean_internalReferenceRedacted
  · next clean => simpa using clean

def ContainsPhysicalReference (roots : List Text) (text : Text) : Prop :=
  ∃ pattern ∈ physicalPatterns roots, ∃ first rest, text = first ++ rest ∧
    physicalReference pattern.1 pattern.2 (endOf none first) rest ≠ none

theorem not_containsPhysicalReference (clean : containsInternalOffloadMarker text = false) :
    ¬ContainsPhysicalReference roots text := by
  rintro ⟨pattern, _, first, rest, rfl, found⟩
  exact found (silent_physicalReference _ _ _ _ (markerFrom_append clean))

/-- A marker begins with a point or a slash. -/
theorem clean_of_forall (plain : ∀ char ∈ text, char ≠ '.' ∧ char ≠ '/') :
    markerFrom before text = false := by
  induction text generalizing before with
  | nil => rfl
  | cons char text ih =>
      obtain ⟨noPoint, noSlash⟩ := plain char List.mem_cons_self
      have here : markerAt before (char :: text) = false := by
        have point : ∀ rest : Text, List.isPrefixOf ('.' :: rest) (char :: text) = false := by
          intro rest
          rw [List.isPrefixOf_cons_cons, beq_false_of_ne (Ne.symm noPoint), Bool.false_and]
        have slash : ∀ rest : Text, List.isPrefixOf ('/' :: rest) (char :: text) = false := by
          intro rest
          rw [List.isPrefixOf_cons_cons, beq_false_of_ne (Ne.symm noSlash), Bool.false_and]
        change (List.isPrefixOf ('.' :: "moldy-internal/offload/".toList) (char :: text) ||
          List.isPrefixOf ('/' :: ".moldy-offload/".toList) (char :: text) ||
          (_ && (List.isPrefixOf ('/' :: "conversation_history/".toList) (char :: text) ||
            List.isPrefixOf ('/' :: "large_tool_results/".toList) (char :: text)))) = false
        rw [point, slash, slash, slash]
        simp
      rw [markerFrom, here, Bool.false_or]
      exact ih fun other member => plain other (List.mem_cons_of_mem _ member)

theorem not_isHex : isHex '.' = false ∧ isHex '/' = false := by
  decide

theorem isLogicalId_iff :
    isLogicalId kind text = true ↔
      ∃ digits, text = kind.value ++ '_' :: digits ∧ digits.length = 24 ∧
        ∀ char ∈ digits, isHex char = true := by
  rw [isLogicalId, Option.any_eq_true]
  constructor
  · rintro ⟨digits, found, shape⟩
    rw [afterPrefix?_eq_some_iff, List.append_assoc] at found
    rw [Bool.and_eq_true, decide_eq_true_iff, List.all_eq_true] at shape
    exact ⟨digits, found, shape⟩
  · rintro ⟨digits, found, shape⟩
    refine ⟨digits, afterPrefix?_eq_some_iff.mpr (by rw [found, List.append_assoc]; rfl), ?_⟩
    rw [Bool.and_eq_true, decide_eq_true_iff, List.all_eq_true]
    exact shape

theorem isLogicalId_logicalOffloadId (kind : OffloadKind) (reference : Text) :
    isLogicalId kind (logicalOffloadId token kind reference) = true :=
  isLogicalId_iff.mpr ⟨_, rfl, (token kind reference).length, (token kind reference).hex⟩

theorem clean_of_isLogicalId (id : isLogicalId kind text = true) :
    containsInternalOffloadMarker text = false := by
  obtain ⟨digits, rfl, _, hex⟩ := isLogicalId_iff.mp id
  apply clean_of_forall
  intro char member
  rcases List.mem_append.mp member with word | member
  · cases kind
    · simp only [OffloadKind.value, String.reduceToList, List.mem_cons, List.not_mem_nil,
        or_false] at word
      rcases word with rfl | rfl | rfl | rfl | rfl | rfl | rfl <;> decide
    · simp only [OffloadKind.value, String.reduceToList, List.mem_cons, List.not_mem_nil,
        or_false] at word
      rcases word with rfl | rfl | rfl | rfl | rfl <;> decide
  · rcases List.mem_cons.mp member with rfl | member
    · decide
    · have digit := hex char member
      constructor
      · rintro rfl
        rw [not_isHex.1] at digit
        exact absurd digit (by decide)
      · rintro rfl
        rw [not_isHex.2] at digit
        exact absurd digit (by decide)

theorem substitute_eq_or_long {matcher : Matcher Char} {bound : ℕ}
    (replaces : ∀ before text more replacement, matcher before text = some (more, replacement) →
      replacement = text.take (more + 1) ∨ bound ≤ replacement.length) (text : Text) :
    substitute matcher text = text ∨ bound ≤ (substitute matcher text).length := by
  have later : ∀ before skipped,
      substituteFrom matcher before skipped text = text.drop skipped ∨
        bound ≤ (substituteFrom matcher before skipped text).length := by
    induction text with
    | nil => exact fun _ _ => Or.inl (by rw [substituteFrom, List.drop_nil])
    | cons char text ih =>
        intro before skipped
        cases skipped with
        | succ skipped =>
            rw [substituteFrom, List.drop_succ_cons]
            exact ih _ _
        | zero =>
            rw [substituteFrom, List.drop_zero]
            cases found : matcher before (char :: text) with
            | none =>
                dsimp only
                rcases ih (some char) 0 with same | long
                · left
                  rw [same, List.drop_zero]
                · right
                  rw [List.length_cons]
                  omega
            | some match_ =>
                obtain ⟨more, replacement⟩ := match_
                dsimp only
                rcases replaces before (char :: text) more replacement found with same | long
                · rcases ih (some char) more with rest | long
                  · left
                    rw [same, rest, List.take_succ_cons, List.cons_append, List.take_append_drop]
                  · right
                    rw [List.length_append]
                    omega
                · right
                  rw [List.length_append]
                  omega
  have whole := later none 0
  rwa [List.drop_zero] at whole

theorem length_logicalOffloadId (kind : OffloadKind) (reference : Text) :
    30 ≤ (logicalOffloadId token kind reference).length := by
  rw [logicalOffloadId, List.length_append, List.length_cons, (token kind reference).length]
  cases kind <;> decide

theorem replaceMatches_eq_or_long {pattern : Option Char → Text → Option Text} (text : Text) :
    replaceMatches token kind pattern text = text ∨
      30 ≤ (replaceMatches token kind pattern text).length := by
  apply substitute_eq_or_long
  intro before text more replacement found
  obtain ⟨rest, _, same⟩ := Option.map_eq_some_iff.mp found
  rw [← (Prod.mk.inj same).2]
  exact Or.inr (length_logicalOffloadId _ _)

theorem replaceOnce_eq_or_long (old new text : Text) :
    replaceOnce old new text = text ∨ new.length ≤ (replaceOnce old new text).length := by
  induction text with
  | nil => exact Or.inl rfl
  | cons char text ih =>
      rw [replaceOnce]
      split
      · right
        rw [List.length_append]
        omega
      · rcases ih with same | long
        · left
          rw [same]
        · right
          rw [List.length_cons]
          omega

theorem length_of_hexDigits {count : ℕ} (found : hexDigits count text = some rest) :
    rest.length ≤ text.length := by
  rw [hexDigits] at found
  split at found
  · obtain rfl := Option.some.inj found
    rw [List.length_drop]
    omega
  · exact absurd found nofun

theorem length_of_scopeDigests (found : scopeDigests text = some rest) :
    rest.length ≤ text.length := by
  simp only [scopeDigests, Option.bind_eq_bind, Option.bind_eq_some_iff] at found
  obtain ⟨first, firstEq, second, secondEq, third, thirdEq, fourth, fourthEq, last⟩ := found
  have := length_of_hexDigits firstEq
  have := length_of_afterPrefix? secondEq
  have := length_of_hexDigits thirdEq
  have := length_of_afterPrefix? fourthEq
  have := length_of_hexDigits last
  omega

theorem length_of_pointerPath {found : Text × Text × Text} (path : pointerPath text = some found) :
    found.2.2.length ≤ text.length := by
  simp only [pointerPath, Option.bind_eq_bind, Option.bind_eq_some_iff] at path
  obtain ⟨file, fileEq, leafEq⟩ := path
  have fileLength := length_of_afterPrefix? fileEq
  have belowLength : (((afterPrefix? "/.moldy-offload/".toList text).bind scopeDigests).getD
      text).length ≤ text.length := by
    cases below : (afterPrefix? "/.moldy-offload/".toList text).bind scopeDigests with
    | none => exact le_rfl
    | some last =>
        obtain ⟨first, firstEq, lastEq⟩ := Option.bind_eq_some_iff.mp below
        have := length_of_afterPrefix? firstEq
        have := length_of_scopeDigests lastEq
        rw [Option.getD_some]
        omega
  split at leafEq
  · exact absurd leafEq nofun
  · obtain rfl := Option.some.inj leafEq
    rw [List.length_drop]
    omega

theorem length_of_pointerMessage {seen : Text} (found : pointerMessage seen text = some pointer) :
    pointer.rest.length ≤ text.length := by
  induction text generalizing seen with
  | nil => exact absurd found nofun
  | cons char text ih =>
      rw [pointerMessage] at found
      split at found
      · next tail =>
          split at tail
          · exact absurd tail nofun
          · obtain rfl := Option.some.inj found
            simp only [pointerTail, Option.bind_eq_bind, Option.bind_eq_some_iff] at tail
            obtain ⟨phraseRest, phrase, ⟨path, leaf, after⟩, pathEq, last, lastEq, same⟩ := tail
            obtain rfl := Option.some.inj same
            have := length_of_afterPrefix? phrase
            have := length_of_pointerPath pathEq
            have := length_of_afterPrefix? lastEq
            dsimp only at *
            omega
      · split at found
        · exact absurd found nofun
        · have shorter := ih found
          rw [List.length_cons]
          omega

theorem length_of_toolPointer (found : toolPointer text = some pointer) :
    pointer.rest.length < text.length := by
  rw [toolPointer, Option.bind_eq_some_iff] at found
  obtain ⟨message, phrase, messageEq⟩ := found
  have whole := length_of_afterPrefix? phrase
  have := length_of_pointerMessage messageEq
  have words : 0 < "Tool result too large, the result of this tool call ".toList.length := by
    decide
  omega

theorem replaceToolPointers_eq_or_long {toolCallId : Option Text} (text : Text) :
    replaceToolPointers token toolCallId text = text ∨
      30 ≤ (replaceToolPointers token toolCallId text).length := by
  apply substitute_eq_or_long
  intro before text more replacement found
  obtain ⟨pointer, pointerEq, same⟩ := Option.map_eq_some_iff.mp found
  obtain ⟨rfl, rfl⟩ := Prod.mk.inj same
  have shorter := length_of_toolPointer pointerEq
  have whole : text.take ((text.take (text.length - pointer.rest.length)).length - 1 + 1) =
      text.take (text.length - pointer.rest.length) := by
    rw [List.length_take]
    congr 1
    omega
  rw [whole]
  split
  · rcases replaceOnce_eq_or_long pointer.path (logicalOffloadId token .spill pointer.path)
      (text.take (text.length - pointer.rest.length)) with same | long
    · exact Or.inl same
    · exact Or.inr ((length_logicalOffloadId .spill pointer.path).trans long)
  · exact Or.inl rfl

theorem replacePhysical_eq_or_long (text : Text) :
    replacePhysical token roots text = text ∨ 30 ≤ (replacePhysical token roots text).length := by
  rw [replacePhysical]
  suffices either : ∀ start : Text, start = text ∨ 30 ≤ start.length →
      (physicalPatterns roots).foldl (fun text pattern =>
        replaceMatches token pattern.2 (physicalReference pattern.1 pattern.2) text) start = text ∨
      30 ≤ ((physicalPatterns roots).foldl (fun text pattern =>
        replaceMatches token pattern.2 (physicalReference pattern.1 pattern.2) text) start).length
    from either text (Or.inl rfl)
  induction physicalPatterns roots with
  | nil => exact fun _ either => either
  | cons pattern patterns ih =>
      intro start either
      rw [List.foldl_cons]
      apply ih
      rcases replaceMatches_eq_or_long start with same | long
      · rwa [same]
      · exact Or.inr long

/-- A projected string is the string itself, or longer than any name that the projection looks
at. -/
theorem projectOffloadString_eq_or_long (toolCallId : Option Text) (text : Text) :
    projectOffloadString token roots toolCallId text = text ∨
      27 ≤ (projectOffloadString token roots toolCallId text).length := by
  rw [projectOffloadString]
  split
  · right
    decide
  · rcases replaceMatches_eq_or_long (replaceMatches token .history virtualHistory
        (replacePhysical token roots (replaceToolPointers token toolCallId text))) with same | long
    · rw [same]
      rcases replaceMatches_eq_or_long (replacePhysical token roots
        (replaceToolPointers token toolCallId text)) with same | long
      · rw [same]
        rcases replacePhysical_eq_or_long (replaceToolPointers token toolCallId text) with
          same | long
        · rw [same]
          exact (replaceToolPointers_eq_or_long text).imp_right (by omega)
        · exact Or.inr (by omega)
      · exact Or.inr (by omega)
    · exact Or.inr (by omega)

end NaturalMold.OffloadReferences
