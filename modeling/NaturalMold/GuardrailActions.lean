import NaturalMold.GuardrailDetection

/-!
# Applying guardrail actions to the spans of a text

Matching findings are merged into spans that do not overlap, each with the strongest action of what
it covers.
-/

namespace NaturalMold.Guardrails

structure Decision where
  rule : String
  entity : String
  action : Action
  start : Nat
  stop : Nat
  deriving DecidableEq

structure Applied where
  text : Text
  decisions : List Decision
  deriving DecidableEq

def Applied.blocked (applied : Applied) : Bool :=
  applied.decisions.any fun decision => decision.action = .block

/-- What a replaced value reads as. -/
def labels : List (String × String) :=
  [("PERSON", "이름"), ("ADDRESS", "주소"), ("PHONE", "전화번호"), ("EMAIL", "이메일"),
    ("RRN", "주민등록번호"), ("FRN", "외국인등록번호"), ("PASSPORT", "여권번호"),
    ("DRIVER_LICENSE", "운전면허번호"), ("CARD", "카드번호"), ("ACCOUNT", "계좌번호"),
    ("MEDICAL_INSURANCE", "건강보험번호"), ("IP", "IP 주소"), ("URL", "URL"),
    ("SECRET", "비밀값"), ("JAILBREAK", "지시 무시·탈옥 시도")]

def genericLabel : String := "개인정보"

def label (entity : String) : String :=
  (labels.lookup entity).getD genericLabel

/-- Code points that Python's `str.isdigit` accepts, as closed ranges. -/
def digitRanges : List (Nat × Nat) :=
  [(0x30, 0x39), (0xb2, 0xb3), (0xb9, 0xb9), (0x660, 0x669), (0x6f0, 0x6f9),
    (0x7c0, 0x7c9), (0x966, 0x96f), (0x9e6, 0x9ef), (0xa66, 0xa6f), (0xae6, 0xaef),
    (0xb66, 0xb6f), (0xbe6, 0xbef), (0xc66, 0xc6f), (0xce6, 0xcef), (0xd66, 0xd6f),
    (0xde6, 0xdef), (0xe50, 0xe59), (0xed0, 0xed9), (0xf20, 0xf29), (0x1040, 0x1049),
    (0x1090, 0x1099), (0x1369, 0x1371), (0x17e0, 0x17e9), (0x1810, 0x1819),
    (0x1946, 0x194f), (0x19d0, 0x19da), (0x1a80, 0x1a89), (0x1a90, 0x1a99),
    (0x1b50, 0x1b59), (0x1bb0, 0x1bb9), (0x1c40, 0x1c49), (0x1c50, 0x1c59),
    (0x2070, 0x2070), (0x2074, 0x2079), (0x2080, 0x2089), (0x2460, 0x2468),
    (0x2474, 0x247c), (0x2488, 0x2490), (0x24ea, 0x24ea), (0x24f5, 0x24fd),
    (0x24ff, 0x24ff), (0x2776, 0x277e), (0x2780, 0x2788), (0x278a, 0x2792),
    (0xa620, 0xa629), (0xa8d0, 0xa8d9), (0xa900, 0xa909), (0xa9d0, 0xa9d9),
    (0xa9f0, 0xa9f9), (0xaa50, 0xaa59), (0xabf0, 0xabf9), (0xff10, 0xff19),
    (0x104a0, 0x104a9), (0x10a40, 0x10a43), (0x10d30, 0x10d39), (0x10e60, 0x10e68),
    (0x11052, 0x1105a), (0x11066, 0x1106f), (0x110f0, 0x110f9), (0x11136, 0x1113f),
    (0x111d0, 0x111d9), (0x112f0, 0x112f9), (0x11450, 0x11459), (0x114d0, 0x114d9),
    (0x11650, 0x11659), (0x116c0, 0x116c9), (0x11730, 0x11739), (0x118e0, 0x118e9),
    (0x11950, 0x11959), (0x11c50, 0x11c59), (0x11d50, 0x11d59), (0x11da0, 0x11da9),
    (0x11f50, 0x11f59), (0x16a60, 0x16a69), (0x16ac0, 0x16ac9), (0x16b50, 0x16b59),
    (0x1d7ce, 0x1d7ff), (0x1e140, 0x1e149), (0x1e2f0, 0x1e2f9), (0x1e4f0, 0x1e4f9),
    (0x1e950, 0x1e959), (0x1f100, 0x1f10a), (0x1fbf0, 0x1fbf9)]

def isDigit (char : Char) : Bool :=
  digitRanges.any fun range => range.1 ≤ char.toNat && char.toNat ≤ range.2

/-- Hide a number of digits from the left, keeping every other character. -/
def hideDigits : Nat → Text → Text
  | _, [] => []
  | 0, text => text
  | hidden + 1, char :: text =>
      if isDigit char then '*' :: hideDigits hidden text
      else char :: hideDigits (hidden + 1) text

/-- Mask a value: an e-mail keeps its first letter and domain, a number its last
four digits and separators, anything else its first character. -/
def mask (value : Text) (entity : String) : Text :=
  if entity = "EMAIL" ∧ '@' ∈ value then
    let localPart := value.takeWhile fun char => char ≠ '@'
    let domain := (value.dropWhile fun char => char ≠ '@').drop 1
    localPart.take 1 ++ List.replicate (max (localPart.length - 1) 1) '*' ++ '@' :: domain
  else if value.countP isDigit > 4 then hideDigits (value.countP isDigit - 4) value
  else value.take 1 ++ List.replicate (max (value.length - 1) 1) '*'

def bracketedLabel (entity : String) : Text :=
  '[' :: (label entity).toList ++ [']']

def keyedMessage (entity : String) (value : Text) : Text :=
  entity.toList ++ Char.ofNat 0 :: value

/-- The token of the `hash` action.  `hmacHex` is the company's keyed digest in
hexadecimal. -/
def hashToken (hmacHex : Text → Text) (value : Text) (entity : String) : Text :=
  '[' :: (label entity).toList ++ ':' :: (hmacHex (keyedMessage entity value)).take 10 ++ [']']

def replacement (hmacHex : Text → Text) (value : Text) (entity : String) : Action → Text
  | .mask => mask value entity
  | .hash => hashToken hmacHex value entity
  | _ => bracketedLabel entity

/-- A stretch of text with the strongest rule of the findings it covers. -/
structure Span where
  start : Nat
  stop : Nat
  entity : String
  rule : Rule
  deriving DecidableEq

namespace Span

def InOrder (first second : Span) : Prop :=
  first.start < second.start ∨
    first.start = second.start ∧
      (first.stop < second.stop ∨ first.stop = second.stop ∧ first.entity ≤ second.entity)

instance : DecidableRel InOrder := fun _ _ =>
  inferInstanceAs (Decidable (_ ∨ _ ∧ (_ ∨ _ ∧ _)))

/-- Python compares two such tuples down to their rules, which have no order. -/
def Clash (first second : Span) : Prop :=
  first.start = second.start ∧ first.stop = second.stop ∧ first.entity = second.entity ∧
    first.rule ≠ second.rule

instance (first second : Span) : Decidable (Clash first second) :=
  inferInstanceAs (Decidable (_ ∧ _ ∧ _ ∧ _))

/-- Extend a span by one that starts inside it; the stronger rule stays. -/
def join (held next : Span) : Span where
  start := held.start
  stop := max held.stop next.stop
  entity := if actionStrength held.rule.action < actionStrength next.rule.action
    then next.entity else held.entity
  rule := if actionStrength held.rule.action < actionStrength next.rule.action
    then next.rule else held.rule

def mergeFrom (held : Span) : List Span → List Span
  | [] => [held]
  | next :: rest =>
      if next.start < held.stop then mergeFrom (held.join next) rest
      else held :: mergeFrom next rest

def mergeSorted : List Span → List Span
  | [] => []
  | span :: rest => mergeFrom span rest

end Span

def matchedSpans (findings : List Finding) (rules : RuleSet) (stage : Stage) : List Span :=
  findings.filterMap fun finding =>
    (rules.ruleFor finding.entity finding.pack stage).map fun rule =>
      ⟨finding.start, finding.stop, finding.entity, rule⟩

/-- Sorting compares two rules only when everything before them is equal. -/
inductive SortError
  | rulesHaveNoOrder
  deriving DecidableEq

def spans (findings : List Finding) (rules : RuleSet) (stage : Stage) :
    Except SortError (List Span) :=
  let matched := matchedSpans findings rules stage
  if matched.any fun first => matched.any fun second => first.Clash second then
    .error .rulesHaveNoOrder
  else .ok (Span.mergeSorted (matched.insertionSort Span.InOrder))

namespace Span

instance : Std.Total InOrder where
  total first second := by
    rcases Nat.lt_trichotomy first.start second.start with less | same | more
    · exact Or.inl (Or.inl less)
    · rcases Nat.lt_trichotomy first.stop second.stop with less | sameStop | more
      · exact Or.inl (Or.inr ⟨same, Or.inl less⟩)
      · rcases le_total first.entity second.entity with before | after
        · exact Or.inl (Or.inr ⟨same, Or.inr ⟨sameStop, before⟩⟩)
        · exact Or.inr (Or.inr ⟨same.symm, Or.inr ⟨sameStop.symm, after⟩⟩)
      · exact Or.inr (Or.inr ⟨same.symm, Or.inl more⟩)
    · exact Or.inr (Or.inl more)

instance : IsTrans Span InOrder where
  trans first second third := by
    rintro (less | ⟨same, less | ⟨sameStop, before⟩⟩)
      (less' | ⟨same', less' | ⟨sameStop', before'⟩⟩)
    · exact Or.inl (less.trans less')
    · exact Or.inl (same' ▸ less)
    · exact Or.inl (same' ▸ less)
    · exact Or.inl (same ▸ less')
    · exact Or.inr ⟨same.trans same', Or.inl (less.trans less')⟩
    · exact Or.inr ⟨same.trans same', Or.inl (sameStop' ▸ less)⟩
    · exact Or.inl (same ▸ less')
    · exact Or.inr ⟨same.trans same', Or.inl (sameStop ▸ less')⟩
    · exact Or.inr ⟨same.trans same', Or.inr ⟨sameStop.trans sameStop', before.trans before'⟩⟩

theorem InOrder.start_le {first second : Span} (inOrder : InOrder first second) :
    first.start ≤ second.start := by
  rcases inOrder with less | ⟨same, -⟩
  · exact less.le
  · exact same.le

def Following : Nat → List Span → Prop
  | _, [] => True
  | cursor, span :: rest =>
      cursor ≤ span.start ∧ span.start ≤ span.stop ∧ Following span.stop rest

theorem following_mergeFrom {cursor : Nat} {held : Span} {rest : List Span}
    (here : cursor ≤ held.start) (forward : ∀ span ∈ held :: rest, span.start ≤ span.stop)
    (sorted : (held :: rest).Pairwise fun first second => first.start ≤ second.start) :
    Following cursor (mergeFrom held rest) := by
  induction rest generalizing cursor held with
  | nil => exact ⟨here, forward held List.mem_cons_self, trivial⟩
  | cons next rest ih =>
      obtain ⟨first, later⟩ := List.pairwise_cons.mp sorted
      have heldForward := forward held List.mem_cons_self
      have nextForward := forward next (List.mem_cons_of_mem _ List.mem_cons_self)
      rw [mergeFrom]
      split
      case isTrue =>
        refine ih here ?_ ?_
        · intro span member
          rcases List.mem_cons.mp member with rfl | inRest
          · exact heldForward.trans (Nat.le_max_left _ _)
          · exact forward span (List.mem_cons_of_mem _ (List.mem_cons_of_mem _ inRest))
        · refine List.pairwise_cons.mpr ⟨?_, (List.pairwise_cons.mp later).2⟩
          exact fun span member => first span (List.mem_cons_of_mem _ member)
      case isFalse apart =>
        refine ⟨here, heldForward, ih (Nat.le_of_not_lt apart) ?_ later⟩
        exact fun span member => forward span (List.mem_cons_of_mem _ member)

theorem following_mergeSorted {matched : List Span}
    (forward : ∀ span ∈ matched, span.start ≤ span.stop) :
    Following 0 (mergeSorted (matched.insertionSort InOrder)) := by
  have sorted := (List.pairwise_insertionSort InOrder matched).imp InOrder.start_le
  have still : ∀ span ∈ matched.insertionSort InOrder, span.start ≤ span.stop := by
    intro span member
    exact forward span ((List.mem_insertionSort InOrder).mp member)
  cases sortedEq : matched.insertionSort InOrder with
  | nil => trivial
  | cons span rest =>
      rw [sortedEq] at sorted still
      exact following_mergeFrom (Nat.zero_le _) still sorted

end Span

theorem following_spans {findings : List Finding} {rules : RuleSet} {stage : Stage}
    {merged : List Span} (succeeded : spans findings rules stage = .ok merged)
    (forward : ∀ finding ∈ findings, finding.start ≤ finding.stop) :
    Span.Following 0 merged := by
  simp only [spans] at succeeded
  split at succeeded
  case isTrue => exact absurd succeeded nofun
  case isFalse =>
  obtain rfl := Except.ok.inj succeeded
  refine Span.following_mergeSorted ?_
  intro span member
  obtain ⟨finding, findingMem, spanEq⟩ := List.mem_filterMap.mp member
  obtain ⟨rule, -, rfl⟩ := Option.map_eq_some_iff.mp spanEq
  exact forward finding findingMem

section Apply

variable {State : Type*}

/-- How a pseudonym for an entity's value is found; the state is what the
conversation remembers. -/
abbrev Pseudonymizer (State : Type*) := String → Text → Rule → State → Text × State

/-- What a span's value becomes.  Without a pseudonymizer a `pseudonymize` rule
redacts, because nothing could restore the value. -/
def applySpan (hmacHex : Text → Text) (pseudonym : Option (Pseudonymizer State))
    (span : Span) (value : Text) (state : State) : Text × State :=
  match span.rule.action with
  | .warn | .block | .approval => (value, state)
  | .pseudonymize =>
      match pseudonym with
      | some pseudonym => pseudonym span.entity value span.rule state
      | none => (bracketedLabel span.entity, state)
  | action => (replacement hmacHex value span.entity action, state)

def applyFrom (hmacHex : Text → Text) (pseudonym : Option (Pseudonymizer State))
    (text : Text) : Nat → List Span → State → Text × State
  | cursor, [], state => (text.drop cursor, state)
  | cursor, span :: rest, state =>
      let value := (text.take span.stop).drop span.start
      let piece := applySpan hmacHex pseudonym span value state
      let tail := applyFrom hmacHex pseudonym text span.stop rest piece.2
      ((text.take span.start).drop cursor ++ piece.1 ++ tail.1, tail.2)

def Span.decision (span : Span) : Decision :=
  ⟨span.rule.id, span.entity, span.rule.action, span.start, span.stop⟩

def apply (hmacHex : Text → Text) (pseudonym : Option (Pseudonymizer State)) (text : Text)
    (findings : List Finding) (rules : RuleSet) (stage : Stage) (state : State) :
    Except SortError (Applied × State) :=
  (spans findings rules stage).map fun spans =>
    let result := applyFrom hmacHex pseudonym text 0 spans state
    (⟨result.1, spans.map Span.decision⟩, result.2)

/-- Apply the findings of several texts one after another; what the pseudonymizer
learned before a failing text stays. -/
def applyTexts (hmacHex : Text → Text) (pseudonym : Text → Option (Pseudonymizer State))
    (rules : RuleSet) (stage : Stage) :
    List (Text × List Finding) → State → Except SortError (List Applied) × State
  | [], state => (.ok [], state)
  | (text, findings) :: rest, state =>
      match apply hmacHex (pseudonym text) text findings rules stage state with
      | .error error => (.error error, state)
      | .ok (applied, next) =>
          let tail := applyTexts hmacHex pseudonym rules stage rest next
          (tail.1.map fun results => applied :: results, tail.2)

end Apply

end NaturalMold.Guardrails
