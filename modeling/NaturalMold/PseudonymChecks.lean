import NaturalMold.StepRuns
import NaturalMold.PseudonymInvariants
import NaturalMold.GuardedPieces

/-! # Texts checked one after another with one pseudonym map -/

namespace NaturalMold.Guardrails

structure Check where
  text : Text
  findings : List Finding
  deriving DecidableEq

/-- The entities and values that a check replaces by pseudonyms. -/
def pseudonymized (text : Text) (spans : List Span) : List (String × Text) :=
  (spans.filter fun span => span.rule.action = .pseudonymize).map fun span =>
    (span.entity, (text.take span.stop).drop span.start)

def Check.pseudonymized (rules : RuleSet) (stage : Stage) (check : Check) :
    List (String × Text) :=
  match spans check.findings rules stage with
  | .ok spans => Guardrails.pseudonymized check.text spans
  | .error _ => []

namespace Pseudonyms

def pseudonymizer (hmacHex : Text → Text) (context : Text) : Pseudonymizer Pseudonyms :=
  fun entity value rule state =>
    tokenFor hmacHex rule.pseudonymStyle context entity value state

section Checks

variable (hmacHex : Text → Text) (rules : RuleSet) (stage : Stage)

def applyCheck (state : Pseudonyms) (check : Check) : Except SortError (Applied × Pseudonyms) :=
  apply hmacHex (some (pseudonymizer hmacHex check.text)) check.text check.findings rules stage
    state

/-- The map after a check; a check that fails changes nothing. -/
def afterCheck (state : Pseudonyms) (check : Check) : Pseudonyms :=
  match state.applyCheck hmacHex rules stage check with
  | .ok (_, next) => next
  | .error _ => state

def sentBy (state : Pseudonyms) (check : Check) : List (Check × Applied) :=
  match state.applyCheck hmacHex rules stage check with
  | .ok (applied, _) => [(check, applied)]
  | .error _ => []

theorem applyTexts_eq_run (checks : List Check) {state next : Pseudonyms}
    {results : List Applied}
    (succeeded : applyTexts hmacHex (fun text => some (pseudonymizer hmacHex text)) rules stage
      (checks.map fun check => (check.text, check.findings)) state = (.ok results, next)) :
    next = StepRuns.run (afterCheck hmacHex rules stage) state checks ∧
      checks.zip results =
        StepRuns.outputs (afterCheck hmacHex rules stage) (sentBy hmacHex rules stage) state
          checks := by
  induction checks generalizing state next results with
  | nil =>
      obtain ⟨resultsEq, rfl⟩ := Prod.mk.inj succeeded
      obtain rfl := Except.ok.inj resultsEq
      exact ⟨rfl, rfl⟩
  | cons check checks ih =>
      rw [List.map_cons, applyTexts] at succeeded
      cases applied : state.applyCheck hmacHex rules stage check with
      | error error =>
          rw [applyCheck] at applied
          rw [applied] at succeeded
          exact absurd (Prod.mk.inj succeeded).1 nofun
      | ok result =>
          have here : afterCheck hmacHex rules stage state check = result.2 := by
            rw [afterCheck, applied]
          have sent : sentBy hmacHex rules stage state check = [(check, result.1)] := by
            rw [sentBy, applied]
          rw [applyCheck] at applied
          rw [applied] at succeeded
          obtain ⟨tailEq, nextEq⟩ := Prod.mk.inj succeeded
          obtain ⟨later, laterEq, rfl⟩ : ∃ later, (applyTexts hmacHex
              (fun text => some (pseudonymizer hmacHex text)) rules stage
              (checks.map fun check => (check.text, check.findings)) result.2).1 = .ok later ∧
              result.1 :: later = results := by
            revert tailEq
            cases (applyTexts hmacHex (fun text => some (pseudonymizer hmacHex text)) rules stage
              (checks.map fun check => (check.text, check.findings)) result.2).1 with
            | error error => exact nofun
            | ok later => exact fun tailEq => ⟨later, rfl, Except.ok.inj tailEq⟩
          obtain ⟨runEq, outputsEq⟩ := ih (Prod.ext laterEq nextEq)
          constructor
          · rw [StepRuns.run_cons, here]
            exact runEq
          · rw [StepRuns.outputs, sent, here, ← outputsEq]
            rfl

end Checks

section Counts

variable {hmacHex : Text → Text} {rules : RuleSet} {stage : Stage}

theorem count_le_count_tokenFor (style : PseudonymStyle) (context : Text) (entity other : String)
    (value : Text) (state : Pseudonyms) :
    state.count other ≤ (tokenFor hmacHex style context entity value state).2.count other := by
  unfold tokenFor
  split
  case isTrue => exact Nat.le_refl _
  case isFalse =>
  dsimp only
  split
  case h_1 => exact Nat.le_refl _
  case h_2 =>
  refine Nat.le_trans ?_ (count_le_count_remember _ _ other)
  rcases issue_cases state style context entity value with ⟨name, issued, -⟩ | issued
  · rw [issued]
  · rw [issued]
    exact (extends_counting state entity (Nat.le_succ _)).count other

theorem count_le_count_applySpan (context : Text) (span : Span) (value : Text)
    (state : Pseudonyms) (entity : String) :
    state.count entity ≤
      (applySpan hmacHex (some (pseudonymizer hmacHex context)) span value state).2.count
        entity := by
  unfold applySpan
  split
  case h_4 => exact count_le_count_tokenFor _ _ _ _ _ _
  all_goals exact Nat.le_refl _

theorem count_le_count_applyFrom (context text : Text) (cursor : Nat) (spans : List Span)
    (state : Pseudonyms) (entity : String) :
    state.count entity ≤
      (applyFrom hmacHex (some (pseudonymizer hmacHex context)) text cursor spans state).2.count
        entity := by
  induction spans generalizing cursor state with
  | nil => exact Nat.le_refl _
  | cons span rest ih =>
      exact (count_le_count_applySpan context span _ state entity).trans (ih _ _)

theorem count_le_count_afterCheck (state : Pseudonyms) (check : Check) (entity : String) :
    state.count entity ≤ (afterCheck hmacHex rules stage state check).count entity := by
  unfold afterCheck applyCheck apply
  cases spans check.findings rules stage with
  | error => exact Nat.le_refl _
  | ok spans => exact count_le_count_applyFrom _ _ _ _ _ _

theorem count_le_count_run (state : Pseudonyms) (checks : List Check) (entity : String) :
    state.count entity ≤
      (StepRuns.run (afterCheck hmacHex rules stage) state checks).count entity := by
  induction checks generalizing state with
  | nil => exact Nat.le_refl _
  | cons check checks ih => exact (count_le_count_afterCheck state check entity).trans (ih _)

end Counts

section Sent

variable {hmacHex : Text → Text} {pairs : Set (String × Text)}

/-- Only the tokens of the values that are replaced matter. -/
theorem applyFrom_congr {first second : String → Text → Text} {text : Text} {cursor : Nat}
    {spans : List Span}
    (agree : ∀ pair ∈ pseudonymized text spans, first pair.1 pair.2 = second pair.1 pair.2) :
    (applyFrom hmacHex (some (constantly first)) text cursor spans ()).1 =
      (applyFrom hmacHex (some (constantly second)) text cursor spans ()).1 := by
  induction spans generalizing cursor with
  | nil => rfl
  | cons span rest ih =>
      have later : ∀ pair ∈ pseudonymized text rest,
          first pair.1 pair.2 = second pair.1 pair.2 := by
        intro pair member
        refine agree pair ?_
        rw [pseudonymized, List.filter_cons]
        split
        · exact List.mem_cons_of_mem _ member
        · exact member
      have here : (applySpan hmacHex (some (constantly first)) span
            ((text.take span.stop).drop span.start) ()).1 =
          (applySpan hmacHex (some (constantly second)) span
            ((text.take span.stop).drop span.start) ()).1 := by
        unfold applySpan
        cases actionEq : span.rule.action with
        | pseudonymize =>
            refine agree (span.entity, (text.take span.stop).drop span.start) ?_
            simp [pseudonymized, actionEq]
        | _ => rfl
      simp only [applyFrom]
      rw [here]
      exact congrArg _ (ih later)

def SettlesAll (hmacHex : Text → Text) (state : Pseudonyms) (values : List (String × Text)) :
    Prop :=
  ∀ pair ∈ values, state.Settles hmacHex pair.1 pair.2

theorem applySpan_issued {state : Pseudonyms} (sound : state.Sound hmacHex pairs)
    (injective : Set.InjOn (fun pair : String × Text => valueDigest hmacHex pair.1 pair.2) pairs)
    {context : Text} {span : Span} {value : Text}
    (replaced : span.rule.action = .pseudonymize →
      IsEntity span.entity.toList ∧ (span.entity, value) ∈ pairs)
    (bounded : ∀ entity, (applySpan hmacHex (some (pseudonymizer hmacHex context)) span value
      state).2.count entity < 10 ^ 6) :
    (applySpan hmacHex (some (pseudonymizer hmacHex context)) span value state).2.Sound
        hmacHex pairs ∧
      state.Extends
        (applySpan hmacHex (some (pseudonymizer hmacHex context)) span value state).2 ∧
      (span.rule.action = .pseudonymize →
        (applySpan hmacHex (some (pseudonymizer hmacHex context)) span value state).2.Settles
          hmacHex span.entity value) ∧
      ∀ tokenOf : String → Text → Text,
        (span.rule.action = .pseudonymize → tokenOf span.entity value =
          (applySpan hmacHex (some (pseudonymizer hmacHex context)) span value
            state).2.tokenOf hmacHex span.entity value) →
        (applySpan hmacHex (some (pseudonymizer hmacHex context)) span value state).1 =
          (applySpan hmacHex (some (constantly tokenOf)) span value ()).1 := by
  obtain ⟨rows, kept⟩ := sound
  unfold applySpan at bounded ⊢
  cases actionEq : span.rule.action with
  | pseudonymize =>
      rw [actionEq] at bounded
      obtain ⟨isEntity, member⟩ := replaced actionEq
      have issued := kept.issued_tokenFor injective isEntity member span.rule.pseudonymStyle
        context (bounded span.entity)
      refine ⟨issued.sound, issued.extends_, fun _ => issued.settled, ?_⟩
      intro tokenOf same
      exact issued.token_eq.trans (same rfl).symm
  | _ => exact ⟨⟨rows, kept⟩, Extends.refl state, nofun, fun _ _ => rfl⟩

/-- What rewriting a text does to the map, and what it sends. -/
theorem applyFrom_issued {state : Pseudonyms} (sound : state.Sound hmacHex pairs)
    (injective : Set.InjOn (fun pair : String × Text => valueDigest hmacHex pair.1 pair.2) pairs)
    {context text : Text} {cursor : Nat} {spans : List Span}
    (replaced : ∀ pair ∈ pseudonymized text spans, IsEntity pair.1.toList ∧ pair ∈ pairs)
    (bounded : ∀ entity, (applyFrom hmacHex (some (pseudonymizer hmacHex context)) text cursor
      spans state).2.count entity < 10 ^ 6) :
    let result := applyFrom hmacHex (some (pseudonymizer hmacHex context)) text cursor spans state
    result.2.Sound hmacHex pairs ∧ state.Extends result.2 ∧
      SettlesAll hmacHex result.2 (pseudonymized text spans) ∧
      result.1 =
        (applyFrom hmacHex (some (constantly (result.2.tokenOf hmacHex))) text cursor spans ()).1 := by
  induction spans generalizing cursor state with
  | nil => exact ⟨sound, Extends.refl state, fun _ member => absurd member nofun, rfl⟩
  | cons span rest ih =>
      have spanReplaced : span.rule.action = .pseudonymize →
          IsEntity span.entity.toList ∧
            (span.entity, (text.take span.stop).drop span.start) ∈ pairs := by
        intro actionEq
        refine replaced (span.entity, (text.take span.stop).drop span.start) ?_
        simp [pseudonymized, actionEq]
      have restReplaced : ∀ pair ∈ pseudonymized text rest,
          IsEntity pair.1.toList ∧ pair ∈ pairs := by
        intro pair member
        refine replaced pair ?_
        rw [pseudonymized, List.filter_cons]
        split
        · exact List.mem_cons_of_mem _ member
        · exact member
      have spanBounded := fun entity =>
        lt_of_le_of_lt (count_le_count_applyFrom context text span.stop rest _ entity)
          (bounded entity)
      obtain ⟨soundHere, extendsHere, settledHere, sentHere⟩ :=
        applySpan_issued sound injective spanReplaced spanBounded
      obtain ⟨soundLater, extendsLater, settledLater, sentLater⟩ :=
        ih soundHere restReplaced bounded
      refine ⟨soundLater, extendsHere.trans extendsLater, ?_, ?_⟩
      · intro pair member
        rw [pseudonymized, List.filter_cons] at member
        split at member
        case isTrue actionEq =>
          rcases List.mem_cons.mp member with rfl | inRest
          · exact (settledHere (of_decide_eq_true actionEq)).of_extends extendsLater
          · exact settledLater pair inRest
        case isFalse => exact settledLater pair member
      · simp only [applyFrom]
        rw [sentLater]
        refine congrArg (· ++ _) (congrArg _ (sentHere _ ?_))
        intro actionEq
        exact (settledHere actionEq).tokenOf_eq extendsLater

/-- A check was sent with what the map says stands for its values. -/
structure Recorded (hmacHex : Text → Text) (rules : RuleSet) (stage : Stage)
    (state : Pseudonyms) (sent : Check × Applied) (merged : List Span) : Prop where
  spans_eq : spans sent.1.findings rules stage = .ok merged
  decisions_eq : sent.2.decisions = merged.map Span.decision
  settled : SettlesAll hmacHex state (pseudonymized sent.1.text merged)
  text_eq : sent.2.text =
    (applyFrom hmacHex (some (constantly (state.tokenOf hmacHex))) sent.1.text 0 merged ()).1

theorem Recorded.of_extends {rules : RuleSet} {stage : Stage} {state next : Pseudonyms}
    {sent : Check × Applied} {merged : List Span}
    (recorded : Recorded hmacHex rules stage state sent merged) (extends_ : state.Extends next) :
    Recorded hmacHex rules stage next sent merged where
  spans_eq := recorded.spans_eq
  decisions_eq := recorded.decisions_eq
  settled pair member := (recorded.settled pair member).of_extends extends_
  text_eq := by
    rw [recorded.text_eq]
    refine applyFrom_congr ?_
    intro pair member
    exact ((recorded.settled pair member).tokenOf_eq extends_).symm

/-- What a check must meet in a map: its values are among the pairs, tokens can
name their entities, and no counter runs over. -/
def Admits (rules : RuleSet) (stage : Stage) (hmacHex : Text → Text)
    (pairs : Set (String × Text)) (state : Pseudonyms) (check : Check) : Prop :=
  (∀ pair ∈ check.pseudonymized rules stage, IsEntity pair.1.toList ∧ pair ∈ pairs) ∧
    ∀ entity, (afterCheck hmacHex rules stage state check).count entity < 10 ^ 6

theorem everyStep_admits {rules : RuleSet} {stage : Stage} {state : Pseudonyms}
    {checks : List Check}
    (replaced : ∀ check ∈ checks, ∀ pair ∈ check.pseudonymized rules stage,
      IsEntity pair.1.toList ∧ pair ∈ pairs)
    (numbers : ∀ entity,
      (StepRuns.run (afterCheck hmacHex rules stage) state checks).count entity < 10 ^ 6) :
    StepRuns.EveryStep (afterCheck hmacHex rules stage) (Admits rules stage hmacHex pairs) state
      checks := by
  induction checks generalizing state with
  | nil => trivial
  | cons check checks ih =>
      refine ⟨⟨replaced check List.mem_cons_self, ?_⟩, ih ?_ numbers⟩
      · intro entity
        exact lt_of_le_of_lt (count_le_count_run _ checks entity) (numbers entity)
      · exact fun other member => replaced other (List.mem_cons_of_mem _ member)

theorem check_recorded {rules : RuleSet} {stage : Stage} {state : Pseudonyms} {check : Check}
    (injective : Set.InjOn (fun pair : String × Text => valueDigest hmacHex pair.1 pair.2) pairs)
    (admits : Admits rules stage hmacHex pairs state check) (sound : state.Sound hmacHex pairs) :
    (afterCheck hmacHex rules stage state check).Sound hmacHex pairs ∧
      state.Extends (afterCheck hmacHex rules stage state check) ∧
      ∀ sent ∈ sentBy hmacHex rules stage state check, ∃ merged,
        Recorded hmacHex rules stage (afterCheck hmacHex rules stage state check) sent merged := by
  obtain ⟨replaced, bounded⟩ := admits
  unfold Check.pseudonymized at replaced
  unfold afterCheck sentBy applyCheck apply at *
  cases spansEq : spans check.findings rules stage with
  | error error => exact ⟨sound, Extends.refl state, fun _ member => absurd member nofun⟩
  | ok merged =>
      rw [spansEq] at replaced bounded
      obtain ⟨soundNext, extended, settled, sentEq⟩ :=
        applyFrom_issued sound injective replaced bounded
      refine ⟨soundNext, extended, ?_⟩
      intro sent member
      obtain rfl := List.mem_singleton.mp member
      exact ⟨merged, spansEq, rfl, settled, sentEq⟩

/-- The last map of a run says what stood for every value that was sent. -/
theorem run_recorded {rules : RuleSet} {stage : Stage} {state : Pseudonyms} {checks : List Check}
    (injective : Set.InjOn (fun pair : String × Text => valueDigest hmacHex pair.1 pair.2) pairs)
    (sound : state.Sound hmacHex pairs)
    (replaced : ∀ check ∈ checks, ∀ pair ∈ check.pseudonymized rules stage,
      IsEntity pair.1.toList ∧ pair ∈ pairs)
    (numbers : ∀ entity,
      (StepRuns.run (afterCheck hmacHex rules stage) state checks).count entity < 10 ^ 6) :
    let final := StepRuns.run (afterCheck hmacHex rules stage) state checks
    final.Sound hmacHex pairs ∧ state.Extends final ∧
      ∀ sent ∈ StepRuns.outputs (afterCheck hmacHex rules stage) (sentBy hmacHex rules stage)
        state checks, ∃ merged, Recorded hmacHex rules stage final sent merged := by
  have emptyKept : state.Sound hmacHex pairs ∧ state.Extends state ∧
      ∀ sent ∈ ([] : List (Check × Applied)), ∃ merged,
        Recorded hmacHex rules stage state sent merged :=
    ⟨sound, Extends.refl state, fun _ member => absurd member nofun⟩
  have kept := StepRuns.run_output_invariant (sentBy hmacHex rules stage)
    (fun emitted next => next.Sound hmacHex pairs ∧ state.Extends next ∧
      ∀ sent ∈ emitted, ∃ merged, Recorded hmacHex rules stage next sent merged)
    ?_ emptyKept
    (everyStep_admits replaced numbers)
  · simpa using kept
  · rintro emitted next check admits ⟨soundNext, extended, recorded⟩
    obtain ⟨soundAfter, extendedAfter, recordedAfter⟩ := check_recorded injective admits soundNext
    refine ⟨soundAfter, extended.trans extendedAfter, ?_⟩
    intro sent member
    rcases List.mem_append.mp member with old | new
    · obtain ⟨merged, before⟩ := recorded sent old
      exact ⟨merged, before.of_extends extendedAfter⟩
    · exact recordedAfter sent new

end Sent

end Pseudonyms

end NaturalMold.Guardrails
