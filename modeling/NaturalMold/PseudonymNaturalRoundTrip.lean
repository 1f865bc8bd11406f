import NaturalMold.PseudonymTagRoundTrip

/-! # Made-up names are swapped back where they stand apart -/

namespace NaturalMold.Guardrails

open TextSubstitution (QuietIn wordMatcher substitute_of_quiet)

namespace Piece

/-- What a piece shows once some made-up names have been replaced. -/
def shownAfter (done : List Text) : Piece → Text
  | kept text => text
  | changed _ shown => shown
  | stoodIn value token => if done.contains token then value else token

def namePart (done : List Text) (name value : Text) (piece : Piece) : TextSubstitution.Part Char :=
  match piece with
  | stoodIn _ token =>
      if token = name then ⟨token, some value⟩ else ⟨piece.shownAfter done, none⟩
  | _ => ⟨piece.shownAfter done, none⟩

def NamesApart (pieces : List Piece) : List Text → List (Text × Text) → Prop
  | _, [] => True
  | done, (name, value) :: names =>
      TextSubstitution.Part.Located (wordMatcher name value) none (pieces.map (namePart done name value)) ∧
        (name.length = 3 ∧ value.length = 3 →
          QuietIn (givenNameMatcher (name.drop 1) (value.drop 1)) none
            (pieces.flatMap (shownAfter (name :: done))) []) ∧
        NamesApart pieces (name :: done) names

instance decidableNamesApart (pieces : List Piece) :
    ∀ done names, Decidable (NamesApart pieces done names)
  | _, [] => inferInstanceAs (Decidable True)
  | done, (name, _) :: names =>
      have := decidableNamesApart pieces (name :: done) names
      inferInstanceAs (Decidable (_ ∧ (_ → QuietIn _ _ _ _) ∧ _))

theorem flatMap_shownAfter_nil (pieces : List Piece) :
    pieces.flatMap (shownAfter []) = pieces.flatMap sent := by
  refine List.flatMap_congr ?_
  rintro (text | ⟨value, shown⟩ | ⟨value, token⟩) - <;> simp [shownAfter, sent]

theorem text_namePart {done : List Text} {name : Text} (value : Text) (fresh : name ∉ done)
    (pieces : List Piece) :
    TextSubstitution.Part.text (pieces.map (namePart done name value)) = pieces.flatMap
    (shownAfter done) := by
  rw [TextSubstitution.Part.text, List.flatMap_map]
  refine List.flatMap_congr ?_
  rintro (text | ⟨old, shown⟩ | ⟨old, token⟩) -
  · rfl
  · rfl
  · by_cases same : token = name
    · subst same
      simp [namePart, shownAfter, fresh]
    · simp [namePart, same]

theorem result_namePart {done : List Text} {name value : Text} {pieces : List Piece}
    (faithful : ∀ old, stoodIn old name ∈ pieces → old = value) :
    TextSubstitution.Part.result (pieces.map (namePart done name value)) =
      pieces.flatMap (shownAfter (name :: done)) := by
  rw [TextSubstitution.Part.result, List.flatMap_map]
  refine List.flatMap_congr ?_
  rintro (text | ⟨old, shown⟩ | ⟨old, token⟩) member
  · rfl
  · rfl
  · by_cases same : token = name
    · subst same
      simp [namePart, TextSubstitution.Part.replaced, shownAfter, faithful old member]
    · simp [namePart, TextSubstitution.Part.replaced, shownAfter, same]

end Piece

namespace Pseudonyms

variable {hmacHex : Text → Text} {rules : RuleSet} {stage : Stage}

/-- Restoring one name after another turns every name that was put in back. -/
theorem foldl_restoreName (state : Pseudonyms) {pieces : List Piece} {done : List Text}
    {names : List (Text × Text)} (apart : Piece.NamesApart pieces done names)
    (nonempty : ∀ entry ∈ names, entry.1 ≠ [])
    (distinct : (done.reverse ++ names.map Prod.fst).Nodup)
    (faithful : ∀ entry ∈ names, ∀ old, Piece.stoodIn old entry.1 ∈ pieces → old = entry.2) :
    names.foldl (state.restoreName fun _ => false) (pieces.flatMap (Piece.shownAfter done)) =
      pieces.flatMap (Piece.shownAfter ((names.map Prod.fst).reverse ++ done)) := by
  induction names generalizing done with
  | nil => rfl
  | cons entry names ih =>
      obtain ⟨name, value⟩ := entry
      obtain ⟨located, given, later⟩ := apart
      have fresh : name ∉ done := by
        intro member
        rw [List.map_cons] at distinct
        exact List.disjoint_of_nodup_append distinct (List.mem_reverse.mpr member)
          List.mem_cons_self
      have replaced : PythonText.replace name value (pieces.flatMap (Piece.shownAfter done)) =
          pieces.flatMap (Piece.shownAfter (name :: done)) := by
        rw [PythonText.replace, if_neg (nonempty _ List.mem_cons_self),
          ← Piece.text_namePart value fresh, TextSubstitution.Part.substitute_text located,
          Piece.result_namePart (faithful _ List.mem_cons_self)]
      have step : state.restoreName (fun _ => false) (pieces.flatMap (Piece.shownAfter done))
          (name, value) = pieces.flatMap (Piece.shownAfter (name :: done)) := by
        rw [restoreName, keeps_none, if_neg (by decide), replaced]
        split
        case isTrue lengths => exact substitute_of_quiet (given lengths)
        case isFalse => rfl
      rw [List.foldl_cons, step,
        ih later (fun other member => nonempty other (List.mem_cons_of_mem _ member))
          (by simpa using distinct)
          (fun other member => faithful other (List.mem_cons_of_mem _ member))]
      simp

section RoundTrip

variable {pairs : Set (String × Text)} {state : Pseudonyms} {sent : Check × Applied}
  {merged : List Span}

def NamesApart (state : Pseudonyms) (pieces : List Piece) : Prop :=
  Piece.NamesApart pieces [] state.namesInOrder

instance (state : Pseudonyms) (pieces : List Piece) : Decidable (state.NamesApart pieces) :=
  inferInstanceAs (Decidable (Piece.NamesApart _ _ _))

theorem natural_name (sound : state.Sound hmacHex pairs) {entry : Text × Text}
    (member : entry ∈ state.natural.entries) :
    IsName entry.1 ∧ state.byToken.get? entry.1 = some entry.2 := by
  obtain ⟨rows, kept⟩ := sound
  obtain ⟨row, rowMem, tokenEq, valueEq, notToken⟩ :=
    (kept.natural entry.1 entry.2).mp (OrderedDict.get?_eq_some_iff.mpr member)
  refine ⟨?_, (kept.byToken _ _).mpr ⟨row, rowMem, tokenEq, valueEq⟩⟩
  rcases (kept.stored row rowMem).2 with ⟨isEntity, number, positive, small, isToken⟩ | isNamed
  · rw [← tokenEq, isToken, fullToken_token isEntity positive small] at notToken
    exact absurd notToken nofun
  · rw [← tokenEq]
    exact isNamed.2.1

theorem Settles.byToken {entity : String} {value : Text}
    (settled : state.Settles hmacHex entity value) (notName : value ∉ state.natural.keys) :
    state.byToken.get? (state.tokenOf hmacHex entity value) = some value := by
  obtain ⟨token, byDigest, byToken⟩ := settled.resolve_left notName
  rw [tokenOf, if_neg notName, byDigest]
  exact byToken

/-- A piece once all made-up names have been replaced. -/
def settle (state : Pseudonyms) : Piece → Piece
  | .stoodIn value token =>
      if token ∈ state.natural.keys then .kept value else .stoodIn value token
  | piece => piece

theorem flatMap_settle (state : Pseudonyms) (pieces : List Piece) :
    (pieces.map state.settle).flatMap Piece.original = pieces.flatMap Piece.original ∧
      (pieces.map state.settle).flatMap Piece.sent =
        pieces.flatMap (Piece.shownAfter state.natural.keys) ∧
      (pieces.map state.settle).flatMap Piece.restored = pieces.flatMap Piece.restored := by
  simp only [List.flatMap_map]
  refine ⟨List.flatMap_congr ?_, List.flatMap_congr ?_, List.flatMap_congr ?_⟩
  all_goals
    rintro (text | ⟨old, shown⟩ | ⟨old, token⟩) -
    · rfl
    · rfl
    · by_cases isName : token ∈ state.natural.keys <;>
        simp [settle, isName, Piece.original, Piece.sent, Piece.restored, Piece.shownAfter]

theorem mem_namesInOrder {entry : Text × Text} :
    entry ∈ state.namesInOrder ↔ entry ∈ state.natural.entries :=
  List.mem_insertionSort _

theorem nodup_namesInOrder (state : Pseudonyms) : (state.namesInOrder.map Prod.fst).Nodup :=
  ((List.perm_insertionSort _ state.natural.entries).map Prod.fst).nodup_iff.mpr
    state.natural.nodup

/-- The first half of restoring turns the made-up names of a sent text back. -/
theorem Recorded.restoreNatural_of_namesApart
    (recorded : Recorded hmacHex rules stage state sent merged) (sound : state.Sound hmacHex pairs)
    (notNames : ∀ pair ∈ pseudonymized sent.1.text merged, pair.2 ∉ state.natural.keys)
    (apart : state.NamesApart (piecesOf hmacHex state sent.1.text merged)) :
    state.restoreNatural (fun _ => false) sent.2.text =
      (piecesOf hmacHex state sent.1.text merged).flatMap
        (Piece.shownAfter state.natural.keys) := by
  have nonempty : ∀ entry ∈ state.namesInOrder, entry.1 ≠ [] := by
    intro entry member empty
    have long := (natural_name sound (mem_namesInOrder.mp member)).1.1
    rw [empty] at long
    exact absurd long (by decide)
  have faithful : ∀ entry ∈ state.namesInOrder, ∀ old,
      Piece.stoodIn old entry.1 ∈ piecesOf hmacHex state sent.1.text merged → old = entry.2 := by
    intro entry member old inPieces
    obtain ⟨entity, inText, tokenEq⟩ := pseudonymized_of_mem_ofSpans inPieces
    have byToken := (recorded.settled _ inText).byToken (notNames _ inText)
    rw [← tokenEq, (natural_name sound (mem_namesInOrder.mp member)).2] at byToken
    exact (Option.some.inj byToken).symm
  have sameKeys : ∀ token, token ∈ (state.namesInOrder.map Prod.fst).reverse ++ [] ↔
      token ∈ state.natural.keys := by
    intro token
    rw [List.append_nil, List.mem_reverse, List.mem_map, OrderedDict.keys, List.mem_map]
    simp only [mem_namesInOrder]
  rw [restoreNatural, recorded.sent_eq, ← Piece.flatMap_shownAfter_nil,
    foldl_restoreName state apart nonempty (by simpa using state.nodup_namesInOrder) faithful]
  refine List.flatMap_congr ?_
  rintro (text | ⟨old, shown⟩ | ⟨old, token⟩) -
  · rfl
  · rfl
  · by_cases isName : token ∈ state.natural.keys
    · simp only [Piece.shownAfter, List.contains_iff_mem, if_pos ((sameKeys token).mpr isName),
        if_pos isName]
    · simp only [Piece.shownAfter, List.contains_iff_mem, if_neg (mt (sameKeys token).mp isName),
        if_neg isName]

theorem Recorded.restoreAll_of_namesApart
    (recorded : Recorded hmacHex rules stage state sent merged) (sound : state.Sound hmacHex pairs)
    (hex : Piece.IsHexDigest hmacHex)
    (forward : ∀ finding ∈ sent.1.findings, finding.start ≤ finding.stop)
    (tokenFree : TokenFree sent.1.text)
    (notNames : ∀ pair ∈ pseudonymized sent.1.text merged, pair.2 ∉ state.natural.keys)
    (apart : state.NamesApart (piecesOf hmacHex state sent.1.text merged)) :
    state.restoreAll sent.2.text =
      (applyFrom hmacHex (some (constantly fun _ value => value)) sent.1.text 0 merged ()).1 := by
  obtain ⟨originalEq, sentEq, restoredEq⟩ :=
    flatMap_settle state (piecesOf hmacHex state sent.1.text merged)
  have walled : Piece.Walled ((piecesOf hmacHex state sent.1.text merged).map state.settle) := by
    intro value shown member
    obtain ⟨piece, inPieces, settled⟩ := List.mem_map.mp member
    cases piece with
    | kept text => exact absurd settled nofun
    | changed old text =>
        obtain ⟨rfl, rfl⟩ := Piece.changed.inj settled
        exact Piece.walled_ofSpans hex _ _ _ _ _ _ inPieces
    | stoodIn old token =>
        rw [settle] at settled
        split at settled
        · exact absurd settled nofun
        · exact absurd settled nofun
  have swapped : Piece.Swapped (state.swap fun _ => false)
      ((piecesOf hmacHex state sent.1.text merged).map state.settle) := by
    intro value token member
    obtain ⟨piece, inPieces, settled⟩ := List.mem_map.mp member
    cases piece with
    | kept text => exact absurd settled nofun
    | changed old text => exact absurd settled nofun
    | stoodIn old shown =>
        rw [settle] at settled
        split at settled
        case isTrue => exact absurd settled nofun
        case isFalse notName =>
        obtain ⟨rfl, rfl⟩ := Piece.stoodIn.inj settled
        obtain ⟨entity, inText, rfl⟩ := pseudonymized_of_mem_ofSpans inPieces
        have byToken := (recorded.settled _ inText).byToken (notNames _ inText)
        exact ⟨isToken_of_byToken sound byToken notName, swap_of_byToken byToken⟩
  have free : TokenFree
      (((piecesOf hmacHex state sent.1.text merged).map state.settle).flatMap Piece.original) := by
    rw [originalEq, piecesOf,
      Piece.flatMap_original_ofSpans _ _ _ (following_spans recorded.spans_eq forward)]
    exact tokenFree
  calc
    state.restoreAll sent.2.text
        = substituteTokens (state.swap fun _ => false)
            ((piecesOf hmacHex state sent.1.text merged).flatMap
              (Piece.shownAfter state.natural.keys)) := by
      rw [restoreAll_eq, recorded.restoreNatural_of_namesApart sound notNames apart]
    _ = (piecesOf hmacHex state sent.1.text merged).flatMap Piece.restored := by
      rw [← sentEq, ← restoredEq]
      exact Piece.substituteTokens_sent walled swapped free
    _ = _ := Piece.flatMap_restored_ofSpans _ _ _ _

end RoundTrip

/-- A value is sent in clear just when it is itself a made-up name of the map. -/
theorem tokenOf_eq_iff {pairs : Set (String × Text)} {state : Pseudonyms}
    (sound : state.Sound hmacHex pairs) {entity : String} {value : Text}
    (settled : state.Settles hmacHex entity value) (free : TokenFree value) :
    state.tokenOf hmacHex entity value = value ↔ value ∈ state.natural.keys := by
  constructor
  · intro same
    by_contra notName
    have byToken := settled.byToken notName
    rw [same] at byToken
    obtain ⟨⟨entity, digits⟩, found⟩ :=
      Option.isSome_iff_exists.mp (isToken_of_byToken sound byToken notName)
    obtain ⟨isEntity, isNumber, rfl⟩ := fullToken_eq_some_iff.mp found
    have here := findToken_eq_some_iff.mpr ⟨isEntity, isNumber, List.prefix_rfl⟩
    exact absurd ((free [] _ rfl).symm.trans here) nofun
  · intro isName
    rw [tokenOf, if_pos isName]

theorem tokenFree_of_pseudonymized {text : Text} (free : TokenFree text) {merged : List Span}
    {pair : String × Text} (member : pair ∈ pseudonymized text merged) : TokenFree pair.2 := by
  obtain ⟨span, -, rfl⟩ := List.mem_map.mp member
  exact free.slice _ _

theorem changed_notMem_ofSpans {tokenOf : String → Text → Text} {text value shown : Text}
    {cursor : Nat} {merged : List Span}
    (only : ∀ span ∈ merged, span.rule.action = .pseudonymize) :
    Piece.changed value shown ∉ Piece.ofSpans hmacHex tokenOf text cursor merged := by
  induction merged generalizing cursor with
  | nil => simp [Piece.ofSpans]
  | cons span rest ih =>
      have later := @ih span.stop fun other member => only other (List.mem_cons_of_mem _ member)
      simp [Piece.ofSpans, Piece.ofSpan, only span List.mem_cons_self, later]

/-- Where only pseudonyms were put in, the pieces of a text go back to the text. -/
theorem restored_of_pseudonymize (text : Text) {cursor : Nat} {merged : List Span}
    (following : Span.Following cursor merged)
    (only : ∀ span ∈ merged, span.rule.action = .pseudonymize) :
    (applyFrom hmacHex (some (constantly fun _ value => value)) text cursor merged ()).1 =
      text.drop cursor := by
  rw [← Piece.flatMap_restored_ofSpans fun _ value => value,
    ← Piece.flatMap_original_ofSpans hmacHex (fun _ value => value) text following]
  refine List.flatMap_congr ?_
  rintro (text | ⟨old, shown⟩ | ⟨old, token⟩) member
  · rfl
  · exact absurd member (changed_notMem_ofSpans only)
  · rfl

/-- Made-up names over a whole conversation.  A found value is sent in clear just
when it is itself a made-up name that was issued.  A text none of whose found
values is one, and in which every issued name stands apart, comes back but for
the changes of the other actions. -/
theorem names_restored (hmacHex : Text → Text) (rules : RuleSet) (stage : Stage)
    (rows : List PseudonymRow) (checks : List Check) (hex : Piece.IsHexDigest hmacHex)
    (injective : Set.InjOn (fun pair : String × Text => valueDigest hmacHex pair.1 pair.2)
      (pairsOf rules stage rows checks))
    (stored : ∀ row ∈ rows, row.Stored hmacHex) (distinct : (rows.map PseudonymRow.token).Nodup)
    (forward : ∀ check ∈ checks, ∀ finding ∈ check.findings, finding.start ≤ finding.stop)
    (entities : ∀ check ∈ checks, ∀ pair ∈ check.pseudonymized rules stage,
      IsEntity pair.1.toList)
    (tokenFree : ∀ check ∈ checks, TokenFree check.text) :
    let final := StepRuns.run (afterCheck hmacHex rules stage) (load rows) checks
    (∀ entity, final.count entity < 10 ^ 6) →
    ∀ sent ∈ StepRuns.outputs (afterCheck hmacHex rules stage) (sentBy hmacHex rules stage)
        (load rows) checks,
      ∀ merged, spans sent.1.findings rules stage = .ok merged →
        apply hmacHex (some (constantly (final.tokenOf hmacHex))) sent.1.text sent.1.findings
            rules stage () = .ok (sent.2, ()) ∧
          (∀ pair ∈ pseudonymized sent.1.text merged,
            final.tokenOf hmacHex pair.1 pair.2 = pair.2 ↔ pair.2 ∈ final.natural.keys) ∧
          ((∀ pair ∈ pseudonymized sent.1.text merged, pair.2 ∉ final.natural.keys) →
            final.NamesApart
              (Piece.ofSpans hmacHex (final.tokenOf hmacHex) sent.1.text 0 merged) →
            apply hmacHex (some (constantly fun _ value => value)) sent.1.text sent.1.findings
                rules stage () = .ok (⟨final.restoreAll sent.2.text, sent.2.decisions⟩, ()) ∧
              ((∀ span ∈ merged, span.rule.action = .pseudonymize) →
                final.restoreAll sent.2.text = sent.1.text)) := by
  intro final numbers sent wasSent merged spansEq
  have replaced : ∀ check ∈ checks, ∀ pair ∈ check.pseudonymized rules stage,
      IsEntity pair.1.toList ∧ pair ∈ pairsOf rules stage rows checks := fun check member pair inCheck =>
    ⟨entities check member pair inCheck, Or.inr ⟨check, member, inCheck⟩⟩
  obtain ⟨sound, -, recorded⟩ :=
    run_recorded injective (sound_load stored distinct checks) replaced numbers
  obtain ⟨others, record⟩ := recorded sent wasSent
  obtain rfl := Except.ok.inj (record.spans_eq.symm.trans spansEq)
  have member := check_mem_of_sent wasSent
  have following := following_spans record.spans_eq (forward _ member)
  refine ⟨?_, ?_, ?_⟩
  · simp only [apply, record.spans_eq, Except.map]
    rw [← record.text_eq, ← record.decisions_eq]
  · intro pair inText
    exact tokenOf_eq_iff sound (record.settled pair inText)
      (tokenFree_of_pseudonymized (tokenFree _ member) inText)
  · intro notNames apart
    have restored := record.restoreAll_of_namesApart sound hex (forward _ member)
      (tokenFree _ member) notNames apart
    constructor
    · simp only [apply, record.spans_eq, Except.map]
      rw [← record.decisions_eq, restored]
    · intro only
      rw [restored]
      exact restored_of_pseudonymize sent.1.text following only

def naturalPerson : Rule where
  id := "people"
  packs := ["kr"]
  stages := {.llmSend}
  action := .pseudonymize
  entities := some {"PERSON"}
  pseudonymStyle := .natural

/-- People are replaced by made-up names before a text is sent to the model. -/
def naturalPeople : RuleSet where
  template := "people"
  version := 1
  rules := [naturalPerson]

def colleague : Check where
  text := "김민수 과장과 이수, Kim".toList
  findings := [personAt 0 3, personAt 8 10, personAt 12 15]

def colleaguePairs : List (String × Text) :=
  [("PERSON", "김민수".toList), ("PERSON", "이수".toList), ("PERSON", "Kim".toList)]

theorem pseudonymized_colleague :
    colleague.pseudonymized naturalPeople .llmSend = colleaguePairs := by
  decide

def colleagueSpans : List Span :=
  colleague.findings.map fun finding =>
    ⟨finding.start, finding.stop, finding.entity, naturalPerson⟩

theorem names_restored_colleague :
    (StepRuns.run (afterCheck spelledDigest naturalPeople .llmSend) (load [])
      [colleague]).restoreAll "김준호 과장과 김호, <<PERSON_1>>".toList = colleague.text := by
  have injective : Set.InjOn
      (fun pair : String × Text => valueDigest spelledDigest pair.1 pair.2)
      (pairsOf naturalPeople .llmSend [] [colleague]) := by
    have listed : ∀ pair ∈ pairsOf naturalPeople .llmSend [] [colleague],
        pair ∈ colleaguePairs := by
      rintro pair (⟨row, member, -⟩ | ⟨check, member, inCheck⟩)
      · exact absurd member nofun
      · rwa [List.mem_singleton.mp member, pseudonymized_colleague] at inCheck
    intro first firstMem second secondMem
    exact (by decide : ∀ first ∈ colleaguePairs, ∀ second ∈ colleaguePairs,
      valueDigest spelledDigest first.1 first.2 = valueDigest spelledDigest second.1 second.2 →
        first = second) first (listed first firstMem) second (listed second secondMem)
  have counters : (StepRuns.run (afterCheck spelledDigest naturalPeople .llmSend) (load [])
      [colleague]).counters.entries = [("PERSON", 1)] := by
    decide
  have wasSent : (colleague, ⟨"김준호 과장과 김호, <<PERSON_1>>".toList,
        colleagueSpans.map Span.decision⟩) ∈
      StepRuns.outputs (afterCheck spelledDigest naturalPeople .llmSend)
        (sentBy spelledDigest naturalPeople .llmSend) (load []) [colleague] := by
    decide +kernel
  obtain ⟨-, -, restored⟩ := names_restored spelledDigest naturalPeople .llmSend [] [colleague]
    isHexDigest_spelledDigest injective (fun _ member => absurd member nofun) List.nodup_nil
    (by decide)
    (by
      intro check member
      rw [List.mem_singleton.mp member, pseudonymized_colleague]
      decide)
    (by decide)
    (by
      intro entity
      rw [count, OrderedDict.get?, counters]
      simp only [OrderedDict.lookupEntry]
      split <;> decide)
    _ wasSent colleagueSpans (by decide)
  exact (restored (by decide) (by decide)).2 (by decide)

/-- A later message names a person whose real name is the made-up one. -/
def namesakeVisits : Check where
  text := "김준호 부장".toList
  findings := [personAt 0 3]

def colleagueVisits : Check where
  text := "김민수 과장".toList
  findings := [personAt 0 3]

theorem names_not_restored_namesake :
    TokenFree colleagueVisits.text ∧ TokenFree namesakeVisits.text ∧
      (let final := StepRuns.run (afterCheck spelledDigest naturalPeople .llmSend) (load [])
        [colleagueVisits, namesakeVisits]
      (StepRuns.outputs (afterCheck spelledDigest naturalPeople .llmSend)
          (sentBy spelledDigest naturalPeople .llmSend) (load [])
          [colleagueVisits, namesakeVisits]).map
        fun sent => (sent.1.text, sent.2.text, final.restoreAll sent.2.text)) =
        [("김민수 과장".toList, "김준호 과장".toList, "김민수 과장".toList),
          ("김준호 부장".toList, "김준호 부장".toList, "김민수 부장".toList)] :=
  ⟨by decide, by decide, by decide⟩

end Pseudonyms

end NaturalMold.Guardrails
