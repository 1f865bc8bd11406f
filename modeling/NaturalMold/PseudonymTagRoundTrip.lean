import NaturalMold.PseudonymChecks

/-! # Numbered tokens are swapped back exactly -/

namespace NaturalMold.Guardrails

namespace Pseudonyms

variable {hmacHex : Text → Text} {rules : RuleSet} {stage : Stage}

def restoreAll (state : Pseudonyms) (text : Text) : Text :=
  state.restore (fun _ => false) text

/-- No made-up name of the map stands in a text, nor a given name as a word. -/
def NameFree (state : Pseudonyms) (text : Text) : Prop :=
  ∀ entry ∈ state.natural.entries, ¬ entry.1 <:+: text ∧
    (entry.1.length = 3 ∧ entry.2.length = 3 →
      TextSubstitution.QuietIn (givenNameMatcher (entry.1.drop 1) (entry.2.drop 1)) none text [])

instance (state : Pseudonyms) (text : Text) : Decidable (state.NameFree text) :=
  inferInstanceAs (Decidable (∀ entry ∈ state.natural.entries, _ ∧ (_ → _)))

variable {text : Text}

theorem replace_of_absent {old new : Text} (absent : ¬ old <:+: text) :
    PythonText.replace old new text = text := by
  have nonempty : old ≠ [] := by
    rintro rfl
    exact absent ⟨[], text, rfl⟩
  rw [PythonText.replace, if_neg nonempty]
  refine TextSubstitution.substitute_of_quiet (TextSubstitution.quietIn_of_forall ?_)
  rintro first char last rfl
  rw [TextSubstitution.wordMatcher, if_neg]
  rintro ⟨after, starts⟩
  rw [List.append_nil] at starts
  exact absent ⟨first, after, by rw [List.append_assoc, starts]⟩

theorem keeps_none (state : Pseudonyms) (token : Text) :
    state.keeps (fun _ => false) token = false := by
  rw [keeps, Option.any_eq_false]
  exact fun _ _ => by decide

variable {state : Pseudonyms}

theorem restoreName_of_nameFree (free : state.NameFree text) {entry : Text × Text}
    (member : entry ∈ state.natural.entries) :
    state.restoreName (fun _ => false) text entry = text := by
  obtain ⟨absent, quiet⟩ := free entry member
  rw [restoreName, keeps_none, if_neg (by decide), replace_of_absent absent]
  split
  case isTrue lengths => exact TextSubstitution.substitute_of_quiet (quiet lengths)
  case isFalse => rfl

/-- A text without made-up names goes through the first half of restoring as it is. -/
theorem restoreNatural_of_nameFree (free : state.NameFree text) :
    state.restoreNatural (fun _ => false) text = text := by
  have listed : ∀ entry ∈ state.namesInOrder, entry ∈ state.natural.entries := by
    intro entry member
    exact (List.mem_insertionSort _).mp member
  unfold restoreNatural
  generalize state.namesInOrder = names at listed
  induction names with
  | nil => rfl
  | cons entry entries ih =>
      rw [List.foldl_cons, restoreName_of_nameFree free (listed entry List.mem_cons_self)]
      exact ih fun other member => listed other (List.mem_cons_of_mem _ member)

theorem substituteTokens_of_absent (swap : Text → Text) (absent : ¬ ['<', '<'] <:+: text) :
    substituteTokens swap text = text := by
  refine TextSubstitution.substitute_of_quiet (TextSubstitution.quietIn_of_forall ?_)
  rintro first char last rfl
  have nothing : findToken (char :: (last ++ [])) = none := by
    rw [Option.eq_none_iff_forall_ne_some]
    rintro ⟨entity, digits⟩ found
    obtain ⟨-, -, after, starts⟩ := findToken_eq_some_iff.mp found
    refine absent ⟨first, tokenBody entity digits ++ after, ?_⟩
    rw [List.append_nil] at starts
    rw [← starts, List.append_assoc]
    rfl
  rw [tokenMatcher, nothing]
  rfl

theorem restoreAll_eq (state : Pseudonyms) (text : Text) :
    state.restoreAll text =
      substituteTokens (state.swap fun _ => false) (state.restoreNatural (fun _ => false) text) := by
  unfold restoreAll restore
  dsimp only
  split
  case isTrue => rfl
  case isFalse absent => exact (substituteTokens_of_absent _ absent).symm

variable {token value : Text}

theorem swap_of_byToken (found : state.byToken.get? token = some value) :
    state.swap (fun _ => false) token = value := by
  simp [swap, found, keeps_none]

theorem infix_of_stoodIn {pieces : List Piece} (member : Piece.stoodIn value token ∈ pieces) :
    token <:+: pieces.flatMap Piece.sent := by
  obtain ⟨before, after, rfl⟩ := List.append_of_mem member
  refine ⟨before.flatMap Piece.sent, after.flatMap Piece.sent, ?_⟩
  simp [Piece.sent]

theorem mem_ofSpans_of_pseudonymized {tokenOf : String → Text → Text} {cursor : Nat}
    {spans : List Span} {pair : String × Text} (member : pair ∈ pseudonymized text spans) :
    Piece.stoodIn pair.2 (tokenOf pair.1 pair.2) ∈
      Piece.ofSpans hmacHex tokenOf text cursor spans := by
  induction spans generalizing cursor with
  | nil => exact absurd member nofun
  | cons span rest ih =>
      rw [pseudonymized, List.filter_cons] at member
      refine List.mem_cons_of_mem _ (List.mem_append.mpr ?_)
      split at member
      case isTrue actionEq =>
        rcases List.mem_cons.mp member with rfl | later
        · refine Or.inl ?_
          rw [Piece.ofSpan, of_decide_eq_true actionEq]
          exact List.mem_singleton_self _
        · exact Or.inr (ih later)
      case isFalse => exact Or.inr (ih member)

private theorem stoodIn_notMem_hideDigits {hidden : Nat} :
    Piece.stoodIn value token ∉ Piece.hideDigits hidden text := by
  induction text generalizing hidden with
  | nil => cases hidden <;> simp [Piece.hideDigits]
  | cons char text ih =>
      cases hidden with
      | zero => simp [Piece.hideDigits]
      | succ hidden =>
          rw [Piece.hideDigits]
          split <;> simp [ih]

private theorem stoodIn_notMem_mask {entity : String} :
    Piece.stoodIn value token ∉ Piece.mask text entity := by
  unfold Piece.mask
  split
  case isTrue => simp
  case isFalse =>
    split
    case isTrue => exact stoodIn_notMem_hideDigits
    case isFalse => simp

theorem pseudonymized_of_mem_ofSpans {tokenOf : String → Text → Text} {cursor : Nat}
    {spans : List Span}
    (member : Piece.stoodIn value token ∈ Piece.ofSpans hmacHex tokenOf text cursor spans) :
    ∃ entity, (entity, value) ∈ pseudonymized text spans ∧ token = tokenOf entity value := by
  induction spans generalizing cursor with
  | nil => simp [Piece.ofSpans] at member
  | cons span rest ih =>
      have others := (List.mem_cons.mp member).resolve_left (by simp)
      rcases List.mem_append.mp others with here | later
      · unfold Piece.ofSpan at here
        cases actionEq : span.rule.action <;> rw [actionEq] at here
        case pseudonymize =>
          obtain ⟨rfl, rfl⟩ := Piece.stoodIn.inj (List.mem_singleton.mp here)
          exact ⟨span.entity, by simp [pseudonymized, actionEq], rfl⟩
        case mask => exact absurd here stoodIn_notMem_mask
        all_goals simp at here
      · obtain ⟨entity, inRest, tokenEq⟩ := ih later
        refine ⟨entity, ?_, tokenEq⟩
        rw [pseudonymized, List.filter_cons]
        split
        · exact List.mem_cons_of_mem _ inRest
        · exact inRest

section RoundTrip

variable {pairs : Set (String × Text)} {state : Pseudonyms} {sent : Check × Applied}
  {merged : List Span}

def piecesOf (hmacHex : Text → Text) (state : Pseudonyms) (text : Text) (merged : List Span) :
    List Piece :=
  Piece.ofSpans hmacHex (state.tokenOf hmacHex) text 0 merged

theorem Recorded.sent_eq (recorded : Recorded hmacHex rules stage state sent merged) :
    sent.2.text = (piecesOf hmacHex state sent.1.text merged).flatMap Piece.sent := by
  rw [recorded.text_eq, piecesOf, Piece.flatMap_sent_ofSpans]

/-- A pseudonym of the map that is no made-up name is a numbered token. -/
theorem isToken_of_byToken (sound : state.Sound hmacHex pairs) {token value : Text}
    (byToken : state.byToken.get? token = some value) (notName : token ∉ state.natural.keys) :
    (fullToken token).isSome := by
  obtain ⟨rows, kept⟩ := sound
  rw [Option.isSome_iff_ne_none]
  intro isName
  obtain ⟨row, rowMem, rowToken, rowValue⟩ := (kept.byToken _ _).mp byToken
  have found := (kept.natural token value).mpr ⟨row, rowMem, rowToken, rowValue, isName⟩
  exact notName (OrderedDict.mem_keys_of_get? found)

theorem Recorded.token_of_nameFree (recorded : Recorded hmacHex rules stage state sent merged)
    (sound : state.Sound hmacHex pairs) (free : state.NameFree sent.2.text)
    {pair : String × Text} (member : pair ∈ pseudonymized sent.1.text merged) :
    (fullToken (state.tokenOf hmacHex pair.1 pair.2)).isSome ∧
      state.byDigest.get? (valueDigest hmacHex pair.1 pair.2) =
        some (state.tokenOf hmacHex pair.1 pair.2) ∧
      state.byToken.get? (state.tokenOf hmacHex pair.1 pair.2) = some pair.2 := by
  have stands : state.tokenOf hmacHex pair.1 pair.2 <:+: sent.2.text := by
    rw [recorded.sent_eq]
    exact infix_of_stoodIn (mem_ofSpans_of_pseudonymized member)
  have notName : state.tokenOf hmacHex pair.1 pair.2 ∉ state.natural.keys := by
    intro isName
    obtain ⟨entry, entryMem, entryEq⟩ := List.mem_map.mp isName
    exact (free entry entryMem).1 (entryEq ▸ stands)
  have notValue : pair.2 ∉ state.natural.keys := by
    intro isName
    apply notName
    rwa [tokenOf, if_pos isName]
  obtain ⟨token, byDigest, byToken⟩ := (recorded.settled pair member).resolve_left notValue
  have tokenEq : state.tokenOf hmacHex pair.1 pair.2 = token := by
    rw [tokenOf, if_neg notValue, byDigest]
    rfl
  rw [tokenEq] at notName ⊢
  exact ⟨isToken_of_byToken sound byToken notName, byDigest, byToken⟩

/-- Restoring a sent text without made-up names leaves only the changes of the
other actions. -/
theorem Recorded.restoreAll_of_nameFree (recorded : Recorded hmacHex rules stage state sent merged)
    (sound : state.Sound hmacHex pairs) (hex : Piece.IsHexDigest hmacHex)
    (forward : ∀ finding ∈ sent.1.findings, finding.start ≤ finding.stop)
    (tokenFree : TokenFree sent.1.text) (free : state.NameFree sent.2.text) :
    state.restoreAll sent.2.text =
      (applyFrom hmacHex (some (constantly fun _ value => value)) sent.1.text 0 merged ()).1 := by
  have swapped : Piece.Swapped (state.swap fun _ => false)
      (piecesOf hmacHex state sent.1.text merged) := by
    intro value token member
    obtain ⟨entity, inText, rfl⟩ := pseudonymized_of_mem_ofSpans member
    obtain ⟨isToken, -, byToken⟩ := recorded.token_of_nameFree sound free inText
    exact ⟨isToken, swap_of_byToken byToken⟩
  have original : (piecesOf hmacHex state sent.1.text merged).flatMap Piece.original =
      sent.1.text :=
    Piece.flatMap_original_ofSpans _ _ _ (following_spans recorded.spans_eq forward)
  calc
    state.restoreAll sent.2.text
        = substituteTokens (state.swap fun _ => false) sent.2.text := by
      rw [restoreAll_eq, restoreNatural_of_nameFree free]
    _ = (piecesOf hmacHex state sent.1.text merged).flatMap Piece.restored := by
      rw [recorded.sent_eq]
      exact Piece.substituteTokens_sent (Piece.walled_ofSpans hex _ _ _ _) swapped
        (by rwa [original])
    _ = _ := Piece.flatMap_restored_ofSpans _ _ _ _

end RoundTrip

def pairsOf (rules : RuleSet) (stage : Stage) (rows : List PseudonymRow) (checks : List Check) :
    Set (String × Text) :=
  {pair | (∃ row ∈ rows, (row.entity, row.value) = pair) ∨
    ∃ check ∈ checks, pair ∈ check.pseudonymized rules stage}

theorem sound_load {rows : List PseudonymRow} (stored : ∀ row ∈ rows, row.Stored hmacHex)
    (distinct : (rows.map PseudonymRow.token).Nodup) (checks : List Check) :
    (load rows).Sound hmacHex (pairsOf rules stage rows checks) :=
  ⟨rows, { remembers_load distinct with
    stored := stored
    ofPairs := fun row member => Or.inl ⟨row, member, rfl⟩ }⟩

theorem exists_sent_of_pseudonymized {checks : List Check} (state : Pseudonyms) {check : Check}
    {pair : String × Text} (member : check ∈ checks)
    (replaced : pair ∈ check.pseudonymized rules stage) :
    ∃ applied, (check, applied) ∈ StepRuns.outputs (afterCheck hmacHex rules stage)
      (sentBy hmacHex rules stage) state checks := by
  induction checks generalizing state with
  | nil => simp at member
  | cons first checks ih =>
      rw [StepRuns.outputs]
      rcases List.mem_cons.mp member with rfl | later
      · unfold Check.pseudonymized at replaced
        cases spansEq : spans check.findings rules stage with
        | error error =>
            rw [spansEq] at replaced
            simp at replaced
        | ok merged =>
            let applied : Applied := ⟨(applyFrom hmacHex (some (pseudonymizer hmacHex check.text))
              check.text 0 merged state).1, merged.map Span.decision⟩
            have sent : (check, applied) ∈ sentBy hmacHex rules stage state check := by
              simp [sentBy, applyCheck, apply, spansEq, Except.map, applied]
            exact ⟨applied, List.mem_append_left _ sent⟩
      · obtain ⟨applied, sent⟩ := ih (afterCheck hmacHex rules stage state first) later
        exact ⟨applied, List.mem_append_right _ sent⟩

theorem check_mem_of_sent {checks : List Check} {sent : Check × Applied}
    (member : sent ∈ StepRuns.outputs (afterCheck hmacHex rules stage)
      (sentBy hmacHex rules stage) state checks) : sent.1 ∈ checks := by
  induction checks generalizing state with
  | nil => exact absurd member nofun
  | cons check checks ih =>
      rcases List.mem_append.mp member with here | later
      · unfold sentBy at here
        split at here
        · rw [List.mem_singleton.mp here]
          exact List.mem_cons_self
        · exact absurd here nofun
      · exact List.mem_cons_of_mem _ (ih later)

/-- Numbered tokens over a whole conversation.  The map is loaded from rows that
the conversation wrote.  If no checked text holds a token and no sent text holds
a made-up name of the map, every value keeps one token, which is no other
value's, and restoring a sent text leaves only the changes of the other actions. -/
theorem tokens_restored (hmacHex : Text → Text) (rules : RuleSet) (stage : Stage)
    (rows : List PseudonymRow) (checks : List Check) (hex : Piece.IsHexDigest hmacHex)
    (injective : Set.InjOn (fun pair : String × Text => valueDigest hmacHex pair.1 pair.2)
      (pairsOf rules stage rows checks))
    (stored : ∀ row ∈ rows, row.Stored hmacHex) (distinct : (rows.map PseudonymRow.token).Nodup)
    (forward : ∀ check ∈ checks, ∀ finding ∈ check.findings, finding.start ≤ finding.stop)
    (entities : ∀ check ∈ checks, ∀ pair ∈ check.pseudonymized rules stage,
      IsEntity pair.1.toList)
    (tokenFree : ∀ check ∈ checks, TokenFree check.text) :
    let final := StepRuns.run (afterCheck hmacHex rules stage) (load rows) checks
    let sentTexts := StepRuns.outputs (afterCheck hmacHex rules stage)
      (sentBy hmacHex rules stage) (load rows) checks
    (∀ entity, final.count entity < 10 ^ 6) →
    (∀ sent ∈ sentTexts, final.NameFree sent.2.text) →
    ∃ tokenOf : String → Text → Text,
      Set.InjOn (fun pair => tokenOf pair.1 pair.2)
          {pair | ∃ check ∈ checks, pair ∈ check.pseudonymized rules stage} ∧
        (∀ row ∈ rows, ∀ check ∈ checks, ∀ pair ∈ check.pseudonymized rules stage,
          tokenOf pair.1 pair.2 = row.token → pair = (row.entity, row.value)) ∧
        ∀ sent ∈ sentTexts, ∃ restored,
          apply hmacHex (some (constantly tokenOf)) sent.1.text sent.1.findings rules stage () =
              .ok (sent.2, ()) ∧
            apply hmacHex (some (constantly fun _ value => value)) sent.1.text sent.1.findings
                rules stage () = .ok (⟨restored, sent.2.decisions⟩, ()) ∧
              final.restoreAll sent.2.text = restored := by
  intro final sentTexts numbers nameFree
  have replaced : ∀ check ∈ checks, ∀ pair ∈ check.pseudonymized rules stage,
      IsEntity pair.1.toList ∧ pair ∈ pairsOf rules stage rows checks := fun check member pair inCheck =>
    ⟨entities check member pair inCheck, Or.inr ⟨check, member, inCheck⟩⟩
  obtain ⟨sound, extended, recorded⟩ :=
    run_recorded injective (sound_load stored distinct checks) replaced numbers
  -- every replaced value has its numbered token in the last map
  have tokens : ∀ check ∈ checks, ∀ pair ∈ check.pseudonymized rules stage,
      final.byToken.get? (final.tokenOf hmacHex pair.1 pair.2) = some pair.2 ∧
        final.byDigest.get? (valueDigest hmacHex pair.1 pair.2) =
          some (final.tokenOf hmacHex pair.1 pair.2) := by
    intro check member pair inCheck
    obtain ⟨applied, wasSent⟩ := exists_sent_of_pseudonymized (load rows) member inCheck
    obtain ⟨merged, record⟩ := recorded _ wasSent
    have inText : pair ∈ pseudonymized check.text merged := by
      rw [Check.pseudonymized, record.spans_eq] at inCheck
      exact inCheck
    obtain ⟨-, byDigest, byToken⟩ :=
      record.token_of_nameFree sound (nameFree _ wasSent) inText
    exact ⟨byToken, byDigest⟩
  obtain ⟨finalRows, kept⟩ := sound
  -- two pairs with one token share the row of the token
  have rowOf : ∀ check ∈ checks, ∀ pair ∈ check.pseudonymized rules stage,
      ∀ row ∈ finalRows, row.token = final.tokenOf hmacHex pair.1 pair.2 →
        pair = (row.entity, row.value) := by
    intro check member pair inCheck row rowMem tokenEq
    obtain ⟨other, otherMem, otherToken, entityEq, valueEq⟩ := kept.row_of_byDigest injective
      (replaced check member pair inCheck).2 (tokens check member pair inCheck).2
    have same := List.inj_on_of_nodup_map kept.distinct otherMem rowMem
      (otherToken.trans tokenEq.symm)
    rw [← same, entityEq, valueEq]
  refine ⟨final.tokenOf hmacHex, ?_, ?_, ?_⟩
  · rintro first ⟨check, member, inCheck⟩ second ⟨otherCheck, otherMember, inOther⟩ tokenEq
    obtain ⟨row, rowMem, rowToken, -⟩ :=
      (kept.byToken _ _).mp (tokens check member first inCheck).1
    rw [rowOf check member first inCheck row rowMem rowToken,
      rowOf otherCheck otherMember second inOther row rowMem (rowToken.trans tokenEq)]
  · intro row rowMem check member pair inCheck tokenEq
    have loaded := remembers_load distinct
    have byToken := extended.byToken _ _ ((loaded.byToken _ _).mpr ⟨row, rowMem, rfl, rfl⟩)
    have entity := extended.entities _ _ ((loaded.entities _ _).mpr ⟨row, rowMem, rfl, rfl⟩)
    obtain ⟨still, stillMem, stillToken, stillValue⟩ := (kept.byToken _ _).mp byToken
    obtain ⟨other, otherMem, otherToken, otherEntity⟩ := (kept.entities _ _).mp entity
    have same := List.inj_on_of_nodup_map kept.distinct otherMem stillMem
      (otherToken.trans stillToken.symm)
    rw [rowOf check member pair inCheck still stillMem (stillToken.trans tokenEq.symm),
      ← otherEntity, same, stillValue]
  · intro sent wasSent
    obtain ⟨merged, record⟩ := recorded sent wasSent
    have member := check_mem_of_sent wasSent
    refine ⟨_, ?_, ?_, record.restoreAll_of_nameFree ⟨finalRows, kept⟩ hex
      (forward _ member) (tokenFree _ member) (nameFree sent wasSent)⟩
    · simp only [apply, record.spans_eq, Except.map]
      rw [← record.text_eq, ← record.decisions_eq]
    · simp only [apply, record.spans_eq, Except.map]
      rw [← record.decisions_eq]

/-- People are replaced by numbered tokens before a text is sent to the model. -/
def tagPeople : RuleSet where
  template := "people"
  version := 1
  rules := [{ id := "people", packs := ["kr"], stages := {.llmSend}, action := .pseudonymize,
              entities := some {"PERSON"} }]

def personAt (start stop : Nat) : Finding where
  entity := "PERSON"
  start := start
  stop := stop
  score := 1
  pack := "kr"

def spelledDigest (message : Text) : Text :=
  message.reverse.flatMap fun char => Nat.toDigits 10 char.toNat

theorem isHexDigest_spelledDigest : Piece.IsHexDigest spelledDigest := by
  intro message char member
  obtain ⟨letter, -, inDigits⟩ := List.mem_flatMap.mp member
  have digit := Nat.isDigit_of_mem_toDigits (by decide) (by decide) inDigits
  simp only [Char.isDigit, Bool.and_eq_true, decide_eq_true_eq] at digit
  have isDigit : '0' ≤ char ∧ char ≤ '9' := digit
  simp [PythonText.hexValue, isDigit]

def tokenRow : PseudonymRow where
  token := "<<PERSON_1>>".toList
  entity := "PERSON"
  digest := valueDigest spelledDigest "PERSON" "김민수".toList
  value := "김민수".toList

def knownAndNew : Check where
  text := "김민수, 박지훈".toList
  findings := [personAt 0 3, personAt 5 8]

theorem pseudonymized_knownAndNew :
    knownAndNew.pseudonymized tagPeople .llmSend =
      [("PERSON", "김민수".toList), ("PERSON", "박지훈".toList)] := by
  decide

theorem stored_tokenRow : tokenRow.Stored spelledDigest :=
  ⟨rfl, Or.inl ⟨by decide, 1, by decide, by decide, by decide⟩⟩

theorem tokens_restored_knownAndNew :
    ∃ tokenOf : String → Text → Text,
      tokenOf "PERSON" "김민수".toList ≠ tokenOf "PERSON" "박지훈".toList ∧
        ∀ sent ∈ StepRuns.outputs (afterCheck spelledDigest tagPeople .llmSend)
            (sentBy spelledDigest tagPeople .llmSend) (load [tokenRow]) [knownAndNew],
          ∃ restored,
            apply spelledDigest (some (constantly fun _ value => value)) sent.1.text
                sent.1.findings tagPeople .llmSend () = .ok (⟨restored, sent.2.decisions⟩, ()) ∧
              (StepRuns.run (afterCheck spelledDigest tagPeople .llmSend) (load [tokenRow])
                [knownAndNew]).restoreAll sent.2.text = restored := by
  have listed : ∀ pair ∈ pairsOf tagPeople .llmSend [tokenRow] [knownAndNew],
      pair ∈ [("PERSON", "김민수".toList), ("PERSON", "박지훈".toList)] := by
    rintro pair (⟨row, member, rfl⟩ | ⟨check, member, inCheck⟩)
    · rw [List.mem_singleton.mp member]
      decide
    · rw [List.mem_singleton.mp member, pseudonymized_knownAndNew] at inCheck
      exact inCheck
  have injective : Set.InjOn
      (fun pair : String × Text => valueDigest spelledDigest pair.1 pair.2)
      (pairsOf tagPeople .llmSend [tokenRow] [knownAndNew]) := by
    intro first firstMem second secondMem
    exact (by decide : ∀ first ∈ [("PERSON", "김민수".toList), ("PERSON", "박지훈".toList)],
      ∀ second ∈ [("PERSON", "김민수".toList), ("PERSON", "박지훈".toList)],
        valueDigest spelledDigest first.1 first.2 = valueDigest spelledDigest second.1 second.2 →
          first = second) first (listed first firstMem) second (listed second secondMem)
  have counters : (StepRuns.run (afterCheck spelledDigest tagPeople .llmSend) (load [tokenRow])
      [knownAndNew]).counters.entries = [("PERSON", 2)] := by
    decide
  obtain ⟨tokenOf, apart, -, restored⟩ := tokens_restored spelledDigest tagPeople .llmSend
    [tokenRow] [knownAndNew] isHexDigest_spelledDigest injective
    (fun row member => List.mem_singleton.mp member ▸ stored_tokenRow) (List.nodup_singleton _)
    (by decide)
    (by
      intro check member
      rw [List.mem_singleton.mp member, pseudonymized_knownAndNew]
      decide)
    (by decide)
    (by
      intro entity
      rw [count, OrderedDict.get?, counters]
      simp only [OrderedDict.lookupEntry]
      split <;> decide)
    (by decide)
  refine ⟨tokenOf, ?_, ?_⟩
  · intro same
    have inCheck : ∀ pair ∈ [("PERSON", "김민수".toList), ("PERSON", "박지훈".toList)],
        ∃ check ∈ [knownAndNew], pair ∈ check.pseudonymized tagPeople .llmSend := by
      intro pair member
      exact ⟨knownAndNew, List.mem_singleton_self _, pseudonymized_knownAndNew ▸ member⟩
    exact absurd (apart (inCheck _ List.mem_cons_self)
      (inCheck _ (List.mem_cons_of_mem _ List.mem_cons_self)) same) (by decide)
  · intro sent wasSent
    obtain ⟨text, -, unchanged, restoredEq⟩ := restored sent wasSent
    exact ⟨text, unchanged, restoredEq⟩

/-- A made-up name that an earlier run of the conversation issued and stored. -/
def nameRow : PseudonymRow where
  token := "김준호".toList
  entity := "PERSON"
  digest := valueDigest spelledDigest "PERSON" "김민수".toList
  value := "김민수".toList

/-- A person whose real name is the stored made-up one. -/
def namesake : Check where
  text := "김준호 왔다".toList
  findings := [personAt 0 3]

theorem tokens_not_restored_namesake :
    nameRow.Stored spelledDigest ∧ TokenFree namesake.text ∧
      namesake.pseudonymized tagPeople .llmSend = [("PERSON", "김준호".toList)] ∧
      valueDigest spelledDigest "PERSON" "김준호".toList ≠ nameRow.digest ∧
      (StepRuns.outputs (afterCheck spelledDigest tagPeople .llmSend)
          (sentBy spelledDigest tagPeople .llmSend) (load [nameRow]) [namesake]).map
        (fun sent => (StepRuns.run (afterCheck spelledDigest tagPeople .llmSend) (load [nameRow])
          [namesake]).restoreAll sent.2.text) = ["김민수 왔다".toList] ∧
      namesake.text ≠ "김민수 왔다".toList :=
  ⟨⟨rfl, Or.inr (by decide)⟩, by decide, by decide, by decide, by decide,
    by decide⟩

end Pseudonyms

end NaturalMold.Guardrails
