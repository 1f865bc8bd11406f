import NaturalMold.Pseudonyms

/-! # What a pseudonym map remembers -/

namespace NaturalMold.Guardrails

variable {hmacHex : Text → Text}

theorem fullToken_of_isName {text : Text} (name : IsName text) : fullToken text = none := by
  rw [Option.eq_none_iff_forall_ne_some]
  rintro ⟨entity, digits⟩ found
  obtain ⟨-, -, rfl⟩ := fullToken_eq_some_iff.mp found
  exact absurd (List.all_eq_true.mp name.2.2 '<' List.mem_cons_self) (by decide)

theorem all_isHangul_surnames : surnames.all isHangul := by
  decide

theorem givenNames_shape :
    ∀ batchim, ∀ name ∈ givenNames batchim, name.length = 2 ∧ name.all isHangul := by
  decide

theorem isName_cons {surname : Char} {given : Text} (member : surname ∈ surnames)
    (long : 1 ≤ given.length) (short : given.length ≤ 3) (hangul : given.all isHangul) :
    IsName (surname :: given) := by
  have isSurname := List.all_eq_true.mp all_isHangul_surnames surname member
  constructor
  · exact Nat.succ_le_succ long
  · constructor
    · exact Nat.succ_le_succ short
    · rw [List.all_cons, isSurname, hangul]
      rfl

theorem isName_of_mem_naturalCandidates {value candidate : Text}
    (member : candidate ∈ naturalCandidates value) :
    IsName candidate ∧ candidate.length = value.length := by
  unfold naturalCandidates at member
  split at member
  case h_1 => simp at member
  case h_2 last lastEq =>
  simp only at member
  have shape := givenNames_shape (hasBatchim last)
  split at member
  case isTrue three =>
    obtain ⟨name, nameMem, inRow⟩ := List.mem_flatMap.mp member
    obtain ⟨surname, surnameMem, rfl⟩ := List.mem_map.mp inRow
    obtain ⟨two, hangul⟩ := shape name nameMem
    exact ⟨isName_cons surnameMem (by omega) (by omega) hangul, by simp [two, three]⟩
  case isFalse =>
  split at member
  case isFalse => simp at member
  case isTrue two =>
  obtain ⟨name, nameMem, inRow⟩ := List.mem_flatMap.mp member
  obtain ⟨surname, surnameMem, rfl⟩ := List.mem_map.mp inRow
  obtain ⟨nameTwo, hangul⟩ := shape name nameMem
  obtain ⟨first, second, rfl⟩ := List.length_eq_two.mp nameTwo
  have secondHangul : [second].all isHangul := by
    simp only [List.all_cons, Bool.and_eq_true] at hangul
    simp [hangul.2.1]
  exact ⟨isName_cons surnameMem (by simp) (by simp) secondHangul, by simp [two]⟩

/-- A row as a conversation writes it: its digest is the value's, and its
pseudonym is a numbered token of its entity or a made-up name for a person's. -/
def PseudonymRow.Stored (hmacHex : Text → Text) (row : PseudonymRow) : Prop :=
  row.digest = valueDigest hmacHex row.entity row.value ∧
    ((IsEntity row.entity.toList ∧
        ∃ number, 0 < number ∧ number < 10 ^ 6 ∧ row.token = Guardrails.token row.entity number) ∨
      (row.entity = "PERSON" ∧ IsName row.token ∧ IsName row.value))

namespace Pseudonyms

variable {state : Pseudonyms}

theorem naturalFor_eq_some {value context name : Text}
    (made : state.naturalFor value context = some name) :
    IsName value ∧ IsName name ∧ name ∉ state.taken value ∧ ¬ name <:+: context := by
  unfold naturalFor at made
  split at made
  case isFalse => exact absurd made nofun
  case isTrue isName =>
  have checks := List.find?_some made
  have candidate := isName_of_mem_naturalCandidates (List.mem_of_find?_eq_some made)
  simp only [Bool.and_eq_true, Bool.not_eq_true', Bool.or_eq_false_iff,
    decide_eq_false_iff_not] at checks
  exact ⟨isName, candidate.1, checks.1.1, checks.1.2⟩

theorem issue_cases (state : Pseudonyms) (style : PseudonymStyle) (context : Text)
    (entity : String) (value : Text) :
    (∃ name, state.issue style context entity value = (name, state) ∧ entity = "PERSON" ∧
        style = .natural ∧ IsName value ∧ IsName name ∧ name ∉ state.taken value) ∨
      state.issue style context entity value =
        (Guardrails.token entity (state.count entity + 1),
          { state with counters := state.counters.set entity (state.count entity + 1) }) := by
  rcases madeEq : (if style = .natural ∧ entity = "PERSON" then state.naturalFor value context
      else none) with _ | name
  · exact Or.inr (by simp only [issue, madeEq])
  · left
    refine ⟨name, by simp only [issue, madeEq], ?_⟩
    split at madeEq
    case isFalse => exact absurd madeEq nofun
    case isTrue natural =>
      obtain ⟨isValue, isName, fresh, -⟩ := naturalFor_eq_some madeEq
      exact ⟨natural.2, natural.1, isValue, isName, fresh⟩

/-- The map holds these rows, whose tokens are all different. -/
structure Remembers (rows : List PseudonymRow) (state : Pseudonyms) : Prop where
  distinct : (rows.map PseudonymRow.token).Nodup
  byToken : ∀ token value, state.byToken.get? token = some value ↔
    ∃ row ∈ rows, row.token = token ∧ row.value = value
  byDigest : ∀ digest token, state.byDigest.get? digest = some token →
    ∃ row ∈ rows, row.digest = digest ∧ row.token = token
  recorded : ∀ row ∈ rows, row.digest ∈ state.byDigest.keys
  entities : ∀ token entity, state.entities.get? token = some entity ↔
    ∃ row ∈ rows, row.token = token ∧ row.entity = entity
  natural : ∀ name value, state.natural.get? name = some value ↔
    ∃ row ∈ rows, row.token = name ∧ row.value = value ∧ fullToken name = none
  counted : ∀ row ∈ rows, ∀ parts, fullToken row.token = some parts →
    Nat.ofDigitChars 10 parts.2 0 ≤ state.count row.entity

theorem remembers_empty : Remembers [] {} where
  distinct := List.nodup_nil
  byToken := by simp
  byDigest := by simp
  recorded := by simp
  entities := by simp
  natural := by simp
  counted := by simp

theorem count_le_count_remember (state : Pseudonyms) (row : PseudonymRow) (entity : String) :
    state.count entity ≤ (state.remember row).count entity := by
  unfold remember
  simp only [count]
  split
  case h_2 => exact Nat.le_refl _
  case h_1 parts _ =>
  rw [OrderedDict.get?_set]
  split
  case isFalse => exact Nat.le_refl _
  case isTrue same =>
    subst same
    exact Nat.le_max_left _ _

variable {row : PseudonymRow}

theorem number_le_count_remember (state : Pseudonyms) {parts : Text × Text}
    (isToken : fullToken row.token = some parts) :
    Nat.ofDigitChars 10 parts.2 0 ≤ (state.remember row).count row.entity := by
  simp only [remember, count, isToken, OrderedDict.get?_set_self]
  exact Nat.le_max_right _ _

theorem get?_natural_remember (state : Pseudonyms) (row : PseudonymRow) (name : Text) :
    (state.remember row).natural.get? name =
      if name = row.token ∧ fullToken row.token = none then some row.value
      else state.natural.get? name := by
  unfold remember
  cases isToken : fullToken row.token with
  | some parts => simp
  | none => simp [OrderedDict.get?_set]

theorem mem_keys_natural_remember {name : Text} :
    name ∈ (state.remember row).natural.keys ↔
      name ∈ state.natural.keys ∨ name = row.token ∧ fullToken row.token = none := by
  rw [← OrderedDict.get?_isSome_iff, get?_natural_remember, ← OrderedDict.get?_isSome_iff]
  split <;> simp_all

variable {rows : List PseudonymRow}

private theorem exists_mem_concat {holds : PseudonymRow → Prop} :
    (∃ other ∈ rows ++ [row], holds other) ↔ (∃ other ∈ rows, holds other) ∨ holds row := by
  simp only [List.mem_append, List.mem_singleton, or_and_right, exists_or, exists_eq_left]

theorem Remembers.remember (remembers : Remembers rows state)
    (fresh : row.token ∉ rows.map PseudonymRow.token) :
    Remembers (rows ++ [row]) (state.remember row) := by
  have differs {other : PseudonymRow} (member : other ∈ rows) : other.token ≠ row.token := by
    intro same
    exact fresh (same ▸ List.mem_map_of_mem member)
  constructor
  case distinct =>
    rw [List.map_append, List.map_singleton]
    exact List.nodup_append.mpr ⟨remembers.distinct, List.nodup_singleton _, by
      rintro token member _ (last : _ ∈ [row.token]) rfl
      exact fresh (List.mem_singleton.mp last ▸ member)⟩
  case byToken =>
    intro token value
    rw [exists_mem_concat, ← remembers.byToken, Pseudonyms.remember, OrderedDict.get?_set]
    split
    case isTrue same =>
      have absent : state.byToken.get? token ≠ some value := by
        intro found
        obtain ⟨other, member, tokenEq, -⟩ := (remembers.byToken token value).mp found
        exact differs member (tokenEq.trans same)
      simp [same.symm, absent]
    case isFalse other =>
      simp [Ne.symm other]
  case byDigest =>
    intro digest token found
    rw [Pseudonyms.remember, OrderedDict.get?_set] at found
    rw [exists_mem_concat]
    split at found
    case isTrue same => exact Or.inr ⟨same.symm, Option.some.inj found⟩
    case isFalse => exact Or.inl (remembers.byDigest digest token found)
  case recorded =>
    intro other member
    rw [Pseudonyms.remember, OrderedDict.mem_keys_set]
    rcases List.mem_append.mp member with old | new
    · exact Or.inr (remembers.recorded other old)
    · exact Or.inl (by rw [List.mem_singleton.mp new])
  case entities =>
    intro token entity
    rw [exists_mem_concat, ← remembers.entities, Pseudonyms.remember, OrderedDict.get?_set]
    split
    case isTrue same =>
      have absent : state.entities.get? token ≠ some entity := by
        intro found
        obtain ⟨other, member, tokenEq, -⟩ := (remembers.entities token entity).mp found
        exact differs member (tokenEq.trans same)
      simp [same.symm, absent]
    case isFalse other =>
      simp [Ne.symm other]
  case natural =>
    intro name value
    rw [exists_mem_concat, ← remembers.natural, get?_natural_remember]
    split
    case isTrue new =>
      have absent : state.natural.get? name ≠ some value := by
        intro found
        obtain ⟨other, member, tokenEq, -⟩ := (remembers.natural name value).mp found
        exact differs member (tokenEq.trans new.1)
      simp [new.1, new.2, new.1 ▸ absent]
    case isFalse other =>
    refine ⟨Or.inl, ?_⟩
    rintro (found | ⟨rfl, -, isName⟩)
    · exact found
    · exact absurd ⟨rfl, isName⟩ other
  case counted =>
  intro other member parts isToken
  rcases List.mem_append.mp member with old | new
  · exact (remembers.counted other old parts isToken).trans (count_le_count_remember _ _ _)
  · rw [List.mem_singleton.mp new] at isToken ⊢
    exact number_le_count_remember state isToken

private theorem remembers_foldl {before : List PseudonymRow} (remembers : Remembers before state)
    (distinct : ((before ++ rows).map PseudonymRow.token).Nodup) :
    Remembers (before ++ rows) (rows.foldl Pseudonyms.remember state) := by
  induction rows generalizing before state with
  | nil => simpa using remembers
  | cons row rows ih =>
      have regrouped : before ++ row :: rows = (before ++ [row]) ++ rows := by simp
      rw [regrouped] at distinct ⊢
      refine ih (remembers.remember ?_) distinct
      have prefixNodup : ((before ++ [row]).map PseudonymRow.token).Nodup := by
        rw [List.map_append] at distinct
        exact distinct.of_append_left
      rw [List.map_append, List.map_singleton] at prefixNodup
      exact fun member => List.disjoint_of_nodup_append prefixNodup member List.mem_cons_self

theorem remembers_load (distinct : (rows.map PseudonymRow.token).Nodup) :
    Remembers rows (load rows) :=
  remembers_foldl remembers_empty distinct

/-- The map of rows that the conversation wrote, for some of the given values. -/
structure Kept (hmacHex : Text → Text) (pairs : Set (String × Text))
    (rows : List PseudonymRow) (state : Pseudonyms) : Prop extends Remembers rows state where
  stored : ∀ row ∈ rows, row.Stored hmacHex
  ofPairs : ∀ row ∈ rows, (row.entity, row.value) ∈ pairs

/-- One map knows all that another one does, and no value of that one has become
a made-up name. -/
structure Extends (state next : Pseudonyms) : Prop where
  byDigest : ∀ digest token, state.byDigest.get? digest = some token →
    next.byDigest.get? digest = some token
  byToken : ∀ token value, state.byToken.get? token = some value →
    next.byToken.get? token = some value
  entities : ∀ token entity, state.entities.get? token = some entity →
    next.entities.get? token = some entity
  natural : ∀ name value, state.natural.get? name = some value →
    next.natural.get? name = some value
  count : ∀ entity, state.count entity ≤ next.count entity
  values : ∀ token value, state.byToken.get? token = some value →
    value ∈ next.natural.keys → value ∈ state.natural.keys

theorem Extends.refl (state : Pseudonyms) : state.Extends state :=
  ⟨fun _ _ => id, fun _ _ => id, fun _ _ => id, fun _ _ => id, fun _ => Nat.le_refl _,
    fun _ _ _ => id⟩

theorem Extends.trans {first second third : Pseudonyms} (before : first.Extends second)
    (after : second.Extends third) : first.Extends third where
  byDigest digest token found := after.byDigest _ _ (before.byDigest digest token found)
  byToken token value found := after.byToken _ _ (before.byToken token value found)
  entities token entity found := after.entities _ _ (before.entities token entity found)
  natural name value found := after.natural _ _ (before.natural name value found)
  count entity := (before.count entity).trans (after.count entity)
  values token value found member :=
    before.values token value found (after.values token value (before.byToken _ _ found) member)

theorem Extends.mem_natural {next : Pseudonyms} (extends_ : state.Extends next) {name : Text}
    (member : name ∈ state.natural.keys) : name ∈ next.natural.keys := by
  obtain ⟨value, found⟩ := OrderedDict.exists_get?_of_mem_keys member
  exact OrderedDict.mem_keys_of_get? (extends_.natural name value found)

/-- What a value is replaced by, read off the map. -/
def tokenOf (hmacHex : Text → Text) (state : Pseudonyms) (entity : String) (value : Text) : Text :=
  if value ∈ state.natural.keys then value
  else (state.byDigest.get? (valueDigest hmacHex entity value)).getD value

/-- The map has decided what stands for a value. -/
def Settles (hmacHex : Text → Text) (state : Pseudonyms) (entity : String) (value : Text) : Prop :=
  value ∈ state.natural.keys ∨
    ∃ token, state.byDigest.get? (valueDigest hmacHex entity value) = some token ∧
      state.byToken.get? token = some value

section Settled

variable {pairs : Set (String × Text)} {rows : List PseudonymRow} {state next : Pseudonyms}
  {entity : String} {value : Text}

theorem Settles.of_extends (settled : state.Settles hmacHex entity value)
    (extends_ : state.Extends next) : next.Settles hmacHex entity value := by
  rcases settled with isName | ⟨token, byDigest, byToken⟩
  · exact Or.inl (extends_.mem_natural isName)
  · exact Or.inr ⟨token, extends_.byDigest _ _ byDigest, extends_.byToken _ _ byToken⟩

/-- Once settled, what stands for a value stays. -/
theorem Settles.tokenOf_eq (settled : state.Settles hmacHex entity value)
    (extends_ : state.Extends next) :
    next.tokenOf hmacHex entity value = state.tokenOf hmacHex entity value := by
  by_cases isName : value ∈ state.natural.keys
  · rw [tokenOf, tokenOf, if_pos isName, if_pos (extends_.mem_natural isName)]
  · obtain ⟨token, byDigest, byToken⟩ := settled.resolve_left isName
    have stillNone : value ∉ next.natural.keys := fun member =>
      isName (extends_.values token value byToken member)
    rw [tokenOf, tokenOf, if_neg isName, if_neg stillNone, byDigest,
      extends_.byDigest _ _ byDigest]

theorem Kept.row_of_byDigest (kept : Kept hmacHex pairs rows state)
    (injective : Set.InjOn (fun pair : String × Text => valueDigest hmacHex pair.1 pair.2) pairs)
    (member : (entity, value) ∈ pairs) {token : Text}
    (found : state.byDigest.get? (valueDigest hmacHex entity value) = some token) :
    ∃ row ∈ rows, row.token = token ∧ row.entity = entity ∧ row.value = value := by
  obtain ⟨row, rowMem, digestEq, tokenEq⟩ := kept.byDigest _ _ found
  rw [(kept.stored row rowMem).1] at digestEq
  obtain ⟨entityEq, valueEq⟩ : row.entity = entity ∧ row.value = value := by
    simpa using injective (kept.ofPairs row rowMem) member digestEq
  exact ⟨row, rowMem, tokenEq, entityEq, valueEq⟩

theorem Kept.nextToken_fresh (kept : Kept hmacHex pairs rows state)
    (isEntity : IsEntity entity.toList) (bounded : state.count entity + 1 < 10 ^ 6) :
    Guardrails.token entity (state.count entity + 1) ∉ rows.map PseudonymRow.token := by
  intro member
  obtain ⟨row, rowMem, tokenEq⟩ := List.mem_map.mp member
  have parsed := fullToken_token isEntity (Nat.succ_pos (state.count entity)) bounded
  rcases (kept.stored row rowMem).2 with ⟨isRowEntity, number, positive, small, rowToken⟩ | isNamed
  · have parts := fullToken_token isRowEntity positive small
    rw [← rowToken] at parts
    have counted := kept.counted row rowMem _ parts
    rw [Nat.ofDigitChars_ten_toDigits] at counted
    obtain ⟨rfl, rfl⟩ := token_inj isRowEntity isEntity positive small
      (Nat.succ_pos (state.count entity)) bounded (rowToken.symm.trans tokenEq)
    omega
  · rw [← tokenEq, fullToken_of_isName isNamed.2.1] at parsed
    exact absurd parsed nofun

theorem Kept.name_fresh (kept : Kept hmacHex pairs rows state) {name : Text}
    (fresh : name ∉ state.taken value) : name ∉ rows.map PseudonymRow.token := by
  intro member
  obtain ⟨row, rowMem, rfl⟩ := List.mem_map.mp member
  have found := (kept.byToken row.token row.value).mpr ⟨row, rowMem, rfl, rfl⟩
  apply fresh
  rw [taken, List.append_assoc]
  exact List.mem_append_left _ (OrderedDict.mem_keys_of_get? found)

/-- Counting does not touch what the map remembers. -/
theorem Kept.counting (kept : Kept hmacHex pairs rows state) (entity : String) {number : Nat}
    (more : state.count entity ≤ number) :
    Kept hmacHex pairs rows { state with counters := state.counters.set entity number } :=
  { kept with
    counted := by
      intro row member parts isToken
      have counted := kept.counted row member parts isToken
      simp only [count, OrderedDict.get?_set] at more ⊢
      split
      case isTrue same =>
        subst same
        exact counted.trans more
      case isFalse => exact counted }

theorem extends_counting (state : Pseudonyms) (entity : String) {number : Nat}
    (more : state.count entity ≤ number) :
    state.Extends { state with counters := state.counters.set entity number } :=
  { Extends.refl state with
    count := by
      intro other
      simp only [count, OrderedDict.get?_set] at more ⊢
      split
      case isTrue same =>
        subst same
        exact more
      case isFalse => exact Nat.le_refl _ }

theorem Kept.extends_remember (kept : Kept hmacHex pairs rows state) {row : PseudonymRow}
    (fresh : row.token ∉ rows.map PseudonymRow.token)
    (newDigest : state.byDigest.get? row.digest = none)
    (newName : fullToken row.token = none →
      ∀ token value, state.byToken.get? token = some value → value ≠ row.token) :
    state.Extends (state.remember row) := by
  have differs {token value : Text} (found : state.byToken.get? token = some value) :
      token ≠ row.token := by
    obtain ⟨other, member, rfl, -⟩ := (kept.byToken _ _).mp found
    exact fun same => fresh (same ▸ List.mem_map_of_mem member)
  constructor
  case byDigest =>
    intro digest token found
    have other : digest ≠ row.digest := by
      rintro rfl
      exact absurd (found.symm.trans newDigest) nofun
    rw [remember, OrderedDict.get?_set_of_ne _ _ other, found]
  case byToken =>
    intro token value found
    rw [remember, OrderedDict.get?_set_of_ne _ _ (differs found), found]
  case entities =>
    intro token entity found
    obtain ⟨other, member, tokenEq, -⟩ := (kept.entities _ _).mp found
    have known := differs ((kept.byToken token other.value).mpr ⟨other, member, tokenEq, rfl⟩)
    rw [remember, OrderedDict.get?_set_of_ne _ _ known, found]
  case natural =>
    intro name value found
    have known : ∃ row ∈ rows, row.token = name ∧ row.value = value := by
      obtain ⟨other, member, tokenEq, valueEq, -⟩ := (kept.natural _ _).mp found
      exact ⟨other, member, tokenEq, valueEq⟩
    have other := differs ((kept.byToken _ _).mpr known)
    rw [get?_natural_remember, if_neg fun same => other same.1, found]
  case count => exact count_le_count_remember state row
  case values =>
  intro token value found member
  rcases mem_keys_natural_remember.mp member with old | ⟨same, isName⟩
  · exact old
  · exact absurd same (newName isName token value found)

/-- The map is the map of some rows that the conversation wrote. -/
def Sound (hmacHex : Text → Text) (pairs : Set (String × Text)) (state : Pseudonyms) : Prop :=
  ∃ rows, Kept hmacHex pairs rows state

structure Issued (hmacHex : Text → Text) (pairs : Set (String × Text)) (state : Pseudonyms)
    (entity : String) (value : Text) (result : Text × Pseudonyms) : Prop where
  sound : result.2.Sound hmacHex pairs
  extends_ : state.Extends result.2
  settled : result.2.Settles hmacHex entity value
  token_eq : result.1 = result.2.tokenOf hmacHex entity value

theorem Kept.issued_remember (kept : Kept hmacHex pairs rows state) {token : Text}
    (unsaved : List PseudonymRow) (member : (entity, value) ∈ pairs)
    (stored : PseudonymRow.Stored hmacHex
      ⟨token, entity, valueDigest hmacHex entity value, value⟩)
    (fresh : token ∉ rows.map PseudonymRow.token)
    (newDigest : state.byDigest.get? (valueDigest hmacHex entity value) = none)
    (isValue : value ∉ state.natural.keys) (differs : fullToken token = none → value ≠ token)
    (newName : fullToken token = none →
      ∀ other value, state.byToken.get? other = some value → value ≠ token) :
    Issued hmacHex pairs state entity value
      (token, { state.remember ⟨token, entity, valueDigest hmacHex entity value, value⟩ with
        unsaved := unsaved }) := by
  have remembered := kept.remember
    (show (⟨token, entity, valueDigest hmacHex entity value, value⟩ : PseudonymRow).token ∉ _
      from fresh)
  have extended : state.Extends
      (state.remember ⟨token, entity, valueDigest hmacHex entity value, value⟩) :=
    kept.extends_remember fresh newDigest newName
  have byDigest : (state.remember ⟨token, entity, valueDigest hmacHex entity value, value⟩).byDigest.get?
      (valueDigest hmacHex entity value) = some token := by
    simp [remember]
  have notName : value ∉ (state.remember
      ⟨token, entity, valueDigest hmacHex entity value, value⟩).natural.keys := by
    rw [mem_keys_natural_remember, not_or]
    exact ⟨isValue, fun same => differs same.2 same.1⟩
  constructor
  case sound =>
    refine ⟨rows ++ [⟨token, entity, valueDigest hmacHex entity value, value⟩],
      { remembered with stored := ?_, ofPairs := ?_ }⟩
    · intro row rowMem
      rcases List.mem_append.mp rowMem with old | new
      · exact kept.stored row old
      · rw [List.mem_singleton.mp new]
        exact stored
    · intro row rowMem
      rcases List.mem_append.mp rowMem with old | new
      · exact kept.ofPairs row old
      · rw [List.mem_singleton.mp new]
        exact member
  case extends_ => exact { extended with }
  case settled => exact Or.inr ⟨token, byDigest, by simp [remember]⟩
  case token_eq =>
    rw [tokenOf, if_neg notName, byDigest]
    rfl

/-- The specification of `tokenFor`, for a value whose entity tokens can name. -/
theorem Kept.issued_tokenFor (kept : Kept hmacHex pairs rows state)
    (injective : Set.InjOn (fun pair : String × Text => valueDigest hmacHex pair.1 pair.2) pairs)
    (isEntity : IsEntity entity.toList) (member : (entity, value) ∈ pairs)
    (style : PseudonymStyle) (context : Text)
    (bounded : (tokenFor hmacHex style context entity value state).2.count entity < 10 ^ 6) :
    Issued hmacHex pairs state entity value
      (tokenFor hmacHex style context entity value state) := by
  by_cases isName : value ∈ state.natural.keys
  · rw [tokenFor, if_pos isName]
    exact ⟨⟨rows, kept⟩, Extends.refl state, Or.inl isName,
      by rw [tokenOf, if_pos isName]⟩
  cases found : state.byDigest.get? (valueDigest hmacHex entity value) with
  | some existing =>
      obtain ⟨row, rowMem, rfl, -, rfl⟩ := kept.row_of_byDigest injective member found
      have byToken := (kept.byToken row.token row.value).mpr ⟨row, rowMem, rfl, rfl⟩
      simp only [tokenFor, if_neg isName, found]
      exact ⟨⟨rows, kept⟩, Extends.refl state, Or.inr ⟨row.token, found, byToken⟩,
        by rw [tokenOf, if_neg isName, found]; rfl⟩
  | none =>
      simp only [tokenFor, if_neg isName, found] at bounded ⊢
      rcases issue_cases state style context entity value with
        ⟨name, issued, rfl, -, isValue, isMade, fresh⟩ | issued
      · rw [issued]
        have notTaken : name ∉ state.byToken.entries.map Prod.snd ∧ value ≠ name := by
          simp only [taken, List.mem_append, List.mem_singleton, not_or] at fresh
          exact ⟨fresh.1.2, Ne.symm fresh.2⟩
        refine kept.issued_remember _ member ⟨rfl, Or.inr ⟨rfl, isMade, isValue⟩⟩
          (kept.name_fresh fresh) found isName (fun _ => notTaken.2) ?_
        rintro - other known knownEq rfl
        exact notTaken.1 (List.mem_map_of_mem (OrderedDict.get?_eq_some_iff.mp knownEq))
      · rw [issued] at bounded ⊢
        have counted := kept.counting entity (Nat.le_succ (state.count entity))
        have extended := extends_counting state entity (Nat.le_succ (state.count entity))
        have small : state.count entity + 1 < 10 ^ 6 := by
          refine lt_of_le_of_lt ?_ bounded
          refine Nat.le_trans (Nat.le_of_eq ?_) (count_le_count_remember _ _ _)
          simp [count]
        have isToken := fullToken_token isEntity (Nat.succ_pos (state.count entity)) small
        have notNone : fullToken (Guardrails.token entity (state.count entity + 1)) ≠ none := by
          simp [isToken]
        have next := counted.issued_remember
          (state.unsaved ++ [⟨Guardrails.token entity (state.count entity + 1), entity,
            valueDigest hmacHex entity value, value⟩]) member
          ⟨rfl, Or.inl ⟨isEntity, _, Nat.succ_pos _, small, rfl⟩⟩
          (kept.nextToken_fresh isEntity small) found isName (fun none => absurd none notNone)
          (fun none => absurd none notNone)
        exact { next with extends_ := extended.trans next.extends_ }

end Settled

end Pseudonyms

end NaturalMold.Guardrails
