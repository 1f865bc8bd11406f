import Mathlib.Data.List.Enum
import NaturalMold.NestedValues

/-!
# Rewritten arguments of a tool call

The texts of the arguments are checked one by one, and each one that a check has changed is written
back at its path.
-/

namespace NaturalMold.LeafRewriting

open Nested

variable {Key Scalar : Type}

/-- A leaf of a Python value. -/
inductive Leaf (Scalar : Type) where
  | text (value : List Char)
  | scalar (value : Scalar)

abbrev Value (Key Scalar : Type) :=
  Nested Key (Leaf Scalar)

abbrev Path (Key : Type) :=
  List (Step Key)

mutual

/-- `_leaves`. -/
def leaves (path : Path Key) : Value Key Scalar → List (Path Key × List Char)
  | .leaf (.text value) => [(path, value)]
  | .leaf (.scalar _) => []
  | .dict fields => leavesOfFields path fields
  | .list items => leavesOfItems path 0 items
  | .tuple items => leavesOfItems path 0 items

def leavesOfFields (path : Path Key) :
    List (Key × Value Key Scalar) → List (Path Key × List Char)
  | [] => []
  | (key, value) :: fields => leaves (path ++ [.key key]) value ++ leavesOfFields path fields

def leavesOfItems (path : Path Key) : ℕ → List (Value Key Scalar) → List (Path Key × List Char)
  | _, [] => []
  | index, item :: items =>
      leaves (path ++ [.index index]) item ++ leavesOfItems path (index + 1) items

end

/-- `_replace_leaf`; a path that leads nowhere raises. -/
def replaceLeaf [DecidableEq Key] (value : Value Key Scalar) (path : Path Key) (text : List Char) :
    Option (Value Key Scalar) :=
  match value, path with
  | _, [] => some (.leaf (.text text))
  | .dict fields, .key key :: rest => do
      let child ← OrderedDict.lookupEntry key fields
      let replaced ← replaceLeaf child rest text
      return .dict (OrderedDict.setEntry key replaced fields)
  | .list items, .index index :: rest => do
      let child ← items[index]?
      let replaced ← replaceLeaf child rest text
      return .list (items.set index replaced)
  | .tuple items, .index index :: rest => do
      let child ← items[index]?
      let replaced ← replaceLeaf child rest text
      return .tuple (items.set index replaced)
  -- `list` of a text gives its characters
  | .leaf (.text value), .index index :: rest => do
      let char ← value[index]?
      let replaced ← replaceLeaf (.leaf (.text [char])) rest text
      return .tuple ((value.map fun char => .leaf (.text [char])).set index replaced)
  | _, _ :: _ => none
termination_by structural path

def replaceLeaves [DecidableEq Key] (value : Value Key Scalar)
    (edits : List (Path Key × List Char)) : Option (Value Key Scalar) :=
  edits.foldlM (fun value edit => replaceLeaf value edit.1 edit.2) value

/-- The loop of `_guard_tool_call`: what a check has changed is written back. -/
def guardArgs [DecidableEq Key] (args : Value Key Scalar) (results : List (List Char)) :
    Option (Value Key Scalar) :=
  ((leaves [] args).zip results).foldlM
    (fun rewritten pair =>
      if pair.2 ≠ pair.1.2 then replaceLeaf rewritten pair.1.1 pair.2 else some rewritten)
    args

/-- The loop writes the results that differ from the texts that were checked. -/
theorem guardArgs_eq [DecidableEq Key] (args : Value Key Scalar) (results : List (List Char)) :
    guardArgs args results =
      replaceLeaves args ((((leaves [] args).zip results).filter fun pair =>
        pair.2 ≠ pair.1.2).map fun pair => (pair.1.1, pair.2)) := by
  rw [guardArgs, replaceLeaves, List.foldlM_map]
  generalize args = rewritten, (leaves [] args).zip results = pairs
  induction pairs generalizing rewritten with
  | nil => rfl
  | cons pair pairs ih =>
      rw [List.foldlM_cons]
      by_cases changed : pair.2 ≠ pair.1.2
      · rw [if_pos changed, List.filter_cons_of_pos (by simpa using changed), List.foldlM_cons]
        exact congrArg _ (funext ih)
      · rw [if_neg changed, List.filter_cons_of_neg (by simpa using changed)]
        exact ih rewritten

mutual

def withTexts (change : Path Key → List Char → List Char) (path : Path Key) :
    Value Key Scalar → Value Key Scalar
  | .leaf (.text value) => .leaf (.text (change path value))
  | .leaf (.scalar value) => .leaf (.scalar value)
  | .dict fields => .dict (withTextsOfFields change path fields)
  | .list items => .list (withTextsOfItems change path 0 items)
  | .tuple items => .tuple (withTextsOfItems change path 0 items)

def withTextsOfFields (change : Path Key → List Char → List Char) (path : Path Key) :
    List (Key × Value Key Scalar) → List (Key × Value Key Scalar)
  | [] => []
  | (key, value) :: fields =>
      (key, withTexts change (path ++ [.key key]) value) :: withTextsOfFields change path fields

def withTextsOfItems (change : Path Key → List Char → List Char) (path : Path Key) :
    ℕ → List (Value Key Scalar) → List (Value Key Scalar)
  | _, [] => []
  | index, item :: items =>
      withTexts change (path ++ [.index index]) item ::
        withTextsOfItems change path (index + 1) items

end

mutual

/-- Every text is found where it was, with its change. -/
theorem leaves_withTexts (change : Path Key → List Char → List Char) (path : Path Key) :
    ∀ value : Value Key Scalar, leaves path (withTexts change path value) =
      (leaves path value).map fun leaf => (leaf.1, change leaf.1 leaf.2)
  | .leaf (.text _) => rfl
  | .leaf (.scalar _) => rfl
  | .dict fields => leavesOfFields_withTexts change path fields
  | .list items => leavesOfItems_withTexts change path 0 items
  | .tuple items => leavesOfItems_withTexts change path 0 items

theorem leavesOfFields_withTexts (change : Path Key → List Char → List Char) (path : Path Key) :
    ∀ fields : List (Key × Value Key Scalar),
      leavesOfFields path (withTextsOfFields change path fields) =
        (leavesOfFields path fields).map fun leaf => (leaf.1, change leaf.1 leaf.2)
  | [] => rfl
  | (key, value) :: fields => by
      rw [withTextsOfFields, leavesOfFields, leavesOfFields, List.map_append,
        leaves_withTexts, leavesOfFields_withTexts]

theorem leavesOfItems_withTexts (change : Path Key → List Char → List Char) (path : Path Key) :
    ∀ (index : ℕ) (items : List (Value Key Scalar)),
      leavesOfItems path index (withTextsOfItems change path index items) =
        (leavesOfItems path index items).map fun leaf => (leaf.1, change leaf.1 leaf.2)
  | _, [] => rfl
  | index, item :: items => by
      rw [withTextsOfItems, leavesOfItems, leavesOfItems, List.map_append,
        leaves_withTexts, leavesOfItems_withTexts]

end

mutual

/-- Texts that are rewritten twice. -/
theorem withTexts_withTexts (first second : Path Key → List Char → List Char) (path : Path Key) :
    ∀ value : Value Key Scalar, withTexts second path (withTexts first path value) =
      withTexts (fun path text => second path (first path text)) path value
  | .leaf (.text _) => rfl
  | .leaf (.scalar _) => rfl
  | .dict fields => congrArg Nested.dict (withTextsOfFields_withTexts first second path fields)
  | .list items => congrArg Nested.list (withTextsOfItems_withTexts first second path 0 items)
  | .tuple items => congrArg Nested.tuple (withTextsOfItems_withTexts first second path 0 items)

theorem withTextsOfFields_withTexts (first second : Path Key → List Char → List Char)
    (path : Path Key) : ∀ fields : List (Key × Value Key Scalar),
      withTextsOfFields second path (withTextsOfFields first path fields) =
        withTextsOfFields (fun path text => second path (first path text)) path fields
  | [] => rfl
  | (key, value) :: fields => by
      rw [withTextsOfFields, withTextsOfFields, withTextsOfFields, withTexts_withTexts,
        withTextsOfFields_withTexts]

theorem withTextsOfItems_withTexts (first second : Path Key → List Char → List Char)
    (path : Path Key) : ∀ (index : ℕ) (items : List (Value Key Scalar)),
      withTextsOfItems second path index (withTextsOfItems first path index items) =
        withTextsOfItems (fun path text => second path (first path text)) path index items
  | _, [] => rfl
  | index, item :: items => by
      rw [withTextsOfItems, withTextsOfItems, withTextsOfItems, withTexts_withTexts,
        withTextsOfItems_withTexts]

end

mutual

/-- A value whose texts stay is the value. -/
theorem withTexts_eq_self {change : Path Key → List Char → List Char} (path : Path Key) :
    ∀ value : Value Key Scalar, (∀ leaf ∈ leaves path value, change leaf.1 leaf.2 = leaf.2) →
      withTexts change path value = value
  | .leaf (.text _), same =>
      congrArg (fun text => Nested.leaf (Leaf.text text)) (same _ List.mem_cons_self)
  | .leaf (.scalar _), _ => rfl
  | .dict fields, same => congrArg Nested.dict (withTextsOfFields_eq_self path fields same)
  | .list items, same => congrArg Nested.list (withTextsOfItems_eq_self path 0 items same)
  | .tuple items, same => congrArg Nested.tuple (withTextsOfItems_eq_self path 0 items same)

theorem withTextsOfFields_eq_self {change : Path Key → List Char → List Char} (path : Path Key) :
    ∀ fields : List (Key × Value Key Scalar),
      (∀ leaf ∈ leavesOfFields path fields, change leaf.1 leaf.2 = leaf.2) →
        withTextsOfFields change path fields = fields
  | [], _ => rfl
  | (key, value) :: fields, same => by
      rw [leavesOfFields, List.forall_mem_append] at same
      rw [withTextsOfFields, withTexts_eq_self _ value same.1,
        withTextsOfFields_eq_self path fields same.2]

theorem withTextsOfItems_eq_self {change : Path Key → List Char → List Char} (path : Path Key) :
    ∀ (index : ℕ) (items : List (Value Key Scalar)),
      (∀ leaf ∈ leavesOfItems path index items, change leaf.1 leaf.2 = leaf.2) →
        withTextsOfItems change path index items = items
  | _, [], _ => rfl
  | index, item :: items, same => by
      rw [leavesOfItems, List.forall_mem_append] at same
      rw [withTextsOfItems, withTexts_eq_self _ item same.1,
        withTextsOfItems_eq_self path (index + 1) items same.2]

end

theorem leavesOfFields_eq (path : Path Key) (fields : List (Key × Value Key Scalar)) :
    leavesOfFields path fields =
      fields.flatMap fun field => leaves (path ++ [.key field.1]) field.2 := by
  induction fields with
  | nil => rfl
  | cons field fields ih => rw [leavesOfFields, ih, List.flatMap_cons]

theorem leavesOfItems_eq (path : Path Key) (index : ℕ) (items : List (Value Key Scalar)) :
    leavesOfItems path index items =
      (items.zipIdx index).flatMap fun entry => leaves (path ++ [.index entry.2]) entry.1 := by
  induction items generalizing index with
  | nil => rfl
  | cons item items ih => rw [leavesOfItems, ih, List.zipIdx_cons, List.flatMap_cons]

variable (change : Path Key → List Char → List Char)

theorem withTextsOfFields_eq (path : Path Key) (fields : List (Key × Value Key Scalar)) :
    withTextsOfFields change path fields =
      fields.map fun field => (field.1, withTexts change (path ++ [.key field.1]) field.2) := by
  induction fields with
  | nil => rfl
  | cons field fields ih => rw [withTextsOfFields, ih, List.map_cons]

theorem withTextsOfItems_eq (path : Path Key) (index : ℕ) (items : List (Value Key Scalar)) :
    withTextsOfItems change path index items =
      (items.zipIdx index).map fun entry =>
        withTexts change (path ++ [.index entry.2]) entry.1 := by
  induction items generalizing index with
  | nil => rfl
  | cons item items ih => rw [withTextsOfItems, ih, List.zipIdx_cons, List.map_cons]

variable {value : Value Key Scalar}

theorem distinct_withTexts (distinct : value.Distinct) (change : Path Key → List Char → List Char)
    (path : Path Key) : (withTexts change path value).Distinct := by
  induction distinct generalizing path with
  | leaf value =>
      cases value with
      | text text => exact .leaf _
      | scalar value => exact .leaf _
  | list _ ih =>
      apply Nested.Distinct.list
      rw [withTextsOfItems_eq, List.forall_mem_map]
      exact fun entry member => ih _ (List.fst_mem_of_mem_zipIdx member) _
  | tuple _ ih =>
      apply Nested.Distinct.tuple
      rw [withTextsOfItems_eq, List.forall_mem_map]
      exact fun entry member => ih _ (List.fst_mem_of_mem_zipIdx member) _
  | dict distinct _ ih =>
      apply Nested.Distinct.dict
      · rwa [withTextsOfFields_eq, List.map_map]
      · rw [withTextsOfFields_eq, List.forall_mem_map]
        exact fun field member => ih field member _

variable {path : Path Key}

/-- The path of a leaf goes on from where the search began. -/
theorem isPrefix_of_mem_leaves {leaf : Path Key × List Char} (member : leaf ∈ leaves path value) :
    path <+: leaf.1 := by
  have ofItems : ∀ items : List (Value Key Scalar), (∀ item ∈ items, ∀ path,
      leaf ∈ leaves path item → path <+: leaf.1) → ∀ path, leaf ∈ leavesOfItems path 0 items →
        path <+: leaf.1 := by
    intro items ih path member
    rw [leavesOfItems_eq, List.mem_flatMap] at member
    obtain ⟨entry, listed, member⟩ := member
    exact (List.prefix_append _ _).trans (ih _ (List.fst_mem_of_mem_zipIdx listed) _ member)
  revert path
  induction value using Nested.induction with
  | leaf value =>
      intro path member
      cases value with
      | text text =>
          obtain rfl := List.mem_singleton.mp member
          exact List.prefix_rfl
      | scalar value => cases member
  | list items ih =>
      intro path member
      exact ofItems items (fun item listed _ => ih item listed) path member
  | tuple items ih =>
      intro path member
      exact ofItems items (fun item listed _ => ih item listed) path member
  | dict fields ih =>
      intro path member
      rw [leaves, leavesOfFields_eq, List.mem_flatMap] at member
      obtain ⟨field, listed, member⟩ := member
      exact (List.prefix_append _ _).trans (ih field listed member)

def writeAt [DecidableEq Key] (target : Path Key) (text : List Char) (path : Path Key)
    (old : List Char) : List Char :=
  if path = target then text else old

/-- What stands elsewhere keeps its texts. -/
theorem withTexts_writeAt_eq_self [DecidableEq Key] {target : Path Key} {text : List Char}
    (apart : ¬path <+: target) : withTexts (writeAt target text) path value = value := by
  apply withTexts_eq_self
  intro leaf member
  rw [writeAt, if_neg]
  rintro rfl
  exact apart (isPrefix_of_mem_leaves member)

theorem isPrefix_step_iff {rest : Path Key} {first second : Step Key} :
    path ++ [first] <+: path ++ second :: rest ↔ first = second := by
  rw [List.prefix_append_right_inj, List.cons_prefix_cons]
  simp

/-- A list in which the item at one index has a new text. -/
theorem set_eq_withTextsOfItems [DecidableEq Key] {rest : Path Key} {text : List Char}
    {items : List (Value Key Scalar)} {index : ℕ} {child : Value Key Scalar}
    (found : items[index]? = some child) :
    items.set index (withTexts (writeAt (path ++ .index index :: rest) text)
        (path ++ [.index index]) child) =
      withTextsOfItems (writeAt (path ++ .index index :: rest) text) path 0 items := by
  rw [withTextsOfItems_eq]
  apply List.ext_getElem?
  intro other
  rw [List.getElem?_set, List.getElem?_map, List.getElem?_zipIdx]
  split
  case isTrue same =>
      subst same
      have inside : index < items.length := (List.getElem?_eq_some_iff.mp found).1
      rw [if_pos inside, found]
      simp
  case isFalse differs =>
  cases items[other]? with
  | none => rfl
  | some item =>
      simp only [Option.map_some, Option.some.injEq, Nat.zero_add]
      rw [withTexts_writeAt_eq_self]
      rw [isPrefix_step_iff]
      intro same
      exact differs (Step.index.inj same).symm

/-- A dictionary in which the value of one key has a new text. -/
theorem setEntry_eq_withTextsOfFields [DecidableEq Key]
    {fields : List (Key × Value Key Scalar)} (distinct : (fields.map Prod.fst).Nodup) {key : Key}
    {child : Value Key Scalar} (listed : (key, child) ∈ fields) (path rest : Path Key)
    (text : List Char) :
    OrderedDict.lookupEntry key fields = some child ∧
      OrderedDict.setEntry key (withTexts (writeAt (path ++ .key key :: rest) text)
          (path ++ [.key key]) child) fields =
        withTextsOfFields (writeAt (path ++ .key key :: rest) text) path fields := by
  induction fields with
  | nil => cases listed
  | cons field fields ih =>
      obtain ⟨name, value⟩ := field
      rw [List.map_cons, List.nodup_cons] at distinct
      rw [OrderedDict.lookupEntry, OrderedDict.setEntry, withTextsOfFields]
      rcases List.mem_cons.mp listed with here | later
      · obtain ⟨rfl, rfl⟩ := Prod.mk.inj here
        rw [if_pos rfl, if_pos rfl]
        refine ⟨rfl, ?_⟩
        rw [withTextsOfFields_eq_self path fields]
        intro leaf member
        rw [leavesOfFields_eq, List.mem_flatMap] at member
        obtain ⟨other, otherListed, member⟩ := member
        rw [writeAt, if_neg]
        rintro same
        have under := isPrefix_of_mem_leaves member
        rw [same, isPrefix_step_iff] at under
        exact distinct.1 (List.mem_map.mpr ⟨other, otherListed, Step.key.inj under⟩)
      · have differs : name ≠ key := by
          rintro rfl
          exact distinct.1 (List.mem_map.mpr ⟨_, later, rfl⟩)
        obtain ⟨found, set⟩ := ih distinct.2 later
        rw [if_neg differs, if_neg differs, found, set, withTexts_writeAt_eq_self]
        · exact ⟨rfl, rfl⟩
        · rw [isPrefix_step_iff]
          intro same
          exact differs (Step.key.inj same)

/-- A leaf below a step is reached by that step. -/
theorem exists_rest_of_mem {rest : Path Key} {step : Step Key} {text : List Char}
    (member : (path ++ rest, text) ∈ leaves (path ++ [step]) value) :
    ∃ below, rest = step :: below ∧
      (path ++ [step] ++ below, text) ∈ leaves (path ++ [step]) value := by
  obtain ⟨below, same⟩ := isPrefix_of_mem_leaves member
  dsimp only at same
  rw [List.append_assoc, List.append_cancel_left_eq] at same
  subst same
  rw [← List.append_assoc] at member
  exact ⟨below, rfl, member⟩

/-- Writing at the path of a leaf changes the text there and nothing else. -/
theorem replaceLeaf_eq [DecidableEq Key] (distinct : value.Distinct) {rest : Path Key}
    {old : List Char} (member : (path ++ rest, old) ∈ leaves path value) (text : List Char) :
    replaceLeaf value rest text = some (withTexts (writeAt (path ++ rest) text) path value) := by
  have inItems : ∀ items : List (Value Key Scalar),
      (∀ item ∈ items, ∀ {path rest : Path Key}, (path ++ rest, old) ∈ leaves path item →
        replaceLeaf item rest text = some (withTexts (writeAt (path ++ rest) text) path item)) →
      ∀ path rest, (path ++ rest, old) ∈ leavesOfItems path 0 items →
        ∃ index below child replaced, rest = .index index :: below ∧
          items[index]? = some child ∧ replaceLeaf child below text = some replaced ∧
          items.set index replaced =
            withTextsOfItems (writeAt (path ++ rest) text) path 0 items := by
    intro items ih path rest member
    rw [leavesOfItems_eq, List.mem_flatMap] at member
    obtain ⟨⟨child, index⟩, listed, member⟩ := member
    obtain ⟨below, rfl, deeper⟩ := exists_rest_of_mem member
    have found := List.mem_zipIdx_iff_getElem?.mp listed
    have replaced := ih child (List.fst_mem_of_mem_zipIdx listed) deeper
    rw [List.append_assoc, List.singleton_append] at replaced
    exact ⟨index, below, child, _, rfl, found, replaced, set_eq_withTextsOfItems found⟩
  induction distinct generalizing path rest with
  | leaf value =>
      cases value with
      | text old =>
          have ended : rest = [] := by
            simpa [leaves] using (Prod.mk.inj (List.mem_singleton.mp member)).1
          subst ended
          simp [replaceLeaf, withTexts, writeAt]
      | scalar value => cases member
  | @list items _ ih =>
      obtain ⟨index, below, child, new, rfl, found, replaced, set⟩ :=
        inItems items (fun item listed _ _ => ih item listed) path rest member
      simp [replaceLeaf, found, replaced, set, withTexts]
  | @tuple items _ ih =>
      obtain ⟨index, below, child, new, rfl, found, replaced, set⟩ :=
        inItems items (fun item listed _ _ => ih item listed) path rest member
      simp [replaceLeaf, found, replaced, set, withTexts]
  | @dict fields distinct _ ih =>
      rw [leaves, leavesOfFields_eq, List.mem_flatMap] at member
      obtain ⟨⟨key, child⟩, listed, member⟩ := member
      obtain ⟨below, rfl, deeper⟩ := exists_rest_of_mem member
      have replaced := ih (key, child) listed deeper
      rw [List.append_assoc, List.singleton_append] at replaced
      obtain ⟨found, set⟩ := setEntry_eq_withTextsOfFields distinct listed path below text
      simp [replaceLeaf, found, replaced, set, withTexts]

/-- A Python value: no dictionary has a key twice. -/
structure Argument (Key Scalar : Type) where
  value : Value Key Scalar
  distinct : value.Distinct

/-- New texts for some of the leaves, in any order. -/
structure Assignment (value : Value Key Scalar) where
  edits : List (Path Key × List Char)
  once : (edits.map Prod.fst).Nodup
  listed : ∀ edit ∈ edits, edit.1 ∈ (leaves [] value).map Prod.fst

def shape (value : Value Key Scalar) : Value Key Scalar :=
  withTexts (fun _ _ => []) [] value

def newText [DecidableEq Key] (edits : List (Path Key × List Char)) (path : Path Key)
    (old : List Char) : List Char :=
  (OrderedDict.lookupEntry path edits).getD old

theorem paths_withTexts (value : Value Key Scalar) :
    (leaves [] (withTexts change [] value)).map Prod.fst = (leaves [] value).map Prod.fst := by
  rw [leaves_withTexts, List.map_map]
  rfl

/-- One edit after another is all of them at once. -/
theorem replaceLeaves_eq [DecidableEq Key] (distinct : value.Distinct)
    {edits : List (Path Key × List Char)} (once : (edits.map Prod.fst).Nodup)
    (listed : ∀ edit ∈ edits, edit.1 ∈ (leaves [] value).map Prod.fst) :
    replaceLeaves value edits = some (withTexts (newText edits) [] value) := by
  induction edits generalizing value with
  | nil =>
      rw [withTexts_eq_self]
      · rfl
      · exact fun _ _ => rfl
  | cons edit edits ih =>
      obtain ⟨path, text⟩ := edit
      rw [List.map_cons, List.nodup_cons] at once
      rw [List.forall_mem_cons] at listed
      obtain ⟨⟨place, old⟩, member, same⟩ := List.mem_map.mp listed.1
      dsimp only at same
      subst same
      have written := @replaceLeaf_eq _ _ _ [] _ distinct place old member text
      rw [replaceLeaves, List.foldlM_cons, written]
      change replaceLeaves _ edits = _
      rw [ih (distinct_withTexts distinct _ _) once.2, withTexts_withTexts]
      · congr 2
        funext other old
        rw [newText, newText, OrderedDict.lookupEntry, writeAt]
        by_cases same : other = place
        · subst same
          have absent := (@OrderedDict.get?_eq_none_iff _ _ _ ⟨edits, once.2⟩ other).mpr
            once.1
          rw [OrderedDict.get?] at absent
          rw [absent, List.nil_append, if_pos rfl, if_pos rfl]
          rfl
        · rw [if_neg (by simpa using same), if_neg (Ne.symm same)]
      · rw [paths_withTexts]
        exact listed.2

/-- What comes of writing new texts at some of the leaves. -/
structure RewritesLeaves [DecidableEq Key] (before : Value Key Scalar)
    (edits : List (Path Key × List Char)) (after : Value Key Scalar) : Prop where
  written : replaceLeaves before edits = some after
  shape : shape after = shape before
  leaves : leaves [] after = (leaves [] before).map fun leaf =>
    (leaf.1, newText edits leaf.1 leaf.2)
  paths : (LeafRewriting.leaves [] after).map Prod.fst =
    (LeafRewriting.leaves [] before).map Prod.fst
  distinct : after.Distinct

/-- New texts for some of the leaves can be written in any order. -/
theorem exists_rewritesLeaves [DecidableEq Key] (argument : Argument Key Scalar)
    (assignment : Assignment argument.value) :
    ∃ after, RewritesLeaves argument.value assignment.edits after ∧
      ∀ edits, assignment.edits.Perm edits → replaceLeaves argument.value edits = some after := by
  use withTexts (newText assignment.edits) [] argument.value
  constructor
  · constructor
    case written => exact replaceLeaves_eq argument.distinct assignment.once assignment.listed
    case shape => rw [shape, shape, withTexts_withTexts]
    case leaves => exact leaves_withTexts _ _ _
    case paths => exact paths_withTexts _ _
    case distinct => exact distinct_withTexts argument.distinct _ _
  · intro edits reordered
    have once := (reordered.map Prod.fst).nodup_iff.mp assignment.once
    rw [replaceLeaves_eq argument.distinct once
      fun edit member => assignment.listed edit (reordered.mem_iff.mpr member)]
    congr 2
    funext path old
    rw [newText, newText]
    congr 1
    ext text
    have first := @OrderedDict.get?_eq_some_iff _ _ _ ⟨_, once⟩ path text
    have second := @OrderedDict.get?_eq_some_iff _ _ _ ⟨_, assignment.once⟩ path text
    rw [OrderedDict.get?] at first second
    rw [first, second]
    exact reordered.mem_iff.symm

end NaturalMold.LeafRewriting
