import NaturalMold.JsonValues
import NaturalMold.MarkedReplacements
import NaturalMold.OrderedDictionaries
import NaturalMold.PythonText

/-! # Masking the secrets of a run -/

namespace NaturalMold.SecretMasking

open MarkedReplacements

def minRedactLen : ℕ := 5

def redactedSensitiveField : List Char := "<redacted>".toList

/-- The secrets that are long enough, each once and longest first; a set does not fix the order of
secrets of one length. -/
def prepareSecretValues (secretValues : List (List Char)) : List (List Char) :=
  ((secretValues.filter fun value => minRedactLen ≤ value.length).dedup).mergeSort
    fun first second => second.length ≤ first.length

def replacePreparedSecretValues (text : List Char) (prepared : List (List Char))
    (placeholder : List Char) : List Char :=
  prepared.foldl
    (fun out value => if value <:+: out then PythonText.replace value placeholder out else out)
    text

def maskText (secrets : List (List Char)) (text : String) : String :=
  String.ofList (replacePreparedSecretValues text.toList secrets redactedSensitiveField)

/-- A dictionary built from its entries; a later entry replaces an earlier one of the same key. -/
def collapse (fields : List (String × Json)) : List (String × Json) :=
  fields.foldl (fun built field => OrderedDict.setEntry field.1 field.2 built) []

mutual

def maskValuesRecursive (secrets : List (List Char)) : Json → Json
  | .obj fields => .obj (collapse (maskFields secrets fields))
  | .arr items => .arr (maskItems secrets items)
  | .str value => .str (maskText secrets value)
  | .null => .null
  | .bool value => .bool value
  | .int value => .int value
  | .float value => .float value

def maskItems (secrets : List (List Char)) : List Json → List Json
  | [] => []
  | item :: items => maskValuesRecursive secrets item :: maskItems secrets items

def maskFields (secrets : List (List Char)) : List (String × Json) → List (String × Json)
  | [] => []
  | (key, value) :: fields =>
      (maskText secrets key, maskValuesRecursive secrets value) :: maskFields secrets fields

end

def maskKnownValues (data : Json) (secretValues : List (List Char)) : Json :=
  if secretValues = [] then data
  else
    let secrets := prepareSecretValues secretValues
    if secrets = [] then data else maskValuesRecursive secrets data

mutual

/-- The strings of a payload and the keys of its mappings. -/
def texts : Json → List String
  | .obj fields => textsOfFields fields
  | .arr items => textsOfItems items
  | .str value => [value]
  | .null | .bool _ | .int _ | .float _ => []

def textsOfItems : List Json → List String
  | [] => []
  | item :: items => texts item ++ textsOfItems items

def textsOfFields : List (String × Json) → List String
  | [] => []
  | (key, value) :: fields => key :: (texts value ++ textsOfFields fields)

end

theorem mem_prepareSecretValues {secretValues : List (List Char)} {value : List Char} :
    value ∈ prepareSecretValues secretValues ↔
      value ∈ secretValues ∧ minRedactLen ≤ value.length := by
  rw [prepareSecretValues, List.mem_mergeSort, List.mem_dedup, List.mem_filter, decide_eq_true_iff]

/-- A secret that shares nothing with the placeholder. -/
def Maskable (value : List Char) : Prop :=
  '<' ∉ value ∧ '>' ∉ value ∧ ¬value <:+: "redacted".toList

theorem Maskable.clear {value : List Char} (maskable : Maskable value) :
    Clear redactedSensitiveField value :=
  clear_of_bracketed maskable.1 maskable.2.1 maskable.2.2

theorem Maskable.ne_nil {value : List Char} (maskable : Maskable value) : value ≠ [] := by
  rintro rfl
  exact maskable.2.2 List.nil_infix

section Replacing

variable {text value other : List Char} {prepared : List (List Char)}

theorem not_infix_replace (maskable : Maskable value) (clear : Maskable other)
    (absent : ¬other <:+: text) :
    ¬other <:+: PythonText.replace value redactedSensitiveField text := by
  rw [PythonText.replace, if_neg maskable.ne_nil]
  exact not_infix_substitute maskable.ne_nil clear.clear absent

theorem not_infix_replace_self (maskable : Maskable value) :
    ¬value <:+: PythonText.replace value redactedSensitiveField text := by
  rw [PythonText.replace, if_neg maskable.ne_nil]
  exact not_infix_substitute_self maskable.ne_nil maskable.clear

/-- After all replacements, neither a replaced secret is left nor one that was never there: no
replacement brings back what an earlier one has removed. -/
theorem not_infix_replacePrepared (maskable : ∀ value ∈ prepared, Maskable value)
    (clear : Maskable other) (removed : other ∈ prepared ∨ ¬other <:+: text) :
    ¬other <:+: replacePreparedSecretValues text prepared redactedSensitiveField := by
  induction prepared generalizing text with
  | nil => exact removed.resolve_left List.not_mem_nil
  | cons value prepared ih =>
      obtain ⟨first, later⟩ := List.forall_mem_cons.mp maskable
      rw [replacePreparedSecretValues, List.foldl_cons]
      apply ih later
      by_cases same : other = value
      · right
        subst same
        split
        · exact not_infix_replace_self first
        · assumption
      · rcases removed with listed | absent
        · exact Or.inl ((List.mem_cons.mp listed).resolve_left same)
        · right
          split
          · exact not_infix_replace first clear absent
          · exact absent

end Replacing

theorem mem_collapse {fields : List (String × Json)} {field : String × Json}
    (member : field ∈ collapse fields) : field ∈ fields := by
  induction fields using List.reverseRecOn with
  | nil => exact absurd member List.not_mem_nil
  | append_singleton fields last ih =>
      rw [collapse, List.foldl_append, List.foldl_cons, List.foldl_nil] at member
      rcases OrderedDict.mem_setEntry member with rfl | earlier
      · exact List.mem_append_right fields (List.mem_singleton_self _)
      · exact List.mem_append_left [last] (ih earlier)

theorem mem_textsOfFields {fields : List (String × Json)} {text : String} :
    text ∈ textsOfFields fields ↔ ∃ field ∈ fields, text = field.1 ∨ text ∈ texts field.2 := by
  induction fields with
  | nil => simp [textsOfFields]
  | cons field fields ih =>
      obtain ⟨key, value⟩ := field
      rw [textsOfFields, List.mem_cons, List.mem_append, ih]
      simp [or_assoc]

theorem mem_textsOfFields_of_collapse {fields : List (String × Json)} {text : String}
    (member : text ∈ textsOfFields (collapse fields)) : text ∈ textsOfFields fields := by
  rw [mem_textsOfFields] at member ⊢
  obtain ⟨field, listed, here⟩ := member
  exact ⟨field, mem_collapse listed, here⟩

mutual

theorem exists_of_mem_texts (secrets : List (List Char)) {text : String} :
    ∀ data, text ∈ texts (maskValuesRecursive secrets data) →
      ∃ original, text = maskText secrets original
  | .obj fields, member => by
      rw [maskValuesRecursive, texts] at member
      exact exists_of_mem_textsOfFields secrets fields (mem_textsOfFields_of_collapse member)
  | .arr items, member => by
      rw [maskValuesRecursive, texts] at member
      exact exists_of_mem_textsOfItems secrets items member
  | .str value, member => by
      rw [maskValuesRecursive, texts, List.mem_singleton] at member
      exact ⟨value, member⟩
  | .null, member | .bool _, member | .int _, member | .float _, member => by
      rw [maskValuesRecursive, texts] at member
      exact absurd member List.not_mem_nil

theorem exists_of_mem_textsOfItems (secrets : List (List Char)) {text : String} :
    ∀ items, text ∈ textsOfItems (maskItems secrets items) →
      ∃ original, text = maskText secrets original
  | [], member => by
      rw [maskItems, textsOfItems] at member
      exact absurd member List.not_mem_nil
  | item :: items, member => by
      rw [maskItems, textsOfItems, List.mem_append] at member
      rcases member with here | later
      · exact exists_of_mem_texts secrets item here
      · exact exists_of_mem_textsOfItems secrets items later

theorem exists_of_mem_textsOfFields (secrets : List (List Char)) {text : String} :
    ∀ fields, text ∈ textsOfFields (maskFields secrets fields) →
      ∃ original, text = maskText secrets original
  | [], member => by
      rw [maskFields, textsOfFields] at member
      exact absurd member List.not_mem_nil
  | (key, value) :: fields, member => by
      rw [maskFields, textsOfFields, List.mem_cons, List.mem_append] at member
      rcases member with named | here | later
      · exact ⟨key, named⟩
      · exact exists_of_mem_texts secrets value here
      · exact exists_of_mem_textsOfFields secrets fields later

end

/-- No string and no key of a masked payload contains a secret that is long enough. -/
theorem not_infix_maskKnownValues (data : Json) (secretValues : List (List Char))
    (unmarked : ∀ value ∈ secretValues, '<' ∉ value ∧ '>' ∉ value)
    (apart : ∀ value ∈ secretValues, ¬value <:+: "redacted".toList) :
    ∀ secret ∈ secretValues, minRedactLen ≤ secret.length →
      ∀ text ∈ texts (maskKnownValues data secretValues), ¬secret <:+: text.toList := by
  intro secret injected long text member
  have maskable : ∀ value ∈ secretValues, Maskable value := fun value listed =>
    ⟨(unmarked value listed).1, (unmarked value listed).2, apart value listed⟩
  have prepared : secret ∈ prepareSecretValues secretValues :=
    mem_prepareSecretValues.mpr ⟨injected, long⟩
  rw [maskKnownValues, if_neg (List.ne_nil_of_mem injected), if_neg (List.ne_nil_of_mem prepared)]
    at member
  obtain ⟨original, rfl⟩ := exists_of_mem_texts _ data member
  rw [maskText, String.toList_ofList]
  refine not_infix_replacePrepared (fun value listed => ?_) (maskable secret injected)
    (Or.inl prepared)
  exact maskable value (mem_prepareSecretValues.mp listed).1

theorem prepareSecretValues_overlapping :
    prepareSecretValues ["abcdef".toList, "defgh".toList] =
      ["abcdef".toList, "defgh".toList] := by
  have prepared : (["abcdef".toList, "defgh".toList].filter
      fun value => minRedactLen ≤ value.length).dedup = ["abcdef".toList, "defgh".toList] := by
    decide
  rw [prepareSecretValues, prepared]
  exact List.mergeSort_of_pairwise (by decide)

/-- Two secrets that overlap in a key and in a string. -/
theorem not_infix_maskKnownValues_overlapping :
    "x<redacted>ghx" ∈ texts (maskKnownValues
        (.obj [("abcdefgh", .arr [.str "xabcdefghx", .int 1])])
        ["abcdef".toList, "defgh".toList]) ∧
      ¬"abcdef".toList <:+: "x<redacted>ghx".toList := by
  have shown : "x<redacted>ghx" ∈ texts (maskKnownValues
      (.obj [("abcdefgh", .arr [.str "xabcdefghx", .int 1])])
      ["abcdef".toList, "defgh".toList]) := by
    rw [maskKnownValues, prepareSecretValues_overlapping]
    decide
  exact ⟨shown, not_infix_maskKnownValues _ _ (by decide) (by decide)
    "abcdef".toList List.mem_cons_self (by decide) _ shown⟩

end NaturalMold.SecretMasking
