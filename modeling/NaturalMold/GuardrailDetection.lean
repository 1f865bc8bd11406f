import NaturalMold.GuardrailRules
import NaturalMold.OrderedDictionaries
import Mathlib.Data.List.Sort
import Mathlib.Algebra.Order.Ring.Rat

/-!
# Detector packs and the model service

A pack reports spans of a text.
-/

namespace NaturalMold.Guardrails

structure Finding where
  entity : String
  start : Nat
  stop : Nat
  score : ℚ
  pack : String
  deriving DecidableEq

namespace Finding

/-- What makes two findings the same span of the same entity. -/
def key (finding : Finding) : String × Nat × Nat :=
  (finding.entity, finding.start, finding.stop)

/-- Text order: by start, then end, then entity. -/
def InOrder (first second : Finding) : Prop :=
  first.start < second.start ∨
    first.start = second.start ∧
      (first.stop < second.stop ∨ first.stop = second.stop ∧ first.entity ≤ second.entity)

instance : DecidableRel InOrder := fun _ _ =>
  inferInstanceAs (Decidable (_ ∨ _ ∧ (_ ∨ _ ∧ _)))

end Finding

/-- Keep a finding unless its span already has one that scores at least as high. -/
def mergeStep (best : OrderedDict (String × Nat × Nat) Finding) (finding : Finding) :
    OrderedDict (String × Nat × Nat) Finding :=
  match best.get? finding.key with
  | none => best.set finding.key finding
  | some held =>
      if held.score < finding.score then best.set finding.key finding else best

def bestFindings (findings : List Finding) : OrderedDict (String × Nat × Nat) Finding :=
  findings.foldl mergeStep OrderedDict.empty

/-- One finding per entity and span, highest score kept, in text order. -/
def merge (findings : List Finding) : List Finding :=
  ((bestFindings findings).entries.map Prod.snd).insertionSort Finding.InOrder

def KeyedFindings (best : OrderedDict (String × Nat × Nat) Finding) : Prop :=
  ∀ entry ∈ best.entries, entry.1 = entry.2.key

theorem KeyedFindings.set {best : OrderedDict (String × Nat × Nat) Finding}
    (keyed : KeyedFindings best) (finding : Finding) :
    KeyedFindings (best.set finding.key finding) := by
  intro entry member
  rcases OrderedDict.mem_setEntry member with rfl | old
  · rfl
  · exact keyed entry old

theorem KeyedFindings.mergeStep {best : OrderedDict (String × Nat × Nat) Finding}
    (keyed : KeyedFindings best) (finding : Finding) :
    KeyedFindings (mergeStep best finding) := by
  unfold Guardrails.mergeStep
  split
  · exact keyed.set finding
  · split
    · exact keyed.set finding
    · exact keyed

theorem keyedFindings_bestFindings (findings : List Finding) :
    KeyedFindings (bestFindings findings) := by
  suffices general : ∀ best, KeyedFindings best →
      KeyedFindings (findings.foldl mergeStep best) from
    general _ (by simp [KeyedFindings])
  induction findings with
  | nil => exact fun _ keyed => keyed
  | cons finding findings ih => exact fun best keyed => ih _ (keyed.mergeStep finding)

/-- No two merged findings share entity and span. -/
theorem nodup_key_merge (findings : List Finding) :
    ((merge findings).map Finding.key).Nodup := by
  have keys : ((bestFindings findings).entries.map Prod.snd).map Finding.key =
      (bestFindings findings).keys := by
    rw [List.map_map]
    exact List.map_congr_left fun entry member =>
      (keyedFindings_bestFindings findings entry member).symm
  have permuted := (List.perm_insertionSort Finding.InOrder
    ((bestFindings findings).entries.map Prod.snd)).map Finding.key
  rw [keys] at permuted
  exact permuted.nodup_iff.mpr (bestFindings findings).keys_nodup

def modelPack : String := "kr_model"
def maxTextsPerRequest : Nat := 64
def maxRequestBytes : Nat := 2 ^ 20 - 1024

/-- Bytes of one code point inside a JSON string that is not forced to ASCII. -/
def jsonCharBytes (char : Char) : Nat :=
  if char = '"' ∨ char = '\\' ∨ char = '\n' ∨ char = '\r' ∨ char = '\t' ∨
      char = '\x08' ∨ char = '\x0c' then 2
  else if char.toNat < 32 then 6
  else char.utf8Size

/-- Bytes a text takes in a request: the JSON string with its quotes and a comma. -/
def encodedSize (text : Text) : Nat :=
  text.foldl (fun size char => size + jsonCharBytes char) 0 + 2 + 1

/-- The batches closed so far, the open batch and its size. -/
structure Batching where
  batches : List (List Nat) := []
  current : List Nat := []
  size : Nat := 0

/-- Put one text into the open batch, closing it first when the text does not
fit; a text too large for any request is left out. -/
def Batching.add (batching : Batching) (index : Nat) (text : Text) : Batching :=
  let encoded := encodedSize text
  if encoded > maxRequestBytes then batching
  else if batching.current ≠ [] ∧
      (batching.current.length = maxTextsPerRequest ∨
        batching.size + encoded > maxRequestBytes) then
    { batches := batching.batches ++ [batching.current]
      current := [index]
      size := encoded }
  else
    { batching with
      current := batching.current ++ [index]
      size := batching.size + encoded }

def Batching.finish (batching : Batching) : List (List Nat) :=
  if batching.current = [] then batching.batches
  else batching.batches ++ [batching.current]

/-- Text indexes grouped into requests. -/
def batches (texts : List Text) : List (List Nat) :=
  (texts.zipIdx.foldl
    (fun (batching : Batching) entry => batching.add entry.2 entry.1) {}).finish

def Batching.listed (batching : Batching) : List Nat :=
  batching.batches.flatten ++ batching.current

theorem Batching.listed_add (batching : Batching) (index : Nat) (text : Text) :
    (batching.add index text).listed =
      if encodedSize text > maxRequestBytes then batching.listed
      else batching.listed ++ [index] := by
  unfold Batching.add Batching.listed
  by_cases large : encodedSize text > maxRequestBytes
  · simp [large]
  · simp only [large, if_false]
    split <;> simp

theorem Batching.flatten_finish (batching : Batching) :
    batching.finish.flatten = batching.listed := by
  unfold Batching.finish Batching.listed
  split
  · rename_i empty
    simp [empty]
  · simp

theorem flatten_batches (texts : List Text) :
    (batches texts).flatten =
      (texts.zipIdx.filter fun entry => encodedSize entry.1 ≤ maxRequestBytes).map
        Prod.snd := by
  suffices general : ∀ (entries : List (Text × Nat)) (batching : Batching),
      (entries.foldl (fun (batching : Batching) entry =>
          batching.add entry.2 entry.1) batching).listed =
        batching.listed ++
          (entries.filter fun entry => encodedSize entry.1 ≤ maxRequestBytes).map
            Prod.snd by
    rw [batches, Batching.flatten_finish, general]
    rfl
  intro entries
  induction entries with
  | nil => simp
  | cons entry entries ih =>
      intro batching
      rw [List.foldl_cons, ih, Batching.listed_add]
      by_cases large : encodedSize entry.1 > maxRequestBytes
      · simp [large]
      · simp [large, Nat.le_of_not_gt large]

structure ServiceItem where
  entity : String
  start : Int
  stop : Int
  score : ℚ

def parseItem (text : Text) (item : ServiceItem) : Option Finding :=
  if 0 ≤ item.start ∧ item.start < item.stop ∧ item.stop ≤ text.length then
    some
      { entity := item.entity
        start := item.start.toNat
        stop := item.stop.toNat
        score := item.score
        pack := modelPack }
  else none

/-- The answered findings per text; `none` where the answer does not match the
request. -/
def parse (results : List (List ServiceItem)) (texts : List Text) :
    Option (List (List Finding)) :=
  if results.length ≠ texts.length then none
  else (texts.zip results).mapM fun pair => pair.2.mapM (parseItem pair.1)

/-- What the packs of this installation report.  `service` is `none` when the
model service is switched off or not configured; a request that raises answers
`none`. -/
structure Detector where
  rulePack : String → Text → List Finding
  rrnFallback : Text → List Finding
  service : Option (List Text → Option (List (List ServiceItem)))

namespace Detector

variable (detector : Detector)

/-- Run the named rule packs. -/
def detect (text : Text) (packs : List String) : List Finding :=
  merge (packs.flatMap fun name => detector.rulePack name text)

def askService (ask : List Text → Option (List (List ServiceItem))) (texts : List Text) :
    Option (List (List Finding)) :=
  (ask texts).bind fun results => parse results texts

/-- Ask for one batch after another; the first failure ends the round. -/
def askBatches (ask : List Text → Option (List (List ServiceItem))) (texts : List Text)
    (answered : OrderedDict Nat (List Finding)) :
    List (List Nat) → OrderedDict Nat (List Finding)
  | [] => answered
  | batch :: rest =>
      match askService ask (batch.map fun index => texts.getD index []) with
      | none => answered
      | some results =>
          askBatches ask texts
            ((batch.zip results).foldl (fun dict entry => dict.set entry.1 entry.2) answered)
            rest

def modelFindings (texts : List Text) : OrderedDict Nat (List Finding) :=
  match detector.service with
  | none => OrderedDict.empty
  | some ask => askBatches ask texts OrderedDict.empty (batches texts)

/-- `detect` for many texts, with the model pack allowed. -/
def detectTexts (texts : List Text) (packs : List String) : List (List Finding) :=
  let rulePacks := packs.filter fun name => name ≠ modelPack
  if modelPack ∉ packs then texts.map fun text => detector.detect text rulePacks
  else
    let model := detector.modelFindings texts
    texts.zipIdx.map fun entry =>
      let extra :=
        match model.get? entry.2 with
        | some answer => answer ++ detector.rrnFallback entry.1
        | none => detector.detect entry.1 ["kr"]
      merge (detector.detect entry.1 rulePacks ++ extra)

@[simp]
theorem length_detectTexts (texts : List Text) (packs : List String) :
    (detector.detectTexts texts packs).length = texts.length := by
  unfold detectTexts
  split <;> simp

/-- The service answers each text on its own, or never answers. -/
def Deterministic : Prop :=
  ∀ ask, detector.service = some ask →
    (∀ texts, askService ask texts = none) ∨
      ∃ answer : Text → List Finding, ∀ texts, askService ask texts = some (texts.map answer)

/-- What checking one text alone reports. -/
def detectText (text : Text) (packs : List String) : List Finding :=
  ((detector.detectTexts [text] packs).head?).getD []

private theorem get?_foldl_set_zip_map {Value : Type*} (indexes : List Nat)
    (value : Nat → Value) (dict : OrderedDict Nat Value) (index : Nat) :
    ((indexes.zip (indexes.map value)).foldl
        (fun dict entry => dict.set entry.1 entry.2) dict).get? index =
      if index ∈ indexes then some (value index) else dict.get? index := by
  induction indexes generalizing dict with
  | nil => simp
  | cons first indexes ih =>
      rw [List.map_cons, List.zip_cons_cons, List.foldl_cons, ih, OrderedDict.get?_set]
      by_cases later : index ∈ indexes
      · simp [later]
      · by_cases same : index = first
        · simp [same]
        · simp [later, same]

theorem get?_askBatches {ask : List Text → Option (List (List ServiceItem))}
    {answer : Text → List Finding}
    (answers : ∀ texts, askService ask texts = some (texts.map answer))
    (texts : List Text) (answered : OrderedDict Nat (List Finding))
    (groups : List (List Nat)) (index : Nat) :
    (askBatches ask texts answered groups).get? index =
      if index ∈ groups.flatten then some (answer (texts.getD index []))
      else answered.get? index := by
  induction groups generalizing answered with
  | nil => simp [askBatches]
  | cons batch groups ih =>
      rw [askBatches, answers]
      simp only [List.map_map]
      rw [ih, get?_foldl_set_zip_map]
      by_cases later : index ∈ groups.flatten
      · rw [if_pos later, if_pos (by simp [later])]
      · rw [if_neg later]
        by_cases now : index ∈ batch
        · rw [if_pos now, if_pos (by simp [now])]
          rfl
        · rw [if_neg now, if_neg (by simpa [now] using later)]

theorem mem_flatten_batches {texts : List Text} {index : Nat} {text : Text}
    (found : texts[index]? = some text) :
    index ∈ (batches texts).flatten ↔ encodedSize text ≤ maxRequestBytes := by
  rw [flatten_batches, List.mem_map]
  constructor
  · rintro ⟨⟨listed, position⟩, member, rfl⟩
    rw [List.mem_filter, List.mem_zipIdx_iff_getElem?] at member
    obtain ⟨listedEq, fits⟩ := member
    rw [found, Option.some.injEq] at listedEq
    simpa [listedEq] using fits
  · intro fits
    exact ⟨(text, index), List.mem_filter.mpr
      ⟨List.mem_zipIdx_iff_getElem?.mpr found, by simpa using fits⟩, rfl⟩

/-- A deterministic service answers a text the same way in every batch. -/
theorem Deterministic.reply (deterministic : detector.Deterministic) :
    ∃ reply : Text → Option (List Finding), ∀ texts index text,
      texts[index]? = some text → (detector.modelFindings texts).get? index = reply text := by
  cases configured : detector.service with
  | none => exact ⟨fun _ => none, by simp [modelFindings, configured]⟩
  | some ask =>
      rcases deterministic ask configured with never | ⟨answer, answers⟩
      · refine ⟨fun _ => none, fun texts index text _ => ?_⟩
        simp only [modelFindings, configured]
        cases batches texts with
        | nil => rfl
        | cons batch groups => rw [askBatches, never]; rfl
      · refine ⟨fun text =>
          if encodedSize text ≤ maxRequestBytes then some (answer text) else none,
          fun texts index text found => ?_⟩
        simp only [modelFindings, configured]
        rw [get?_askBatches answers, OrderedDict.get?_empty, List.getD_eq_getElem?_getD, found]
        simp only [mem_flatten_batches found]
        rfl

/-- Checking many texts at once gives each of them what checking it alone does. -/
theorem detectTexts_eq_map (deterministic : detector.Deterministic) (texts : List Text)
    (packs : List String) :
    detector.detectTexts texts packs =
      texts.map fun text => detector.detectText text packs := by
  by_cases asked : modelPack ∈ packs
  · obtain ⟨reply, replies⟩ := deterministic.reply
    have pointwise : ∀ many : List Text, detector.detectTexts many packs =
        many.map fun text =>
          merge (detector.detect text (packs.filter fun name => name ≠ modelPack) ++
            match reply text with
            | some answer => answer ++ detector.rrnFallback text
            | none => detector.detect text ["kr"]) := by
      intro many
      rw [detectTexts, if_neg (not_not.mpr asked)]
      conv_rhs => rw [← List.zipIdx_map_fst 0 many]
      rw [List.map_map]
      refine List.map_congr_left fun entry member => ?_
      simp only [Function.comp_apply]
      rw [replies many entry.2 entry.1 (List.mem_zipIdx_iff_getElem?.mp member)]
    rw [pointwise]
    refine List.map_congr_left fun text _ => ?_
    rw [detectText, pointwise]
    rfl
  · simp [detectTexts, detectText, asked]

end Detector

end NaturalMold.Guardrails
