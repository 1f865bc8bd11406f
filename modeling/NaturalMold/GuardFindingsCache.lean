import NaturalMold.GuardrailActions
import NaturalMold.PythonText

/-!
# A run's guard and its findings cache

One guard serves every hook of a run.
-/

namespace NaturalMold.Guardrails

/-- What a guard uses: the detector packs, the two digests and the
conversation's pseudonyms. -/
structure GuardServices (Memory : Type*) where
  detector : Detector
  sha256Hex : Text → Text
  hmacHex : Text → Text
  load : Memory → Memory
  tokenFor : Text → Pseudonymizer Memory

structure Guard (Memory : Type*) where
  rules : RuleSet
  pseudonyms : Memory
  decisions : List Decision := []
  cache : OrderedDict Text (List Finding) := OrderedDict.empty

def cacheSize : Nat := 2048

def stagedText (stage : Stage) (text : Text) : Text :=
  stage.name.toList ++ Char.ofNat 0 :: text

theorem nul_notMem_name (stage : Stage) : Char.ofNat 0 ∉ stage.name.toList := by
  cases stage <;> decide

/-- Stage and text can be read off the digested text, because no stage's name
has a NUL. -/
theorem stagedText_injective {stage other : Stage} {text second : Text}
    (equal : stagedText stage text = stagedText other second) :
    stage = other ∧ text = second := by
  obtain ⟨names, texts⟩ :=
    PythonText.append_cons_cancel (nul_notMem_name stage) (nul_notMem_name other) equal
  exact ⟨Stage.name_injective (String.toList_injective names), texts⟩

namespace Guard

variable {Memory : Type*} (services : GuardServices Memory)

def digest (stage : Stage) (text : Text) : Text :=
  services.sha256Hex (stagedText stage text)

/-- The texts of a batch that the cache does not hold. -/
def missing (guard : Guard Memory) (texts : List Text) (stage : Stage) : List Text :=
  texts.filter fun text => digest services stage text ∉ guard.cache.keys

/-- Detection per text; a text already seen this run is not detected again. -/
def findings (guard : Guard Memory) (texts : List Text) (stage : Stage) :
    List (List Finding) × Guard Memory :=
  let packs := guard.rules.packsFor stage
  let missing := guard.missing services texts stage
  let cache :=
    if missing ≠ [] ∧ packs ≠ [] then
      guard.cache.fillBounded cacheSize
        ((missing.map (digest services stage)).zip
          (services.detector.detectTexts missing packs))
    else guard.cache
  (texts.map fun text => (cache.get? (digest services stage text)).getD [],
    { guard with cache := cache })

def pseudonymizes (rules : RuleSet) (stage : Stage) : Bool :=
  rules.rules.any fun rule => rule.action = .pseudonymize && decide (stage ∈ rule.stages)

/-- Check texts at a stage.  `record` is false for display copies of something
already recorded. -/
def check (guard : Guard Memory) (texts : List Text) (stage : Stage) (record : Bool) :
    Except SortError (List Applied) × Guard Memory :=
  let loaded : Guard Memory :=
    if pseudonymizes guard.rules stage then
      { guard with pseudonyms := services.load guard.pseudonyms }
    else guard
  let (found, detected) := loaded.findings services texts stage
  let (results, pseudonyms) :=
    applyTexts services.hmacHex (fun text => some (services.tokenFor text)) detected.rules stage
      (texts.zip found) detected.pseudonyms
  match results with
  | .error error => (.error error, { detected with pseudonyms := pseudonyms })
  | .ok applied =>
      (.ok applied,
        { detected with
          pseudonyms := pseudonyms
          decisions :=
            if record then detected.decisions ++ applied.flatMap Applied.decisions
            else detected.decisions })

/-- A use of a run's guard. -/
inductive Call
  | findings (texts : List Text) (stage : Stage)
  | check (texts : List Text) (stage : Stage) (record : Bool)

def Call.texts : Call → List Text
  | .findings texts _ => texts
  | .check texts _ _ => texts

def Call.stage : Call → Stage
  | .findings _ stage => stage
  | .check _ stage _ => stage

def step (guard : Guard Memory) : Call → Guard Memory
  | .findings texts stage => (guard.findings services texts stage).2
  | .check texts stage record => (guard.check services texts stage record).2

def run (guard : Guard Memory) (calls : List Call) : Guard Memory :=
  calls.foldl (step services) guard

/-- The digest keeps the texts of some uses apart. -/
def CollisionFree (calls : List Call) : Prop :=
  Set.InjOn services.sha256Hex
    {staged | ∃ call ∈ calls, ∃ text ∈ call.texts, staged = stagedText call.stage text}

variable {calls : List Call}

theorem CollisionFree.eq_of_digest_eq (collisionFree : CollisionFree services calls)
    {first second : Call} {text other : Text} (firstMember : first ∈ calls)
    (secondMember : second ∈ calls) (textMember : text ∈ first.texts)
    (otherMember : other ∈ second.texts)
    (equal : digest services first.stage text = digest services second.stage other) :
    first.stage = second.stage ∧ text = other :=
  stagedText_injective
    (collisionFree ⟨first, firstMember, text, textMember, rfl⟩
      ⟨second, secondMember, other, otherMember, rfl⟩ equal)

/-- A check writes the cache that detecting its texts writes, also when
applying them fails. -/
theorem cache_check (guard : Guard Memory) (texts : List Text) (stage : Stage)
    (record : Bool) :
    (guard.check services texts stage record).2.cache =
      (guard.findings services texts stage).2.cache := by
  unfold check
  split <;> (simp only; split <;> rfl)

theorem rules_check (guard : Guard Memory) (texts : List Text) (stage : Stage)
    (record : Bool) : (guard.check services texts stage record).2.rules = guard.rules := by
  unfold check
  split <;> (simp only; split <;> rfl)

theorem rules_step (guard : Guard Memory) (call : Call) :
    (guard.step services call).rules = guard.rules := by
  cases call with
  | findings texts stage => rfl
  | check texts stage record => exact rules_check services guard texts stage record

theorem cache_step (guard : Guard Memory) (call : Call) :
    (guard.step services call).cache =
      (guard.findings services call.texts call.stage).2.cache := by
  cases call with
  | findings texts stage => rfl
  | check texts stage record => exact cache_check services guard texts stage record

theorem rules_run (guard : Guard Memory) (calls : List Call) :
    (guard.run services calls).rules = guard.rules := by
  induction calls generalizing guard with
  | nil => rfl
  | cons call calls ih =>
      exact (ih (guard.step services call)).trans (rules_step services guard call)

/-- Every cached entry holds what detecting its text alone reports, for a text
of one of the uses, and the cache is within its bound. -/
structure Faithful (guard : Guard Memory) (calls : List Call) : Prop where
  bounded : guard.cache.keys.length ≤ cacheSize
  detected : ∀ entry ∈ guard.cache.entries, ∃ call ∈ calls, ∃ text ∈ call.texts,
    entry = (digest services call.stage text,
      services.detector.detectText text (guard.rules.packsFor call.stage))

variable {guard : Guard Memory}

theorem Faithful.findings (deterministic : services.detector.Deterministic)
    (faithful : Faithful services guard calls) {call : Call} (listed : call ∈ calls) :
    Faithful services (guard.findings services call.texts call.stage).2 calls := by
  by_cases asked : guard.missing services call.texts call.stage ≠ [] ∧
      guard.rules.packsFor call.stage ≠ []
  · have cacheEq : (guard.findings services call.texts call.stage).2.cache =
        guard.cache.fillBounded cacheSize
          (((guard.missing services call.texts call.stage).map
              (digest services call.stage)).zip
            (services.detector.detectTexts (guard.missing services call.texts call.stage)
              (guard.rules.packsFor call.stage))) :=
      if_pos asked
    refine ⟨?_, fun entry member => ?_⟩
    · rw [cacheEq]
      exact OrderedDict.length_keys_fillBounded_le _ faithful.bounded
    · rw [cacheEq] at member
      rcases OrderedDict.mem_entries_fillBounded member with written | old
      · rw [Detector.detectTexts_eq_map _ deterministic, List.zip_map', List.mem_map] at written
        obtain ⟨text, textMember, rfl⟩ := written
        exact ⟨call, listed, text, List.mem_of_mem_filter textMember, rfl⟩
      · exact faithful.detected entry old
  · have cacheEq : (guard.findings services call.texts call.stage).2.cache = guard.cache :=
      if_neg asked
    refine ⟨?_, fun entry member => ?_⟩
    · rw [cacheEq]
      exact faithful.bounded
    · rw [cacheEq] at member
      exact faithful.detected entry member

theorem Faithful.step (deterministic : services.detector.Deterministic)
    (faithful : Faithful services guard calls) {call : Call} (listed : call ∈ calls) :
    Faithful services (guard.step services call) calls := by
  have detected := faithful.findings services deterministic listed
  refine ⟨?_, ?_⟩
  · rw [cache_step]
    exact detected.bounded
  · rw [cache_step, rules_step]
    exact detected.detected

theorem Faithful.run (deterministic : services.detector.Deterministic)
    (faithful : Faithful services guard calls) {uses : List Call} (listed : uses ⊆ calls) :
    Faithful services (guard.run services uses) calls := by
  induction uses generalizing guard with
  | nil => exact faithful
  | cons call uses ih =>
      exact ih (faithful.step services deterministic (listed List.mem_cons_self))
        (List.subset_of_cons_subset listed)

theorem faithful_run (deterministic : services.detector.Deterministic)
    (fresh : guard.cache = OrderedDict.empty) (uses : List Call) (listed : uses ⊆ calls) :
    Faithful services (guard.run services uses) calls := by
  refine Faithful.run services deterministic ⟨?_, ?_⟩ listed
  · simp [fresh]
  · simp [fresh]

/-- The digests that are still cached once a batch has been written: the last
2048 of the cached ones, oldest first, followed by those of the batch that
arrive because they are not among the last 2048 at their turn. -/
def retained (guard : Guard Memory) (texts : List Text) (stage : Stage) : List Text :=
  (guard.cache.keys ++
    OrderedDict.arrivals cacheSize guard.cache.keys
      ((guard.missing services texts stage).map (digest services stage))).rtake cacheSize

theorem keys_findings (guard : Guard Memory) (texts : List Text) (stage : Stage)
    (bounded : guard.cache.keys.length ≤ cacheSize)
    (asked : guard.rules.packsFor stage ≠ []) :
    (guard.findings services texts stage).2.cache.keys =
      guard.retained services texts stage := by
  by_cases none : guard.missing services texts stage = []
  · have cacheEq : (guard.findings services texts stage).2.cache = guard.cache :=
      if_neg (by simp [none])
    rw [cacheEq, retained, none, List.map_nil, OrderedDict.arrivals, List.append_nil,
      List.rtake, Nat.sub_eq_zero_of_le bounded, List.drop_zero]
  · have cacheEq : (guard.findings services texts stage).2.cache =
        guard.cache.fillBounded cacheSize
          (((guard.missing services texts stage).map (digest services stage)).zip
            (services.detector.detectTexts (guard.missing services texts stage)
              (guard.rules.packsFor stage))) :=
      if_pos ⟨none, asked⟩
    rw [cacheEq, OrderedDict.keys_fillBounded _ bounded, List.map_fst_zip, retained]
    simp

/-- A batch reads back the findings of every retained text, and none for every
other. -/
theorem findings_eq_map (deterministic : services.detector.Deterministic)
    (faithful : Faithful services guard calls) (collisionFree : CollisionFree services calls)
    {texts : List Text} {stage : Stage} (listed : Call.findings texts stage ∈ calls)
    (asked : guard.rules.packsFor stage ≠ []) :
    (guard.findings services texts stage).1 =
      texts.map fun text =>
        if digest services stage text ∈ guard.retained services texts stage then
          services.detector.detectText text (guard.rules.packsFor stage)
        else [] := by
  have after := faithful.findings services deterministic listed
  have keys := keys_findings services guard texts stage faithful.bounded asked
  refine List.map_congr_left fun text textMember => ?_
  change ((guard.findings services texts stage).2.cache.get? (digest services stage text)).getD []
    = _
  by_cases held : digest services stage text ∈ guard.retained services texts stage
  · rw [if_pos held]
    rw [← keys] at held
    obtain ⟨found, foundEq⟩ := OrderedDict.exists_get?_of_mem_keys held
    obtain ⟨call, callListed, other, otherMember, entryEq⟩ :=
      after.detected _ (OrderedDict.get?_eq_some_iff.mp foundEq)
    obtain ⟨digests, foundIs⟩ := Prod.mk.inj entryEq
    obtain ⟨stages, texts⟩ := collisionFree.eq_of_digest_eq services listed callListed
      textMember otherMember digests
    rw [foundEq, Option.getD_some, foundIs, ← stages, ← texts]
    rfl
  · rw [if_neg held]
    rw [← keys] at held
    rw [OrderedDict.get?_eq_none_iff.mpr held, Option.getD_none]

/-- With pairwise different new texts, every text of the batch arrives. -/
theorem retained_of_nodup {texts : List Text} {stage : Stage}
    (nodup : ((guard.missing services texts stage).map (digest services stage)).Nodup) :
    guard.retained services texts stage =
      (guard.cache.keys ++
        (guard.missing services texts stage).map (digest services stage)).rtake cacheSize := by
  rw [retained, OrderedDict.arrivals_of_fresh nodup]
  intro key member cached
  obtain ⟨text, textMember, rfl⟩ := List.mem_map.mp member
  have absent := List.of_mem_filter textMember
  simp [cached] at absent

/-- Nothing of a batch is lost while cache and batch together stay within the
bound. -/
theorem mem_retained_of_length_le {texts : List Text} {stage : Stage}
    (short : guard.cache.keys.length + (guard.missing services texts stage).length ≤ cacheSize)
    {text : Text} (listed : text ∈ texts) :
    digest services stage text ∈ guard.retained services texts stage := by
  have arrived := OrderedDict.length_arrivals_le cacheSize guard.cache.keys
    ((guard.missing services texts stage).map (digest services stage))
  rw [List.length_map] at arrived
  rw [retained, OrderedDict.rtake_eq_self_of_length_le (by rw [List.length_append]; omega),
    List.mem_append]
  by_cases cached : digest services stage text ∈ guard.cache.keys
  · exact Or.inl cached
  · refine Or.inr (OrderedDict.mem_arrivals (List.mem_map_of_mem ?_) cached)
    exact List.mem_filter.mpr ⟨listed, by simpa using cached⟩

/-- In every reachable state, a batch is given the findings that detection
reports if and only if the batch's own insertions leave the entry of every
text with findings in the cache. -/
theorem findings_eq_detectTexts_iff (deterministic : services.detector.Deterministic)
    {guard : Guard Memory} (fresh : guard.cache = OrderedDict.empty) (calls : List Call)
    (texts : List Text) (stage : Stage) (asked : guard.rules.packsFor stage ≠ [])
    (collisionFree : CollisionFree services (calls ++ [.findings texts stage])) :
    ((guard.run services calls).findings services texts stage).1 =
        services.detector.detectTexts texts (guard.rules.packsFor stage) ↔
      ∀ text ∈ texts,
        services.detector.detectText text (guard.rules.packsFor stage) ≠ [] →
          digest services stage text ∈
            (guard.run services calls).retained services texts stage := by
  have faithful : Faithful services (guard.run services calls)
      (calls ++ [.findings texts stage]) :=
    faithful_run services deterministic fresh calls (List.subset_append_left _ _)
  have rules := rules_run services guard calls
  rw [findings_eq_map services deterministic faithful collisionFree (by simp)
      (by rw [rules]; exact asked),
    Detector.detectTexts_eq_map _ deterministic, List.map_inj_left, rules]
  refine forall₂_congr fun text _ => ?_
  by_cases held : digest services stage text ∈
      (guard.run services calls).retained services texts stage
  · simp [held]
  · simp only [held, if_false, imp_false, ne_eq, not_not]
    exact eq_comm

def secretText : Text := "AWS_SECRET_ACCESS_KEY=".toList

/-- The common pack on texts of which only one has a secret. -/
def secretDetector : Detector where
  rulePack name text :=
    if name = "common" ∧ text = secretText then [⟨"SECRET", 0, 22, 1, "common"⟩] else []
  rrnFallback _ := []
  service := none

theorem secretDetector_deterministic : secretDetector.Deterministic := by
  simp [Detector.Deterministic, secretDetector]

theorem packsFor_commonBasic : commonBasic.packsFor .llmSend = ["common"] := by
  have packs : ((commonBasic.rules.filter fun rule => .llmSend ∈ rule.stages).flatMap
      Rule.packs).toFinset = {"common"} := by decide
  rw [RuleSet.packsFor, packs, sortedNames, Finset.sort_singleton]

theorem detectText_secretText :
    secretDetector.detectText secretText ["common"] = [⟨"SECRET", 0, 22, 1, "common"⟩] := by
  decide

def secretDigest (staged : Text) : Text :=
  if staged = stagedText .llmSend secretText then
    "5bf7b51c67d3d524daec7d4afee5e4dec839e4a12e88c6100b63382b4909a82c".toList
  else staged

def secretServices : GuardServices Unit where
  detector := secretDetector
  sha256Hex := secretDigest
  hmacHex := id
  load := id
  tokenFor _ _ value _ state := (value, state)

def commonGuard : Guard Unit where
  rules := commonBasic
  pseudonyms := ()

theorem commonGuard_asked : commonGuard.rules.packsFor .llmSend ≠ [] := by
  rw [show commonGuard.rules = commonBasic from rfl, packsFor_commonBasic]
  decide

theorem secretServices_collisionFree (calls : List Call) :
    CollisionFree secretServices calls := by
  have apart : ∀ stage text, stagedText stage text ≠
      "5bf7b51c67d3d524daec7d4afee5e4dec839e4a12e88c6100b63382b4909a82c".toList := by
    intro stage text equal
    have nul : Char.ofNat 0 ∈ stagedText stage text := by simp [stagedText]
    rw [equal] at nul
    revert nul
    decide
  rintro _ ⟨first, -, text, -, rfl⟩ _ ⟨second, -, other, -, rfl⟩ equal
  simp only [secretServices, secretDigest] at equal
  split at equal <;> rename_i firstSecret <;> split at equal <;> rename_i secondSecret
  · rw [firstSecret, secondSecret]
  · exact absurd equal.symm (apart _ _)
  · exact absurd equal (apart _ _)
  · exact equal

theorem keys_commonGuard :
    (commonGuard.run secretServices [.check [secretText] .llmSend true]).cache.keys =
      [digest secretServices .llmSend secretText] := by
  have missing : commonGuard.missing secretServices [secretText] .llmSend = [secretText] := rfl
  change (commonGuard.step secretServices (.check [secretText] .llmSend true)).cache.keys = _
  rw [cache_step]
  change (commonGuard.findings secretServices [secretText] .llmSend).2.cache.keys = _
  rw [keys_findings _ _ _ _ (Nat.zero_le _) commonGuard_asked,
    retained_of_nodup _ (by rw [missing]; exact List.nodup_singleton _), missing]
  rfl

theorem findings_eq_detectTexts_secret :
    ((commonGuard.run secretServices [.check [secretText] .llmSend true]).findings
        secretServices [secretText] .llmSend).1 =
      secretDetector.detectTexts [secretText] (commonGuard.rules.packsFor .llmSend) := by
  refine (findings_eq_detectTexts_iff secretServices secretDetector_deterministic rfl
    [.check [secretText] .llmSend true] [secretText] .llmSend commonGuard_asked
    (secretServices_collisionFree _)).mpr fun text member _ => ?_
  refine mem_retained_of_length_le _ ?_ member
  have missing := List.length_filter_le
    (fun text => digest secretServices .llmSend text ∉
      (commonGuard.run secretServices [.check [secretText] .llmSend true]).cache.keys)
    [secretText]
  rw [keys_commonGuard]
  exact (Nat.add_le_add_left missing 1).trans (by decide)

/-- The secret, found by an earlier check, and 2048 new texts. -/
def crowdedBatch : List Text :=
  secretText :: (List.range cacheSize).map (Nat.toDigits 10)

theorem toDigits_ne_secretText (number : Nat) : Nat.toDigits 10 number ≠ secretText := by
  intro equal
  have listed : '=' ∈ Nat.toDigits 10 number := by
    rw [equal]
    decide
  have digit := Nat.isDigit_of_mem_toDigits (by decide) (by decide) listed
  exact absurd digit (by decide)

theorem toDigits_injective : Function.Injective (Nat.toDigits 10) := by
  intro first second equal
  have read := congrArg (fun digits => Nat.ofDigitChars 10 digits 0) equal
  simpa using read

theorem digest_toDigits (number : Nat) :
    digest secretServices .llmSend (Nat.toDigits 10 number) =
      stagedText .llmSend (Nat.toDigits 10 number) :=
  if_neg fun equal => toDigits_ne_secretText number (stagedText_injective equal).2

/-- The new texts push the secret's entry out before it is read back. -/
theorem secret_not_retained :
    digest secretServices .llmSend secretText ∉
      (commonGuard.run secretServices [.check [secretText] .llmSend true]).retained
        secretServices crowdedBatch .llmSend := by
  have apart : ∀ number, digest secretServices .llmSend (Nat.toDigits 10 number) ≠
      digest secretServices .llmSend secretText := by
    intro number equal
    have compared : Call.findings [secretText, Nat.toDigits 10 number] .llmSend ∈
        [Call.findings [secretText, Nat.toDigits 10 number] .llmSend] :=
      List.mem_singleton_self _
    obtain ⟨-, texts⟩ := (secretServices_collisionFree
      [.findings [secretText, Nat.toDigits 10 number] .llmSend]).eq_of_digest_eq _
      compared compared (by simp [Call.texts]) (by simp [Call.texts]) equal
    exact toDigits_ne_secretText number texts
  have missing : (commonGuard.run secretServices [.check [secretText] .llmSend true]).missing
      secretServices crowdedBatch .llmSend =
        (List.range cacheSize).map (Nat.toDigits 10) := by
    rw [Guard.missing, crowdedBatch,
      List.filter_cons_of_neg (by simp [keys_commonGuard]), List.filter_eq_self]
    intro text member
    obtain ⟨number, -, rfl⟩ := List.mem_map.mp member
    simpa [keys_commonGuard] using apart number
  have digests : ((List.range cacheSize).map (Nat.toDigits 10)).map
      (digest secretServices .llmSend) =
        (List.range cacheSize).map fun number =>
          stagedText .llmSend (Nat.toDigits 10 number) := by
    rw [List.map_map]
    exact List.map_congr_left fun number _ => digest_toDigits number
  rw [retained_of_nodup, missing, keys_commonGuard]
  · rw [List.rtake, List.length_append, List.length_singleton, List.length_map, List.length_map,
      List.length_range, Nat.add_sub_cancel, List.singleton_append, List.drop_one, List.tail_cons,
      List.map_map]
    intro member
    obtain ⟨number, -, equal⟩ := List.mem_map.mp member
    exact apart number equal
  · rw [missing, digests]
    exact List.Nodup.map
      (fun first second equal => toDigits_injective (stagedText_injective equal).2)
      List.nodup_range

theorem findings_ne_detectTexts_secret :
    secretDetector.Deterministic ∧
      CollisionFree secretServices
        [.check [secretText] .llmSend true, .findings crowdedBatch .llmSend] ∧
      commonGuard.cache = OrderedDict.empty ∧
      commonGuard.rules.packsFor .llmSend ≠ [] ∧
      ((commonGuard.run secretServices [.check [secretText] .llmSend true]).findings
          secretServices crowdedBatch .llmSend).1 ≠
        secretDetector.detectTexts crowdedBatch (commonGuard.rules.packsFor .llmSend) := by
  refine ⟨secretDetector_deterministic, secretServices_collisionFree _, rfl,
    commonGuard_asked, fun equal => ?_⟩
  have faithful : Faithful secretServices
      (commonGuard.run secretServices [.check [secretText] .llmSend true])
      [.check [secretText] .llmSend true, .findings crowdedBatch .llmSend] :=
    faithful_run secretServices secretDetector_deterministic rfl _ (by simp)
  rw [findings_eq_map secretServices secretDetector_deterministic faithful
      (secretServices_collisionFree _) (by simp) (by rw [rules_run]; exact commonGuard_asked),
    Detector.detectTexts_eq_map _ secretDetector_deterministic, List.map_inj_left] at equal
  have read := equal secretText List.mem_cons_self
  rw [if_neg secret_not_retained] at read
  rw [show commonGuard.rules = commonBasic from rfl, packsFor_commonBasic,
    detectText_secretText] at read
  exact List.cons_ne_nil _ _ read.symm

end Guard

end NaturalMold.Guardrails
