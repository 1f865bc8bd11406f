import NaturalMold.StoredConditions
import Mathlib.Data.Finset.Max

/-! # What a merged condition grants -/

namespace NaturalMold.StoredConditions

open Authz (TupleError expiryCondition runSourceCondition runSources)

/-- How the store reads a context, in nanoseconds, and how it judges a condition that
depends on neither the time nor the run source. -/
structure ConditionModel where
  timestamp : Json → Option ℤ
  duration : Json → Option ℤ
  other : String → List (String × Json) → Bool

section Granting

variable (reading : Reading) (model : ConditionModel)

/-- The end of an expiry: `grant_time + grant_duration`. -/
def grantEnd (item : StoredTuple) : Option ℤ := do
  let start ← ((contextOf reading item).lookup "grant_time").bind model.timestamp
  let length ← ((contextOf reading item).lookup "grant_duration").bind model.duration
  return start + length

def nameList : Json → Option (List String)
  | .arr items => items.mapM Json.str?
  | _ => none

def allowedNames (item : StoredTuple) : Option (List String) :=
  ((contextOf reading item).lookup "allowed_sources").bind nameList

def Grants (now : ℤ) (source : String) (item : StoredTuple) : Prop :=
  match item.condition with
  | none => True
  | some condition =>
      if condition.name = expiryCondition then
        ∃ finish, grantEnd reading model item = some finish ∧ now < finish
      else if condition.name = runSourceCondition then
        ∃ names, allowedNames reading item = some names ∧ source ∈ names
      else model.other condition.name (reading.loads condition.contextJson) = true

/-- Two tuples that cannot be merged: of different conditions, or of different contexts
of a condition that is neither an expiry nor one of run sources. -/
def Clash (first second : StoredTuple) : Prop :=
  ∃ condition other, first.condition = some condition ∧ second.condition = some other ∧
    (condition.name ≠ other.name ∨
      (condition ≠ other ∧ condition.name ≠ expiryCondition ∧
        condition.name ≠ runSourceCondition))

structure MergesToUnion (items : List StoredTuple) : Prop where
  order : ∀ other : List StoredTuple, other.Perm items →
    mergeTuples reading other = mergeTuples reading items
  idempotent : ∀ merged, mergeTuples reading items = .ok merged →
    mergeTuples reading merged = .ok merged
  raises : (∃ error, mergeTuples reading items = .error error) ↔
    (∀ item ∈ items, item.condition ≠ none) ∧
      ∃ first ∈ items, ∃ second ∈ items, Clash first second
  union : ∀ merged, mergeTuples reading items = .ok merged → ∀ now source,
    (∃ item ∈ merged, Grants reading model now source item) ↔
      ∃ item ∈ items, Grants reading model now source item

def AllNamed (name : String) (items : List StoredTuple) : Prop :=
  ∀ item ∈ items, ∃ condition, item.condition = some condition ∧ condition.name = name

structure Comparable (items : List StoredTuple) : Prop where
  readable : ∀ item ∈ items, (expiryEnd reading item).isSome
  alike : ∀ first ∈ items, ∀ second ∈ items, ∀ firstEnd secondEnd,
    expiryEnd reading first = some firstEnd → expiryEnd reading second = some secondEnd →
      firstEnd.offset.isSome = secondEnd.offset.isSome

def ReadsLast (items : List StoredTuple) (item : StoredTuple) : Prop :=
  ∃ own, expiryEnd reading item = some own ∧ ∀ other ∈ items, ∀ finish,
    expiryEnd reading other = some finish →
      finish.instant < own.instant ∨
        (finish.instant = own.instant ∧ sortKey item ≤ sortKey other)

/-- Contexts of different tuples are read as the store reads them: the ends of expiries
can be compared, the one that reads as ending last does so, and each listed source
is in a list of names. -/
structure ReadsAsMeant (items : List StoredTuple) : Prop where
  expiries : AllNamed expiryCondition items → Several items → Comparable reading items ∧
    ∀ item ∈ items, ReadsLast reading items item → ∀ other ∈ items, ∀ finish,
      grantEnd reading model other = some finish →
        ∃ own, grantEnd reading model item = some own ∧ finish ≤ own
  sources : AllNamed runSourceCondition items → Several items → ∀ item ∈ items,
    ∀ source ∈ listedSources reading item, ∃ other ∈ items, ∃ names,
      allowedNames reading other = some names ∧ source ∈ names

end Granting

section Several

variable {reading : Reading} {model : ConditionModel} {items : List StoredTuple}

variable {item : StoredTuple}

theorem mergeKey_of_all_eq (present : items ≠ []) (all : ∀ other ∈ items, other = item) :
    mergeKey reading items = .ok item := by
  have dedupEq : items.dedup = [item] := by
    rw [List.eq_replicate_of_mem all, List.replicate_dedup]
    exact (List.length_pos_iff.mpr present).ne'
  rw [mergeKey, distinctTuples, dedupEq]
  rfl

theorem several_or_all_eq (present : items ≠ []) :
    Several items ∨ ∃ item ∈ items, ∀ other ∈ items, other = item := by
  obtain ⟨item, rest, rfl⟩ := List.exists_cons_of_ne_nil present
  by_cases same : ∀ other ∈ item :: rest, other = item
  · exact Or.inr ⟨item, List.mem_cons_self, same⟩
  · left
    simp only [not_forall] at same
    obtain ⟨other, member, different⟩ := same
    exact ⟨other, member, item, List.mem_cons_self, different⟩

variable (reading) in
theorem mergeKey_of_several (several : Several items) :
    ∃ first ∈ items,
      mergeKey reading items = mergeSeveral reading first (distinctTuples items) := by
  obtain ⟨first, firstMember, second, secondMember, different⟩ := several
  rw [← mem_distinctTuples] at firstMember secondMember
  rw [mergeKey]
  cases listed : distinctTuples items with
  | nil =>
      rw [listed] at firstMember
      exact absurd firstMember List.not_mem_nil
  | cons head tail =>
      cases tail with
      | nil =>
          rw [listed, List.mem_singleton] at firstMember secondMember
          exact absurd (firstMember.trans secondMember.symm) different
      | cons next rest =>
          refine ⟨head, mem_distinctTuples.mp ?_, rfl⟩
          rw [listed]
          exact List.mem_cons_self

variable {distinct : List StoredTuple}

theorem names_eq_singleton_iff {name : String} (present : distinct ≠ [])
    (conditioned : ∀ item ∈ distinct, item.condition ≠ none) :
    (distinct.filterMap fun item => item.condition.map StoredCondition.name).dedup = [name] ↔
      AllNamed name distinct := by
  constructor
  · intro single item member
    obtain ⟨condition, conditionEq⟩ := Option.ne_none_iff_exists'.mp (conditioned item member)
    refine ⟨condition, conditionEq, ?_⟩
    have listed : condition.name ∈
        (distinct.filterMap fun item => item.condition.map StoredCondition.name).dedup := by
      rw [List.mem_dedup, List.mem_filterMap]
      exact ⟨item, member, by rw [conditionEq]; rfl⟩
    rw [single] at listed
    exact List.mem_singleton.mp listed
  · intro all
    have names : ∀ other ∈ distinct.filterMap fun item => item.condition.map StoredCondition.name,
        other = name := by
      intro other member
      obtain ⟨item, itemMember, nameEq⟩ := List.mem_filterMap.mp member
      obtain ⟨condition, conditionEq, named⟩ := all item itemMember
      rw [conditionEq] at nameEq
      exact (Option.some.inj nameEq).symm.trans named
    rw [List.eq_replicate_of_mem names, List.replicate_dedup]
    obtain ⟨item, member⟩ := List.exists_mem_of_ne_nil distinct present
    obtain ⟨condition, conditionEq, _⟩ := all item member
    have listed : condition.name ∈
        distinct.filterMap fun item => item.condition.map StoredCondition.name :=
      List.mem_filterMap.mpr ⟨item, member, by rw [conditionEq]; rfl⟩
    exact (List.length_pos_of_mem listed).ne'

theorem mergeSeveral_plain {first : StoredTuple} (member : item ∈ distinct)
    (plain : item.condition = none) :
    mergeSeveral reading first distinct = .ok { first with condition := none } := by
  rw [mergeSeveral]
  exact if_pos (List.any_eq_true.mpr ⟨item, member, by rw [plain]; rfl⟩)

/-- Without a tuple that lacks a condition, the names decide. -/
theorem any_isNone_ne_true (conditioned : ∀ item ∈ distinct, item.condition ≠ none) :
    (distinct.any fun item => item.condition.isNone) ≠ true := by
  intro any
  obtain ⟨item, member, plain⟩ := List.any_eq_true.mp any
  exact conditioned item member (Option.isNone_iff_eq_none.mp plain)

theorem AllNamed.conditioned {name : String} (all : AllNamed name distinct) :
    ∀ item ∈ distinct, item.condition ≠ none := by
  intro item member plain
  obtain ⟨condition, conditionEq, _⟩ := all item member
  rw [plain] at conditionEq
  exact absurd conditionEq (by simp)

theorem mergeSeveral_expiry {first : StoredTuple} (present : distinct ≠ [])
    (all : AllNamed expiryCondition distinct) :
    mergeSeveral reading first distinct = latestExpiry reading distinct := by
  rw [mergeSeveral]
  exact (if_neg (any_isNone_ne_true all.conditioned)).trans
    (if_pos ((names_eq_singleton_iff present all.conditioned).mpr all))

theorem mergeSeveral_source {first : StoredTuple} (present : distinct ≠ [])
    (all : AllNamed runSourceCondition distinct) :
    mergeSeveral reading first distinct =
      .ok { first with condition := some ⟨runSourceCondition,
        reading.dumps (sourcesContext (unitedSources reading distinct))⟩ } := by
  have names := (names_eq_singleton_iff present all.conditioned).mpr all
  rw [mergeSeveral]
  refine (if_neg (any_isNone_ne_true all.conditioned)).trans ((if_neg ?_).trans (if_pos names))
  rw [names]
  decide

variable (reading) in
theorem mergeSeveral_clash (first : StoredTuple) (present : distinct ≠ [])
    (conditioned : ∀ item ∈ distinct, item.condition ≠ none)
    (notExpiry : ¬ AllNamed expiryCondition distinct)
    (notSource : ¬ AllNamed runSourceCondition distinct) :
    ∃ error, mergeSeveral reading first distinct = .error error := by
  rw [mergeSeveral]
  refine ⟨_, (if_neg (any_isNone_ne_true conditioned)).trans ((if_neg ?_).trans (if_neg ?_))⟩
  · rwa [names_eq_singleton_iff present conditioned]
  · rwa [names_eq_singleton_iff present conditioned]

theorem mapM_eq_none_iff :
    distinct.mapM (expiryEnd reading) = none ↔
      ∃ item ∈ distinct, expiryEnd reading item = none := by
  induction distinct with
  | nil => simp
  | cons item distinct ih =>
      rw [List.mapM_cons]
      simp only [List.exists_mem_cons_iff, ← ih]
      cases expiryEnd reading item with
      | none => simp
      | some own =>
          cases distinct.mapM (expiryEnd reading) with
          | none => simp
          | some ends => simp

theorem mem_of_mapM {ends : List Stamp} (read : distinct.mapM (expiryEnd reading) = some ends)
    {finish : Stamp} : finish ∈ ends ↔ ∃ item ∈ distinct, expiryEnd reading item = some finish := by
  induction distinct generalizing ends with
  | nil =>
      obtain rfl : [] = ends := by simpa using read
      simp
  | cons item distinct ih =>
      simp only [List.mapM_cons, Option.bind_eq_bind, Option.bind_eq_some_iff] at read
      obtain ⟨own, ownEq, rest, restEq, same⟩ := read
      obtain rfl : own :: rest = ends := by simpa using same
      rw [List.mem_cons, List.exists_mem_cons_iff, ih restEq, ownEq, Option.some.injEq]
      exact or_congr eq_comm Iff.rfl

theorem latestExpiry_error (incomparable : ¬ Comparable reading distinct) :
    ∃ error, latestExpiry reading distinct = .error error := by
  rw [latestExpiry]
  cases read : distinct.mapM (expiryEnd reading) with
  | none => exact ⟨_, rfl⟩
  | some ends =>
      refine ⟨_, if_pos ?_⟩
      by_contra alike
      simp only [not_exists, not_and, not_not] at alike
      refine incomparable ⟨fun item member => ?_, ?_⟩
      · rw [Option.isSome_iff_ne_none]
        intro unread
        rw [mapM_eq_none_iff.mpr ⟨item, member, unread⟩] at read
        exact absurd read (by simp)
      · intro first firstMember second secondMember firstEnd secondEnd firstEq secondEq
        exact alike firstEnd ((mem_of_mapM read).mpr ⟨first, firstMember, firstEq⟩) secondEnd
          ((mem_of_mapM read).mpr ⟨second, secondMember, secondEq⟩)

theorem exists_latest (present : distinct ≠ [])
    (readable : ∀ item ∈ distinct, (expiryEnd reading item).isSome) :
    ∃ item ∈ distinct, ∃ own, expiryEnd reading item = some own ∧
      ∀ other ∈ distinct, ∀ finish, expiryEnd reading other = some finish →
        finish.instant ≤ own.instant := by
  let instantOf : StoredTuple → ℤ := fun item =>
    ((expiryEnd reading item).map Stamp.instant).getD 0
  obtain ⟨item, member, latest⟩ := distinct.toFinset.exists_max_image instantOf
    (List.toFinset_nonempty_iff distinct |>.mpr present)
  rw [List.mem_toFinset] at member
  obtain ⟨own, ownEq⟩ := Option.isSome_iff_exists.mp (readable item member)
  refine ⟨item, member, own, ownEq, fun other otherMember finish finishEq => ?_⟩
  have least := latest other (List.mem_toFinset.mpr otherMember)
  simpa [instantOf, ownEq, finishEq] using least

theorem latestExpiry_ok (present : distinct ≠ []) (comparable : Comparable reading distinct)
    (ordered : distinct.Pairwise fun first second => sortKey first ≤ sortKey second) :
    ∃ item ∈ distinct, latestExpiry reading distinct = .ok item ∧
      ReadsLast reading distinct item := by
  obtain ⟨ends, read⟩ : ∃ ends, distinct.mapM (expiryEnd reading) = some ends := by
    rw [← Option.ne_none_iff_exists']
    intro unread
    obtain ⟨item, member, none⟩ := mapM_eq_none_iff.mp unread
    have readable := comparable.readable item member
    rw [none] at readable
    exact absurd readable (by simp)
  have alike : ¬ ∃ first ∈ ends, ∃ second ∈ ends,
      first.offset.isSome ≠ second.offset.isSome := by
    rintro ⟨first, firstMember, second, secondMember, different⟩
    obtain ⟨item, itemMember, itemEq⟩ := (mem_of_mapM read).mp firstMember
    obtain ⟨other, otherMember, otherEq⟩ := (mem_of_mapM read).mp secondMember
    exact different (comparable.alike item itemMember other otherMember first second itemEq otherEq)
  let ending : StoredTuple → Bool := fun item => (expiryEnd reading item).any fun own =>
    ends.all fun other => other.instant ≤ own.instant
  have ending_iff : ∀ {item own}, expiryEnd reading item = some own →
      (ending item = true ↔ ∀ other ∈ distinct, ∀ finish,
        expiryEnd reading other = some finish → finish.instant ≤ own.instant) := by
    intro item own ownEq
    simp only [ending, ownEq, Option.any_some, List.all_eq_true, decide_eq_true_eq,
      mem_of_mapM read]
    exact ⟨fun all other member finish eq => all finish ⟨other, member, eq⟩,
      fun all finish ⟨other, member, eq⟩ => all other member finish eq⟩
  obtain ⟨latest, latestMember, latestEnd, latestEq, bound⟩ :=
    exists_latest present comparable.readable
  have found : (distinct.find? ending).isSome :=
    List.find?_isSome.mpr ⟨latest, latestMember, (ending_iff latestEq).mpr bound⟩
  obtain ⟨item, itemFound⟩ := Option.isSome_iff_exists.mp found
  have result : latestExpiry reading distinct = .ok item := by
    rw [latestExpiry, read]
    simp only [if_neg alike]
    split
    · next other otherFound =>
        exact congrArg Except.ok (Option.some.inj (otherFound.symm.trans itemFound))
    · next notFound =>
        exact absurd (notFound.symm.trans itemFound) (by simp)
  have itemMember := List.mem_of_find?_eq_some itemFound
  obtain ⟨own, ownEq⟩ := Option.isSome_iff_exists.mp (comparable.readable item itemMember)
  have last := (ending_iff ownEq).mp (List.find?_some itemFound)
  refine ⟨item, itemMember, result, own, ownEq, fun other otherMember finish finishEq => ?_⟩
  rcases lt_or_eq_of_le (last other otherMember finish finishEq) with earlier | same
  · exact Or.inl earlier
  -- A tuple that ends with the found one is not in front of it.
  · right
    refine ⟨same, ?_⟩
    obtain ⟨_, front, back, split, before⟩ := List.find?_eq_some_iff_append.mp itemFound
    have otherEnding : ending other = true :=
      (ending_iff finishEq).mpr (same ▸ last)
    rw [split] at otherMember ordered
    rcases List.mem_append.mp otherMember with inFront | inBack
    · have rejected := before other inFront
      rw [otherEnding] at rejected
      exact absurd rejected (by decide)
    · rcases List.mem_cons.mp inBack with rfl | later
      · exact le_rfl
      · exact (List.pairwise_cons.mp (List.pairwise_append.mp ordered).2.1).1 other later

theorem comparable_distinctTuples :
    Comparable reading (distinctTuples items) ↔ Comparable reading items := by
  constructor
  · intro comparable
    exact ⟨fun item member => comparable.readable item (mem_distinctTuples.mpr member),
      fun first firstMember second secondMember => comparable.alike first
        (mem_distinctTuples.mpr firstMember) second (mem_distinctTuples.mpr secondMember)⟩
  · intro comparable
    exact ⟨fun item member => comparable.readable item (mem_distinctTuples.mp member),
      fun first firstMember second secondMember => comparable.alike first
        (mem_distinctTuples.mp firstMember) second (mem_distinctTuples.mp secondMember)⟩

theorem readsLast_distinctTuples :
    ReadsLast reading (distinctTuples items) item ↔ ReadsLast reading items item := by
  simp only [ReadsLast, mem_distinctTuples]

theorem allNamed_distinctTuples {name : String} :
    AllNamed name (distinctTuples items) ↔ AllNamed name items := by
  simp only [AllNamed, mem_distinctTuples]

theorem ReadsLast.unique (ofOne : OfOneKey items) {first second : StoredTuple}
    (firstMember : first ∈ items) (secondMember : second ∈ items)
    (firstLast : ReadsLast reading items first) (secondLast : ReadsLast reading items second) :
    first = second := by
  obtain ⟨firstEnd, firstEq, firstBound⟩ := firstLast
  obtain ⟨secondEnd, secondEq, secondBound⟩ := secondLast
  apply sortKey_injective ofOne firstMember secondMember
  rcases firstBound second secondMember secondEnd secondEq with less | ⟨_, firstLe⟩
  · rcases secondBound first firstMember firstEnd firstEq with greater | ⟨same, _⟩
    · omega
    · omega
  · rcases secondBound first firstMember firstEnd firstEq with greater | ⟨_, secondLe⟩
    · omega
    · exact le_antisymm firstLe secondLe

theorem mergeTuples_singleton (item : StoredTuple) :
    mergeTuples reading [item] = .ok [item] := by
  rw [mergeTuples_of_oneKey reading (by simp) (by simp),
    mergeKey_of_all_eq (by simp) (fun other member => List.mem_singleton.mp member)]
  rfl

variable (reading model items) in
/-- What is left to say of a key with tuples: when it raises, and what it grants. -/
def MergesKey : Prop :=
  ((∃ error, mergeKey reading items = .error error) ↔
    (∀ item ∈ items, item.condition ≠ none) ∧
      ∃ first ∈ items, ∃ second ∈ items, Clash first second) ∧
  ∀ merged, mergeKey reading items = .ok merged → ∀ now source,
    Grants reading model now source merged ↔
      ∃ item ∈ items, Grants reading model now source item

theorem mergesToUnion_iff_mergesKey (ofOne : OfOneKey items) (present : items ≠ []) :
    MergesToUnion reading model items ↔ MergesKey reading model items := by
  have whole := mergeTuples_of_oneKey reading ofOne.oneKey present
  constructor
  · intro merges
    refine ⟨?_, fun merged mergedEq now source => ?_⟩
    · rw [← merges.raises, whole]
      cases mergeKey reading items with
      | error error => simp [Except.map]
      | ok merged => simp [Except.map]
    · have union := merges.union [merged] (by rw [whole, mergedEq]; rfl) now source
      simpa using union
  · rintro ⟨raises, union⟩
    refine ⟨fun other perm => ?_, fun merged mergedEq => ?_, ?_, fun merged mergedEq => ?_⟩
    · have otherPresent : other ≠ [] := by
        rintro rfl
        exact present perm.symm.eq_nil
      rw [mergeTuples_of_oneKey reading (ofOne.perm perm).oneKey otherPresent, whole,
        mergeKey_perm reading ofOne perm]
    · rw [whole] at mergedEq
      cases merge : mergeKey reading items with
      | error error =>
          rw [merge] at mergedEq
          exact absurd mergedEq (by simp [Except.map])
      | ok item =>
          rw [merge] at mergedEq
          obtain rfl := Except.ok.inj mergedEq
          exact mergeTuples_singleton item
    · rw [← raises, whole]
      cases mergeKey reading items with
      | error error => simp [Except.map]
      | ok merged => simp [Except.map]
    · rw [whole] at mergedEq
      cases merge : mergeKey reading items with
      | error error =>
          rw [merge] at mergedEq
          exact absurd mergedEq (by simp [Except.map])
      | ok item =>
          rw [merge] at mergedEq
          obtain rfl := Except.ok.inj mergedEq
          intro now source
          simpa using union item merge now source

theorem mergesKey_of_all_eq (member : item ∈ items) (all : ∀ other ∈ items, other = item) :
    MergesKey reading model items := by
  have merge : mergeKey reading items = .ok item :=
    mergeKey_of_all_eq (List.ne_nil_of_mem member) all
  refine ⟨?_, fun merged mergedEq now source => ?_⟩
  · rw [merge]
    constructor
    · rintro ⟨error, raised⟩
      exact absurd raised (by simp)
    · rintro ⟨_, first, firstMember, second, secondMember, condition, other, conditionEq, otherEq,
        different⟩
      rw [all first firstMember] at conditionEq
      rw [all second secondMember, conditionEq] at otherEq
      obtain rfl := Option.some.inj otherEq
      rcases different with names | contexts
      · exact absurd rfl names
      · exact absurd rfl contexts.1
  · obtain rfl := Except.ok.inj (mergedEq.symm.trans merge)
    constructor
    · exact fun grants => ⟨merged, member, grants⟩
    · rintro ⟨other, otherMember, grants⟩
      rwa [all other otherMember] at grants

theorem grants_of_plain (plain : item.condition = none) (now : ℤ) (source : String) :
    Grants reading model now source item := by
  rw [Grants, plain]
  trivial

theorem mergesKey_of_plain (several : Several items) (member : item ∈ items)
    (plain : item.condition = none) : MergesKey reading model items := by
  obtain ⟨first, _, merge⟩ := mergeKey_of_several reading several
  rw [mergeSeveral_plain (mem_distinctTuples.mpr member) plain] at merge
  refine ⟨?_, fun merged mergedEq now source => ?_⟩
  · rw [merge]
    constructor
    · rintro ⟨error, raised⟩
      exact absurd raised (by simp)
    · exact fun both => absurd plain (both.1 item member)
  · obtain rfl := Except.ok.inj (mergedEq.symm.trans merge)
    exact ⟨fun _ => ⟨item, member, grants_of_plain plain now source⟩,
      fun _ => grants_of_plain rfl now source⟩

/-- Tuples with one name that the merge knows do not clash. -/
theorem not_clash_of_allNamed {name : String} (all : AllNamed name items)
    (known : name = expiryCondition ∨ name = runSourceCondition) :
    ¬ ∃ first ∈ items, ∃ second ∈ items, Clash first second := by
  rintro ⟨first, firstMember, second, secondMember, condition, other, conditionEq, otherEq,
    different⟩
  obtain ⟨firstCondition, firstEq, firstName⟩ := all first firstMember
  obtain ⟨secondCondition, secondEq, secondName⟩ := all second secondMember
  obtain rfl := Option.some.inj (conditionEq.symm.trans firstEq)
  obtain rfl := Option.some.inj (otherEq.symm.trans secondEq)
  rcases different with names | ⟨_, notExpiry, notSource⟩
  · exact names (firstName.trans secondName.symm)
  · rcases known with rfl | rfl
    · exact notExpiry firstName
    · exact notSource firstName

theorem distinctTuples_ne_nil (present : items ≠ []) : distinctTuples items ≠ [] := by
  obtain ⟨item, member⟩ := List.exists_mem_of_ne_nil items present
  exact List.ne_nil_of_mem (mem_distinctTuples.mpr member)

theorem Several.ne_nil (several : Several items) : items ≠ [] := by
  obtain ⟨first, member, _⟩ := several
  exact List.ne_nil_of_mem member

theorem grants_expiry (all : AllNamed expiryCondition items) (member : item ∈ items) (now : ℤ)
    (source : String) :
    Grants reading model now source item ↔
      ∃ finish, grantEnd reading model item = some finish ∧ now < finish := by
  obtain ⟨condition, conditionEq, nameEq⟩ := all item member
  rw [Grants, conditionEq]
  exact iff_of_eq (if_pos nameEq)

theorem mergesKey_expiry_iff (ofOne : OfOneKey items) (several : Several items)
    (all : AllNamed expiryCondition items) :
    MergesKey reading model items ↔ Comparable reading items ∧
      ∀ item ∈ items, ReadsLast reading items item → ∀ other ∈ items, ∀ finish,
        grantEnd reading model other = some finish →
          ∃ own, grantEnd reading model item = some own ∧ finish ≤ own := by
  obtain ⟨first, _, merge⟩ := mergeKey_of_several reading several
  have present := distinctTuples_ne_nil several.ne_nil
  rw [mergeSeveral_expiry present (allNamed_distinctTuples.mpr all)] at merge
  have noClash := not_clash_of_allNamed all (Or.inl rfl)
  have ordered : (distinctTuples items).Pairwise fun first second =>
      sortKey first ≤ sortKey second := (distinctTuples_pairwise ofOne).imp And.left
  constructor
  · rintro ⟨raises, union⟩
    have comparable : Comparable reading items := by
      by_contra incomparable
      obtain ⟨error, raised⟩ :=
        latestExpiry_error (mt comparable_distinctTuples.mp incomparable)
      exact noClash (raises.mp ⟨error, merge.trans raised⟩).2
    refine ⟨comparable, fun item member last other otherMember finish finishEq => ?_⟩
    obtain ⟨merged, mergedMember, mergedEq, mergedLast⟩ :=
      latestExpiry_ok present (comparable_distinctTuples.mpr comparable) ordered
    rw [mem_distinctTuples] at mergedMember
    obtain rfl := last.unique ofOne member mergedMember (readsLast_distinctTuples.mp mergedLast)
    -- Just before its end the other tuple still grants.
    have before := (union item (merge.trans mergedEq) (finish - 1) "").mpr ⟨other, otherMember,
      (grants_expiry all otherMember (finish - 1) "").mpr ⟨finish, finishEq, by omega⟩⟩
    obtain ⟨own, ownEq, later⟩ := (grants_expiry all member (finish - 1) "").mp before
    exact ⟨own, ownEq, by omega⟩
  · rintro ⟨comparable, meant⟩
    obtain ⟨merged, mergedMember, mergedEq, mergedLast⟩ :=
      latestExpiry_ok present (comparable_distinctTuples.mpr comparable) ordered
    rw [mem_distinctTuples] at mergedMember
    refine ⟨?_, fun result resultEq now source => ?_⟩
    · rw [merge, mergedEq]
      constructor
      · rintro ⟨error, raised⟩
        exact absurd raised (by simp)
      · exact fun both => absurd both.2 noClash
    · obtain rfl := Except.ok.inj (resultEq.symm.trans (merge.trans mergedEq))
      constructor
      · exact fun grants => ⟨result, mergedMember, grants⟩
      · rintro ⟨other, otherMember, grants⟩
        obtain ⟨finish, finishEq, less⟩ := (grants_expiry all otherMember now source).mp grants
        obtain ⟨own, ownEq, later⟩ := meant result mergedMember
          (readsLast_distinctTuples.mp mergedLast) other otherMember finish finishEq
        exact (grants_expiry all mergedMember now source).mpr ⟨own, ownEq, by omega⟩

theorem mem_unitedSources {source : String} :
    source ∈ unitedSources reading distinct ↔
      ∃ item ∈ distinct, source ∈ listedSources reading item := by
  rw [unitedSources, List.mem_append, List.mem_filter, List.mem_insertionSort, List.mem_filter,
    ← List.mem_flatMap, ← List.mem_dedup]
  by_cases known : source ∈ runSources
  · simp [known]
  · simp [known]

theorem nameList_names (names : List String) : nameList (.arr (names.map .str)) = some names := by
  rw [nameList]
  induction names with
  | nil => rfl
  | cons name names ih =>
      rw [List.map_cons, List.mapM_cons, ih]
      rfl

theorem map_str_of_names (strText : ∀ text, reading.str (.str text) = text) {values : List Json}
    {names : List String} (read : values.mapM Json.str? = some names) :
    values.map reading.str = names := by
  induction values generalizing names with
  | nil =>
      obtain rfl : [] = names := by simpa using read
      rfl
  | cons value values ih =>
      simp only [List.mapM_cons, Option.bind_eq_bind, Option.bind_eq_some_iff] at read
      obtain ⟨name, nameEq, rest, restEq, same⟩ := read
      obtain rfl : name :: rest = names := by simpa using same
      cases value with
      | str text =>
          obtain rfl := Option.some.inj nameEq
          rw [List.map_cons, ih restEq, strText]
      | null => exact absurd nameEq (by simp [Json.str?])
      | bool _ => exact absurd nameEq (by simp [Json.str?])
      | int _ => exact absurd nameEq (by simp [Json.str?])
      | float _ => exact absurd nameEq (by simp [Json.str?])
      | arr _ => exact absurd nameEq (by simp [Json.str?])
      | obj _ => exact absurd nameEq (by simp [Json.str?])

theorem listedSources_of_allowedNames (strText : ∀ text, reading.str (.str text) = text)
    {names : List String} (allowed : allowedNames reading item = some names) :
    listedSources reading item = names := by
  rw [allowedNames, Option.bind_eq_some_iff] at allowed
  obtain ⟨value, found, read⟩ := allowed
  rw [listedSources, found]
  cases value with
  | arr values => exact map_str_of_names strText read
  | null => exact absurd read (by simp [nameList])
  | bool _ => exact absurd read (by simp [nameList])
  | int _ => exact absurd read (by simp [nameList])
  | float _ => exact absurd read (by simp [nameList])
  | str _ => exact absurd read (by simp [nameList])
  | obj _ => exact absurd read (by simp [nameList])

theorem grants_source (all : AllNamed runSourceCondition items) (member : item ∈ items) (now : ℤ)
    (source : String) :
    Grants reading model now source item ↔
      ∃ names, allowedNames reading item = some names ∧ source ∈ names := by
  obtain ⟨condition, conditionEq, nameEq⟩ := all item member
  have other : condition.name ≠ expiryCondition := by
    rw [nameEq]
    decide
  rw [Grants, conditionEq]
  exact iff_of_eq ((if_neg other).trans (if_pos nameEq))

variable (reading items) in
def SourcesReadBack : Prop :=
  reading.loads (reading.dumps (sourcesContext (unitedSources reading (distinctTuples items)))) =
    sourcesContext (unitedSources reading (distinctTuples items))

theorem mergesKey_source_iff (strText : ∀ text, reading.str (.str text) = text)
    (readBack : SourcesReadBack reading items) (several : Several items)
    (all : AllNamed runSourceCondition items) :
    MergesKey reading model items ↔ ∀ item ∈ items, ∀ source ∈ listedSources reading item,
      ∃ other ∈ items, ∃ names, allowedNames reading other = some names ∧ source ∈ names := by
  obtain ⟨first, _, merge⟩ := mergeKey_of_several reading several
  have present := distinctTuples_ne_nil several.ne_nil
  rw [mergeSeveral_source present (allNamed_distinctTuples.mpr all)] at merge
  have noClash := not_clash_of_allNamed all (Or.inr rfl)
  -- The merged tuple grants the united sources.
  have united : ∀ now source, Grants reading model now source { first with
      condition := some ⟨runSourceCondition,
        reading.dumps (sourcesContext (unitedSources reading (distinctTuples items)))⟩ } ↔
      ∃ item ∈ items, source ∈ listedSources reading item := by
    intro now source
    have alone : ∀ merged : StoredTuple, merged.condition = some ⟨runSourceCondition,
        reading.dumps (sourcesContext (unitedSources reading (distinctTuples items)))⟩ →
          AllNamed runSourceCondition [merged] := fun merged conditionEq other member =>
      List.mem_singleton.mp member ▸ ⟨_, conditionEq, rfl⟩
    rw [grants_source (alone _ rfl) List.mem_cons_self, allowedNames, contextOf, Option.map_some,
      Option.getD_some, readBack]
    rw [sourcesContext, List.lookup_cons_self, Option.bind_some, nameList_names]
    simp only [Option.some.injEq, exists_eq_left', mem_unitedSources, mem_distinctTuples]
  constructor
  · rintro ⟨_, union⟩ item member source listed
    obtain ⟨other, otherMember, grants⟩ :=
      (union _ merge 0 source).mp ((united 0 source).mpr ⟨item, member, listed⟩)
    exact ⟨other, otherMember, (grants_source all otherMember 0 source).mp grants⟩
  · intro meant
    refine ⟨?_, fun result resultEq now source => ?_⟩
    · rw [merge]
      constructor
      · rintro ⟨error, raised⟩
        exact absurd raised (by simp)
      · exact fun both => absurd both.2 noClash
    · obtain rfl := Except.ok.inj (resultEq.symm.trans merge)
      rw [united]
      constructor
      · rintro ⟨item, member, listed⟩
        obtain ⟨other, otherMember, allowed⟩ := meant item member source listed
        exact ⟨other, otherMember, (grants_source all otherMember now source).mpr allowed⟩
      · rintro ⟨item, member, grants⟩
        obtain ⟨names, allowed, inNames⟩ := (grants_source all member now source).mp grants
        refine ⟨item, member, ?_⟩
        rwa [listedSources_of_allowedNames strText allowed]

/-- Other conditions raise if and only if two of them clash. -/
theorem mergesKey_of_others (ofOne : OfOneKey items) (several : Several items)
    (conditioned : ∀ item ∈ items, item.condition ≠ none)
    (notExpiry : ¬ AllNamed expiryCondition items)
    (notSource : ¬ AllNamed runSourceCondition items) : MergesKey reading model items := by
  obtain ⟨first, _, merge⟩ := mergeKey_of_several reading several
  obtain ⟨error, raised⟩ := mergeSeveral_clash reading first
    (distinctTuples_ne_nil several.ne_nil)
    (fun item member => conditioned item (mem_distinctTuples.mp member))
    (mt allNamed_distinctTuples.mp notExpiry) (mt allNamed_distinctTuples.mp notSource)
  have failed := merge.trans raised
  refine ⟨⟨fun _ => ⟨conditioned, ?_⟩, fun _ => ⟨error, failed⟩⟩, fun merged mergedEq => ?_⟩
  · by_contra none
    simp only [not_exists, not_and] at none
    obtain ⟨item, member, other, otherMember, different⟩ := several
    obtain ⟨condition, conditionEq⟩ := Option.ne_none_iff_exists'.mp (conditioned item member)
    -- Without a clash, all names are that of one condition, which the merge knows.
    have names : AllNamed condition.name items := by
      intro second secondMember
      obtain ⟨secondCondition, secondEq⟩ :=
        Option.ne_none_iff_exists'.mp (conditioned second secondMember)
      refine ⟨secondCondition, secondEq, ?_⟩
      by_contra apart
      exact none item member second secondMember
        ⟨condition, secondCondition, conditionEq, secondEq, Or.inl (Ne.symm apart)⟩
    have unknown : condition.name ≠ expiryCondition ∧ condition.name ≠ runSourceCondition :=
      ⟨fun same => notExpiry (same ▸ names), fun same => notSource (same ▸ names)⟩
    obtain ⟨otherCondition, otherEq, _⟩ := names other otherMember
    have contexts : condition ≠ otherCondition := by
      rintro rfl
      exact different (tuple_ext (ofOne.oneKey item member other otherMember)
        (conditionEq.trans otherEq.symm))
    exact none item member other otherMember
      ⟨condition, otherCondition, conditionEq, otherEq, Or.inr ⟨contexts, unknown⟩⟩
  · exact absurd (mergedEq.symm.trans failed) (by simp)

theorem mergesToUnion_iff_readsAsMeant (strText : ∀ text, reading.str (.str text) = text)
    (readBack : SourcesReadBack reading items) (ofOne : OfOneKey items) :
    MergesToUnion reading model items ↔ ReadsAsMeant reading model items := by
  by_cases present : items = []
  · subst present
    constructor
    · intro _
      exact ⟨fun _ ⟨_, member, _⟩ => absurd member List.not_mem_nil,
        fun _ ⟨_, member, _⟩ => absurd member List.not_mem_nil⟩
    · intro _
      have empty : mergeTuples reading [] = .ok [] := rfl
      refine ⟨fun other perm => by rw [perm.eq_nil], fun merged mergedEq => ?_, ?_,
        fun merged mergedEq now source => ?_⟩
      · obtain rfl := Except.ok.inj (mergedEq.symm.trans empty)
        exact empty
      · simp [empty]
      · obtain rfl := Except.ok.inj (mergedEq.symm.trans empty)
        simp
  rw [mergesToUnion_iff_mergesKey ofOne present]
  rcases several_or_all_eq present with several | ⟨item, member, all⟩
  · by_cases conditioned : ∀ item ∈ items, item.condition ≠ none
    · by_cases expiry : AllNamed expiryCondition items
      · rw [mergesKey_expiry_iff ofOne several expiry]
        have otherName : ¬ AllNamed runSourceCondition items := by
          intro source
          obtain ⟨item, member⟩ := List.exists_mem_of_ne_nil items present
          obtain ⟨condition, conditionEq, name⟩ := expiry item member
          obtain ⟨other, otherEq, otherName⟩ := source item member
          obtain rfl := Option.some.inj (conditionEq.symm.trans otherEq)
          exact absurd (name.symm.trans otherName) (by decide)
        exact ⟨fun meant => ⟨fun _ _ => meant, fun source => absurd source otherName⟩,
          fun reads => reads.expiries expiry several⟩
      · by_cases source : AllNamed runSourceCondition items
        · rw [mergesKey_source_iff strText readBack several source]
          exact ⟨fun meant => ⟨fun all => absurd all expiry, fun _ _ => meant⟩,
            fun reads => reads.sources source several⟩
        · exact ⟨fun _ => ⟨fun all => absurd all expiry, fun all => absurd all source⟩,
            fun _ => mergesKey_of_others ofOne several conditioned expiry source⟩
    · simp only [not_forall, not_not] at conditioned
      obtain ⟨item, member, plain⟩ := conditioned
      have unnamed : ∀ name, ¬ AllNamed name items := fun name all =>
        all.conditioned item member plain
      exact ⟨fun _ => ⟨fun all => absurd all (unnamed _), fun all => absurd all (unnamed _)⟩,
        fun _ => mergesKey_of_plain several member plain⟩
  · have single : ¬ Several items := by
      rintro ⟨first, firstMember, second, secondMember, different⟩
      exact different ((all first firstMember).trans (all second secondMember).symm)
    exact ⟨fun _ =>
        ⟨fun _ several => absurd several single, fun _ several => absurd several single⟩,
      fun _ => mergesKey_of_all_eq member all⟩

end Several

end NaturalMold.StoredConditions
