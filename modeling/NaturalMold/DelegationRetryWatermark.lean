import NaturalMold.DelegationRetry

/-! # The watermark of the delegation retry -/

namespace NaturalMold.Authz.DelegationRetry

open Conversations (Uuid)
open Histories (AtEvery Since since_cons)

def OrgScope.named (scope : OrgScope) (org : Uuid) : DelegationScope :=
  ⟨org, scope.objects, scope.delegators⟩

structure Describes (servers : Uuid → Option Uuid) (scopes : OrderedDict Uuid OrgScope)
    (seen : List Row) : Prop where
  absent : ∀ org, scopes.get? org = none → ∀ row ∈ seen, row.1.orgId ≠ org
  first : ∀ org scope, scopes.get? org = some scope → FirstOf seen org scope.first
  contains : ∀ org scope, scopes.get? org = some scope → ∀ row ∈ seen, row.1.orgId = org →
    (scope.named org).Contains servers row.1

variable {servers : Uuid → Option Uuid}

theorem mem_addObject {marker : Marker} {objects : Finset Key} {found : Key}
    (named : key marker.object servers = some found) :
    found ∈ addObject servers marker objects := by
  rw [addObject, named]
  exact Finset.mem_insert_self found objects

theorem subset_addObject (servers : Uuid → Option Uuid) (marker : Marker)
    (objects : Finset Key) : objects ⊆ addObject servers marker objects := by
  rw [addObject]
  split
  · exact Finset.Subset.refl objects
  · exact Finset.subset_insert _ objects

variable {scopes : OrderedDict Uuid OrgScope}

theorem addRow_eq_some {after : OrderedDict Uuid OrgScope} {row : Row}
    (added : addRow servers scopes row = some after) :
    ∃ scope, after = scopes.set row.1.orgId scope ∧
      scope.first = (orgScope scopes row).first ∧
      (orgScope scopes row).objects ⊆ scope.objects ∧
      (orgScope scopes row).delegators ⊆ scope.delegators ∧
      (scope.named row.1.orgId).Contains servers row.1 := by
  rw [addRow] at added
  split at added
  · rename_i notWide
    rw [Option.some.injEq] at added
    refine ⟨_, added.symm, rfl, subset_addObject _ _ _, Finset.Subset.refl _, ⟨rfl, ?_, ?_⟩⟩
    · exact fun found named => mem_addObject named
    · intro text textEq
      rw [notWide] at textEq
      cases textEq
  · rename_i text textEq
    split at added
    · cases added
    · rename_i delegator parsed
      rw [Option.some.injEq] at added
      refine ⟨_, added.symm, rfl, subset_addObject _ _ _, Finset.subset_insert _ _, ⟨rfl, ?_, ?_⟩⟩
      · exact fun found named => mem_addObject named
      · intro other otherEq
        rw [textEq, Option.some.injEq] at otherEq
        subst otherEq
        exact ⟨delegator, Finset.mem_insert_self _ _, parsed⟩

theorem DelegationScope.Contains.mono {marker : Marker} {scope larger : DelegationScope}
    (contains : scope.Contains servers marker) (org : larger.orgId = scope.orgId)
    (objects : scope.objects ⊆ larger.objects) (delegators : scope.delegators ⊆ larger.delegators) :
    larger.Contains servers marker where
  org := org.trans contains.org
  object := fun found named => objects (contains.object found named)
  delegator := fun text textEq => by
    obtain ⟨delegator, member, parsed⟩ := contains.delegator text textEq
    exact ⟨delegator, delegators member, parsed⟩

theorem Describes.addRow {after : OrderedDict Uuid OrgScope} {seen : List Row} {row : Row}
    (describes : Describes servers scopes seen) (ordered : ∀ earlier ∈ seen, earlier.2 ≤ row.2)
    (added : addRow servers scopes row = some after) : Describes servers after (seen ++ [row]) := by
  obtain ⟨grown, rfl, firstEq, objects, delegators, contains⟩ := addRow_eq_some added
  refine ⟨?_, ?_, ?_⟩
  · intro org absent other member
    rw [OrderedDict.get?_set] at absent
    split at absent
    · cases absent
    · rename_i different
      rcases List.mem_append.mp member with earlier | last
      · exact describes.absent org absent other earlier
      · rw [List.mem_singleton.mp last]
        exact fun same => different same.symm
  · intro org scope found
    rw [OrderedDict.get?_set] at found
    split at found
    · rename_i same
      rw [Option.some.injEq] at found
      subst found same
      rw [firstEq, orgScope]
      cases known : scopes.get? row.1.orgId with
      | none =>
          refine ⟨⟨row.1, by simp, rfl⟩, fun other member sameOrg => ?_⟩
          rcases List.mem_append.mp member with earlier | last
          · exact absurd sameOrg (describes.absent _ known other earlier)
          · rw [List.mem_singleton.mp last]
            rfl
      | some scope =>
          obtain ⟨⟨marker, member, markerOrg⟩, least⟩ := describes.first _ scope known
          refine ⟨⟨marker, List.mem_append_left _ member, markerOrg⟩, fun other otherMember sameOrg => ?_⟩
          rcases List.mem_append.mp otherMember with earlier | last
          · exact least other earlier sameOrg
          · rw [List.mem_singleton.mp last]
            exact ordered _ member
    · rename_i different
      obtain ⟨⟨marker, member, markerOrg⟩, least⟩ := describes.first org scope found
      refine ⟨⟨marker, List.mem_append_left _ member, markerOrg⟩, fun other otherMember sameOrg => ?_⟩
      rcases List.mem_append.mp otherMember with earlier | last
      · exact least other earlier sameOrg
      · rw [List.mem_singleton.mp last] at sameOrg
        exact absurd sameOrg.symm different
  · intro org scope found other member sameOrg
    rw [OrderedDict.get?_set] at found
    split at found
    · rename_i same
      rw [Option.some.injEq] at found
      subst found same
      rcases List.mem_append.mp member with earlier | last
      · cases known : scopes.get? row.1.orgId with
        | none => exact absurd sameOrg (describes.absent _ known other earlier)
        | some scope =>
            have before := describes.contains _ scope known other earlier sameOrg
            rw [orgScope, known, Option.getD_some] at objects delegators
            refine before.mono ?_ objects delegators
            rfl
      · rw [List.mem_singleton.mp last]
        exact contains
    · rename_i different
      rcases List.mem_append.mp member with earlier | last
      · exact describes.contains org scope found other earlier sameOrg
      · rw [List.mem_singleton.mp last] at sameOrg
        exact absurd sameOrg.symm different

theorem Describes.foldlM {after : OrderedDict Uuid OrgScope} {seen rows : List Row}
    (describes : Describes servers scopes seen)
    (ordered : (seen ++ rows).Pairwise fun first second => first.2 ≤ second.2)
    (added : rows.foldlM (DelegationRetry.addRow servers) scopes = some after) :
    Describes servers after (seen ++ rows) := by
  induction rows generalizing scopes seen with
  | nil =>
      rw [List.foldlM_nil] at added
      cases added
      simpa using describes
  | cons row rows ih =>
      rw [List.foldlM_cons] at added
      cases step : DelegationRetry.addRow servers scopes row with
      | none => rw [step] at added; cases added
      | some middle =>
          rw [step] at added
          have earlier : ∀ earlier ∈ seen, earlier.2 ≤ row.2 := fun earlier member =>
            (List.pairwise_append.mp ordered).2.2 earlier member row List.mem_cons_self
          have result := ih (describes.addRow earlier step) (by simpa using ordered) added
          simpa using result

theorem describes_scopesOf {rows : List Row}
    (ordered : rows.Pairwise fun first second => first.2 ≤ second.2)
    (found : scopesOf servers rows = some scopes) : Describes servers scopes rows := by
  have empty : Describes servers OrderedDict.empty [] :=
    ⟨fun _ _ row member => absurd member List.not_mem_nil, by simp, by simp⟩
  simpa using empty.foldlM ordered found

theorem mem_toValidate {org : Uuid} {scope : OrgScope} :
    (org, scope) ∈ toValidate scopes ↔
      scopes.get? org = some scope ∧ (scope.objects ≠ ∅ ∨ scope.delegators ≠ ∅) := by
  rw [toValidate, List.mem_filter, List.mem_insertionSort, OrderedDict.get?_eq_some_iff,
    decide_eq_true_eq]

theorem Describes.exists_toValidate {seen : List Row} {row : Row}
    (describes : Describes servers scopes seen) (member : row ∈ seen)
    (watched : Watched servers row.1) :
    ∃ entry ∈ toValidate scopes, (entry.2.named entry.1).Contains servers row.1 := by
  cases known : scopes.get? row.1.orgId with
  | none => exact absurd rfl (describes.absent _ known row member)
  | some scope =>
      have contains := describes.contains _ scope known row member rfl
      refine ⟨(row.1.orgId, scope), mem_toValidate.mpr ⟨known, ?_⟩, contains⟩
      rcases watched with object | subject
      · obtain ⟨found, named⟩ := Option.ne_none_iff_exists'.mp object
        exact Or.inl (Finset.ne_empty_of_mem (contains.object found named))
      · obtain ⟨text, textEq⟩ := Option.ne_none_iff_exists'.mp subject
        obtain ⟨delegator, delegatorMem, _⟩ := contains.delegator text textEq
        exact Or.inr (Finset.ne_empty_of_mem delegatorMem)

instance : Std.Total rowBefore :=
  ⟨fun _ _ => le_total (toLex _) (toLex _)⟩

instance : IsTrans Row rowBefore :=
  ⟨fun _ _ _ first second => le_trans first second⟩

theorem rowBefore.time_le {first second : Row} (before : rowBefore first second) :
    first.2 ≤ second.2 := by
  rcases Prod.Lex.le_iff.mp before with earlier | ⟨same, _⟩
  · exact le_of_lt earlier
  · exact le_of_eq same

theorem mem_finalizedBetween {markers : List (Marker × Option ℤ)} {since stamp : ℤ} {row : Row} :
    row ∈ finalizedBetween markers since stamp ↔
      (row.1, some row.2) ∈ markers ∧ since < row.2 ∧ row.2 ≤ stamp := by
  rw [finalizedBetween, List.mem_insertionSort, List.mem_filterMap]
  constructor
  · rintro ⟨⟨marker, finalized⟩, member, found⟩
    obtain ⟨time, rfl, found⟩ := Option.bind_eq_some_iff.mp found
    split at found
    · rename_i bounds
      cases found
      exact ⟨member, bounds⟩
    · cases found
  · rintro ⟨member, bounds⟩
    exact ⟨_, member, by simp [bounds]⟩

theorem finalizedBetween_pairwise (markers : List (Marker × Option ℤ)) (since stamp : ℤ) :
    (finalizedBetween markers since stamp).Pairwise fun first second => first.2 ≤ second.2 :=
  (List.pairwise_insertionSort rowBefore _).imp rowBefore.time_le

theorem mem_finalizeRevocations {markers : List (Marker × Option ℤ)} {marker : Marker}
    {time : ℤ} (member : (marker, some time) ∈ markers) (ids : List Uuid) (stamp : ℤ) :
    (marker, some time) ∈ finalizeRevocations markers ids stamp :=
  List.mem_map.mpr ⟨_, member, by simp⟩

theorem System.mem_closing {system : System} {ids : List Uuid} {stamp : ℤ} {row : Row}
    (closed : row ∈ system.closing ids stamp) :
    row.2 = stamp ∧ (row.1, some row.2) ∈ finalizeRevocations system.markers ids stamp := by
  obtain ⟨⟨marker, finalized⟩, member, rfl⟩ := List.mem_map.mp closed
  obtain ⟨member, due⟩ := List.mem_filter.mp member
  refine ⟨rfl, List.mem_map.mpr ⟨_, member, ?_⟩⟩
  rw [if_pos (of_decide_eq_true due)]

end NaturalMold.Authz.DelegationRetry
