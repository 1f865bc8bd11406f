import Mathlib.Logic.Relation
import Mathlib.Data.List.Pairwise
import Mathlib.Order.MinMax

/-!
# Clusters of intervals

Items stand for half-open intervals.
-/

namespace NaturalMold.IntervalClusters

variable {Item Bound : Type*} [LinearOrder Bound] (start stop : Item → Bound)

/-- Two items share a point. -/
def Overlap (first second : Item) : Prop :=
  start first < stop second ∧ start second < stop first

def Linked (items : List Item) (first second : Item) : Prop :=
  Relation.ReflTransGen (fun here next => next ∈ items ∧ Overlap start stop here next) first second

def clustersFrom (group : List Item) (reach : Bound) : List Item → List (List Item)
  | [] => [group]
  | next :: rest =>
      if start next < reach then clustersFrom (group ++ [next]) (max reach (stop next)) rest
      else group :: clustersFrom [next] (stop next) rest

def clusters : List Item → List (List Item)
  | [] => []
  | first :: rest => clustersFrom start stop [first] (stop first) rest

/-- A group of linked items that fills the stretch between its ends. -/
structure IsCluster (group : List Item) (left right : Bound) : Prop where
  left_le : ∀ item ∈ group, left ≤ start item
  starts : ∃ item ∈ group, start item = left
  le_right : ∀ item ∈ group, stop item ≤ right
  stops : ∃ item ∈ group, stop item = right
  filled : ∀ point, left ≤ point → point < right →
    ∃ item ∈ group, start item ≤ point ∧ point < stop item
  linked : ∀ first ∈ group, ∀ second ∈ group, Linked start stop group first second

variable {start stop} {items group : List Item} {left right reach : Bound} {first second : Item}

theorem Overlap.symm (overlap : Overlap start stop first second) :
    Overlap start stop second first :=
  ⟨overlap.2, overlap.1⟩

theorem Linked.mono {more : List Item} (subset : ∀ item ∈ items, item ∈ more)
    (linked : Linked start stop items first second) : Linked start stop more first second :=
  Relation.ReflTransGen.mono (fun _ _ step => ⟨subset _ step.1, step.2⟩) _ _ linked

theorem IsCluster.single (item : Item) :
    IsCluster start stop [item] (start item) (stop item) := by
  constructor
  · intro other member
    rw [List.mem_singleton.mp member]
  · exact ⟨item, List.mem_singleton_self item, rfl⟩
  · intro other member
    rw [List.mem_singleton.mp member]
  · exact ⟨item, List.mem_singleton_self item, rfl⟩
  · intro point after before
    exact ⟨item, List.mem_singleton_self item, after, before⟩
  · intro one firstMember two secondMember
    rw [List.mem_singleton.mp firstMember, List.mem_singleton.mp secondMember]
    exact .refl

theorem IsCluster.snoc {next : Item} (cluster : IsCluster start stop group left right)
    (after : left ≤ start next) (before : start next < right)
    (forward : start next < stop next) :
    IsCluster start stop (group ++ [next]) left (max right (stop next)) := by
  have last : next ∈ group ++ [next] := List.mem_append_right _ (List.mem_singleton_self next)
  have grown : ∀ item ∈ group, item ∈ group ++ [next] := fun _ => List.mem_append_left _
  obtain ⟨touched, member, starts, stops⟩ := cluster.filled (start next) after before
  have overlap : Overlap start stop touched next := ⟨starts.trans_lt forward, stops⟩
  constructor
  · intro item member
    rcases List.mem_append.mp member with member | member
    · exact cluster.left_le item member
    · rwa [List.mem_singleton.mp member]
  · obtain ⟨item, member, same⟩ := cluster.starts
    exact ⟨item, grown item member, same⟩
  · intro item member
    rcases List.mem_append.mp member with member | member
    · exact (cluster.le_right item member).trans (le_max_left _ _)
    · rw [List.mem_singleton.mp member]
      exact le_max_right _ _
  · rcases le_total right (stop next) with later | earlier
    · exact ⟨next, last, (max_eq_right later).symm⟩
    · obtain ⟨item, member, same⟩ := cluster.stops
      exact ⟨item, grown item member, by rw [same, max_eq_left earlier]⟩
  · intro point inside inReach
    rcases lt_or_ge point right with near | far
    · obtain ⟨item, member, holds⟩ := cluster.filled point inside near
      exact ⟨item, grown item member, holds⟩
    · rcases lt_max_iff.mp inReach with near | inNext
      · exact absurd near far.not_gt
      · exact ⟨next, last, (before.trans_le far).le, inNext⟩
  · intro one firstMember two secondMember
    have toNext : ∀ item ∈ group ++ [next], Linked start stop (group ++ [next]) item next := by
      intro item listed
      rcases List.mem_append.mp listed with listed | listed
      · exact ((cluster.linked item listed touched member).mono grown).tail ⟨last, overlap⟩
      · rw [List.mem_singleton.mp listed]
        exact .refl
    have fromNext : ∀ item ∈ group ++ [next], Linked start stop (group ++ [next]) next item := by
      intro item listed
      rcases List.mem_append.mp listed with listed | listed
      · exact .head ⟨grown _ member, overlap.symm⟩
          ((cluster.linked touched member item listed).mono grown)
      · rw [List.mem_singleton.mp listed]
        exact .refl
    exact (toNext one firstMember).trans (fromNext two secondMember)

def Apart (start stop : Item → Bound) (first second : List Item) : Prop :=
  ∀ one ∈ first, ∀ two ∈ second, stop one ≤ start two

theorem flatten_clustersFrom (rest : List Item) :
    (clustersFrom start stop group reach rest).flatten = group ++ rest := by
  induction rest generalizing group reach with
  | nil => simp [clustersFrom]
  | cons next rest ih =>
      rw [clustersFrom]
      split
      · rw [ih, List.append_assoc, List.singleton_append]
      · rw [List.flatten_cons, ih, List.singleton_append]

/-- The groups hold the items in their order. -/
theorem flatten_clusters (items : List Item) : (clusters start stop items).flatten = items := by
  cases items with
  | nil => rfl
  | cons first rest => exact flatten_clustersFrom rest

theorem mem_clusters {member : Item} (listed : group ∈ clusters start stop items)
    (inside : member ∈ group) : member ∈ items := by
  rw [← @flatten_clusters _ _ _ start stop items]
  exact List.mem_flatten.mpr ⟨group, listed, inside⟩

theorem exists_mem_clusters {member : Item} (inside : member ∈ items) :
    ∃ group ∈ clusters start stop items, member ∈ group := by
  rw [← @flatten_clusters _ _ _ start stop items] at inside
  exact List.mem_flatten.mp inside

theorem apart_or_apart {groups : List (List Item)} {other : List Item}
    (apart : groups.Pairwise (Apart start stop)) (listed : group ∈ groups)
    (otherListed : other ∈ groups) (different : group ≠ other) :
    Apart start stop group other ∨ Apart start stop other group := by
  have symmetric : Std.Symm fun first second : List Item =>
      Apart start stop first second ∨ Apart start stop second first := ⟨fun _ _ => Or.symm⟩
  have either : groups.Pairwise fun first second =>
      Apart start stop first second ∨ Apart start stop second first := apart.imp Or.inl
  exact either.forall listed otherListed different

structure Scanning (start stop : Item → Bound) (group : List Item) (left reach : Bound)
    (rest : List Item) : Prop where
  cluster : IsCluster start stop group left reach
  sorted : rest.Pairwise fun first second => start first ≤ start second
  after : ∀ item ∈ rest, left ≤ start item
  forward : ∀ item ∈ rest, start item < stop item

theorem Scanning.clusters {rest : List Item}
    (scanning : Scanning start stop group left reach rest) :
    (∀ found ∈ clustersFrom start stop group reach rest,
        ∃ left right, IsCluster start stop found left right) ∧
      (clustersFrom start stop group reach rest).Pairwise (Apart start stop) := by
  induction rest generalizing group left reach with
  | nil =>
      refine ⟨fun found member => ?_, List.pairwise_singleton _ _⟩
      rw [List.mem_singleton.mp member]
      exact ⟨left, reach, scanning.cluster⟩
  | cons next rest ih =>
      obtain ⟨cluster, sorted, after, forward⟩ := scanning
      obtain ⟨first, sorted⟩ := List.pairwise_cons.mp sorted
      have nextAfter := after next List.mem_cons_self
      have nextForward := forward next List.mem_cons_self
      have later := fun item member => forward item (List.mem_cons_of_mem next member)
      rw [clustersFrom]
      split
      · next inside =>
          exact ih ⟨cluster.snoc nextAfter inside nextForward, sorted,
            fun item member => after item (List.mem_cons_of_mem _ member), later⟩
      · next outside =>
          obtain ⟨found, apart⟩ := ih ⟨.single next, sorted, first, later⟩
          constructor
          · intro other member
            rcases List.mem_cons.mp member with rfl | member
            · exact ⟨left, reach, cluster⟩
            · exact found other member
          · refine List.pairwise_cons.mpr ⟨fun other member one inGroup two inOther => ?_, apart⟩
            have listed : two ∈ [next] ++ rest := by
              rw [← @flatten_clustersFrom _ _ _ start stop _ (stop next) rest]
              exact List.mem_flatten.mpr ⟨other, member, inOther⟩
            apply (cluster.le_right one inGroup).trans
            apply (not_lt.mp outside).trans
            rcases List.mem_cons.mp listed with rfl | inRest
            · exact le_rfl
            · exact first two inRest

section Sorted

variable (sorted : items.Pairwise fun first second => start first ≤ start second)
  (forward : ∀ item ∈ items, start item < stop item)

include sorted forward

theorem clusters_spec :
    (∀ group ∈ clusters start stop items, ∃ left right, IsCluster start stop group left right) ∧
      (clusters start stop items).Pairwise (Apart start stop) := by
  cases items with
  | nil => exact ⟨nofun, List.Pairwise.nil⟩
  | cons first rest =>
      obtain ⟨ahead, sorted⟩ := List.pairwise_cons.mp sorted
      exact Scanning.clusters ⟨.single first, sorted, ahead,
        fun item member => forward item (List.mem_cons_of_mem _ member)⟩

theorem linked_iff_mem (listed : group ∈ clusters start stop items) (inside : first ∈ group) :
    Linked start stop items first second ↔ second ∈ group := by
  obtain ⟨isCluster, apart⟩ := clusters_spec sorted forward
  constructor
  · intro linked
    induction linked with
    | refl => exact inside
    | @tail here next _ step ih =>
        obtain ⟨other, otherListed, nextInside⟩ :=
          @exists_mem_clusters _ _ _ start stop items next step.1
        by_contra outside
        have different : group ≠ other := by
          rintro rfl
          exact outside nextInside
        rcases apart_or_apart apart listed otherListed different with before | behind
        · exact absurd (step.2.2.trans_le (before here ih next nextInside)) (lt_irrefl _)
        · exact absurd (step.2.1.trans_le (behind next nextInside here ih)) (lt_irrefl _)
  · intro member
    obtain ⟨left, right, cluster⟩ := isCluster group listed
    exact (cluster.linked first inside second member).mono fun _ => mem_clusters listed

end Sorted

end NaturalMold.IntervalClusters
