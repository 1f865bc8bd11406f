import Mathlib.Data.List.Nodup
import Mathlib.Data.List.Perm.Subperm
import Mathlib.Logic.Relation

/-!
# Walks along parent pointers

A walk goes from a node to its parent until a node has none.
-/

namespace NaturalMold.ParentWalks

variable {Node Other : Type*}

def walk (parent : Node → Option Node) : ℕ → Node → Option (List Node)
  | 0, _ => none
  | fuel + 1, node =>
      match parent node with
      | none => some [node]
      | some above => (walk parent fuel above).map (node :: ·)

def meets (parent : Node → Option Node) (wanted : Node → Bool) : ℕ → Node → Option Bool
  | 0, _ => none
  | fuel + 1, node =>
      if wanted node then some true
      else
        match parent node with
        | none => some false
        | some above => meets parent wanted fuel above

variable {parent : Node → Option Node}

theorem meets_eq_of_walk (wanted : Node → Bool) {fuel : ℕ} {node : Node} {nodes : List Node}
    (walked : walk parent fuel node = some nodes) :
    meets parent wanted fuel node = some (nodes.any wanted) := by
  induction fuel generalizing node nodes with
  | zero => simp [walk] at walked
  | succ fuel ih =>
      rw [walk] at walked
      rw [meets]
      cases above : parent node with
      | none =>
          rw [above, Option.some.injEq] at walked
          subst walked
          cases found : wanted node <;> simp [found]
      | some higher =>
          simp only [above, Option.map_eq_some_iff] at walked
          obtain ⟨rest, restWalked, rfl⟩ := walked
          cases found : wanted node with
          | true => simp [found]
          | false => simp [found, ih restWalked]

theorem walk_map {other : Other → Option Other} (image : Node → Other) (kept : Node → Prop)
    (closed : ∀ node above, kept node → parent node = some above → kept above)
    (commutes : ∀ node, kept node → other (image node) = (parent node).map image)
    (fuel : ℕ) {node : Node} (start : kept node) :
    walk other fuel (image node) = (walk parent fuel node).map (List.map image) := by
  induction fuel generalizing node with
  | zero => rfl
  | succ fuel ih =>
      rw [walk, walk, commutes node start]
      cases above : parent node with
      | none => rfl
      | some higher =>
          simp only [Option.map_some, ih (closed node higher start above), Option.map_map]
          rfl

def StepWithin (parent : Node → Option Node) (nodes : List Node) (low high : Node) : Prop :=
  low ∈ nodes ∧ parent low = some high

/-- A walk that has gone along some nodes without repeating any. -/
private theorem exists_walk_beyond {nodes : List Node}
    (closed : ∀ node ∈ nodes, ∀ above, parent node = some above → above ∈ nodes)
    (acyclic : ∀ node, ¬ Relation.TransGen (StepWithin parent nodes) node node)
    (fuel : ℕ) {seen : List Node} {node : Node} (nodup : seen.Nodup) (listed : seen ⊆ nodes)
    (below : ∀ low ∈ seen, Relation.TransGen (StepWithin parent nodes) low node)
    (member : node ∈ nodes) (enough : nodes.length ≤ seen.length + fuel) :
    ∃ path, walk parent fuel node = some path := by
  have fresh : node ∉ seen := fun repeated => acyclic node (below node repeated)
  have longer : (node :: seen).Nodup := List.nodup_cons.mpr ⟨fresh, nodup⟩
  have within : node :: seen ⊆ nodes := List.cons_subset.mpr ⟨member, listed⟩
  induction fuel generalizing seen node with
  | zero =>
      have short := (List.subperm_of_subset longer within).length_le
      rw [List.length_cons] at short
      omega
  | succ fuel ih =>
      rw [walk]
      cases above : parent node with
      | none => exact ⟨[node], rfl⟩
      | some higher =>
          have belowHigher : ∀ low ∈ node :: seen,
              Relation.TransGen (StepWithin parent nodes) low higher := by
            intro low lowMember
            rcases List.mem_cons.mp lowMember with rfl | older
            · exact Relation.TransGen.single ⟨member, above⟩
            · exact (below low older).tail ⟨member, above⟩
          have higherMember := closed node member higher above
          have higherFresh : higher ∉ node :: seen :=
            fun repeated => acyclic higher (belowHigher higher repeated)
          obtain ⟨path, walked⟩ := ih longer within belowHigher higherMember
            (by rw [List.length_cons]; omega) higherFresh
            (List.nodup_cons.mpr ⟨higherFresh, longer⟩)
            (List.cons_subset.mpr ⟨higherMember, within⟩)
          exact ⟨node :: path, by simp [walked]⟩

theorem exists_walk {nodes : List Node}
    (closed : ∀ node ∈ nodes, ∀ above, parent node = some above → above ∈ nodes)
    (acyclic : ∀ node, ¬ Relation.TransGen (StepWithin parent nodes) node node)
    {fuel : ℕ} (enough : nodes.length ≤ fuel) {node : Node} (member : node ∈ nodes) :
    ∃ path, walk parent fuel node = some path :=
  exists_walk_beyond closed acyclic fuel List.nodup_nil (List.nil_subset nodes)
    (by simp) member (by simpa using enough)

inductive Ends (parent : Node → Option Node) : Node → Node → Prop
  | here {node : Node} (root : parent node = none) : Ends parent node node
  | above {node higher last : Node} (next : parent node = some higher)
      (ends : Ends parent higher last) : Ends parent node last

theorem Ends.root {node last : Node} (ends : Ends parent node last) : parent last = none := by
  induction ends with
  | here root => exact root
  | above _ _ ih => exact ih

section Redirect

variable {after : Node → Option Node} {moved : Node → Prop}

theorem Ends.stays (same : ∀ node, ¬ moved node → after node = parent node)
    (roots : ∀ node, moved node → parent node = none) {node last : Node}
    (ends : Ends parent node last) (stays : ¬ moved last) : Ends after node last := by
  induction ends with
  | here root => exact Ends.here ((same _ stays).trans root)
  | above next _ ih =>
      refine Ends.above ((same _ ?_).trans next) (ih stays)
      intro wasRoot
      rw [roots _ wasRoot] at next
      cases next

theorem Ends.redirect (same : ∀ node, ¬ moved node → after node = parent node)
    (roots : ∀ node, moved node → parent node = none) {target targetLast : Node}
    (redirected : ∀ node, moved node → after node = some target)
    (targetEnds : Ends after target targetLast) {node last : Node}
    (ends : Ends parent node last) :
    Ends after node last ∨ Ends after node targetLast := by
  by_cases wasMoved : moved last
  · right
    induction ends with
    | here => exact Ends.above (redirected _ wasMoved) targetEnds
    | above next _ ih =>
        refine Ends.above ((same _ ?_).trans next) (ih wasMoved)
        intro wasRoot
        rw [roots _ wasRoot] at next
        cases next
  · exact Or.inl (ends.stays same roots wasMoved)

end Redirect

/-- A search of which every test ends is a search. -/
theorem findM?_eq_find? {Item : Type} {test : Item → Option Bool} {found : Item → Bool}
    {items : List Item} (total : ∀ item ∈ items, test item = some (found item)) :
    items.findM? test = some (items.find? found) := by
  induction items with
  | nil => rfl
  | cons item items ih =>
      rw [List.findM?, total item List.mem_cons_self, List.find?_cons]
      have rest := ih fun other member => total other (List.mem_cons_of_mem item member)
      cases found item with
      | true => rfl
      | false => exact rest

theorem mem_of_findM?_eq_some {Item : Type} {test : Item → Option Bool} {items : List Item}
    {item : Item} (found : items.findM? test = some (some item)) : item ∈ items := by
  induction items with
  | nil => exact absurd found (by simp [List.findM?])
  | cons head items ih =>
      rw [List.findM?] at found
      cases tested : test head with
      | none => simp [tested] at found
      | some passed =>
          cases passed with
          | true =>
              have same : head = item := by simpa [tested] using found
              exact same ▸ List.mem_cons_self
          | false => exact List.mem_cons_of_mem head (ih (by simpa [tested] using found))

theorem exists_mapM {Item Image : Type} {image : Item → Option Image} {items : List Item}
    (total : ∀ item ∈ items, ∃ value, image item = some value) :
    ∃ values, items.mapM image = some values := by
  induction items with
  | nil => exact ⟨[], rfl⟩
  | cons item items ih =>
      obtain ⟨value, valueEq⟩ := total item List.mem_cons_self
      obtain ⟨values, valuesEq⟩ :=
        ih fun other member => total other (List.mem_cons_of_mem item member)
      exact ⟨value :: values, by simp [List.mapM_cons, valueEq, valuesEq]⟩

end NaturalMold.ParentWalks
