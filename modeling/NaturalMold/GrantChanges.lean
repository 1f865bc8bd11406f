import NaturalMold.GrantProjection

/-! # Grant changes keep the stored projection -/

namespace NaturalMold.Authz

open Conversations (Uuid Time OrgContext)
open Fallible KeyedDifferences KeyedTables RetriedOperations

/-- What the unique index of active grants is on. -/
def GrantRow.slot (row : GrantRow) : Ref × GrantRelation × PrincipalType × Uuid :=
  (row.object, row.relation, row.principalType, row.principalId)

def GrantRow.principalKey (row : GrantRow) : TupleKey where
  user := principalRef row.principalType row.principalId row.relation.name
  relation := row.relation.name
  object := row.object

/-- The expiry has passed since the grant was written. -/
def GrantRow.Lapsed (row : GrantRow) (now : Time) : Prop :=
  ∃ finish, row.expiresAt = some finish ∧ row.grantedAt < finish ∧ finish ≤ now

theorem GrantRelation.name_injective : Function.Injective GrantRelation.name := by
  intro first second same
  cases first <;> cases second <;> first | rfl | exact absurd same (by decide)

theorem principalRef_injective {firstType secondType : PrincipalType} {first second : Uuid}
    {relation : String}
    (same : principalRef firstType first relation = principalRef secondType second relation) :
    firstType = secondType ∧ first = second := by
  cases firstType <;> cases secondType <;>
    simp only [principalRef, objectSubject, membersOf] at same <;>
    (try split at same) <;> simp_all

theorem GrantRow.slot_eq_of_principalKey_eq {first second : GrantRow}
    (same : first.principalKey = second.principalKey) : first.slot = second.slot := by
  simp only [principalKey, TupleKey.mk.injEq] at same
  obtain ⟨users, relations, objects⟩ := same
  rw [relations] at users
  obtain ⟨types, principals⟩ := principalRef_injective users
  rw [slot, slot, objects, GrantRelation.name_injective relations, types, principals]

theorem GrantRow.principalKey_relation_notMem (row : GrantRow) :
    row.principalKey.relation ∉ ["org", "owner", "tenant"] := by
  change row.relation.name ∉ ["org", "owner", "tenant"]
  cases row.relation <;> decide

theorem GrantRow.principalKey_user_ne_tenant (row : GrantRow) :
    row.principalKey.user.ref.kind ≠ .tenant := by
  unfold principalKey principalRef
  cases row.principalType <;> simp only [objectSubject, membersOf]
  case organization => split <;> simp
  all_goals simp

theorem principalTuple_eq_ok {row : GrantRow} {now : Time} {items : List Tuple}
    (projected : principalTuple row now = .ok items) :
    items = [] ∨ ∃ item, items = [item] ∧ item.toTupleKey = row.principalKey := by
  rw [principalTuple] at projected
  split at projected
  · cases projected
  · split at projected
    · exact .inl (Except.ok.inj projected).symm
    · exact .inr ⟨_, (Except.ok.inj projected).symm, rfl⟩
  · exact .inr ⟨_, (Except.ok.inj projected).symm, rfl⟩
  · split at projected
    · cases projected
    · exact .inr ⟨_, (Except.ok.inj projected).symm, rfl⟩

theorem mem_marketplaceTenant {row : GrantRow} {item : Tuple}
    (member : item ∈ marketplaceTenant row) :
    row.resourceType = .marketplaceItem ∧ row.principalType = .organization ∧
      item.relation = "tenant" ∧ item.condition = none := by
  rw [marketplaceTenant] at member
  split at member
  case isTrue fanout =>
      obtain ⟨tenant, _, rfl⟩ := List.mem_map.mp member
      exact ⟨fanout.1, fanout.2, rfl, rfl⟩
  case isFalse => cases member

theorem tuplesFor_eq_ok_iff {row : Row} {now : Time} {items : List Tuple} :
    tuplesFor row now = .ok items ↔
      rowTuples row now = .ok items ∧ ∀ item ∈ items, assertModelValid item = .ok () := by
  have loop : ∀ items : List Tuple,
      (forIn items PUnit.unit fun item _ => do
        assertModelValid item
        pure (ForInStep.yield PUnit.unit) : Except TupleError PUnit) = .ok () ↔
        ∀ item ∈ items, assertModelValid item = .ok () := by
    intro items
    induction items with
    | nil => exact iff_of_true rfl (by simp)
    | cons item items ih =>
        rw [List.forIn_cons, List.forall_mem_cons, ← ih]
        cases checked : assertModelValid item with
        | error error => simp [bind, Except.bind]
        | ok passed => simp [bind, Except.bind, pure, Except.pure]
  rw [tuplesFor]
  simp only [bind_eq_ok]
  constructor
  · rintro ⟨produced, producedEq, passed, passedEq, same⟩
    obtain rfl := Except.ok.inj same
    exact ⟨producedEq, (loop produced).mp passedEq⟩
  · rintro ⟨producedEq, valid⟩
    exact ⟨items, producedEq, (), (loop items).mpr valid, rfl⟩

theorem tuplesFor_grant {row : GrantRow} {now : Time} {items : List Tuple}
    (projected : tuplesFor (.grant row) now = .ok items) :
    items = [] ∨
      ∃ own, principalTuple row now = .ok own ∧ items = marketplaceTenant row ++ own := by
  have grantEq : grantTuples row now = .ok items := (tuplesFor_eq_ok_iff.mp projected).1
  rw [grantTuples] at grantEq
  split at grantEq
  · exact .inl (Except.ok.inj grantEq).symm
  · simp only [bind_eq_ok] at grantEq
    obtain ⟨own, ownEq, same⟩ := grantEq
    exact .inr ⟨own, ownEq, (Except.ok.inj same).symm⟩

theorem mem_tuplesFor_grant {row : GrantRow} {now : Time} {items : List Tuple}
    (projected : tuplesFor (.grant row) now = .ok items) {item : Tuple} (member : item ∈ items) :
    item ∈ marketplaceTenant row ∨ item.toTupleKey = row.principalKey := by
  rcases tuplesFor_grant projected with rfl | ⟨own, ownEq, rfl⟩
  · cases member
  · rcases List.mem_append.mp member with fanout | principal
    · exact .inl fanout
    · rcases principalTuple_eq_ok ownEq with rfl | ⟨only, rfl, keyEq⟩
      · cases principal
      · rw [List.mem_singleton.mp principal]
        exact .inr keyEq

/-- A tuple without a condition, on a key that no grant projects for its
principal. -/
structure Shared (item : Tuple) : Prop where
  plain : item.condition = none
  notPrincipal : ∀ row : GrantRow, item.toTupleKey ≠ row.principalKey

theorem Shared.of_relation {item : Tuple} (plain : item.condition = none)
    (relation : item.relation ∈ ["org", "owner", "tenant"]) : Shared item := by
  refine ⟨plain, fun row same => row.principalKey_relation_notMem ?_⟩
  rw [← same]
  exact relation

theorem Shared.of_tenant {item : Tuple} (plain : item.condition = none)
    (kindEq : item.user.ref.kind = .tenant) : Shared item := by
  refine ⟨plain, fun row same => row.principalKey_user_ne_tenant ?_⟩
  rw [← same]
  exact kindEq

theorem Shared.eq_of_key_eq {first second : Tuple} (firstShared : Shared first)
    (secondShared : Shared second) (same : first.toTupleKey = second.toTupleKey) :
    first = second := by
  obtain ⟨firstKey, firstCondition⟩ := first
  obtain ⟨secondKey, secondCondition⟩ := second
  have firstPlain : firstCondition = none := firstShared.plain
  have secondPlain : secondCondition = none := secondShared.plain
  simp_all

theorem shared_of_mem_marketplaceTenant {row : GrantRow} {item : Tuple}
    (member : item ∈ marketplaceTenant row) : Shared item := by
  obtain ⟨_, _, relationEq, plain⟩ := mem_marketplaceTenant member
  exact Shared.of_relation plain (by simp [relationEq])

theorem eq_of_mem_tuplesFor_grant {row : GrantRow} {now : Time} {items : List Tuple}
    (projected : tuplesFor (.grant row) now = .ok items) {first second : Tuple}
    (firstMember : first ∈ items) (secondMember : second ∈ items)
    (firstKey : first.toTupleKey = row.principalKey)
    (secondKey : second.toTupleKey = row.principalKey) : first = second := by
  rcases tuplesFor_grant projected with rfl | ⟨own, ownEq, rfl⟩
  · cases firstMember
  · have inOwn : ∀ item ∈ marketplaceTenant row ++ own, item.toTupleKey = row.principalKey →
        item ∈ own := by
      intro item member keyEq
      rcases List.mem_append.mp member with fanout | principal
      · exact absurd keyEq ((shared_of_mem_marketplaceTenant fanout).notPrincipal row)
      · exact principal
    have firstOwn := inOwn first firstMember firstKey
    have secondOwn := inOwn second secondMember secondKey
    rcases principalTuple_eq_ok ownEq with rfl | ⟨only, rfl, _⟩
    · cases firstOwn
    · rw [List.mem_singleton.mp firstOwn, List.mem_singleton.mp secondOwn]

theorem shared_of_mem_orgAndOwner {kind : ObjectKind} {id : Uuid} {org owner : Option Uuid}
    {system : Bool} {item : Tuple} (member : item ∈ orgAndOwner kind id org owner system) :
    Shared item := by
  rw [orgAndOwner] at member
  split at member
  · cases member
  · rcases List.mem_append.mp member with ofOrg | ofOwner
    · obtain ⟨_, _, rfl⟩ := List.mem_map.mp ofOrg
      exact Shared.of_relation rfl (by simp [plainTuple])
    · obtain ⟨_, _, rfl⟩ := List.mem_map.mp ofOwner
      exact Shared.of_relation rfl (by simp [plainTuple])

theorem mem_safeTuples {row : Row} {now : Time} {item : Tuple}
    (member : item ∈ safeTuples row now) :
    ∃ items, tuplesFor row now = .ok items ∧ item ∈ items := by
  rw [safeTuples] at member
  cases projected : tuplesFor row now with
  | error error =>
      rw [projected] at member
      cases member
  | ok items =>
      rw [projected] at member
      exact ⟨items, rfl, member⟩

/-- An item's own row projects tuples without conditions, none of them for a
grant's principal. -/
theorem shared_of_mem_marketplaceItem {row : MarketplaceItemRow} {now : Time} {item : Tuple}
    (member : item ∈ safeTuples (.marketplaceItem row) now) : Shared item := by
  obtain ⟨items, projected, member⟩ := mem_safeTuples member
  have itemsEq := (tuplesFor_eq_ok_iff.mp projected).1
  simp only [rowTuples, Except.ok.injEq] at itemsEq
  subst itemsEq
  split at member
  · rcases List.mem_append.mp member with listed | publication
    · rcases List.mem_append.mp listed with own | tenant
      · exact shared_of_mem_orgAndOwner own
      · rw [List.mem_singleton.mp tenant]
        exact Shared.of_tenant rfl rfl
    · split at publication
      · rw [List.mem_singleton.mp publication]
        exact Shared.of_tenant rfl rfl
      · cases publication
  · exact shared_of_mem_orgAndOwner member

/-- Unless its expiry has passed since, a row projects today what it projected
when it was written. -/
theorem tuplesFor_eq_of_not_lapsed {row : GrantRow} {now : Time} (current : ¬ row.Lapsed now) :
    tuplesFor (.grant row) now = tuplesFor (.grant row) row.grantedAt := by
  have principalEq : principalTuple row now = principalTuple row row.grantedAt := by
    unfold principalTuple
    split
    · rfl
    · rename_i finish finishEq nameEq
      have sameBranch : (finish ≤ now ∨ finish ≤ row.grantedAt) ↔
          (finish ≤ row.grantedAt ∨ finish ≤ row.grantedAt) := by
        constructor
        · rintro (passed | early)
          · exact .inl (not_lt.mp fun later => current ⟨finish, finishEq, later, passed⟩)
          · exact .inl early
        · rintro (early | early) <;> exact .inr early
      simp only [sameBranch]
    · rfl
    · rfl
  simp only [tuplesFor, rowTuples, grantTuples, principalEq]

theorem writtenTuples_eq_safeTuples {row : GrantRow} {now : Time} (active : row.state = .active)
    (current : ¬ row.Lapsed now) : writtenTuples row = safeTuples (.grant row) now := by
  have rowEq : { row with state := .active } = row := by
    rw [← active]
  rw [writtenTuples, rowEq, safeTuples, tuplesFor_eq_of_not_lapsed current]

/-- The grants: at most one active grant per resource, relation and principal. -/
structure GrantTable where
  table : Table GrantRow.id
  one_active : ∀ first ∈ table.rows, ∀ second ∈ table.rows, first.state = .active →
    second.state = .active → first.slot = second.slot → first = second

def GrantTable.rows (grants : GrantTable) : List GrantRow :=
  grants.table.rows

def activeOn (grants : List GrantRow) (object : Ref) : List GrantRow :=
  grants.filter fun row => row.object = object ∧ row.state = .active

theorem mem_activeOn {grants : List GrantRow} {object : Ref} {row : GrantRow} :
    row ∈ activeOn grants object ↔ row ∈ grants ∧ row.object = object ∧ row.state = .active := by
  simp [activeOn]

def projection (grants : List GrantRow) (items : List MarketplaceItemRow) (object : Ref)
    (now : Time) : List Tuple :=
  (activeOn grants object).flatMap writtenTuples ++
    (itemRows items object).flatMap fun item => safeTuples (.marketplaceItem item) now

theorem mem_projection {grants : List GrantRow} {items : List MarketplaceItemRow} {object : Ref}
    {now : Time} {item : Tuple} :
    item ∈ projection grants items object now ↔
      (∃ row ∈ activeOn grants object, item ∈ writtenTuples row) ∨
        ∃ row ∈ itemRows items object, item ∈ safeTuples (.marketplaceItem row) now := by
  rw [projection, List.mem_append, List.mem_flatMap, List.mem_flatMap]

theorem mem_writtenTuples {row : GrantRow} {item : Tuple} (member : item ∈ writtenTuples row) :
    item ∈ marketplaceTenant row ∨ item.toTupleKey = row.principalKey := by
  obtain ⟨items, projected, member⟩ := mem_safeTuples member
  exact mem_tuplesFor_grant projected member

theorem eq_of_mem_writtenTuples {row : GrantRow} {first second : Tuple}
    (firstMember : first ∈ writtenTuples row) (secondMember : second ∈ writtenTuples row)
    (firstKey : first.toTupleKey = row.principalKey)
    (secondKey : second.toTupleKey = row.principalKey) : first = second := by
  obtain ⟨items, projected, firstMember⟩ := mem_safeTuples firstMember
  obtain ⟨_, sameProjected, secondMember⟩ := mem_safeTuples secondMember
  obtain rfl := Except.ok.inj (projected.symm.trans sameProjected)
  exact eq_of_mem_tuplesFor_grant projected firstMember secondMember firstKey secondKey

private theorem shared_or_principal {grants : List GrantRow} {items : List MarketplaceItemRow}
    {object : Ref} {now : Time} {item : Tuple}
    (member : item ∈ projection grants items object now) :
    Shared item ∨
      ∃ row ∈ activeOn grants object, item ∈ writtenTuples row ∧
        item.toTupleKey = row.principalKey := by
  rcases mem_projection.mp member with ⟨row, rowMember, written⟩ | ⟨row, _, own⟩
  · rcases mem_writtenTuples written with fanout | principal
    · exact .inl (shared_of_mem_marketplaceTenant fanout)
    · exact .inr ⟨row, rowMember, written, principal⟩
  · exact .inl (shared_of_mem_marketplaceItem own)

theorem GrantTable.coherent_projection (grants : GrantTable) (items : List MarketplaceItemRow)
    (object : Ref) (now : Time) :
    Coherent RelationTuple.toTupleKey (projection grants.rows items object now) := by
  intro first firstMember second secondMember same
  rcases shared_or_principal firstMember with firstShared | ⟨firstRow, firstActive, firstOf⟩
  · rcases shared_or_principal secondMember with secondShared | ⟨secondRow, _, _, keyEq⟩
    · exact firstShared.eq_of_key_eq secondShared same
    · exact absurd (same.trans keyEq) (firstShared.notPrincipal secondRow)
  · rcases shared_or_principal secondMember with secondShared | ⟨secondRow, secondActive, secondOf⟩
    · exact absurd (same.symm.trans firstOf.2) (secondShared.notPrincipal firstRow)
    · have slotEq : firstRow.slot = secondRow.slot :=
        GrantRow.slot_eq_of_principalKey_eq (firstOf.2.symm.trans (same.trans secondOf.2))
      have firstFacts := mem_activeOn.mp firstActive
      have secondFacts := mem_activeOn.mp secondActive
      obtain rfl := grants.one_active firstRow firstFacts.1 secondRow secondFacts.1
        firstFacts.2.2 secondFacts.2.2 slotEq
      exact eq_of_mem_writtenTuples firstOf.1 secondOf.1 firstOf.2 secondOf.2

inductive GrantChange
  | insert (row : GrantRow)
  | update (old new : GrantRow)
  | close (row : GrantRow)

namespace GrantChange

def before : GrantChange → Option GrantRow
  | insert _ => none
  | update old _ => some old
  | close row => some row

def after : GrantChange → Option GrantRow
  | insert row => some row
  | update _ new => some new
  | close _ => none

/-- The row whose object and id the operations are computed with. -/
def row : GrantChange → GrantRow
  | insert row => row
  | update _ new => new
  | close row => row

theorem after_or_before (change : GrantChange) :
    change.after.or change.before = some change.row := by
  cases change <;> rfl

end GrantChange

/-- `desired_row` finds that the model can store the tuples of a row granted
now. -/
def GrantRow.Accepted (row : GrantRow) (now : Time) : Prop :=
  ∃ first rest, tuplesFor (.grant { row with grantedAt := now }) now = .ok (first :: rest)

inductive Flushes (now : Time) (before after : GrantTable) : GrantChange → Prop
  | insert {row : GrantRow} (active : row.state = .active) (granted : row.grantedAt = now)
      (accepted : row.Accepted now) (inserted : before.table.insert? row = some after.table) :
      Flushes now before after (.insert row)
  | update {old new : GrantRow} (member : old ∈ before.rows) (wasActive : old.state = .active)
      (sameId : new.id = old.id) (sameSlot : new.slot = old.slot) (active : new.state = .active)
      (granted : new = old ∨ new.grantedAt = now) (accepted : new.Accepted now)
      (saved : after.table = before.table.save new) : Flushes now before after (.update old new)
  | close {row : GrantRow} (member : row ∈ before.rows) (active : row.state = .active)
      (saved : after.table = before.table.save { row with state := .revoking }) :
      Flushes now before after (.close row)

/-- What `desired_row` returns is accepted, and new rows are granted now. -/
theorem desiredRow_accepted {ctx : OrgContext} {target : GrantTarget} {request : GrantRequest}
    {before : Option GrantRow} {now : Time} {fresh : Uuid} {row : GrantRow}
    (desired : desiredRow ctx target request before now fresh = .ok row) :
    row.Accepted now ∧ (before = some row ∨ row.grantedAt = now) := by
  cases before with
  | none =>
      simp only [desiredRow] at desired
      split at desired
      · cases desired
      · cases desired
      · rename_i first rest projected
        obtain rfl := Except.ok.inj desired
        exact ⟨⟨first, rest, projected⟩, .inr rfl⟩
  | some before =>
      simp only [desiredRow] at desired
      split at desired
      · cases desired
      · cases desired
      · rename_i first rest projected
        obtain rfl := Except.ok.inj desired
        split
        case isTrue unchanged => exact ⟨⟨first, rest, unchanged ▸ projected⟩, .inl rfl⟩
        case isFalse => exact ⟨⟨first, rest, projected⟩, .inr rfl⟩

end NaturalMold.Authz
