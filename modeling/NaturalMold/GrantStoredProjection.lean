import NaturalMold.GrantChanges

/-! # The stored tuples follow the rows -/

namespace NaturalMold.Authz

open Conversations (Uuid Time)
open Fallible KeyedDifferences KeyedTables RetriedOperations

variable {now : Time} {before after : GrantTable} {change : GrantChange}

namespace Flushes

theorem mem_iff_of_id_ne (flushes : Flushes now before after change) {row : GrantRow}
    (other : row.id ≠ change.row.id) : row ∈ before.rows ↔ row ∈ after.rows := by
  rw [GrantTable.rows, GrantTable.rows]
  cases flushes with
  | insert _ _ _ inserted =>
      rw [(Table.insert?_eq_some inserted).1, List.mem_append, List.mem_singleton]
      refine ⟨.inl, ?_⟩
      rintro (older | rfl)
      · exact older
      · exact absurd rfl other
  | update _ _ _ _ _ _ _ saved | close _ _ saved =>
      rw [saved, Table.mem_save]
      refine ⟨fun member => .inr ⟨member, other⟩, ?_⟩
      rintro (⟨rfl, _⟩ | ⟨member, _⟩)
      · exact absurd rfl other
      · exact member

theorem before_mem (flushes : Flushes now before after change) {row : GrantRow}
    (is : change.before = some row) :
    row ∈ before.rows ∧ row.state = .active ∧ row.id = change.row.id ∧
      row.slot = change.row.slot := by
  cases flushes with
  | insert => cases is
  | update member wasActive sameId sameSlot =>
      obtain rfl := Option.some.inj is
      exact ⟨member, wasActive, sameId.symm, sameSlot.symm⟩
  | close member active =>
      obtain rfl := Option.some.inj is
      exact ⟨member, active, rfl, rfl⟩

theorem after_mem (flushes : Flushes now before after change) {row : GrantRow}
    (is : change.after = some row) :
    row ∈ after.rows ∧ row.state = .active ∧ row = change.row ∧ row.Accepted now := by
  cases flushes with
  | insert active _ accepted inserted =>
      obtain rfl := Option.some.inj is
      refine ⟨?_, active, rfl, accepted⟩
      rw [GrantTable.rows, (Table.insert?_eq_some inserted).1]
      exact List.mem_append_right _ (List.mem_singleton_self _)
  | update member _ sameId _ active _ accepted saved =>
      obtain rfl := Option.some.inj is
      refine ⟨?_, active, rfl, accepted⟩
      rw [GrantTable.rows, saved, Table.mem_save]
      exact .inl ⟨rfl, _, member, sameId.symm⟩
  | close => cases is

theorem before_eq_of_id_eq (flushes : Flushes now before after change) {row : GrantRow}
    (member : row ∈ before.rows) (same : row.id = change.row.id) : change.before = some row := by
  cases flushes with
  | insert _ _ _ inserted => exact absurd same ((Table.insert?_eq_some inserted).2 row member)
  | update oldMember _ sameId =>
      exact congrArg some (before.table.eq_of_key_eq oldMember member (sameId.symm.trans same.symm))
  | close oldMember =>
      exact congrArg some (before.table.eq_of_key_eq oldMember member same.symm)

theorem after_eq_of_id_eq (flushes : Flushes now before after change) {row : GrantRow}
    (member : row ∈ after.rows) (active : row.state = .active) (same : row.id = change.row.id) :
    change.after = some row := by
  cases afterEq : change.after with
  | some new =>
      have facts := flushes.after_mem afterEq
      exact congrArg some
        (after.table.eq_of_key_eq facts.1 member (facts.2.2.1 ▸ same.symm))
  | none =>
      cases flushes with
      | insert | update => cases afterEq
      | close _ _ saved =>
          rw [GrantTable.rows, saved, Table.mem_save] at member
          rcases member with ⟨rfl, _⟩ | ⟨_, different⟩
          · cases active
          · exact absurd same different

theorem slot_ne (flushes : Flushes now before after change) {row : GrantRow}
    (member : row ∈ after.rows) (active : row.state = .active) (other : row.id ≠ change.row.id) :
    row.slot ≠ change.row.slot := by
  intro same
  cases afterEq : change.after with
  | some new =>
      obtain ⟨newMember, newActive, rfl, _⟩ := flushes.after_mem afterEq
      exact other (congrArg GrantRow.id
        (after.one_active row member _ newMember active newActive same))
  | none =>
      obtain ⟨old, beforeEq⟩ : ∃ old, change.before = some old := by
        have someRow := change.after_or_before
        rw [afterEq, Option.none_or] at someRow
        exact ⟨_, someRow⟩
      obtain ⟨oldMember, oldActive, oldId, oldSlot⟩ := flushes.before_mem beforeEq
      have earlier := (flushes.mem_iff_of_id_ne other).mpr member
      obtain rfl := before.one_active row earlier old oldMember active oldActive
        (same.trans oldSlot.symm)
      exact other oldId

end Flushes

theorem assertModelValid_congr {first second : Tuple}
    (keyEq : first.toTupleKey = second.toTupleKey)
    (nameEq : first.condition.map Condition.name = second.condition.map Condition.name)
    (fieldsEq : first.condition.map (fun condition => condition.context.map Prod.fst) =
      second.condition.map fun condition => condition.context.map Prod.fst) :
    assertModelValid first = assertModelValid second := by
  obtain ⟨key, firstCondition⟩ := first
  obtain ⟨_, secondCondition⟩ := second
  obtain rfl : key = _ := keyEq
  cases firstCondition with
  | none =>
      cases secondCondition with
      | none => rfl
      | some => simp at nameEq
  | some firstCondition =>
      cases secondCondition with
      | none => simp at nameEq
      | some secondCondition =>
          simp only [Option.map_some, Option.some.injEq] at nameEq fieldsEq
          simp only [assertModelValid, Option.map_some, nameEq, fieldsEq]

private theorem sortedContext_expiry (start duration : ContextValue) :
    sortedContext [("grant_time", start), ("grant_duration", duration)] =
      [("grant_duration", duration), ("grant_time", start)] := by
  simp only [sortedContext, List.insertionSort, List.foldr_cons, List.foldr_nil,
    List.orderedInsert]
  rw [if_neg (by decide)]

theorem GrantRow.Accepted.not_lapsed {row : GrantRow} (accepted : row.Accepted now)
    (current : row.resourceType = .marketplaceItem → row.principalType = .organization →
      ¬ row.Lapsed now) : ¬ row.Lapsed now := by
  intro lapsed
  obtain ⟨finish, finishEq, _, passed⟩ := lapsed
  obtain ⟨first, rest, projected⟩ := accepted
  rcases tuplesFor_grant projected with none | ⟨own, ownEq, listed⟩
  · cases none
  · simp only [principalTuple, finishEq] at ownEq
    cases nameEq : row.conditionName with
    | some name =>
        rw [nameEq] at ownEq
        cases ownEq
    | none =>
        simp only [nameEq, passed, true_or, if_true, Except.ok.injEq] at ownEq
        have member : first ∈ marketplaceTenant row := by
          rw [← ownEq, List.append_nil] at listed
          change first ∈ marketplaceTenant { row with grantedAt := now }
          rw [← listed]
          exact List.mem_cons_self
        have fanout := mem_marketplaceTenant member
        exact current fanout.1 fanout.2.1 ⟨finish, finishEq, by assumption, passed⟩

private theorem principalTuple_of_accepted {row : GrantRow} {own : List Tuple}
    (accepted : principalTuple { row with grantedAt := now } now = .ok own)
    (valid : ∀ item ∈ own, assertModelValid item = .ok ()) :
    ∃ items, principalTuple row now = .ok items ∧
      ∀ item ∈ items, assertModelValid item = .ok () := by
  cases finishEq : row.expiresAt with
  | none =>
      refine ⟨own, ?_, valid⟩
      rw [← accepted]
      cases nameEq : row.conditionName <;>
        simp only [principalTuple, finishEq, nameEq, GrantRow.object]
  | some finish =>
      cases nameEq : row.conditionName with
      | some name =>
          simp only [principalTuple, finishEq, nameEq] at accepted
          cases accepted
      | none =>
          simp only [principalTuple, finishEq, nameEq, or_self] at accepted ⊢
          by_cases early : finish ≤ now ∨ finish ≤ row.grantedAt
          · rw [if_pos early]
            exact ⟨[], rfl, by simp⟩
          · rw [if_neg fun passed => early (.inl passed)] at accepted
            rw [if_neg early]
            obtain rfl := Except.ok.inj accepted
            refine ⟨_, rfl, ?_⟩
            intro item member
            rw [List.mem_singleton.mp member]
            rw [← valid _ (List.mem_singleton_self _)]
            refine assertModelValid_congr rfl rfl ?_
            simp only [conditionedTuple, sortedContext_expiry, Option.map_some, List.map_cons,
              List.map_nil]

theorem GrantRow.Accepted.tuplesFor {row : GrantRow} (accepted : row.Accepted now) :
    ∃ items, tuplesFor (.grant row) now = .ok items := by
  obtain ⟨first, rest, projected⟩ := accepted
  obtain ⟨grantEq, valid⟩ := tuplesFor_eq_ok_iff.mp projected
  simp only [rowTuples, grantTuples] at grantEq
  by_cases active : row.state = .active
  · rw [if_neg (not_not.mpr active)] at grantEq
    simp only [bind_eq_ok] at grantEq
    obtain ⟨own, ownEq, listed⟩ := grantEq
    have listed : marketplaceTenant row ++ own = first :: rest := Except.ok.inj listed
    rw [← listed] at valid
    obtain ⟨items, itemsEq, itemsValid⟩ := principalTuple_of_accepted ownEq
      fun item member => valid item (List.mem_append_right _ member)
    refine ⟨marketplaceTenant row ++ items, tuplesFor_eq_ok_iff.mpr ⟨?_, ?_⟩⟩
    · simp only [rowTuples, grantTuples, active, ne_eq, not_true_eq_false, if_false, itemsEq]
      rfl
    · intro item member
      rcases List.mem_append.mp member with fanout | principal
      · exact valid item (List.mem_append_left _ fanout)
      · exact itemsValid item principal
  · refine ⟨[], tuplesFor_eq_ok_iff.mpr ⟨?_, by simp⟩⟩
    simp only [rowTuples, grantTuples, if_pos active]
    rfl

private theorem keyOp_operation (previous desired : Option Tuple) :
    (keyOp previous desired).map TupleOp.operation = between previous desired := by
  cases previous with
  | none => cases desired <;> rfl
  | some previous =>
      cases desired with
      | none => rfl
      | some desired =>
          by_cases same : desired = previous
          · simp [keyOp, between, same]
          · simp [keyOp, between, same, Ne.symm same, TupleOp.operation]

private theorem keyOp_key {previous desired : Option Tuple} {key : TupleKey}
    (previousKey : ∀ item, previous = some item → item.toTupleKey = key)
    (desiredKey : ∀ item, desired = some item → item.toTupleKey = key) {op : TupleOp Condition}
    (chosen : keyOp previous desired = some op) : op.tuple.toTupleKey = key := by
  cases desired with
  | none =>
      cases previous with
      | none => cases chosen
      | some previous =>
          obtain rfl := Option.some.inj chosen
          exact previousKey previous rfl
  | some desired =>
      rw [keyOp] at chosen
      split at chosen
      · cases chosen
      · obtain rfl := Option.some.inj chosen
        exact desiredKey desired rfl

private theorem lookup_filter {items : List Tuple} {keys : List TupleKey} {key : TupleKey}
    (coherent : Coherent RelationTuple.toTupleKey items) (member : key ∈ keys) :
    lookup RelationTuple.toTupleKey (items.filter fun item => item.toTupleKey ∈ keys) key =
      lookup RelationTuple.toTupleKey items key := by
  apply lookup_congr _ coherent
  · intro item keyEq
    rw [List.mem_filter, keyEq, decide_eq_true_eq]
    exact and_iff_left member
  · exact coherent.subset fun item filtered => (List.mem_filter.mp filtered).1

private theorem diff_keys {first second : List Tuple} {keys : List TupleKey}
    {ops : List (TupleOp Condition)} (difference : diff first second keys = .ok ops)
    {op : TupleOp Condition} (member : op ∈ ops) : op.tuple.toTupleKey ∈ keys := by
  rw [diff] at difference
  simp only [bind_eq_ok] at difference
  obtain ⟨old, _, new, _, opsEq⟩ := difference
  rw [← Except.ok.inj opsEq] at member
  obtain ⟨key, keyMember, chosen⟩ := List.mem_filterMap.mp member
  rw [keyOp_key (fun _ found => (mem_of_lookup found).2)
    (fun _ found => (mem_of_lookup found).2) chosen]
  rwa [List.mem_insertionSort, List.mem_dedup] at keyMember

/-- The operations of a difference turn one coherent projection into the other
on the given keys. -/
theorem diff_spec {first second : List Tuple} (keys : List TupleKey)
    (firstCoherent : Coherent RelationTuple.toTupleKey first)
    (secondCoherent : Coherent RelationTuple.toTupleKey second) :
    ∃ ops, diff first second keys = .ok ops ∧
      ∀ (store : TupleStore Condition) (key : TupleKey), key ∈ keys →
        store key = lookup RelationTuple.toTupleKey first key →
          applyOps ops store key = lookup RelationTuple.toTupleKey second key := by
  let part (items : List Tuple) := items.filter fun item => item.toTupleKey ∈ keys
  have partCoherent : ∀ items, Coherent RelationTuple.toTupleKey items →
      Coherent RelationTuple.toTupleKey (part items) :=
    fun items coherent => coherent.subset fun item member => (List.mem_filter.mp member).1
  obtain ⟨old, oldEq, _⟩ := mergeTuples_of_coherent (partCoherent first firstCoherent)
  obtain ⟨new, newEq, _⟩ := mergeTuples_of_coherent (partCoherent second secondCoherent)
  have oldLookup := lookup_mergeTuples (partCoherent first firstCoherent) oldEq
  have newLookup := lookup_mergeTuples (partCoherent second secondCoherent) newEq
  let sorted := keys.dedup.insertionSort fun first second => keyOrder first ≤ keyOrder second
  have mem_sorted : ∀ key, key ∈ sorted ↔ key ∈ keys := by
    intro key
    rw [List.mem_insertionSort, List.mem_dedup]
  have distinct : sorted.Nodup :=
    (List.perm_insertionSort _ _).nodup_iff.mpr (List.nodup_dedup keys)
  let choose (key : TupleKey) : Option (TupleOp Condition) :=
    keyOp (lookup RelationTuple.toTupleKey old key) (lookup RelationTuple.toTupleKey new key)
  have own : ∀ key op, choose key = some op → op.tuple.toTupleKey = key :=
    fun key op => keyOp_key (fun _ found => (mem_of_lookup found).2)
      (fun _ found => (mem_of_lookup found).2)
  refine ⟨sorted.filterMap choose, ?_, ?_⟩
  · rw [diff, oldEq, newEq]
    rfl
  · intro store key member stored
    rw [applyOps_apply, filter_filterMap_of_mem own distinct ((mem_sorted key).mpr member)]
    have operations : (choose key).map TupleOp.operation =
        between (lookup RelationTuple.toTupleKey first key)
          (lookup RelationTuple.toTupleKey second key) := by
      rw [keyOp_operation, oldLookup key, newLookup key, lookup_filter firstCoherent member,
        lookup_filter secondCoherent member]
    rw [← Option.toList_map, operations, stored, applyAll_between]

def GrantChange.tuples (change : GrantChange) (now : Time) : List Tuple :=
  (change.before.map writtenTuples).getD [] ++
    (change.after.map fun row => safeTuples (.grant row) now).getD []

def NoneLapsed (after : GrantTable) (change : GrantChange) (now : Time) : Prop :=
  ∀ row ∈ activeOn after.rows change.row.object, row.resourceType = .marketplaceItem →
    row.principalType = .organization → ¬ row.Lapsed now

theorem GrantRow.principalKey_eq_of_slot_eq {first second : GrantRow}
    (same : first.slot = second.slot) : first.principalKey = second.principalKey := by
  simp only [slot, Prod.mk.injEq] at same
  obtain ⟨objects, relations, types, principals⟩ := same
  rw [principalKey, principalKey, objects, relations, types, principals]

theorem mem_activeGrantRows {grants : List GrantRow} {object : Ref} {exclude : Uuid}
    {org : Option Uuid} {row : GrantRow} :
    row ∈ activeGrantRows grants object exclude org ↔
      row ∈ activeOn grants object ∧ row.id ≠ exclude ∧ (org = none ∨ org = some row.orgId) := by
  rw [activeGrantRows, List.mem_insertionSort, List.mem_filter, mem_activeOn, decide_eq_true_eq]
  tauto

theorem mem_remaining {grants : List GrantRow} {items : List MarketplaceItemRow} {row : GrantRow}
    {scope : Option Uuid} {item : Tuple} :
    item ∈ remaining grants items row scope now ↔
      (∃ other ∈ activeGrantRows grants row.object row.id scope,
          item ∈ safeTuples (.grant other) now) ∨
        ∃ other ∈ itemRows items row.object, item ∈ safeTuples (.marketplaceItem other) now := by
  rw [remaining, List.mem_flatMap]
  constructor
  · rintro ⟨_, member, projected⟩
    rcases List.mem_append.mp member with grant | own
    · obtain ⟨other, otherMember, rfl⟩ := List.mem_map.mp grant
      exact .inl ⟨other, otherMember, projected⟩
    · obtain ⟨other, otherMember, rfl⟩ := List.mem_map.mp own
      exact .inr ⟨other, otherMember, projected⟩
  · rintro (⟨other, member, projected⟩ | ⟨other, member, projected⟩)
    · exact ⟨_, List.mem_append_left _ (List.mem_map_of_mem member), projected⟩
    · exact ⟨_, List.mem_append_right _ (List.mem_map_of_mem member), projected⟩

namespace Flushes

theorem own_of_mem_tuples (flushes : Flushes now before after change) {item : Tuple}
    (member : item ∈ change.tuples now) : ∃ row : GrantRow, row.slot = change.row.slot ∧
      (item ∈ marketplaceTenant row ∨ item.toTupleKey = row.principalKey) := by
  rw [GrantChange.tuples, List.mem_append] at member
  rcases member with written | current
  · cases beforeEq : change.before with
    | none =>
        rw [beforeEq] at written
        cases written
    | some row =>
        rw [beforeEq] at written
        exact ⟨row, (flushes.before_mem beforeEq).2.2.2, mem_writtenTuples written⟩
  · cases afterEq : change.after with
    | none =>
        rw [afterEq] at current
        cases current
    | some row =>
        rw [afterEq] at current
        obtain ⟨_, _, rfl, _⟩ := flushes.after_mem afterEq
        obtain ⟨items, projected, member⟩ := mem_safeTuples current
        exact ⟨_, rfl, mem_tuplesFor_grant projected member⟩

theorem mem_tuples (flushes : Flushes now before after change) {item : Tuple}
    (member : item ∈ change.tuples now) :
    Shared item ∨ item.toTupleKey = change.row.principalKey := by
  obtain ⟨row, slotEq, own⟩ := flushes.own_of_mem_tuples member
  rw [← GrantRow.principalKey_eq_of_slot_eq slotEq]
  exact own.imp shared_of_mem_marketplaceTenant id

theorem mem_marketplaceTenant_of_other (flushes : Flushes now before after change)
    {row : GrantRow} (member : row ∈ activeOn after.rows change.row.object)
    (other : row.id ≠ change.row.id) {item : Tuple}
    (own : item ∈ marketplaceTenant row ∨ item.toTupleKey = row.principalKey)
    (touched : item.toTupleKey ∈ (change.tuples now).map RelationTuple.toTupleKey) :
    item ∈ marketplaceTenant row := by
  rcases own with fanout | principal
  · exact fanout
  · obtain ⟨changed, changedMember, keyEq⟩ := List.mem_map.mp touched
    rcases flushes.mem_tuples changedMember with shared | principalEq
    · exact absurd (keyEq.trans principal) (shared.notPrincipal row)
    · have slotEq := GrantRow.slot_eq_of_principalKey_eq
        (principal.symm.trans (keyEq.symm.trans principalEq))
      have facts := mem_activeOn.mp member
      exact absurd slotEq (flushes.slot_ne facts.1 facts.2.2 other)

theorem mem_safeTuples_iff (flushes : Flushes now before after change)
    (current : NoneLapsed after change now) {row : GrantRow}
    (member : row ∈ activeOn after.rows change.row.object) (other : row.id ≠ change.row.id)
    {item : Tuple} (touched : item.toTupleKey ∈ (change.tuples now).map RelationTuple.toTupleKey) :
    item ∈ safeTuples (.grant row) now ↔ item ∈ writtenTuples row := by
  have same : item ∈ marketplaceTenant row →
      (item ∈ safeTuples (.grant row) now ↔ item ∈ writtenTuples row) := by
    intro fanout
    obtain ⟨typeEq, principalEq, _⟩ := mem_marketplaceTenant fanout
    rw [writtenTuples_eq_safeTuples (mem_activeOn.mp member).2.2
      (current row member typeEq principalEq)]
  constructor
  · intro today
    obtain ⟨items, projected, listed⟩ := mem_safeTuples today
    exact (same (flushes.mem_marketplaceTenant_of_other member other
      (mem_tuplesFor_grant projected listed) touched)).mp today
  · intro written
    exact (same (flushes.mem_marketplaceTenant_of_other member other
      (mem_writtenTuples written) touched)).mpr written

end Flushes

theorem GrantRow.scope_eq_none_or (row : GrantRow) :
    row.scope = none ∨ row.resourceType ≠ .marketplaceItem := by
  rw [scope, orgScope]
  split
  case isTrue fanout => exact .inr fanout.2.2
  case isFalse => exact .inl rfl

def FromOthers (after : GrantTable) (items : List MarketplaceItemRow) (change : GrantChange)
    (now : Time) (item : Tuple) : Prop :=
  (∃ row ∈ activeOn after.rows change.row.object, row.id ≠ change.row.id ∧
      item ∈ writtenTuples row) ∨
    ∃ row ∈ itemRows items change.row.object, item ∈ safeTuples (.marketplaceItem row) now

namespace Flushes

variable {items : List MarketplaceItemRow} {item : Tuple}

theorem mem_projection_before (flushes : Flushes now before after change) :
    item ∈ projection before.rows items change.row.object now ↔
      FromOthers after items change now item ∨
        item ∈ (change.before.map writtenTuples).getD [] := by
  rw [mem_projection, FromOthers, or_right_comm]
  refine or_congr_left ?_
  constructor
  · rintro ⟨row, member, written⟩
    have facts := mem_activeOn.mp member
    by_cases same : row.id = change.row.id
    · rw [flushes.before_eq_of_id_eq facts.1 same]
      exact .inr written
    · exact .inl ⟨row, mem_activeOn.mpr ⟨(flushes.mem_iff_of_id_ne same).mp facts.1, facts.2⟩,
        same, written⟩
  · rintro (⟨row, member, other, written⟩ | written)
    · have facts := mem_activeOn.mp member
      exact ⟨row, mem_activeOn.mpr ⟨(flushes.mem_iff_of_id_ne other).mpr facts.1, facts.2⟩,
        written⟩
    · cases beforeEq : change.before with
      | none =>
          rw [beforeEq] at written
          cases written
      | some row =>
          rw [beforeEq] at written
          obtain ⟨member, active, _, slotEq⟩ := flushes.before_mem beforeEq
          exact ⟨row, mem_activeOn.mpr ⟨member, congrArg Prod.fst slotEq, active⟩, written⟩

theorem mem_projection_after (flushes : Flushes now before after change) :
    item ∈ projection after.rows items change.row.object now ↔
      FromOthers after items change now item ∨
        item ∈ (change.after.map writtenTuples).getD [] := by
  rw [mem_projection, FromOthers, or_right_comm]
  refine or_congr_left ?_
  constructor
  · rintro ⟨row, member, written⟩
    have facts := mem_activeOn.mp member
    by_cases same : row.id = change.row.id
    · rw [flushes.after_eq_of_id_eq facts.1 facts.2.2 same]
      exact .inr written
    · exact .inl ⟨row, member, same, written⟩
  · rintro (⟨row, member, _, written⟩ | written)
    · exact ⟨row, member, written⟩
    · cases afterEq : change.after with
      | none =>
          rw [afterEq] at written
          cases written
      | some row =>
          rw [afterEq] at written
          obtain ⟨member, active, rfl, _⟩ := flushes.after_mem afterEq
          exact ⟨_, mem_activeOn.mpr ⟨member, rfl, active⟩, written⟩

/-- On the keys of the changed grant, the rows that are read project what all
other rows of the object projected when they were written. -/
theorem mem_remaining_iff (flushes : Flushes now before after change)
    (current : NoneLapsed after change now) {scope : Option Uuid}
    (exact : scope = none ∨ change.row.resourceType ≠ .marketplaceItem)
    (touched : item.toTupleKey ∈ (change.tuples now).map RelationTuple.toTupleKey) :
    item ∈ remaining after.rows items change.row scope now ↔
      FromOthers after items change now item := by
  rw [mem_remaining]
  refine or_congr ⟨?_, ?_⟩ Iff.rfl
  · rintro ⟨row, member, projected⟩
    obtain ⟨member, other, _⟩ := mem_activeGrantRows.mp member
    exact ⟨row, member, other,
      (flushes.mem_safeTuples_iff current member other touched).mp projected⟩
  · rintro ⟨row, member, other, written⟩
    have fanout := flushes.mem_marketplaceTenant_of_other member other
      (mem_writtenTuples written) touched
    have sameObject := (mem_activeOn.mp member).2.1
    have typeEq : change.row.resourceType = .marketplaceItem := by
      rw [← (mem_marketplaceTenant fanout).1]
      exact (congrArg Ref.kind sameObject).symm
    have unscoped : scope = none := exact.resolve_right fun different => different typeEq
    exact ⟨row, mem_activeGrantRows.mpr ⟨member, other, .inl unscoped⟩,
      (flushes.mem_safeTuples_iff current member other touched).mpr written⟩

theorem not_mem_remaining (flushes : Flushes now before after change)
    (current : NoneLapsed after change now) {scope : Option Uuid}
    (different : change.row.resourceType ≠ .marketplaceItem)
    (touched : item.toTupleKey ∈ (change.tuples now).map RelationTuple.toTupleKey) :
    item ∉ remaining after.rows items change.row scope now := by
  rw [flushes.mem_remaining_iff current (.inr different) touched]
  rintro (⟨row, member, other, written⟩ | ⟨row, member, _⟩)
  · have fanout := flushes.mem_marketplaceTenant_of_other member other
      (mem_writtenTuples written) touched
    have sameObject := (mem_activeOn.mp member).2.1
    apply different
    rw [← (mem_marketplaceTenant fanout).1]
    exact (congrArg Ref.kind sameObject).symm
  · have kindNe : change.row.object.kind ≠ .marketplaceItem := different
    rw [itemRows, if_neg kindNe] at member
    cases member

/-- The new row projects what it counts as having written. -/
theorem tuplesFor_after (flushes : Flushes now before after change)
    (current : NoneLapsed after change now) {row : GrantRow} (is : change.after = some row) :
    tuplesFor (.grant row) now = .ok (writtenTuples row) := by
  obtain ⟨member, active, rfl, accepted⟩ := flushes.after_mem is
  have notLapsed := accepted.not_lapsed
    (current change.row (mem_activeOn.mpr ⟨member, rfl, active⟩))
  obtain ⟨projected, projectedEq⟩ := accepted.tuplesFor
  rw [writtenTuples_eq_safeTuples active notLapsed, safeTuples, projectedEq]
  rfl

theorem tuples_eq (flushes : Flushes now before after change)
    (current : NoneLapsed after change now) :
    change.tuples now = (change.before.map writtenTuples).getD [] ++
      (change.after.map writtenTuples).getD [] := by
  rw [GrantChange.tuples]
  cases afterEq : change.after with
  | none => rfl
  | some row =>
      simp only [Option.map_some, safeTuples, flushes.tuplesFor_after current afterEq]
      rfl

/-- The operations are the difference of the rows that are read, with the old and
with the new row. -/
theorem changeOpsWithin_eq_diff (flushes : Flushes now before after change)
    (current : NoneLapsed after change now) (scope : Option Uuid) :
    let keys := (change.tuples now).map RelationTuple.toTupleKey
    let rest := (remaining after.rows items change.row scope now).filter fun item =>
      item.toTupleKey ∈ keys
    changeOpsWithin scope after.rows items change.before change.after change.row now =
      diff (rest ++ (change.before.map writtenTuples).getD [])
        (rest ++ (change.after.map writtenTuples).getD []) keys := by
  intro keys rest
  simp only [keys, rest, flushes.tuples_eq current]
  unfold changeOpsWithin
  cases afterEq : change.after with
  | none => rfl
  | some row =>
      simp only [flushes.tuplesFor_after current afterEq]
      rfl

/-- Off the marketplace the operations do not depend on which rows are read. -/
theorem changeOpsWithin_scope (flushes : Flushes now before after change)
    (current : NoneLapsed after change now)
    (different : change.row.resourceType ≠ .marketplaceItem) (first second : Option Uuid) :
    changeOpsWithin first after.rows items change.before change.after change.row now =
      changeOpsWithin second after.rows items change.before change.after change.row now := by
  have nothing : ∀ scope,
      ((remaining after.rows items change.row scope now).filter fun item =>
        item.toTupleKey ∈ (change.tuples now).map RelationTuple.toTupleKey) = [] := by
    intro scope
    rw [List.filter_eq_nil_iff]
    intro item member touched
    exact flushes.not_mem_remaining current different (of_decide_eq_true touched) member
  rw [flushes.changeOpsWithin_eq_diff current, flushes.changeOpsWithin_eq_diff current]
  simp only [nothing]

end Flushes

theorem changeOpsWithin_spec (flushes : Flushes now before after change)
    (items : List MarketplaceItemRow) (current : NoneLapsed after change now)
    {scope : Option Uuid}
    (exact : scope = none ∨ change.row.resourceType ≠ .marketplaceItem) :
    ∃ ops, changeOpsWithin scope after.rows items change.before change.after change.row now =
        .ok ops ∧
      ∀ (store : TupleStore Condition) (key : TupleKey),
        store key = lookup RelationTuple.toTupleKey
            (projection before.rows items change.row.object now) key →
          applyOps ops store key = lookup RelationTuple.toTupleKey
            (projection after.rows items change.row.object now) key := by
  have tuplesEq := flushes.tuples_eq current
  let keys := (change.tuples now).map RelationTuple.toTupleKey
  let old := (change.before.map writtenTuples).getD []
  let new := (change.after.map writtenTuples).getD []
  let rest := (remaining after.rows items change.row scope now).filter fun item =>
    item.toTupleKey ∈ keys
  have oldTouched : ∀ item ∈ old, item.toTupleKey ∈ keys := by
    intro item member
    apply List.mem_map_of_mem
    rw [tuplesEq]
    exact List.mem_append_left _ member
  have newTouched : ∀ item ∈ new, item.toTupleKey ∈ keys := by
    intro item member
    apply List.mem_map_of_mem
    rw [tuplesEq]
    exact List.mem_append_right _ member
  have mem_rest : ∀ item, item ∈ rest ↔
      item.toTupleKey ∈ keys ∧ FromOthers after items change now item := by
    intro item
    rw [List.mem_filter, decide_eq_true_eq, and_comm]
    exact and_congr_right fun touched => flushes.mem_remaining_iff current exact touched
  have mem_first : ∀ item, item ∈ rest ++ old ↔
      item.toTupleKey ∈ keys ∧ item ∈ projection before.rows items change.row.object now := by
    intro item
    rw [List.mem_append, mem_rest, flushes.mem_projection_before]
    have touched := oldTouched item
    tauto
  have mem_second : ∀ item, item ∈ rest ++ new ↔
      item.toTupleKey ∈ keys ∧ item ∈ projection after.rows items change.row.object now := by
    intro item
    rw [List.mem_append, mem_rest, flushes.mem_projection_after]
    have touched := newTouched item
    tauto
  have beforeCoherent := before.coherent_projection items change.row.object now
  have afterCoherent := after.coherent_projection items change.row.object now
  have firstCoherent := beforeCoherent.subset fun item member => ((mem_first item).mp member).2
  have secondCoherent := afterCoherent.subset fun item member => ((mem_second item).mp member).2
  obtain ⟨ops, opsEq, turned⟩ := diff_spec keys firstCoherent secondCoherent
  refine ⟨ops, ?_, ?_⟩
  · rw [flushes.changeOpsWithin_eq_diff current]
    exact opsEq
  · intro store key stored
    by_cases touched : key ∈ keys
    · have firstLookup : lookup RelationTuple.toTupleKey (rest ++ old) key =
          lookup RelationTuple.toTupleKey (projection before.rows items change.row.object now)
            key := by
        apply lookup_congr firstCoherent beforeCoherent
        intro item keyEq
        rw [mem_first, keyEq]
        exact and_iff_right touched
      have secondLookup : lookup RelationTuple.toTupleKey (rest ++ new) key =
          lookup RelationTuple.toTupleKey (projection after.rows items change.row.object now)
            key := by
        apply lookup_congr secondCoherent afterCoherent
        intro item keyEq
        rw [mem_second, keyEq]
        exact and_iff_right touched
      rw [turned store key touched (stored.trans firstLookup.symm), secondLookup]
    · have others : ∀ op ∈ ops, op.tuple.toTupleKey ≠ key := by
        rintro op member rfl
        exact touched (diff_keys opsEq member)
      rw [applyOps_of_forall_ne others, stored]
      apply lookup_congr beforeCoherent afterCoherent
      intro item keyEq
      rw [flushes.mem_projection_before, flushes.mem_projection_after]
      have notOld : item ∉ old := fun member => touched (keyEq ▸ oldTouched item member)
      have notNew : item ∉ new := fun member => touched (keyEq ▸ newTouched item member)
      exact or_congr_right (iff_of_false notOld notNew)

theorem changeOpsWithin_keys {scope : Option Uuid} {items : List MarketplaceItemRow}
    {ops : List (TupleOp Condition)}
    (returned : changeOpsWithin scope after.rows items change.before change.after change.row now =
      .ok ops) {op : TupleOp Condition} (member : op ∈ ops) :
    op.tuple.toTupleKey ∈ (change.tuples now).map RelationTuple.toTupleKey := by
  unfold changeOpsWithin at returned
  rw [GrantChange.tuples]
  cases afterEq : change.after with
  | none =>
      simp only [afterEq] at returned
      exact diff_keys returned member
  | some row =>
      simp only [afterEq, bind_eq_ok] at returned
      obtain ⟨new, newEq, returned⟩ := returned
      have sameNew : safeTuples (.grant row) now = new := by
        rw [safeTuples, newEq]
        rfl
      simp only [Option.map_some, Option.getD_some, sameNew]
      exact diff_keys returned member

/-- Off the marketplace there is no fanout that could lapse. -/
theorem noneLapsed_of_resourceType_ne (different : change.row.resourceType ≠ .marketplaceItem) :
    NoneLapsed after change now := by
  intro row member typeEq
  rw [← typeEq] at different
  exact absurd (congrArg Ref.kind (mem_activeOn.mp member).2.1).symm different

/-- Reading the rows of one organization only, where that is done, gives the
operations of reading all rows; they are on keys of the changed grant; and unless
an organization's grant on the marketplace item has lapsed, they turn the stored
merge of what the rows projected into that of the rows after the change. -/
theorem change_keeps_projection (flushes : Flushes now before after change)
    (items : List MarketplaceItemRow) :
    changeOps after.rows items change.before change.after now =
      changeOpsWithin none after.rows items change.before change.after change.row now ∧
    (∀ ops, changeOps after.rows items change.before change.after now = .ok ops →
      ∀ op ∈ ops, op.tuple.toTupleKey ∈ (change.tuples now).map RelationTuple.toTupleKey) ∧
    (NoneLapsed after change now → ∃ old new ops,
      mergeTuples (projection before.rows items change.row.object now) = .ok old ∧
      mergeTuples (projection after.rows items change.row.object now) = .ok new ∧
      changeOps after.rows items change.before change.after now = .ok ops ∧
      ∀ (keys : Set TupleKey) (store : TupleStore Condition),
        (∀ key ∈ keys, store key = lookup RelationTuple.toTupleKey old key) →
          ∀ key ∈ keys, applyOps ops store key = lookup RelationTuple.toTupleKey new key) := by
  have changeOpsEq : changeOps after.rows items change.before change.after now =
      changeOpsWithin change.row.scope after.rows items change.before change.after change.row
        now := by
    rw [changeOps, change.after_or_before]
  rw [changeOpsEq]
  refine ⟨?_, fun ops returned op member => changeOpsWithin_keys returned member, ?_⟩
  · rcases change.row.scope_eq_none_or with unscoped | different
    · rw [unscoped]
    · exact flushes.changeOpsWithin_scope (noneLapsed_of_resourceType_ne different) different
        _ _
  · intro current
    have beforeCoherent := before.coherent_projection items change.row.object now
    have afterCoherent := after.coherent_projection items change.row.object now
    obtain ⟨old, oldEq, _⟩ := mergeTuples_of_coherent beforeCoherent
    obtain ⟨new, newEq, _⟩ := mergeTuples_of_coherent afterCoherent
    obtain ⟨ops, opsEq, turned⟩ :=
      changeOpsWithin_spec flushes items current change.row.scope_eq_none_or
    refine ⟨old, new, ops, oldEq, newEq, opsEq, ?_⟩
    intro keys store stored key member
    rw [lookup_mergeTuples afterCoherent newEq]
    apply turned
    rw [stored key member, lookup_mergeTuples beforeCoherent oldEq]

/-- The grant of an organization on a system item of the marketplace. -/
def fanout (id org : Uuid) (expiresAt : Option Time) : GrantRow where
  id := id
  orgId := org
  resourceType := .marketplaceItem
  resourceId := 7
  relation := .installer
  principalType := .organization
  principalId := org
  grantedAt := 0
  state := .active
  grantKind := .systemFanout
  conditionName := none
  conditionContext := none
  expiresAt := expiresAt
  tenantId := some 3

def systemItem : MarketplaceItemRow where
  id := 7
  orgId := none
  tenantId := none
  ownerId := none
  isSystem := true
  tenantPublication := .none

def twoFanouts (expiresAt : Option Time) : GrantTable where
  table := ⟨[fanout 1 11 expiresAt, fanout 2 12 none], by simp [fanout]⟩
  one_active := by simp [fanout, GrantRow.slot]

def oneClosed (expiresAt : Option Time) : GrantTable where
  table := (twoFanouts expiresAt).table.save { fanout 2 12 none with state := .revoking }
  one_active := by
    simp [twoFanouts, Table.save, fanout, GrantRow.slot]

theorem flushes_oneClosed (expiresAt : Option Time) :
    Flushes 10 (twoFanouts expiresAt) (oneClosed expiresAt) (.close (fanout 2 12 none)) :=
  .close (List.mem_cons_of_mem _ (List.mem_singleton_self _)) rfl rfl

def tenantTuple : Tuple :=
  plainTuple (objectSubject .tenant 3) "tenant" ⟨.marketplaceItem, 7⟩

def installerTuple (org : Uuid) : Tuple :=
  plainTuple (membersOf .organization org) "installer" ⟨.marketplaceItem, 7⟩

/-- With no expiry on either, closing one keeps the tenant of the other. -/
theorem change_keeps_projection_oneClosed :
    ∃ old new ops,
      mergeTuples (projection (twoFanouts none).rows [systemItem] (fanout 2 12 none).object 10) =
        .ok old ∧
      mergeTuples (projection (oneClosed none).rows [systemItem] (fanout 2 12 none).object 10) =
        .ok new ∧
      changeOps (oneClosed none).rows [systemItem] (some (fanout 2 12 none)) none 10 = .ok ops ∧
      ∀ (keys : Set TupleKey) (store : TupleStore Condition),
        (∀ key ∈ keys, store key = lookup RelationTuple.toTupleKey old key) →
          ∀ key ∈ keys, applyOps ops store key = lookup RelationTuple.toTupleKey new key := by
  apply (change_keeps_projection (flushes_oneClosed none) [systemItem]).2.2
  intro row member _ _ lapsed
  obtain ⟨finish, finishEq, _⟩ := lapsed
  have listed := (mem_activeOn.mp member).1
  simp only [oneClosed, twoFanouts, GrantTable.rows, Table.save, fanout, List.map_cons,
    List.map_nil, List.mem_cons, List.not_mem_nil, or_false] at listed
  rcases listed with rfl | rfl <;> cases finishEq

/-- A grant that the model never accepted, as a fanout cannot expire, projected
nothing when it was written, but its tenant once it has lapsed: that tenant
stays in the store when the other grant is closed. -/
theorem lapsed_fanout_leaves_tenant :
    Flushes 10 (twoFanouts (some 5)) (oneClosed (some 5)) (.close (fanout 2 12 none)) ∧
    (∀ row ∈ (twoFanouts (some 5)).rows,
      row.principalType = .organization → row.principalId = row.orgId) ∧
    mergeTuples (projection (twoFanouts (some 5)).rows [systemItem] ⟨.marketplaceItem, 7⟩ 10) =
      .ok [installerTuple 12, tenantTuple] ∧
    mergeTuples (projection (oneClosed (some 5)).rows [systemItem] ⟨.marketplaceItem, 7⟩ 10) =
      .ok [] ∧
    changeOps (oneClosed (some 5)).rows [systemItem] (some (fanout 2 12 none)) none 10 =
      .ok [⟨.delete, installerTuple 12, false⟩] ∧
    applyOps [⟨.delete, installerTuple 12, false⟩]
        (lookup RelationTuple.toTupleKey [installerTuple 12, tenantTuple])
        tenantTuple.toTupleKey =
      some tenantTuple := by
  refine ⟨flushes_oneClosed (some 5), ?_, ?_, ?_, ?_, ?_⟩
  · decide
  · decide
  · decide
  · decide
  · decide

end NaturalMold.Authz
