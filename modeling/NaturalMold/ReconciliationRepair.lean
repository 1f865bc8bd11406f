import NaturalMold.Reconciliation

/-! # A repair makes the store equal to the database -/

namespace NaturalMold.Authz

open Conversations (Uuid Time)
open KeyedDifferences KeyedTables RetriedOperations

def Projection.quiet (part : Projection) : PartitionRead where
  toProjection := part
  recentKeys := []
  recentMarkers := []
  fresh := part.want

variable {items : List Tuple}

theorem mem_sortedTuples {item : Tuple} : item ∈ sortedTuples items ↔ item ∈ items :=
  List.mem_insertionSort _

@[simp]
theorem sortedTuples_eq_nil_iff : sortedTuples items = [] ↔ items = [] := by
  rw [← List.length_eq_zero_iff, ← List.length_eq_zero_iff, sortedTuples, List.length_insertionSort]

/-- Tuples that all pass leave a difference as it is. -/
theorem TupleDiff.restrict_eq_self {diff : TupleDiff} {missing extra changed : Tuple → Bool}
    (noneHeld : diff.held = []) (allMissing : ∀ item ∈ diff.missing, missing item)
    (allExtra : ∀ item ∈ diff.extra, extra item)
    (allChanged : ∀ item ∈ diff.changed, changed item) :
    diff.restrict missing extra changed = diff := by
  have dropped : ∀ {items : List Tuple} {test : Tuple → Bool}, (∀ item ∈ items, test item) →
      items.filter (fun item => !test item) = [] := by
    intro items test all
    rw [List.filter_eq_nil_iff]
    intro item member
    simp [all item member]
  obtain ⟨missingItems, extraItems, changedItems, heldItems⟩ := diff
  obtain rfl : heldItems = [] := noneHeld
  rw [restrict, List.filter_eq_self.mpr allMissing, List.filter_eq_self.mpr allExtra,
    List.filter_eq_self.mpr allChanged, dropped allMissing, dropped allExtra, dropped allChanged]
  rfl

theorem hold_nothing (want stored : TupleTable) :
    hold (diffTuples want stored) [] [] = diffTuples want stored := by
  apply TupleDiff.restrict_eq_self rfl <;> intro item _ <;> simp [markerBlocks]

theorem recheck_unchanged (want stored : TupleTable) :
    recheck (diffTuples want stored) want = diffTuples want stored := by
  have expected : ∀ item ∈ want.rows, want.get? item.toTupleKey = some item :=
    fun item member => Table.get?_eq_some_iff.mpr ⟨member, rfl⟩
  apply TupleDiff.restrict_eq_self rfl
  · intro item member
    rw [diffTuples, mem_sortedTuples, List.mem_filter] at member
    exact decide_eq_true (expected item member.1)
  · intro item member
    rw [diffTuples, mem_sortedTuples, List.mem_filter] at member
    exact member.2
  · intro item member
    rw [diffTuples, mem_sortedTuples, List.mem_filter] at member
    exact decide_eq_true (expected item member.1)

variable {mode : Mode}

/-- Without activity the whole difference is queued. -/
theorem reconcilePartition_quiet (writes : mode ≠ .dryRun) (part : Projection)
    (index : TupleTable) :
    reconcilePartition mode part.quiet index =
      ({ claimed := (claim part.refs part.want index).1
         diff := diffTuples part.want (claim part.refs part.want index).1
         queued := reconcileOps (diffTuples part.want (claim part.refs part.want index).1) mode },
        (claim part.refs part.want index).2) := by
  simp only [reconcilePartition, Projection.quiet, hold_nothing, recheck_unchanged]
  cases found : (diffTuples part.want (claim part.refs part.want index).1).found with
  | true => simp [writes]
  | false =>
      have nothing : ∀ diff : TupleDiff, diff.found = false → reconcileOps diff mode = [] := by
        intro diff none
        simp only [TupleDiff.found, Bool.or_eq_false_iff, Bool.not_eq_false',
          List.isEmpty_iff] at none
        simp [reconcileOps, none]
      simp [nothing _ found]

theorem filter_sortedTuples (table : TupleTable) (test : Tuple → Bool) (key : TupleKey) :
    ((sortedTuples (table.rows.filter test)).filter fun item => item.toTupleKey = key) =
      ((table.get? key).filter test).toList := by
  have perm : ((sortedTuples (table.rows.filter test)).filter fun item =>
      item.toTupleKey = key).Perm (((table.get? key).filter test).toList) := by
    rw [← Table.get?_filter, ← Table.filter_key_eq]
    exact (List.perm_insertionSort _ _).filter _
  cases found : (table.get? key).filter test with
  | none =>
      rw [found] at perm
      exact List.perm_nil.mp perm
  | some item =>
      rw [found] at perm
      exact List.perm_singleton.mp perm

variable {key : TupleKey}

private theorem filter_map_tuple {op : OpKind} {replace : Bool} :
    ((items.map fun item => ({ op, tuple := item, replace } : TupleOp Condition)).filter
        fun op => op.tuple.toTupleKey = key) =
      (items.filter fun item => item.toTupleKey = key).map fun item =>
        { op, tuple := item, replace } := by
  rw [List.filter_map]
  rfl

/-- On a key an expected tuple is missing, changed or neither, and a stored one
is extra or not. -/
theorem diffTuples_on (want stored : TupleTable) (key : TupleKey) :
    let on (items : List Tuple) := items.filter fun item => item.toTupleKey = key
    on (diffTuples want stored).missing =
        (if stored.get? key = none then want.get? key else none).toList ∧
      on (diffTuples want stored).extra =
        (if want.get? key = none then stored.get? key else none).toList ∧
      on (diffTuples want stored).changed =
        ((want.get? key).filter fun item =>
          (stored.get? key).any fun other => other ≠ item).toList := by
  have wantKey : ∀ item, want.get? key = some item → item.toTupleKey = key :=
    fun item found => (Table.get?_eq_some_iff.mp found).2
  have storedKey : ∀ item, stored.get? key = some item → item.toTupleKey = key :=
    fun item found => (Table.get?_eq_some_iff.mp found).2
  intro on
  simp only [on, diffTuples, filter_sortedTuples]
  refine ⟨?_, ?_, ?_⟩
  · cases wantEq : want.get? key with
    | none => simp
    | some desired =>
        rw [Option.filter_some, wantKey desired wantEq]
        simp
  · cases storedEq : stored.get? key with
    | none => simp
    | some previous =>
        rw [Option.filter_some, storedKey previous storedEq]
        simp
  · cases wantEq : want.get? key with
    | none => rfl
    | some desired =>
        rw [Option.filter_some, Option.filter_some, wantKey desired wantEq]

theorem reconcileOps_repair_on (want stored : TupleTable) (key : TupleKey) :
    (((reconcileOps (diffTuples want stored) .repair).filter fun op =>
        op.tuple.toTupleKey = key).map TupleOp.operation) =
      (between (stored.get? key) (want.get? key)).toList := by
  obtain ⟨missing, extra, changed⟩ := diffTuples_on want stored key
  rw [reconcileOps, if_neg (by decide)]
  simp only [List.filter_append, List.map_append, filter_map_tuple, missing, extra, changed]
  cases want.get? key with
  | none => cases stored.get? key <;> rfl
  | some desired =>
      cases stored.get? key with
      | none => rfl
      | some previous =>
          by_cases same : desired = previous
          · simp [Option.filter_some, between, same]
          · simp [Option.filter_some, between, same, Ne.symm same, TupleOp.operation]

theorem reconcileOps_fill_on (want stored : TupleTable) (key : TupleKey) :
    (((reconcileOps (diffTuples want stored) .fill).filter fun op =>
        op.tuple.toTupleKey = key).map TupleOp.operation) =
      ((if stored.get? key = none then want.get? key else none).map Operation.insert).toList := by
  obtain ⟨missing, _, _⟩ := diffTuples_on want stored key
  rw [reconcileOps, if_pos rfl, filter_map_tuple]
  simp only [missing, List.map_map, Option.toList_map]
  rfl

theorem diffTuples_found_iff {want stored : TupleTable} :
    (diffTuples want stored).found = false ↔ ∀ key, stored.get? key = want.get? key := by
  have foundEq : (diffTuples want stored).found = false ↔ (diffTuples want stored).missing = [] ∧
      (diffTuples want stored).extra = [] ∧ (diffTuples want stored).changed = [] := by
    simp [TupleDiff.found, and_assoc]
  rw [foundEq]
  constructor
  · rintro ⟨missingNil, extraNil, changedNil⟩ key
    obtain ⟨missing, extra, changed⟩ := diffTuples_on want stored key
    simp only [missingNil, extraNil, changedNil, List.filter_nil] at missing extra changed
    cases wantEq : want.get? key with
    | none => simpa [wantEq] using extra
    | some desired =>
        cases storedEq : stored.get? key with
        | none => simp [wantEq, storedEq] at missing
        | some previous => simpa [wantEq, storedEq, Option.filter_some] using changed
  · intro same
    have stored_iff : ∀ item, stored.get? item.toTupleKey = some item ↔ item ∈ want.rows := by
      intro item
      rw [same, Table.get?_eq_some_iff]
      exact and_iff_left rfl
    simp only [diffTuples, sortedTuples_eq_nil_iff, List.filter_eq_nil_iff, decide_eq_true_eq]
    refine ⟨?_, ?_, ?_⟩
    · intro item member
      rw [(stored_iff item).mpr member]
      simp
    · intro item member
      rw [← same, Table.get?_eq_some_iff.mpr ⟨member, rfl⟩]
      simp
    · intro item member
      rw [(stored_iff item).mpr member]
      simp

def firstExpected (parts : List Projection) (key : TupleKey) : Option Tuple :=
  parts.findSome? fun part => part.want.get? key

theorem firstExpected_cons (part : Projection) (parts : List Projection) (key : TupleKey) :
    firstExpected (part :: parts) key = (part.want.get? key).or (firstExpected parts key) := by
  rw [firstExpected, List.findSome?_cons]
  cases part.want.get? key <;> rfl

theorem get?_claimed (refs : Option (List Ref)) (want index : TupleTable) (key : TupleKey) :
    (claim refs want index).1.get? key =
      if claimable refs want key then index.get? key else none :=
  Table.get?_filter_key index (fun key => claimable refs want key) key

theorem get?_left (refs : Option (List Ref)) (want index : TupleTable) (key : TupleKey) :
    (claim refs want index).2.get? key =
      if claimable refs want key then none else index.get? key := by
  rw [claim, Table.get?_filter_key index (fun key => !claimable refs want key) key]
  cases claimable refs want key <;> rfl

/-- A partition claims what it expects. -/
theorem get?_want_of_not_claimable {refs : Option (List Ref)} {want : TupleTable}
    (others : claimable refs want key = false) : want.get? key = none := by
  cases refs with
  | none => cases others
  | some refs => simpa using (Bool.or_eq_false_iff.mp others).2

/-- The operations of a run without activity, in order. -/
def queuedOps (mode : Mode) (parts : List Projection) (index : TupleTable) :
    List (TupleOp Condition) :=
  (reconcileRun mode (parts.map Projection.quiet) index).flatMap PartitionOutcome.queued

theorem queuedOps_cons (writes : mode ≠ .dryRun) (part : Projection) (parts : List Projection)
    (index : TupleTable) :
    queuedOps mode (part :: parts) index =
      reconcileOps (diffTuples part.want (claim part.refs part.want index).1) mode ++
        queuedOps mode parts (claim part.refs part.want index).2 := by
  rw [queuedOps, List.map_cons, reconcileRun, reconcilePartition_quiet writes]
  rfl

def operationsOn (mode : Mode) (parts : List Projection) (index : TupleTable) (key : TupleKey) :
    List (Operation Tuple) :=
  ((queuedOps mode parts index).filter fun op => op.tuple.toTupleKey = key).map TupleOp.operation

theorem operationsOn_repair_cons (part : Projection) (parts : List Projection)
    (index : TupleTable) (key : TupleKey) :
    operationsOn .repair (part :: parts) index key =
      (between (if claimable part.refs part.want key then index.get? key else none)
          (part.want.get? key)).toList ++
        operationsOn .repair parts (claim part.refs part.want index).2 key := by
  rw [operationsOn, queuedOps_cons (by decide), List.filter_append, List.map_append,
    reconcileOps_repair_on, get?_claimed]
  rfl

theorem operationsOn_fill_cons (part : Projection) (parts : List Projection)
    (index : TupleTable) (key : TupleKey) :
    operationsOn .fill (part :: parts) index key =
      ((if (if claimable part.refs part.want key then index.get? key else none) = none then
          part.want.get? key else none).map Operation.insert).toList ++
        operationsOn .fill parts (claim part.refs part.want index).2 key := by
  rw [operationsOn, queuedOps_cons (by decide), List.filter_append, List.map_append,
    reconcileOps_fill_on, get?_claimed]
  rfl

variable {parts : List Projection} {index : TupleTable}

/-- Once no stored tuple of a key is left to claim, partitions only insert. -/
theorem applyAll_operationsOn_of_none (writes : mode ≠ .dryRun) (unclaimed : index.get? key = none)
    (cell : Option Tuple) :
    applyAll (operationsOn mode parts index key) cell = cell.or (firstExpected parts key) := by
  induction parts generalizing index cell with
  | nil => cases cell <;> rfl
  | cons part parts ih =>
      have left : (claim part.refs part.want index).2.get? key = none := by
        rw [get?_left, unclaimed, ite_self]
      have inserted : applyAll
          ((part.want.get? key).map Operation.insert).toList cell =
            cell.or (part.want.get? key) := by
        cases part.want.get? key <;> cases cell <;> rfl
      have split : operationsOn mode (part :: parts) index key =
          ((part.want.get? key).map Operation.insert).toList ++
            operationsOn mode parts (claim part.refs part.want index).2 key := by
        cases mode with
        | dryRun => exact absurd rfl writes
        | fill => rw [operationsOn_fill_cons, unclaimed, ite_self, if_pos rfl]
        | repair =>
            rw [operationsOn_repair_cons, unclaimed, ite_self]
            cases part.want.get? key <;> rfl
      rw [split, applyAll_append, inserted, ih left, firstExpected_cons, Option.or_assoc]

/-- A stored tuple that is still to be claimed ends as the first expecting
partition has it, as long as the last partition claims what is left. -/
theorem applyAll_operationsOn_repair {last : Projection} (platform : last.refs = none)
    {stored : Tuple} (unclaimed : index.get? key = some stored) :
    applyAll (operationsOn .repair (parts ++ [last]) index key) (some stored) =
      firstExpected (parts ++ [last]) key := by
  have claimed : ∀ (part : Projection) (others : List Projection) (index : TupleTable),
      index.get? key = some stored → claimable part.refs part.want key →
        applyAll (operationsOn .repair (part :: others) index key) (some stored) =
          firstExpected (part :: others) key := by
    intro part others index unclaimed claims
    rw [operationsOn_repair_cons, if_pos claims, unclaimed, applyAll_append, applyAll_between,
      applyAll_operationsOn_of_none (by decide), firstExpected_cons]
    rw [get?_left, if_pos claims]
  induction parts generalizing index with
  | nil =>
      apply claimed last [] index unclaimed
      rw [platform]
      rfl
  | cons part parts ih =>
      rw [List.cons_append]
      by_cases claims : claimable part.refs part.want key
      · exact claimed part _ index unclaimed claims
      · rw [Bool.not_eq_true] at claims
        rw [operationsOn_repair_cons, claims, get?_want_of_not_claimable claims,
          firstExpected_cons, get?_want_of_not_claimable claims, Option.none_or]
        apply ih
        rw [get?_left, claims]
        exact unclaimed

theorem applyAll_operationsOn_fill (parts : List Projection) (index : TupleTable)
    (key : TupleKey) (stored : Tuple) :
    applyAll (operationsOn .fill parts index key) (some stored) = some stored := by
  induction parts generalizing index with
  | nil => rfl
  | cons part parts ih =>
      rw [operationsOn_fill_cons, applyAll_append, applyAll_toList_insert]
      exact ih _

theorem claimed_perm (mode : Mode) (reads : List PartitionRead) {last : PartitionRead}
    (platform : last.refs = none) (index : TupleTable) :
    ((reconcileRun mode (reads ++ [last]) index).flatMap fun outcome =>
      outcome.claimed.rows).Perm index.rows := by
  have claimedEq : ∀ (read : PartitionRead) (index : TupleTable),
      (reconcilePartition mode read index).1.claimed = (claim read.refs read.want index).1 ∧
        (reconcilePartition mode read index).2 = (claim read.refs read.want index).2 := by
    intro read index
    simp only [reconcilePartition]
    split
    · exact ⟨rfl, rfl⟩
    · split <;> exact ⟨rfl, rfl⟩
  induction reads generalizing index with
  | nil =>
      simp only [List.nil_append, reconcileRun, List.flatMap_singleton, (claimedEq last index).1,
        claim, platform]
      simp [claimable, Table.filter]
  | cons read reads ih =>
      rw [List.cons_append, reconcileRun, List.flatMap_cons, (claimedEq read index).1,
        (claimedEq read index).2]
      refine ((ih _).append_left _).trans ?_
      exact List.filter_append_perm _ index.rows

/-- No partition expects a key that an earlier one claims. -/
def Separate (parts : List Projection) : Prop :=
  parts.Pairwise fun earlier later =>
    ∀ key, (later.want.get? key).isSome → claimable earlier.refs earlier.want key = false

/-- Whether a run without activity finds no difference. -/
def FindsNothing (mode : Mode) (parts : List Projection) (index : TupleTable) : Prop :=
  ∀ outcome ∈ reconcileRun mode (parts.map Projection.quiet) index, outcome.diff.found = false

theorem findsNothing_cons (writes : mode ≠ .dryRun) (part : Projection) (parts : List Projection)
    (index : TupleTable) :
    FindsNothing mode (part :: parts) index ↔
      (∀ key, (claim part.refs part.want index).1.get? key = part.want.get? key) ∧
        FindsNothing mode parts (claim part.refs part.want index).2 := by
  rw [FindsNothing, List.map_cons, reconcileRun, reconcilePartition_quiet writes,
    List.forall_mem_cons, diffTuples_found_iff]
  rfl

/-- A key that is expected is missing unless it is still to be claimed. -/
theorem FindsNothing.isSome (writes : mode ≠ .dryRun) (nothing : FindsNothing mode parts index)
    {part : Projection} (member : part ∈ parts) (expected : (part.want.get? key).isSome) :
    (index.get? key).isSome := by
  induction parts generalizing index with
  | nil => cases member
  | cons first parts ih =>
      obtain ⟨same, rest⟩ := (findsNothing_cons writes first parts index).mp nothing
      rcases List.mem_cons.mp member with rfl | later
      · rw [← same, get?_claimed] at expected
        split at expected
        · exact expected
        · cases expected
      · have left := ih rest later
        rw [get?_left] at left
        split at left
        · cases left
        · exact left

theorem firstExpected_isSome_iff :
    (firstExpected parts key).isSome ↔ ∃ part ∈ parts, (part.want.get? key).isSome := by
  rw [firstExpected, List.findSome?_isSome_iff]

/-- A store that has what is expected shows no difference exactly when the
partitions are separate. -/
theorem findsNothing_iff (writes : mode ≠ .dryRun)
    (exact : ∀ key, index.get? key = firstExpected parts key) :
    FindsNothing mode parts index ↔ Separate parts := by
  induction parts generalizing index with
  | nil =>
      refine iff_of_true ?_ List.Pairwise.nil
      intro outcome member
      cases member
  | cons part parts ih =>
      rw [findsNothing_cons writes, Separate, List.pairwise_cons, ← Separate]
      have leftEq : (∀ key, claimable part.refs part.want key →
          firstExpected parts key = none) →
            ∀ key, (claim part.refs part.want index).2.get? key = firstExpected parts key := by
        intro unshared key
        rw [get?_left]
        split
        case isTrue claims => exact (unshared key claims).symm
        case isFalse others =>
            rw [exact, firstExpected_cons, get?_want_of_not_claimable (Bool.not_eq_true _ ▸ others),
              Option.none_or]
      have notShared : (∀ later ∈ parts, ∀ key, (later.want.get? key).isSome →
          claimable part.refs part.want key = false) →
            ∀ key, claimable part.refs part.want key → firstExpected parts key = none := by
        intro separate key claims
        rw [← Option.not_isSome_iff_eq_none, firstExpected_isSome_iff]
        rintro ⟨later, member, expected⟩
        rw [separate later member key expected] at claims
        cases claims
      constructor
      · rintro ⟨same, rest⟩
        have separate : ∀ later ∈ parts, ∀ key, (later.want.get? key).isSome →
            claimable part.refs part.want key = false := by
          intro later member key expected
          have left := rest.isSome writes member expected
          rw [get?_left] at left
          split at left
          · cases left
          · exact Bool.not_eq_true _ ▸ by assumption
        exact ⟨separate, (ih (leftEq (notShared separate))).mp rest⟩
      · rintro ⟨separate, rest⟩
        have unshared := notShared separate
        refine ⟨?_, (ih (leftEq unshared)).mpr rest⟩
        intro key
        rw [get?_claimed]
        split
        case isTrue claims => rw [exact, firstExpected_cons, unshared key claims, Option.or_none]
        case isFalse others =>
            exact (get?_want_of_not_claimable (Bool.not_eq_true _ ▸ others)).symm

private theorem mem_foldl_tupleTable {items : List Tuple} {table : TupleTable}
    (coherent : Coherent RelationTuple.toTupleKey (table.rows ++ items)) (item : Tuple) :
    item ∈ (items.foldl (fun table item =>
        match table.insert? item with
        | some inserted => inserted
        | none => table.save item) table).rows ↔ item ∈ table.rows ++ items := by
  induction items generalizing table with
  | nil => simp
  | cons first items ih =>
      rw [List.foldl_cons]
      have first_mem : first ∈ table.rows ++ first :: items :=
        List.mem_append_right _ List.mem_cons_self
      cases inserted : table.insert? first with
      | some larger =>
          have rowsEq := (Table.insert?_eq_some inserted).1
          have listEq : larger.rows ++ items = table.rows ++ first :: items := by
            rw [rowsEq, List.append_assoc]
            rfl
          rw [← listEq]
          apply ih
          rw [listEq]
          exact coherent
      | none =>
          obtain ⟨old, oldMember, sameKey⟩ := Table.insert?_eq_none_iff.mp inserted
          obtain rfl : old = first :=
            coherent old (List.mem_append_left _ oldMember) first first_mem sameKey
          have mem_saved : ∀ other, other ∈ (table.save old).rows ↔ other ∈ table.rows := by
            intro other
            rw [Table.mem_save]
            constructor
            · rintro (⟨rfl, _⟩ | ⟨member, _⟩)
              · exact oldMember
              · exact member
            · intro member
              by_cases same : other.toTupleKey = old.toTupleKey
              · exact .inl ⟨coherent other (List.mem_append_left _ member) old first_mem same,
                  old, oldMember, rfl⟩
              · exact .inr ⟨member, same⟩
          have mem_all : ∀ other, other ∈ (table.save old).rows ++ items ↔
              other ∈ table.rows ++ old :: items := by
            intro other
            rw [List.mem_append, List.mem_append, List.mem_cons, mem_saved]
            constructor
            · rintro (stored | listed)
              · exact .inl stored
              · exact .inr (.inr listed)
            · rintro (stored | rfl | listed)
              · exact .inl stored
              · exact .inl oldMember
              · exact .inr listed
          rw [← mem_all]
          exact ih (coherent.subset fun other => (mem_all other).mp)

theorem get?_tupleTable (coherent : Coherent RelationTuple.toTupleKey items) {item : Tuple} :
    (tupleTable items).get? key = some item ↔ item ∈ items ∧ item.toTupleKey = key := by
  rw [Table.get?_eq_some_iff, tupleTable]
  exact and_congr_left' (@mem_foldl_tupleTable items Table.empty coherent item)

def storeWide (companies : List (TupleTable × List Ref)) (platform : TupleTable) :
    List Projection :=
  companies.map (fun company => { want := company.1, refs := some company.2 }) ++
    [{ want := platform, refs := none }]

/-- Partitions have the same form for a key that they both expect. -/
def Agree (parts : List Projection) : Prop :=
  ∀ first ∈ parts, ∀ second ∈ parts, ∀ key firstTuple secondTuple,
    first.want.get? key = some firstTuple → second.want.get? key = some secondTuple →
      firstTuple = secondTuple

theorem Agree.firstExpected_eq_some_iff (agree : Agree parts) {item : Tuple} :
    firstExpected parts key = some item ↔ ∃ part ∈ parts, part.want.get? key = some item := by
  constructor
  · exact List.exists_of_findSome?_eq_some
  · rintro ⟨part, member, expected⟩
    obtain ⟨found, foundEq⟩ := Option.isSome_iff_exists.mp
      (firstExpected_isSome_iff.mpr ⟨part, member, Option.isSome_of_eq_some expected⟩)
    obtain ⟨other, otherMember, otherEq⟩ := List.exists_of_findSome?_eq_some foundEq
    rw [foundEq, agree other otherMember part member key found item otherEq expected]

theorem applyOps_repair (companies : List (TupleTable × List Ref)) (platform stored : TupleTable)
    (key : TupleKey) :
    applyOps (queuedOps .repair (storeWide companies platform) stored) stored.get? key =
      firstExpected (storeWide companies platform) key := by
  rw [applyOps_apply]
  cases storedEq : stored.get? key with
  | none => exact applyAll_operationsOn_of_none (by decide) storedEq none
  | some item => exact applyAll_operationsOn_repair rfl storedEq

theorem applyOps_fill (parts : List Projection) (stored : TupleTable) (key : TupleKey) :
    applyOps (queuedOps .fill parts stored) stored.get? key =
      (stored.get? key).or (firstExpected parts key) := by
  rw [applyOps_apply]
  cases storedEq : stored.get? key with
  | none => exact applyAll_operationsOn_of_none (by decide) storedEq none
  | some item => exact applyAll_operationsOn_fill parts stored key item

/-- Operations queued by a repair without activity turn any stored tuples into
what the partitions expect, and those of a fill add what is absent; each stored
tuple is claimed once; and another run finds a difference exactly when a
partition expects a key that an earlier one claims. -/
theorem repair_restores_database (companies : List (TupleTable × List Ref))
    (platform stored : TupleTable) (agree : Agree (storeWide companies platform)) :
    let parts := storeWide companies platform
    let repaired := applyOps (queuedOps .repair parts stored) stored.get?
    let filled := applyOps (queuedOps .fill parts stored) stored.get?
    (∀ key item, repaired key = some item ↔ ∃ part ∈ parts, part.want.get? key = some item) ∧
    (∀ mode, ((reconcileRun mode (parts.map Projection.quiet) stored).flatMap fun outcome =>
      outcome.claimed.rows).Perm stored.rows) ∧
    ((∃ again : TupleTable, again.get? = repaired) ∧ ∀ again : TupleTable,
      again.get? = repaired → (FindsNothing .repair parts again ↔ Separate parts)) ∧
    (∀ key item, filled key = some item ↔ stored.get? key = some item ∨
      stored.get? key = none ∧ ∃ part ∈ parts, part.want.get? key = some item) := by
  intro parts repaired filled
  have repairedEq : ∀ key, repaired key = firstExpected parts key :=
    applyOps_repair companies platform stored
  have filledEq : ∀ key, filled key = (stored.get? key).or (firstExpected parts key) :=
    applyOps_fill parts stored
  refine ⟨?_, ?_, ⟨?_, ?_⟩, ?_⟩
  · intro key item
    rw [repairedEq]
    exact agree.firstExpected_eq_some_iff
  · intro mode
    change ((reconcileRun mode ((_ ++ [_]).map Projection.quiet) stored).flatMap _).Perm _
    rw [List.map_append]
    exact claimed_perm mode _ rfl stored
  · have coherent : Coherent RelationTuple.toTupleKey
        (parts.flatMap fun part => part.want.rows) := by
      intro first firstMember second secondMember same
      obtain ⟨part, partMember, firstMember⟩ := List.mem_flatMap.mp firstMember
      obtain ⟨other, otherMember, secondMember⟩ := List.mem_flatMap.mp secondMember
      exact agree part partMember other otherMember second.toTupleKey first second
        (Table.get?_eq_some_iff.mpr ⟨firstMember, same⟩)
        (Table.get?_eq_some_iff.mpr ⟨secondMember, rfl⟩)
    refine ⟨tupleTable (parts.flatMap fun part => part.want.rows), ?_⟩
    ext key item
    rw [repairedEq, get?_tupleTable coherent, agree.firstExpected_eq_some_iff]
    simp only [List.mem_flatMap, Table.get?_eq_some_iff]
    tauto
  · intro again same
    apply findsNothing_iff (by decide)
    intro key
    rw [same, repairedEq]
  · intro key item
    rw [filledEq, Option.or_eq_some_iff, agree.firstExpected_eq_some_iff]

def strayTuple : Tuple :=
  plainTuple (objectSubject .user 1) "member" ⟨.group, 5⟩

def strayTable : TupleTable :=
  ⟨[strayTuple], List.nodup_singleton _⟩

/-- One company owns the group, a later one expects the member. -/
def strayCompanies : List (TupleTable × List Ref) :=
  [(Table.empty, [⟨.group, 5⟩]), (strayTable, [])]

theorem agree_stray : Agree (storeWide strayCompanies Table.empty) := by
  have only : ∀ part ∈ storeWide strayCompanies Table.empty, ∀ key item,
      part.want.get? key = some item → item = strayTuple := by
    intro part member key item expected
    have listed := (Table.get?_eq_some_iff.mp expected).1
    simp only [storeWide, strayCompanies, List.map_cons, List.map_nil, List.cons_append,
      List.nil_append, List.mem_cons, List.not_mem_nil, or_false] at member
    rcases member with rfl | rfl | rfl
    · cases listed
    · exact List.mem_singleton.mp listed
    · cases listed
  intro first firstMember second secondMember key firstTuple secondTuple firstEq secondEq
  rw [only first firstMember key firstTuple firstEq, only second secondMember key secondTuple
    secondEq]

theorem repair_restores_database_stray :
    applyOps (queuedOps .repair (storeWide strayCompanies Table.empty) Table.empty)
        (Table.empty : TupleTable).get? strayTuple.toTupleKey = some strayTuple :=
  ((repair_restores_database strayCompanies Table.empty Table.empty agree_stray).1 _ _).mpr
    ⟨{ want := strayTable, refs := some [] }, by simp [storeWide, strayCompanies], by decide⟩

/-- The store has exactly what is expected, and a repair keeps it; but the first
company claims the tuple, so that every run finds it to be extra there and missing
at the second. -/
theorem stray_tuple_found_again :
    Agree (storeWide strayCompanies Table.empty) ∧
    applyOps (queuedOps .repair (storeWide strayCompanies Table.empty) strayTable)
        strayTable.get? = strayTable.get? ∧
    ¬ FindsNothing .repair (storeWide strayCompanies Table.empty) strayTable := by
  refine ⟨agree_stray, ?_, ?_⟩
  · ext key item
    rw [applyOps_repair, agree_stray.firstExpected_eq_some_iff]
    simp [storeWide, strayCompanies, Table.get?_eq_some_iff, Table.empty]
  · unfold FindsNothing
    decide

end NaturalMold.Authz
