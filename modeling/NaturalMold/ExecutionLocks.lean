import NaturalMold.ExecutionLockCursor

/-!
# Execution transactions and their row locks

Any number of transactions lock rows through their cursors, insert rows, and end.
-/

namespace NaturalMold.Authz

open Conversations (Uuid)
open LockTables

inductive RowLock
  | forKeyShare
  | forShare
  | forNoKeyUpdate
  | forUpdate
  deriving DecidableEq

def RowLock.conflicts : RowLock → RowLock → Bool
  | forKeyShare, forUpdate => true
  | forKeyShare, _ => false
  | forShare, forKeyShare => false
  | forShare, forShare => false
  | forShare, _ => true
  | forNoKeyUpdate, forKeyShare => false
  | forNoKeyUpdate, _ => true
  | forUpdate, _ => true

namespace ExecutionLocks

section Model

variable (Txn : Type*)

/-- The cursors of the transactions, the lock table, the committed rows, and the
transactions that have inserted the rows that are not committed yet. -/
structure System where
  cursors : Txn → ExecutionLockCursor
  locks : LockTable Txn Resource RowLock
  committed : Resource → Bool
  inserted : Resource → Option Txn

inductive Action
  | request (txn : Txn) (lockClass : LockClass) (resource : Uuid) (mode : RowLock)
  | acquire (txn : Txn) (lockClass : LockClass) (resource : Uuid) (mode : RowLock)
  | insert (txn : Txn) (lockClass : LockClass) (resource : Uuid)
  | registerOwned (txn : Txn) (lockClass : LockClass) (resource : Uuid) (kept : Bool)
  | commit (txn : Txn)
  | rollback (txn : Txn)

end Model

variable {Txn : Type*}

def System.initial (committed : Resource → Bool) : System Txn where
  cursors := fun _ => ExecutionLockCursor.empty
  locks := LockTable.empty
  committed := committed
  inserted := fun _ => none

/-- The transaction is blocked in a locking statement. -/
def System.Waits (system : System Txn) (txn : Txn) : Prop :=
  ∃ lock ∈ system.locks.waiting, lock.owner = txn

/-- The transaction sees the row. -/
def System.Visible (system : System Txn) (txn : Txn) (resource : Resource) : Prop :=
  system.committed resource = true ∨ system.inserted resource = some txn

def System.Has (system : System Txn) (txn : Txn) (conversation : Uuid) : Prop :=
  system.inserted (.conversation, conversation) = some txn ∨
    ∃ lock ∈ system.locks.held, lock.owner = txn ∧ lock.key = (.conversation, conversation)

/-- A row of an exempt class is only locked under its conversation. -/
def System.Covers (conversationOf : Resource → Uuid) (system : System Txn) (txn : Txn)
    (resource : Resource) : Prop :=
  resource.1.Exempt → system.Has txn (conversationOf resource)

/-- Conversations are only locked `FOR UPDATE`. -/
def ModeOf (resource : Resource) (mode : RowLock) : Prop :=
  resource.1 = .conversation → mode = .forUpdate

section Step

variable [DecidableEq Txn]

instance (system : System Txn) (txn : Txn) : Decidable (system.Waits txn) :=
  inferInstanceAs (Decidable (∃ lock ∈ _, _))

instance (system : System Txn) (txn : Txn) (resource : Resource) :
    Decidable (system.Visible txn resource) :=
  inferInstanceAs (Decidable (_ ∨ _))

instance (system : System Txn) (txn : Txn) (conversation : Uuid) :
    Decidable (system.Has txn conversation) :=
  inferInstanceAs (Decidable (_ ∨ ∃ lock ∈ _, _))

instance (conversationOf : Resource → Uuid) (system : System Txn) (txn : Txn)
    (resource : Resource) : Decidable (system.Covers conversationOf txn resource) :=
  inferInstanceAs (Decidable (_ → _))

instance (resource : Resource) (mode : RowLock) : Decidable (ModeOf resource mode) :=
  inferInstanceAs (Decidable (_ → _))

/-- What the end of a transaction leaves of the locks and the cursors. -/
def System.release (system : System Txn) (txn : Txn) : System Txn :=
  { system with
    cursors := Function.update system.cursors txn ExecutionLockCursor.empty
    locks := system.locks.release txn }

/-- One step; a step that is not possible changes nothing.  A lock that `admits` does not
admits is not asked for, and a statement finds no row that the transaction does not see. -/
def System.step (conversationOf : Resource → Uuid) (system : System Txn) :
    Action Txn → System Txn
  | .request txn lockClass resource mode =>
      if ¬ system.Waits txn ∧ (system.cursors txn).admits lockClass resource = .ok true ∧
          system.Visible txn (lockClass, resource) ∧
          system.Covers conversationOf txn (lockClass, resource) ∧
          ModeOf (lockClass, resource) mode then
        { system with locks := system.locks.request ⟨txn, (lockClass, resource), mode⟩ }
      else system
  | .acquire txn lockClass resource mode =>
      let lock : Lock Txn Resource RowLock := ⟨txn, (lockClass, resource), mode⟩
      if lock ∈ system.locks.waiting ∧ system.locks.Free RowLock.conflicts lock then
        { system with
          locks := system.locks.grant lock
          cursors := Function.update system.cursors txn
            ((system.cursors txn).record lockClass resource) }
      else system
  | .insert txn lockClass resource =>
      if ¬ system.Waits txn ∧ system.committed (lockClass, resource) = false ∧
          system.inserted (lockClass, resource) = none then
        { system with
          inserted := Function.update system.inserted (lockClass, resource) (some txn) }
      else system
  | .registerOwned txn lockClass resource kept =>
      if ¬ system.Waits txn ∧ system.inserted (lockClass, resource) = some txn then
        { system with
          cursors := Function.update system.cursors txn
            ((system.cursors txn).registerOwned lockClass resource kept) }
      else system
  | .commit txn =>
      if system.Waits txn then system
      else
        { system.release txn with
          committed := fun resource =>
            system.committed resource || (system.inserted resource = some txn : Bool)
          inserted := fun resource =>
            if system.inserted resource = some txn then none else system.inserted resource }
  | .rollback txn =>
      { system.release txn with
        inserted := fun resource =>
          if system.inserted resource = some txn then none else system.inserted resource }

def systemAfter (conversationOf : Resource → Uuid) (committed : Resource → Bool)
    (actions : List (Action Txn)) : System Txn :=
  StepRuns.run (System.step conversationOf) (System.initial committed) actions

end Step

def System.all (system : System Txn) : List (Lock Txn Resource RowLock) :=
  system.locks.held ++ system.locks.waiting

structure System.Orderly (conversationOf : Resource → Uuid) (system : System Txn) : Prop where
  once : (system.locks.waiting.map Lock.owner).Nodup
  visible : ∀ lock ∈ system.all, system.Visible lock.owner lock.key
  covers : ∀ lock ∈ system.all, system.Covers conversationOf lock.owner lock.key
  mode : ∀ lock ∈ system.all, ModeOf lock.key lock.mode
  exclusive : ∀ lock ∈ system.locks.held, ∀ other ∈ system.locks.held, other.key = lock.key →
    other.owner ≠ lock.owner → RowLock.conflicts lock.mode other.mode = false
  uncommitted : ∀ resource txn, system.inserted resource = some txn →
    system.committed resource = false
  passed : ∀ lock ∈ system.locks.held, ¬ lock.key.1.Exempt →
    (system.cursors lock.owner).Passed lock.key
  admitted : ∀ lock ∈ system.locks.waiting,
    (system.cursors lock.owner).admits lock.key.1 lock.key.2 = .ok true

section Exclusion

variable {conversationOf : Resource → Uuid} {system : System Txn}

/-- Nobody else sees a row that is not committed. -/
theorem System.Orderly.owner_of_inserted (orderly : system.Orderly conversationOf) {txn : Txn}
    {lock : Lock Txn Resource RowLock} (inserted : system.inserted lock.key = some txn)
    (member : lock ∈ system.all) : lock.owner = txn := by
  rcases orderly.visible lock member with committed | own
  · rw [orderly.uncommitted lock.key txn inserted] at committed
    cases committed
  · exact Option.some.inj (own.symm.trans inserted)

/-- One transaction at a time has a conversation to itself. -/
theorem System.Orderly.has_unique (orderly : system.Orderly conversationOf) {first second : Txn}
    {conversation : Uuid} (firstHas : system.Has first conversation)
    (secondHas : system.Has second conversation) : first = second := by
  rcases firstHas with firstOwn | ⟨lock, held, rfl, keyEq⟩
  · rcases secondHas with secondOwn | ⟨other, otherHeld, rfl, otherKey⟩
    · exact Option.some.inj (firstOwn.symm.trans secondOwn)
    · rw [← otherKey] at firstOwn
      exact (orderly.owner_of_inserted firstOwn (List.mem_append_left _ otherHeld)).symm
  · rcases secondHas with secondOwn | ⟨other, otherHeld, rfl, otherKey⟩
    · rw [← keyEq] at secondOwn
      exact orderly.owner_of_inserted secondOwn (List.mem_append_left _ held)
    · by_contra different
      have apart := orderly.exclusive lock held other otherHeld (otherKey.trans keyEq.symm)
        (Ne.symm different)
      rw [orderly.mode lock (List.mem_append_left _ held) (by rw [keyEq])] at apart
      cases apart

/-- Nobody is in the way of a lock of an exempt class. -/
theorem System.Orderly.undisturbed (orderly : system.Orderly conversationOf)
    {lock other : Lock Txn Resource RowLock} (member : lock ∈ system.all)
    (exempt : lock.key.1.Exempt) (otherMember : other ∈ system.all) :
    ¬ LockTable.Blocks RowLock.conflicts lock other := by
  rintro ⟨different, keyEq, _⟩
  have has := orderly.covers lock member exempt
  have otherHas := orderly.covers other otherMember (by rw [keyEq]; exact exempt)
  rw [keyEq] at otherHas
  exact different (orderly.has_unique otherHas has)

/-- No transaction waits, through any number of others, for itself. -/
theorem System.Orderly.acyclic (orderly : system.Orderly conversationOf) (txn : Txn)
    [DecidableEq Txn] :
    ¬ Relation.TransGen (system.locks.WaitsFor RowLock.conflicts) txn txn := by
  apply LockTable.acyclic Resource.rank (fun resource => resource.1.Exempt) orderly.once
  · intro lock waiting ordered other held owner otherOrdered
    have before := orderly.passed other held otherOrdered
    rw [owner] at before
    exact before.lt_of_admits (orderly.admitted lock waiting) ordered
  · intro lock waiting exempt other member
    exact orderly.undisturbed (List.mem_append_right _ waiting) exempt member

end Exclusion

section Steps

variable [DecidableEq Txn] {conversationOf : Resource → Uuid} {system : System Txn}

theorem orderly_request (orderly : system.Orderly conversationOf) (txn : Txn)
    (lockClass : LockClass) (resource : Uuid) (mode : RowLock) :
    (system.step conversationOf (.request txn lockClass resource mode)).Orderly conversationOf := by
  rw [System.step]
  split
  · rename_i possible
    obtain ⟨idle, admitted, visible, covers, modeOf⟩ := possible
    have members : ∀ lock, lock ∈ system.locks.held ++
        (system.locks.request ⟨txn, (lockClass, resource), mode⟩).waiting →
        lock ∈ system.all ∨ lock = ⟨txn, (lockClass, resource), mode⟩ := by
      intro lock member
      rw [LockTable.request, ← List.append_assoc] at member
      exact (List.mem_append.mp member).imp id List.mem_singleton.mp
    refine ⟨?_, ?_, ?_, ?_, orderly.exclusive, orderly.uncommitted, orderly.passed, ?_⟩
    · rw [LockTable.request, List.map_append, List.nodup_append]
      refine ⟨orderly.once, List.nodup_singleton _, ?_⟩
      intro owner ownerMem other otherMem same
      obtain ⟨lock, waiting, rfl⟩ := List.mem_map.mp ownerMem
      rw [List.map_singleton, List.mem_singleton] at otherMem
      exact idle ⟨lock, waiting, same.trans otherMem⟩
    · intro lock member
      rcases members lock member with old | rfl
      · exact orderly.visible lock old
      · exact visible
    · intro lock member
      rcases members lock member with old | rfl
      · exact orderly.covers lock old
      · exact covers
    · intro lock member
      rcases members lock member with old | rfl
      · exact orderly.mode lock old
      · exact modeOf
    · intro lock waiting
      rcases List.mem_append.mp waiting with old | new
      · exact orderly.admitted lock old
      · rw [List.mem_singleton.mp new]
        exact admitted
  · exact orderly

theorem conflicts_comm (first second : RowLock) :
    first.conflicts second = second.conflicts first := by
  cases first <;> cases second <;> rfl

theorem orderly_acquire (orderly : system.Orderly conversationOf) (txn : Txn)
    (lockClass : LockClass) (resource : Uuid) (mode : RowLock) :
    (system.step conversationOf (.acquire txn lockClass resource mode)).Orderly conversationOf := by
  rw [System.step]
  split
  · rename_i possible
    obtain ⟨waits, free⟩ := possible
    have admitted := orderly.admitted _ waits
    have members : ∀ lock, lock ∈ (system.locks.grant ⟨txn, (lockClass, resource), mode⟩).held ++
        (system.locks.grant ⟨txn, (lockClass, resource), mode⟩).waiting → lock ∈ system.all := by
      intro lock member
      rcases List.mem_append.mp member with held | waiting
      · rcases List.mem_cons.mp held with rfl | held
        · exact List.mem_append_right _ waits
        · exact List.mem_append_left _ held
      · exact List.mem_append_right _ (List.mem_of_mem_erase waiting)
    have has : ∀ owner conversation, system.Has owner conversation →
        ({ system with
          locks := system.locks.grant ⟨txn, (lockClass, resource), mode⟩
          cursors := Function.update system.cursors txn
            ((system.cursors txn).record lockClass resource) } : System Txn).Has owner
          conversation := by
      rintro owner conversation (own | ⟨lock, held, same⟩)
      · exact Or.inl own
      · exact Or.inr ⟨lock, List.mem_cons_of_mem _ held, same⟩
    refine ⟨?_, fun lock member => orderly.visible lock (members lock member),
      fun lock member exempt => has _ _ (orderly.covers lock (members lock member) exempt),
      fun lock member => orderly.mode lock (members lock member), ?_, orderly.uncommitted, ?_, ?_⟩
    · exact orderly.once.sublist (List.erase_sublist.map _)
    · intro lock held other otherHeld sameKey different
      rcases List.mem_cons.mp held with rfl | held
      · rcases List.mem_cons.mp otherHeld with rfl | otherHeld
        · exact absurd rfl different
        · exact free other otherHeld sameKey different
      · rcases List.mem_cons.mp otherHeld with rfl | otherHeld
        · rw [conflicts_comm]
          exact free lock held sameKey.symm (Ne.symm different)
        · exact orderly.exclusive lock held other otherHeld sameKey different
    · intro lock held ordered
      rcases List.mem_cons.mp held with rfl | held
      · dsimp only
        rw [Function.update_self]
        exact ExecutionLockCursor.passed_record_self _ _ _
      · have before := orderly.passed lock held ordered
        dsimp only
        by_cases same : lock.owner = txn
        · rw [same, Function.update_self]
          rw [same] at before
          exact before.record admitted
        · rw [Function.update_of_ne same]
          exact before
    · intro lock waiting
      have old := List.mem_of_mem_erase waiting
      have different : lock.owner ≠ txn := by
        intro same
        have equal : lock = ⟨txn, (lockClass, resource), mode⟩ :=
          List.inj_on_of_nodup_map orderly.once old waits same
        have nodup := List.Nodup.of_map Lock.owner orderly.once
        rw [equal] at waiting
        exact (List.Nodup.mem_erase_iff nodup).mp waiting |>.1 rfl
      dsimp only
      rw [Function.update_of_ne different]
      exact orderly.admitted lock old
  · exact orderly

theorem orderly_insert (orderly : system.Orderly conversationOf) (txn : Txn)
    (lockClass : LockClass) (resource : Uuid) :
    (system.step conversationOf (.insert txn lockClass resource)).Orderly conversationOf := by
  rw [System.step]
  split
  · rename_i possible
    obtain ⟨_, uncommitted, absent⟩ := possible
    have kept : ∀ other owner, system.inserted other = some owner →
        Function.update system.inserted (lockClass, resource) (some txn) other = some owner := by
      intro other owner inserted
      have different : other ≠ (lockClass, resource) := by
        rintro rfl
        rw [absent] at inserted
        cases inserted
      rw [Function.update_of_ne different]
      exact inserted
    refine ⟨orderly.once, fun lock member => (orderly.visible lock member).imp id (kept _ _),
      fun lock member exempt => (orderly.covers lock member exempt).imp (kept _ _) id,
      orderly.mode, orderly.exclusive, ?_, orderly.passed, orderly.admitted⟩
    intro other owner inserted
    by_cases same : other = (lockClass, resource)
    · rw [same]
      exact uncommitted
    · dsimp only at inserted
      rw [Function.update_of_ne same] at inserted
      exact orderly.uncommitted other owner inserted
  · exact orderly

theorem orderly_registerOwned (orderly : system.Orderly conversationOf) (txn : Txn)
    (lockClass : LockClass) (resource : Uuid) (kept : Bool) :
    (system.step conversationOf (.registerOwned txn lockClass resource kept)).Orderly
      conversationOf := by
  rw [System.step]
  split
  · rename_i possible
    refine ⟨orderly.once, orderly.visible, orderly.covers, orderly.mode, orderly.exclusive,
      orderly.uncommitted, ?_, ?_⟩
    · intro lock held ordered
      have before := orderly.passed lock held ordered
      dsimp only
      by_cases same : lock.owner = txn
      · rw [same, Function.update_self]
        rw [same] at before
        exact before.registerOwned lockClass resource kept
      · rw [Function.update_of_ne same]
        exact before
    · intro lock waiting
      have different : lock.owner ≠ txn := fun same => possible.1 ⟨lock, waiting, same⟩
      dsimp only
      rw [Function.update_of_ne different]
      exact orderly.admitted lock waiting
  · exact orderly

/-- The end of a transaction takes its locks and its rows out of the table; the rows stay
or go. -/
theorem orderly_end (orderly : system.Orderly conversationOf) (txn : Txn)
    {committed : Resource → Bool}
    (stays : ∀ resource, system.committed resource = true → committed resource = true)
    (others : ∀ resource owner, owner ≠ txn → system.inserted resource = some owner →
      committed resource = system.committed resource) :
    ({ system.release txn with
      committed := committed
      inserted := fun resource =>
        if system.inserted resource = some txn then none else system.inserted resource } :
      System Txn).Orderly conversationOf := by
  have survives : ∀ lock ∈ (system.locks.release txn).held ++ (system.locks.release txn).waiting,
      lock ∈ system.all ∧ lock.owner ≠ txn := by
    intro lock member
    rw [LockTable.release, ← List.filter_append, List.mem_filter, decide_eq_true_eq] at member
    exact member
  have keeps : ∀ resource owner, owner ≠ txn → system.inserted resource = some owner →
      (if system.inserted resource = some txn then none else system.inserted resource) =
        some owner := by
    intro resource owner different inserted
    rw [inserted, if_neg]
    exact fun same => different (Option.some.inj same)
  refine ⟨?_, ?_, ?_, fun lock member => orderly.mode lock (survives lock member).1, ?_, ?_, ?_, ?_⟩
  · exact orderly.once.sublist (List.filter_sublist.map _)
  · intro lock member
    obtain ⟨old, different⟩ := survives lock member
    exact (orderly.visible lock old).imp (stays _) (keeps _ _ different)
  · intro lock member exempt
    obtain ⟨old, different⟩ := survives lock member
    rcases orderly.covers lock old exempt with own | ⟨other, held, owner, keyEq⟩
    · exact Or.inl (keeps _ _ different own)
    · refine Or.inr ⟨other, List.mem_filter.mpr ⟨held, ?_⟩, owner, keyEq⟩
      rw [owner]
      exact decide_eq_true different
  · intro lock held other otherHeld
    exact orderly.exclusive lock (List.mem_filter.mp held).1 other (List.mem_filter.mp otherHeld).1
  · intro resource owner inserted
    dsimp only at inserted ⊢
    split at inserted
    · cases inserted
    · rename_i notOwn
      have different : owner ≠ txn := by
        rintro rfl
        exact notOwn inserted
      rw [others resource owner different inserted]
      exact orderly.uncommitted resource owner inserted
  · intro lock held ordered
    have old := List.mem_filter.mp held
    show (Function.update system.cursors txn ExecutionLockCursor.empty lock.owner).Passed lock.key
    rw [Function.update_of_ne (of_decide_eq_true old.2)]
    exact orderly.passed lock old.1 ordered
  · intro lock waiting
    have old := List.mem_filter.mp waiting
    show (Function.update system.cursors txn ExecutionLockCursor.empty lock.owner).admits _ _ = _
    rw [Function.update_of_ne (of_decide_eq_true old.2)]
    exact orderly.admitted lock old.1

theorem orderly_step (orderly : system.Orderly conversationOf) (action : Action Txn) :
    (system.step conversationOf action).Orderly conversationOf := by
  cases action with
  | request txn lockClass resource mode => exact orderly_request orderly txn lockClass resource mode
  | acquire txn lockClass resource mode => exact orderly_acquire orderly txn lockClass resource mode
  | insert txn lockClass resource => exact orderly_insert orderly txn lockClass resource
  | registerOwned txn lockClass resource kept =>
      exact orderly_registerOwned orderly txn lockClass resource kept
  | commit txn =>
      rw [System.step]
      split
      · exact orderly
      · apply orderly_end orderly txn
        · intro resource committed
          rw [committed, Bool.true_or]
        · intro resource owner different inserted
          rw [inserted, decide_eq_false, Bool.or_false]
          exact fun same => different (Option.some.inj same)
  | rollback txn => exact orderly_end orderly txn (fun _ committed => committed) fun _ _ _ _ => rfl

end Steps

theorem orderly_initial (conversationOf : Resource → Uuid) (committed : Resource → Bool) :
    (System.initial committed : System Txn).Orderly conversationOf :=
  ⟨List.nodup_nil, by simp [System.all, System.initial, LockTable.empty],
    by simp [System.all, System.initial, LockTable.empty],
    by simp [System.all, System.initial, LockTable.empty],
    by simp [System.initial, LockTable.empty], by simp [System.initial],
    by simp [System.initial, LockTable.empty], by simp [System.initial, LockTable.empty]⟩

/-- In no reachable state does a transaction wait, through any number of others, for
itself. -/
theorem cursor_excludes_deadlock [DecidableEq Txn] (conversationOf : Resource → Uuid)
    (committed : Resource → Bool) (actions : List (Action Txn)) (txn : Txn) :
    ¬ Relation.TransGen
      ((systemAfter conversationOf committed actions).locks.WaitsFor RowLock.conflicts) txn txn := by
  have initial : (System.initial committed : System Txn).Orderly conversationOf :=
    orderly_initial conversationOf committed
  have orderly := StepRuns.run_invariant (System.Orderly conversationOf)
    (fun _ action kept => orderly_step kept action) initial actions
  exact orderly.acyclic txn

end ExecutionLocks

end NaturalMold.Authz
