import Mathlib.Data.Prod.Lex
import NaturalMold.ConversationTables
import NaturalMold.KeyedTables
import NaturalMold.KeysetPages

/-! # The expiry of grants -/

namespace NaturalMold.GrantExpiry

open Conversations (Uuid Time)
open KeyedTables KeysetPages

inductive GrantState
  | active
  | revoking
  deriving DecidableEq

/-- A grant, as far as its expiry reads it. -/
structure ResourceGrant where
  id : Uuid
  expiresAt : Option Time
  state : GrantState
  deriving DecidableEq

abbrev Database := Table ResourceGrant.id

/-- The columns that pages are cut by. -/
abbrev PageKey := Time ×ₗ Uuid

def expired (grant : ResourceGrant) (now : Time) : Bool :=
  grant.state = .active && grant.expiresAt.any fun finish => finish ≤ now

def dueKey? (stamp : Time) (grant : ResourceGrant) : Option PageKey :=
  if expired grant stamp then grant.expiresAt.map fun finish => toLex (finish, grant.id) else none

def dueKeys (stamp : Time) (db : Database) : List PageKey :=
  db.rows.filterMap (dueKey? stamp)

def duePage (db : Database) (stamp : Time) (after : Option PageKey) (limit : ℕ) : List PageKey :=
  page limit after (dueKeys stamp db)

def close (db : Database) (ids : List Uuid) : Database :=
  db.updateWhere (fun grant => grant.id ∈ ids && grant.state = .active)
    (fun grant => { grant with state := .revoking }) fun _ => rfl

/-- What happens around a run: the grants that others close before each of its transactions,
and the transactions that raise. -/
structure Surroundings where
  closedByOthers : ℕ → List Uuid
  raises : ℕ → Bool

structure PageRead where
  after : Option PageKey
  db : Database
  page : List PageKey

/-- A run: the database, its transactions so far, the ids that it has closed, and a record of
what it has read and tried. -/
structure Run where
  db : Database
  clock : ℕ := 0
  closed : List Uuid := []
  reads : List PageRead := []
  attempts : List PageKey := []

section Run

variable (around : Surroundings) (stamp : Time) (limit : ℕ)

def Run.found (run : Run) : Database :=
  close run.db (around.closedByOthers run.clock)

/-- `_expire_one`: whether the grant was closed, and the database after it. -/
def expireOne (raises : Bool) (db : Database) (id : Uuid) : Bool × Database :=
  match db.get? id with
  | none => (false, db)
  | some grant =>
      if !raises && expired grant stamp then (true, close db [id]) else (false, db)

/-- The body of the loop over a page. -/
def Run.attempt (run : Run) (key : PageKey) : Run :=
  if run.closed.length < limit then
    let tried := expireOne stamp (around.raises run.clock) (run.found around) (ofLex key).2
    { run with
      db := tried.2
      clock := run.clock + 1
      closed := if tried.1 then run.closed ++ [(ofLex key).2] else run.closed
      attempts := run.attempts ++ [key] }
  else run

def Run.read (run : Run) (after : Option PageKey) : Run × List PageKey :=
  let page := duePage (run.found around) stamp after limit
  ({ run with
      db := run.found around
      clock := run.clock + 1
      reads := run.reads ++ [⟨after, run.found around, page⟩] }, page)

/-- The loop of `expire_grants`, for a number of pages at most. -/
def expireLoop : ℕ → Run → Option PageKey → Option Run
  | 0, _, _ => none
  | fuel + 1, run, after =>
      if run.closed.length < limit then
        let (run, page) := run.read around stamp limit after
        let run := page.foldl (Run.attempt around stamp limit) run
        if page.length < limit then some run else expireLoop fuel run page.getLast?
      else some run

def expireGrants (fuel : ℕ) (db : Database) : Option Run :=
  expireLoop around stamp limit fuel { db } none

end Run

/-- Every active grant was there before. -/
def Shrinks (before after : Database) : Prop :=
  ∀ grant ∈ after.rows, grant.state = .active → grant ∈ before.rows

theorem Shrinks.refl (db : Database) : Shrinks db db :=
  fun _ member _ => member

theorem Shrinks.trans {first second third : Database} (earlier : Shrinks first second)
    (later : Shrinks second third) : Shrinks first third :=
  fun grant member active => earlier grant (later grant member active) active

theorem shrinks_close (db : Database) (ids : List Uuid) : Shrinks db (close db ids) := by
  intro grant member active
  rcases Table.mem_updateWhere.mp member with ⟨row, _, _, rfl⟩ | ⟨listed, _⟩
  · cases active
  · exact listed

theorem shrinks_expireOne (stamp : Time) (raises : Bool) (db : Database) (id : Uuid) :
    Shrinks db (expireOne stamp raises db id).2 := by
  rw [expireOne]
  split
  · exact Shrinks.refl db
  · split
    · exact shrinks_close db [id]
    · exact Shrinks.refl db

variable {stamp : Time} {db : Database}

theorem dueKey?_eq_some_iff {grant : ResourceGrant} {key : PageKey} :
    dueKey? stamp grant = some key ↔ grant.state = .active ∧
      ∃ finish, grant.expiresAt = some finish ∧ finish ≤ stamp ∧
        key = toLex (finish, grant.id) := by
  rw [dueKey?, expired]
  cases ends : grant.expiresAt with
  | none => simp
  | some finish =>
      rw [Option.any_some, Option.map_some]
      by_cases active : grant.state = .active <;> by_cases past : finish ≤ stamp <;>
        simp [active, past, eq_comm]

theorem mem_dueKeys_iff {key : PageKey} :
    key ∈ dueKeys stamp db ↔ ∃ grant ∈ db.rows, dueKey? stamp grant = some key :=
  List.mem_filterMap

theorem Shrinks.dueKeys {before after : Database} (shrinks : Shrinks before after)
    {key : PageKey} (member : key ∈ dueKeys stamp after) : key ∈ dueKeys stamp before := by
  obtain ⟨grant, listed, keyed⟩ := mem_dueKeys_iff.mp member
  have active := (dueKey?_eq_some_iff.mp keyed).1
  exact mem_dueKeys_iff.mpr ⟨grant, shrinks grant listed active, keyed⟩

theorem nodup_dueIds (stamp : Time) (db : Database) :
    ((dueKeys stamp db).map fun key => (ofLex key).2).Nodup := by
  have ids : (dueKeys stamp db).map (fun key => (ofLex key).2) =
      (db.rows.filter fun grant => (dueKey? stamp grant).isSome).map ResourceGrant.id := by
    rw [dueKeys]
    induction db.rows with
    | nil => rfl
    | cons grant rows ih =>
        cases keyed : dueKey? stamp grant with
        | none => simpa [keyed] using ih
        | some key =>
            obtain ⟨_, finish, _, _, rfl⟩ := dueKey?_eq_some_iff.mp keyed
            simpa [keyed] using ih
  rw [ids]
  exact db.distinct.sublist (List.filter_sublist.map ResourceGrant.id)

theorem nodup_dueKeys (stamp : Time) (db : Database) : (dueKeys stamp db).Nodup :=
  List.Nodup.of_map _ (nodup_dueIds stamp db)

section Page

variable (around : Surroundings) (stamp : Time) (limit : ℕ)

theorem attempt_of_room {run : Run} (room : run.closed.length < limit) (key : PageKey) :
    (run.attempt around stamp limit key).attempts = run.attempts ++ [key] ∧
      (run.attempt around stamp limit key).reads = run.reads ∧
      Shrinks run.db (run.attempt around stamp limit key).db ∧
      ((run.attempt around stamp limit key).closed = run.closed ∨
        (run.attempt around stamp limit key).closed = run.closed ++ [(ofLex key).2]) := by
  rw [Run.attempt, if_pos room]
  refine ⟨rfl, rfl, (shrinks_close _ _).trans (shrinks_expireOne stamp _ _ _), ?_⟩
  dsimp only
  split
  · exact Or.inr rfl
  · exact Or.inl rfl

theorem foldl_of_no_room {run : Run} (full : ¬ run.closed.length < limit)
    (page : List PageKey) : page.foldl (Run.attempt around stamp limit) run = run := by
  induction page with
  | nil => rfl
  | cons key page ih =>
      rw [List.foldl_cons, Run.attempt, if_neg full]
      exact ih

/-- A page is tried from its start on, and to its end if there is room for more. -/
structure Tried (page : List PageKey) (before after : Run) : Prop where
  tried : ∃ keys : List PageKey, keys <+: page ∧ after.attempts = before.attempts ++ keys ∧
    (after.closed.length < limit → keys = page)
  reads : after.reads = before.reads
  shrinks : Shrinks before.db after.db
  closed : after.closed.length ≤ limit
  grows : before.closed.length ≤ after.closed.length
  ids : before.closed.Sublist (before.attempts.map fun key => (ofLex key).2) →
    after.closed.Sublist (after.attempts.map fun key => (ofLex key).2)

theorem tried_foldl (page : List PageKey) {run : Run} (within : run.closed.length ≤ limit) :
    Tried limit page run (page.foldl (Run.attempt around stamp limit) run) := by
  induction page generalizing run with
  | nil =>
      refine ⟨⟨[], List.prefix_rfl, (List.append_nil _).symm, fun _ => rfl⟩, rfl,
        Shrinks.refl _, within, Nat.le_refl _, fun ids => ids⟩
  | cons key page ih =>
      rw [List.foldl_cons]
      by_cases room : run.closed.length < limit
      · obtain ⟨attempts, reads, shrinks, closed⟩ := attempt_of_room around stamp limit room key
        have next : (run.attempt around stamp limit key).closed.length ≤ limit := by
          rcases closed with same | more
          · rw [same]
            exact within
          · rw [more, List.length_append, List.length_singleton]
            omega
        obtain ⟨⟨keys, isPrefix, tried, whole⟩, laterReads, laterShrinks, few, grows, ids⟩ :=
          ih next
        constructor
        case tried =>
            refine ⟨key :: keys, List.cons_prefix_cons.mpr ⟨rfl, isPrefix⟩, ?_, ?_⟩
            · rw [tried, attempts, List.append_assoc]
              rfl
            · intro more
              rw [whole more]
        case reads => rw [laterReads, reads]
        case shrinks => exact shrinks.trans laterShrinks
        case closed => exact few
        case grows =>
            rcases closed with same | more
            · rwa [same] at grows
            · rw [more, List.length_append] at grows
              omega
        case ids =>
        intro before
        apply ids
        rw [attempts, List.map_append]
        rcases closed with same | more
        · rw [same]
          exact before.trans (List.sublist_append_left _ _)
        · rw [more]
          exact before.append (List.Sublist.refl _)
      · rw [← List.foldl_cons, foldl_of_no_room around stamp limit room (key :: page)]
        refine ⟨⟨[], List.nil_prefix, (List.append_nil _).symm, ?_⟩, rfl, Shrinks.refl _, within,
          Nat.le_refl _, fun ids => ids⟩
        intro more
        omega

end Page

/-- What a run keeps, wherever it has got to. -/
structure Sound (stamp : Time) (limit : ℕ) (start : Database) (run : Run) : Prop where
  shrinks : Shrinks start run.db
  within : run.closed.length ≤ limit
  ids : run.closed.Sublist (run.attempts.map fun key => (ofLex key).2)
  due : ∀ key ∈ run.attempts, key ∈ dueKeys stamp start
  ordered : run.attempts.Pairwise (· < ·)
  tried : run.closed.length < limit → ∀ read ∈ run.reads, ∀ key ∈ dueKeys stamp read.db,
    Covers limit read.after read.page key → key ∈ run.attempts

structure Progress (stamp : Time) (limit : ℕ) (start : Database) (after : Option PageKey)
    (run : Run) : Prop extends Sound stamp limit start run where
  passed : ∀ key ∈ run.attempts, Passed after key
  reached : ∀ key ∈ dueKeys stamp start, Passed after key →
    ∃ read ∈ run.reads, Covers limit read.after read.page key

structure VisitsOnce (stamp : Time) (limit : ℕ) (start : Database) (final : Run) : Prop where
  once : (final.attempts.map fun key => (ofLex key).2).Nodup
  due : ∀ key ∈ final.attempts, key ∈ dueKeys stamp start
  closed : final.closed.Sublist (final.attempts.map fun key => (ofLex key).2)
  within : final.closed.length ≤ limit
  visited : final.closed.length = limit ∨ ∀ key ∈ dueKeys stamp start,
    (∃ read ∈ final.reads, Covers limit read.after read.page key) ∧
      ∀ read ∈ final.reads, Covers limit read.after read.page key →
        key ∈ dueKeys stamp read.db → key ∈ final.attempts

section Whole

variable (around : Surroundings) {stamp : Time} {limit : ℕ} {start : Database}

theorem progress_start (stamp : Time) (limit : ℕ) (start : Database) :
    Progress stamp limit start none { db := start } where
  shrinks := Shrinks.refl start
  within := Nat.zero_le limit
  ids := List.Sublist.slnil
  due := nofun
  ordered := List.Pairwise.nil
  passed := nofun
  reached := by
    rintro key _ ⟨last, isLast, _⟩
    cases isLast
  tried _ := nofun

def Run.afterPage (stamp : Time) (limit : ℕ) (run : Run) (after : Option PageKey) : Run :=
  (run.read around stamp limit after).2.foldl (Run.attempt around stamp limit)
    (run.read around stamp limit after).1

variable {around} {after : Option PageKey} {run : Run}

theorem shrinks_found (around : Surroundings) (progress : Progress stamp limit start after run) :
    Shrinks start (run.found around) :=
  progress.shrinks.trans (shrinks_close run.db (around.closedByOthers run.clock))

theorem tried_afterPage (around : Surroundings) (progress : Progress stamp limit start after run) :
    Tried limit (duePage (run.found around) stamp after limit)
      (run.read around stamp limit after).1 (run.afterPage around stamp limit after) :=
  tried_foldl around stamp limit _ progress.within

theorem reads_afterPage (around : Surroundings) (progress : Progress stamp limit start after run) :
    (run.afterPage around stamp limit after).reads = run.reads ++
      [⟨after, run.found around, duePage (run.found around) stamp after limit⟩] :=
  (tried_afterPage around progress).reads

theorem mem_attempts_afterPage (progress : Progress stamp limit start after run)
    {key : PageKey} (member : key ∈ (run.afterPage around stamp limit after).attempts) :
    key ∈ run.attempts ∨ key ∈ duePage (run.found around) stamp after limit := by
  obtain ⟨keys, isPrefix, attempts, _⟩ := (tried_afterPage around progress).tried
  rw [attempts] at member
  exact (List.mem_append.mp member).imp id fun tried => isPrefix.subset tried

theorem Progress.sound_afterPage (progress : Progress stamp limit start after run) :
    Sound stamp limit start (run.afterPage around stamp limit after) := by
  have page := tried_afterPage around progress
  have found := shrinks_found around progress
  have nodup := nodup_dueKeys stamp (run.found around)
  obtain ⟨keys, isPrefix, attempts, whole⟩ := page.tried
  constructor
  case shrinks => exact found.trans page.shrinks
  case within => exact page.closed
  case ids => exact page.ids progress.ids
  case due =>
      intro key member
      rcases mem_attempts_afterPage progress member with early | paged
      · exact progress.due key early
      · exact found.dueKeys (mem_of_mem_page paged).1
  case ordered =>
      rw [attempts, List.pairwise_append]
      refine ⟨progress.ordered, (page_pairwise nodup).sublist isPrefix.sublist, ?_⟩
      intro earlier early later tried
      have beyond := (mem_of_mem_page (isPrefix.subset tried)).2
      exact (progress.passed earlier early).trans_isAfter beyond
  case tried =>
  intro room read listed key isDue covers
  rw [reads_afterPage around progress] at listed
  rw [attempts]
  rcases List.mem_append.mp listed with early | new
  · have grown : run.closed.length < limit := Nat.lt_of_le_of_lt page.grows room
    exact List.mem_append_left _ (progress.tried grown read early key isDue covers)
  · rw [List.mem_singleton.mp new] at isDue covers
    rw [whole room]
    exact List.mem_append_right _ (mem_page_of_covers nodup isDue covers)

/-- What the pages so far and a new one cover. -/
theorem Progress.reached_afterPage (progress : Progress stamp limit start after run)
    {key : PageKey} (isDue : key ∈ dueKeys stamp start)
    (within : (duePage (run.found around) stamp after limit).length < limit ∨
      Passed (duePage (run.found around) stamp after limit).getLast? key) :
    ∃ read ∈ (run.afterPage around stamp limit after).reads,
      Covers limit read.after read.page key := by
  rw [reads_afterPage around progress]
  rcases passed_or_isAfter after key with early | beyond
  · obtain ⟨read, listed, covers⟩ := progress.reached key isDue early
    exact ⟨read, List.mem_append_left _ listed, covers⟩
  · exact ⟨_, List.mem_append_right _ (List.mem_singleton_self _), beyond, within⟩

theorem Progress.next (progress : Progress stamp limit start after run)
    (full : ¬ (duePage (run.found around) stamp after limit).length < limit)
    (positive : 0 < limit) :
    Progress stamp limit start (duePage (run.found around) stamp after limit).getLast?
      (run.afterPage around stamp limit after) := by
  obtain ⟨last, isLast, _, beyond⟩ := exists_getLast_of_full positive full
  have nodup := nodup_dueKeys stamp (run.found around)
  constructor
  case toSound => exact progress.sound_afterPage
  case passed =>
      intro key member
      rcases mem_attempts_afterPage progress member with early | paged
      · have before := (progress.passed key early).trans_isAfter beyond
        exact ⟨last, isLast, le_of_lt before⟩
      · exact passed_getLast (page_pairwise nodup) paged
  case reached =>
      intro key isDue passed
      exact progress.reached_afterPage isDue (Or.inr passed)

theorem Sound.visitsOnce (sound : Sound stamp limit start run)
    (reached : run.closed.length < limit → ∀ key ∈ dueKeys stamp start,
      ∃ read ∈ run.reads, Covers limit read.after read.page key) :
    VisitsOnce stamp limit start run where
  once := by
    have sublist : run.attempts.Subset (dueKeys stamp start) := sound.due
    have nodup : run.attempts.Nodup := sound.ordered.imp fun before => ne_of_lt before
    exact nodup.map_on fun first firstTried second secondTried same =>
      List.inj_on_of_nodup_map (nodup_dueIds stamp start) (sublist firstTried)
        (sublist secondTried) same
  due := sound.due
  closed := sound.ids
  within := sound.within
  visited := by
    rcases Nat.eq_or_lt_of_le sound.within with full | room
    · exact Or.inl full
    · right
      intro key isDue
      constructor
      · exact reached room key isDue
      · intro read listed covers active
        exact sound.tried room read listed key active covers

/-- The loop ends when there are at least as many pages left as due keys after the cursor. -/
theorem expireLoop_visitsOnce (fuel : ℕ) (progress : Progress stamp limit start after run)
    (enough : remaining after (dueKeys stamp start) < fuel) :
    ∃ final, expireLoop around stamp limit fuel run after = some final ∧
      VisitsOnce stamp limit start final := by
  induction fuel generalizing after run with
  | zero => exact absurd enough (Nat.not_lt_zero _)
  | succ fuel ih =>
      rw [expireLoop]
      by_cases room : run.closed.length < limit
      · rw [if_pos room]
        by_cases short : (duePage (run.found around) stamp after limit).length < limit
        · refine ⟨run.afterPage around stamp limit after, if_pos short, ?_⟩
          apply progress.sound_afterPage.visitsOnce
          intro _ key isDue
          exact progress.reached_afterPage isDue (Or.inl short)
        · have positive : 0 < limit := by omega
          obtain ⟨last, isLast, listed, beyond⟩ := exists_getLast_of_full positive short
          have fewer := remaining_lt ((shrinks_found around progress).dueKeys listed) beyond
          have next := progress.next short positive
          obtain ⟨final, returned, visits⟩ := ih next (by
            rw [show (duePage (run.found around) stamp after limit).getLast? = some last from
              isLast]
            omega)
          exact ⟨final, (if_neg short).trans returned, visits⟩
      · rw [if_neg room]
        refine ⟨run, rfl, progress.toSound.visitsOnce fun more => absurd more room⟩

/-- The expiry run ends and visits every due grant once, whatever else closes and fails. -/
theorem expireGrants_visitsOnce (around : Surroundings) (stamp : Time) (limit fuel : ℕ)
    (start : Database) :
    ∃ final, expireGrants around stamp limit (start.rows.length + 1 + fuel) start = some final ∧
      VisitsOnce stamp limit start final := by
  apply expireLoop_visitsOnce _ (progress_start stamp limit start)
  have keys : remaining none (dueKeys stamp start) ≤ (dueKeys stamp start).length :=
    List.countP_le_length
  have rows := List.length_filterMap_le (dueKey? stamp) start.rows
  rw [dueKeys] at keys ⊢
  omega

end Whole

end NaturalMold.GrantExpiry
