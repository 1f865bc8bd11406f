import NaturalMold.DelegationRetryWatermark

/-! # Runs of the delegation retry -/

namespace NaturalMold.Authz.DelegationRetry

open Conversations (Uuid)
open Histories

def Event.poll : Event → Option ℕ
  | .committed _ => none
  | .started poll => some poll
  | .listed poll _ _ => some poll
  | .validated poll _ _ => some poll
  | .finished poll _ _ _ => some poll

structure Listing.Sound (listing : Listing) (markers : List (Marker × Option ℤ)) (stamp : ℤ) :
    Prop where
  rows : ∀ row ∈ listing.rows, (row.1, some row.2) ∈ markers ∧ row.2 ≤ stamp
  reached_le : listing.reached ≤ stamp
  waiting : ∀ entry ∈ listing.waiting, FirstOf listing.rows entry.1 entry.2.first
  settled : ∀ org first, (org, false) ∈ listing.settled → FirstOf listing.rows org first →
    stamp - first < hold → listing.reached < first

structure Poll.Sound (poll : Poll) (system : System) : Prop where
  number : poll.number < system.polls
  unfinished : ¬ Finished system.log poll.number
  stamp : poll.stamp ≤ system.now
  since_le : poll.since ≤ poll.stamp
  since : ∀ time, system.watermark = some time → poll.since = time
  listing : ∀ listing, poll.listing = some listing → listing.Sound system.markers poll.stamp

structure System.Sound (system : System) : Prop where
  drains : ∀ drain stamp, system.drains drain = some stamp → stamp ≤ system.now
  watermark : ∀ time, system.watermark = some time → time ≤ system.now
  numbers : ∀ event ∈ system.log, ∀ poll, event.poll = some poll → poll < system.polls
  poll : ∀ poll, system.poll = some poll → poll.Sound system

/-- A poll has listed the marker and finished after that. -/
def Settled (newer : List Event) (row : Row) : Prop :=
  ∃ poll servers rows after, Since newer (.listed poll servers rows) after ∧ row ∈ rows ∧
    Finished after poll

/-- The poll in flight will list the marker or has listed it, or it leaves the watermark
below the marker. -/
def Awaited (newer : List Event) (row : Row) (poll : Poll) : Prop :=
  match poll.listing with
  | none => poll.since < row.2
  | some listing => poll.stamp < row.2 ∨ (row ∈ listing.rows ∧
      ∃ after, Since newer (.listed poll.number listing.servers listing.rows) after)

structure Tracked (system : System) (newer : List Event) (row : Row) : Prop where
  stored : (row.1, some row.2) ∈ system.markers
  past : row.2 ≤ system.now
  polled : ∀ poll, .started poll ∈ newer → Finished newer poll → Settled newer row
  owed : Settled newer row ∨ ∀ time, system.watermark = some time → time < row.2
  inFlight : ∀ poll, system.poll = some poll → Settled newer row ∨ Awaited newer row poll
  fresh : ∀ poll, system.poll = some poll → .started poll.number ∈ newer → row.2 ≤ poll.stamp

/-- The organization of a watched marker waits until it is validated. -/
def Checked (system : System) (newer : List Event) (number : ℕ) (servers : Uuid → Option Uuid)
    (row : Row) : Prop :=
  Watched servers row.1 → Validated newer number servers row.1 ∨
    (¬ Finished newer number ∧ ∀ poll, system.poll = some poll → poll.number = number →
      ∃ listing, poll.listing = some listing ∧
        ∃ entry ∈ listing.waiting, (entry.2.named entry.1).Contains servers row.1)

/-- An organization that has not settled in a poll that finished before the newer events. -/
structure Retained (system : System) (newer : List Event) (rows : List Row) (org : Uuid)
    (first : ℤ) : Prop where
  stored : ∀ row ∈ rows, row.1.orgId = org →
    (row.1, some row.2) ∈ system.markers ∧ first ≤ row.2 ∧ row.2 ≤ system.now
  below : (∀ other, ¬ Finished newer other) → ∃ time, system.watermark = some time ∧ time < first
  unlisted : ∀ poll, system.poll = some poll → poll.listing = none →
    ∀ row ∈ rows, row.1.orgId = org → row.2 ≤ poll.stamp
  listed : ∀ next servers found later between,
    newer = later ++ .listed next servers found :: between → (∀ other, ¬ Finished between other) →
      ∀ row ∈ rows, row.1.orgId = org → row ∈ found

def Kept (system : System) : Event → List Event → Prop
  | .committed rows, newer => ∀ row ∈ rows, Tracked system newer row
  | .listed number servers rows, newer => ∀ row ∈ rows, Checked system newer number servers row
  | .finished _ stamp rows settled, newer => ∀ org first, (org, false) ∈ settled →
      FirstOf rows org first → stamp - first < hold → Retained system newer rows org first
  | _, _ => True

structure System.Faithful (system : System) : Prop extends system.Sound where
  kept : AtEvery (Kept system) system.log

@[simp]
theorem finished_cons {event : Event} {log : List Event} {poll : ℕ} :
    Finished (event :: log) poll ↔
      (∃ stamp rows settled, event = .finished poll stamp rows settled) ∨ Finished log poll := by
  simp only [Finished, List.mem_cons, exists_or, eq_comm]

theorem Finished.mono {log larger : List Event} {poll : ℕ} (finished : Finished log poll)
    (subset : log ⊆ larger) : Finished larger poll := by
  obtain ⟨stamp, rows, settled, member⟩ := finished
  exact ⟨stamp, rows, settled, subset member⟩

theorem Validated.cons {log : List Event} {poll : ℕ} {servers : Uuid → Option Uuid}
    {marker : Marker} (validated : Validated log poll servers marker) (event : Event) :
    Validated (event :: log) poll servers marker := by
  obtain ⟨scope, settled, member, contains⟩ := validated
  exact ⟨scope, settled, List.mem_cons_of_mem event member, contains⟩

theorem Settled.cons {newer : List Event} {row : Row} (settled : Settled newer row)
    (event : Event) : Settled (event :: newer) row := by
  obtain ⟨poll, servers, rows, after, since, member, finished⟩ := settled
  exact ⟨poll, servers, rows, event :: after, since_cons.mpr (Or.inr ⟨after, rfl, since⟩), member,
    finished_cons.mpr (Or.inr finished)⟩

theorem Awaited.cons {newer : List Event} {row : Row} {poll : Poll}
    (awaited : Awaited newer row poll) (event : Event) : Awaited (event :: newer) row poll := by
  unfold Awaited at awaited ⊢
  split at awaited
  · exact awaited
  · refine awaited.imp id fun found => ⟨found.1, ?_⟩
    obtain ⟨after, since⟩ := found.2
    exact ⟨event :: after, since_cons.mpr (Or.inr ⟨after, rfl, since⟩)⟩

theorem System.Sound.number_lt {system : System} (sound : system.Sound) {poll : ℕ}
    (finished : Finished system.log poll) : poll < system.polls := by
  obtain ⟨stamp, rows, settled, member⟩ := finished
  exact sound.numbers _ member poll rfl

theorem System.Sound.numbers_cons {system : System} (sound : system.Sound) {recent : Event}
    {polls : ℕ} (later : system.polls ≤ polls)
    (own : ∀ poll, recent.poll = some poll → poll < polls) :
    ∀ event ∈ recent :: system.log, ∀ poll, event.poll = some poll → poll < polls := by
  intro event member poll numbered
  rcases List.mem_cons.mp member with rfl | member
  · exact own poll numbered
  · exact (sound.numbers event member poll numbered).trans_le later

/-- What a place says is said by the markers, the listings and the finished polls. -/
theorem Kept.imp {before after : System} {event : Event} {newer further : List Event}
    (kept : Kept before event newer)
    (committed : ∀ rows, event = .committed rows → ∀ row ∈ rows, Tracked before newer row →
      Tracked after further row)
    (listed : ∀ number servers rows, event = .listed number servers rows → ∀ row,
      Checked before newer number servers row → Checked after further number servers row)
    (finished : ∀ rows org first, Retained before newer rows org first →
      Retained after further rows org first) : Kept after event further := by
  cases event with
  | committed rows => exact fun row member => committed rows rfl row member (kept row member)
  | listed number servers rows =>
      exact fun row member => listed number servers rows rfl row (kept row member)
  | finished poll stamp rows settled =>
      exact fun org first unsettled least recent =>
        finished rows org first (kept org first unsettled least recent)
  | started poll => trivial
  | validated poll scope settled => trivial

section Retained

variable {system : System} {newer : List Event} {rows : List Row} {org : Uuid} {first : ℤ}
  (retained : Retained system newer rows org first) (recent : Event)

include retained

theorem Retained.below_cons (none : ∀ other, ¬ Finished (recent :: newer) other) :
    ∃ time, system.watermark = some time ∧ time < first :=
  retained.below fun other done => none other (finished_cons.mpr (Or.inr done))

theorem Retained.listed_cons (notListed : ∀ poll servers found, recent ≠ .listed poll servers found)
    (next : ℕ) (servers : Uuid → Option Uuid) (found : List Row) (later between : List Event)
    (split : recent :: newer = later ++ .listed next servers found :: between)
    (none : ∀ other, ¬ Finished between other) :
    ∀ row ∈ rows, row.1.orgId = org → row ∈ found := by
  rcases cons_eq_append_cons.mp split with ⟨_, same, _⟩ | ⟨rest, _, newerEq⟩
  · exact absurd same (notListed next servers found)
  · exact retained.listed next servers found rest between newerEq none

end Retained

/-- A step of a drain or of a writer. -/
structure Background (before after : System) : Prop where
  now : before.now ≤ after.now
  markers : ∀ marker time, (marker, some time) ∈ before.markers →
    (marker, some time) ∈ after.markers
  drains : ∀ drain stamp, after.drains drain = some stamp →
    before.drains drain = some stamp ∨ stamp = before.now
  watermark : after.watermark = before.watermark
  poll : after.poll = before.poll
  polls : after.polls = before.polls

section Background

variable {before after : System}

theorem Background.sound (background : Background before after) (sound : before.Sound)
    (log : after.log = before.log ∨ ∃ rows, after.log = .committed rows :: before.log) :
    after.Sound where
  drains := by
    intro drain stamp stamped
    rcases background.drains drain stamp stamped with old | new
    · exact (sound.drains drain stamp old).trans background.now
    · exact new.le.trans background.now
  watermark := by
    intro time marked
    rw [background.watermark] at marked
    exact (sound.watermark time marked).trans background.now
  numbers := by
    rw [background.polls]
    rcases log with same | ⟨rows, cons⟩
    · rw [same]
      exact sound.numbers
    · rw [cons]
      exact sound.numbers_cons le_rfl (by rintro poll ⟨⟩)
  poll := by
    intro poll inFlight
    rw [background.poll] at inFlight
    have poll_sound := sound.poll poll inFlight
    refine ⟨background.polls ▸ poll_sound.number, ?_, poll_sound.stamp.trans background.now,
      poll_sound.since_le, background.watermark ▸ poll_sound.since, ?_⟩
    · rcases log with same | ⟨rows, cons⟩
      · rw [same]
        exact poll_sound.unfinished
      · rw [cons]
        simpa using poll_sound.unfinished
    · intro listing listed
      have listing_sound := poll_sound.listing listing listed
      refine ⟨fun row member => ?_, listing_sound.reached_le, listing_sound.waiting,
        listing_sound.settled⟩
      have stored := listing_sound.rows row member
      exact ⟨background.markers _ _ stored.1, stored.2⟩

theorem Background.kept (background : Background before after) {event : Event}
    {newer : List Event} (kept : Kept before event newer) : Kept after event newer := by
  apply kept.imp
  case committed =>
      intro _ _ row _ tracked
      exact ⟨background.markers _ _ tracked.stored, tracked.past.trans background.now,
        tracked.polled, background.watermark ▸ tracked.owed, background.poll ▸ tracked.inFlight,
        background.poll ▸ tracked.fresh⟩
  case listed =>
      intro _ _ _ _ row checked
      rw [Checked, background.poll]
      exact checked
  case finished =>
  intro rows org first retained
  refine ⟨fun row member same => ?_, background.watermark ▸ retained.below,
    background.poll ▸ retained.unlisted, retained.listed⟩
  obtain ⟨stored, late, past⟩ := retained.stored row member same
  exact ⟨background.markers _ _ stored, late, past.trans background.now⟩

end Background

/-- An event of a drain or of a validation changes nothing about where the polls stand. -/
theorem Kept.cons {system : System} {event recent : Event} {newer : List Event}
    (kept : Kept system event newer) (notStarted : ∀ poll, recent ≠ .started poll)
    (notListed : ∀ poll servers rows, recent ≠ .listed poll servers rows)
    (notFinished : ∀ poll stamp rows settled, recent ≠ .finished poll stamp rows settled) :
    Kept system event (recent :: newer) := by
  have finished : ∀ poll, Finished (recent :: newer) poll → Finished newer poll := by
    intro poll finished
    rcases finished_cons.mp finished with ⟨stamp, rows, settled, same⟩ | earlier
    · exact absurd same (notFinished poll stamp rows settled)
    · exact earlier
  have started : ∀ poll, .started poll ∈ recent :: newer → .started poll ∈ newer := by
    intro poll member
    exact (List.mem_cons.mp member).resolve_left fun same => notStarted poll same.symm
  apply kept.imp
  case committed =>
      intro _ _ row _ tracked
      refine ⟨tracked.stored, tracked.past, fun poll start done => ?_, ?_, fun poll inFlight => ?_,
        fun poll inFlight start => tracked.fresh poll inFlight (started _ start)⟩
      · exact (tracked.polled poll (started poll start) (finished poll done)).cons recent
      · exact tracked.owed.imp (·.cons recent) id
      · exact (tracked.inFlight poll inFlight).imp (·.cons recent) (·.cons recent)
  case listed =>
      intro number _ _ _ row checked watched
      refine (checked watched).imp (·.cons recent) fun waiting => ⟨?_, waiting.2⟩
      exact fun done => waiting.1 (finished number done)
  case finished =>
      exact fun rows org first retained => ⟨retained.stored, retained.below_cons recent,
        retained.unlisted, retained.listed_cons recent notListed⟩

section Steps

variable {system : System}

theorem faithful_of_background {before after : System} (background : Background before after)
    (faithful : before.Faithful) (log : after.log = before.log) : after.Faithful where
  toSound := background.sound faithful.toSound (Or.inl log)
  kept := by
    rw [log]
    exact faithful.kept.imp fun event newer _ kept => background.kept kept

theorem faithful_advance (faithful : system.Faithful) (duration : ℕ) :
    (system.step (.advance duration)).Faithful := by
  refine faithful_of_background ?_ faithful rfl
  exact ⟨Int.le_add_of_nonneg_right (Int.natCast_nonneg duration), fun _ _ member => member,
    fun _ _ stamped => Or.inl stamped, rfl, rfl, rfl⟩

theorem faithful_recordRevocation (faithful : system.Faithful) (marker : Marker) :
    (system.step (.recordRevocation marker)).Faithful := by
  refine faithful_of_background ?_ faithful rfl
  exact ⟨le_refl _, fun _ _ member => List.mem_append_left _ member,
    fun _ _ stamped => Or.inl stamped, rfl, rfl, rfl⟩

theorem faithful_startDrain (faithful : system.Faithful) (drain : ℕ) :
    (system.step (.startDrain drain)).Faithful := by
  refine faithful_of_background ?_ faithful rfl
  refine ⟨le_refl _, fun _ _ member => member, fun other stamp stamped => ?_, rfl, rfl, rfl⟩
  by_cases same : other = drain
  · simp only [System.step, same, Function.update_self, Option.some.injEq] at stamped
    exact Or.inr stamped.symm
  · simp only [System.step, Function.update_of_ne same] at stamped
    exact Or.inl stamped

theorem forget_drain {drain other : ℕ} {stamp : ℤ}
    (stamped : Function.update system.drains drain none other = some stamp) :
    system.drains other = some stamp := by
  by_cases same : other = drain
  · simp [same] at stamped
  · rwa [Function.update_of_ne same] at stamped

theorem faithful_rollbackDrain (faithful : system.Faithful) (drain : ℕ) :
    (system.step (.rollbackDrain drain)).Faithful := by
  refine faithful_of_background ?_ faithful rfl
  exact ⟨le_refl _, fun _ _ member => member, fun _ _ stamped => Or.inl (forget_drain stamped),
    rfl, rfl, rfl⟩

theorem faithful_commitDrain (faithful : system.Faithful) (drain : ℕ) (ids : List Uuid)
    (inTime : InTime system (.commitDrain drain ids)) :
    (system.step (.commitDrain drain ids)).Faithful := by
  rw [System.step, System.commitDrain]
  split
  · exact faithful
  · rename_i stamp stamped
    have background : Background system
        { system with
          markers := finalizeRevocations system.markers ids stamp
          drains := Function.update system.drains drain none
          log := .committed (system.closing ids stamp) :: system.log } :=
      ⟨le_refl _, fun _ _ member => mem_finalizeRevocations member ids stamp,
        fun _ _ stamped => Or.inl (forget_drain stamped), rfl, rfl, rfl⟩
    refine ⟨background.sound faithful.toSound (Or.inr ⟨_, rfl⟩), atEvery_cons.mpr ⟨?_, ?_⟩⟩
    · intro row closed
      obtain ⟨timeEq, stored⟩ := System.mem_closing closed
      have passed := inTime stamp stamped (List.ne_nil_of_mem closed)
      refine ⟨stored, timeEq ▸ faithful.drains drain stamp stamped, ?_, Or.inr ?_, ?_, ?_⟩
      · exact fun poll started => absurd started List.not_mem_nil
      · intro time marked
        rw [timeEq]
        cases inFlight : system.poll with
        | none => exact passed time (by rw [System.passed, inFlight]; exact marked)
        | some poll =>
            have sound := faithful.poll poll inFlight
            have below := passed _ (by rw [System.passed, inFlight])
            rw [← sound.since time marked]
            split at below
            · exact lt_of_le_of_lt sound.since_le below
            · exact below
      · intro poll inFlight
        have below := passed _ (by rw [System.passed, inFlight])
        refine Or.inr ?_
        rw [Awaited, timeEq]
        cases listed : poll.listing with
        | none => simpa [listed] using below
        | some listing => exact Or.inl (by simpa [listed] using below)
      · exact fun poll _ started => absurd started List.not_mem_nil
    · refine faithful.kept.imp fun event newer _ kept => ?_
      exact (background.kept kept).cons (by simp) (by simp) (by simp)

theorem faithful_abort (faithful : system.Faithful) :
    ({ system with poll := none } : System).Faithful where
  drains := faithful.drains
  watermark := faithful.watermark
  numbers := faithful.numbers
  poll := fun poll inFlight => by cases inFlight
  kept := by
    refine faithful.kept.imp fun event newer _ kept => ?_
    apply kept.imp
    case committed =>
        exact fun _ _ row _ tracked =>
          ⟨tracked.stored, tracked.past, tracked.polled, tracked.owed, by simp, by simp⟩
    case listed =>
        exact fun _ _ _ _ row checked watched =>
          (checked watched).imp id fun waiting => ⟨waiting.1, by simp⟩
    case finished =>
        exact fun rows org first retained =>
          ⟨retained.stored, retained.below, by simp, retained.listed⟩

theorem faithful_startPoll (faithful : system.Faithful) (inTime : InTime system .startPoll) :
    (system.step .startPoll).Faithful := by
  rw [System.step, System.startPoll]
  split
  · exact faithful
  · rename_i idle
    have fresh : ¬ Finished system.log system.polls :=
      fun finished => absurd (faithful.number_lt finished) (lt_irrefl _)
    have since_le : system.watermark.getD (system.now - lookback) ≤ system.now := by
      cases marked : system.watermark with
      | none =>
          rw [Option.getD_none, lookback]
          omega
      | some time => exact faithful.watermark time marked
    refine ⟨⟨faithful.drains, faithful.watermark, ?_, ?_⟩, atEvery_cons.mpr ⟨trivial, ?_⟩⟩
    · apply faithful.numbers_cons (Nat.le_succ system.polls)
      rintro poll ⟨⟩
      exact Nat.lt_succ_self system.polls
    · rintro poll ⟨⟩
      refine ⟨Nat.lt_succ_self system.polls, by simpa using fresh, le_refl _, since_le, ?_, by simp⟩
      intro time marked
      rw [show system.watermark = some time from marked, Option.getD_some]
    · refine faithful.kept.imp fun event newer since kept => ?_
      apply kept.imp
      case committed =>
          rintro rows rfl row member tracked
          refine ⟨tracked.stored, tracked.past, ?_, tracked.owed.imp (·.cons _) id, ?_, ?_⟩
          · intro poll started finished
            have finished : Finished newer poll := by simpa using finished
            rcases List.mem_cons.mp started with same | started
            · cases same
              exact absurd (finished.mono since.subset) fresh
            · exact (tracked.polled poll started finished).cons _
          · rintro poll ⟨⟩
            refine (tracked.owed.imp (·.cons _) fun below => ?_)
            show system.watermark.getD (system.now - lookback) < row.2
            cases marked : system.watermark with
            | none => exact inTime idle marked rows since.mem row member
            | some time => exact below time marked
          · rintro poll ⟨⟩ _
            exact tracked.past
      case listed =>
          rintro number servers rows rfl row checked watched
          refine (checked watched).imp (·.cons _) fun waiting => ⟨by simpa using waiting.1, ?_⟩
          rintro poll ⟨⟩ same
          exact absurd (faithful.numbers _ since.mem number rfl) (by simp [← same])
      case finished =>
      intro rows org first retained
      refine ⟨retained.stored, retained.below_cons _, ?_, retained.listed_cons _ (by simp)⟩
      rintro poll ⟨⟩ _ row member same
      exact (retained.stored row member same).2.2

theorem faithful_list (faithful : system.Faithful) (servers : Uuid → Option Uuid) :
    (system.step (.list servers)).Faithful := by
  rw [System.step, System.list]
  split
  · rename_i number stamp lower inFlight
    have sound := faithful.poll _ inFlight
    dsimp only
    split
    · exact faithful_abort faithful
    · rename_i scopes scopesEq
      have describes := describes_scopesOf (finalizedBetween_pairwise _ _ _) scopesEq
      refine ⟨⟨faithful.drains, faithful.watermark, ?_, ?_⟩, atEvery_cons.mpr ⟨?_, ?_⟩⟩
      · apply faithful.numbers_cons le_rfl
        rintro poll ⟨⟩
        exact sound.number
      · rintro poll ⟨⟩
        refine ⟨sound.number, by simpa using sound.unfinished, sound.stamp, sound.since_le,
          sound.since, ?_⟩
        rintro listing ⟨⟩
        refine ⟨fun row member => ?_, le_refl stamp, ?_, by simp⟩
        · have found := mem_finalizedBetween.mp member
          exact ⟨found.1, found.2.2⟩
        · rintro ⟨org, scope⟩ member
          exact describes.first org scope (mem_toValidate.mp member).1
      · intro row member watched
        refine Or.inr ⟨by simp [Finished], ?_⟩
        rintro poll ⟨⟩ _
        exact ⟨_, rfl, describes.exists_toValidate member watched⟩
      · refine faithful.kept.imp fun event newer since kept => ?_
        apply kept.imp
        case committed =>
            intro _ _ row _ tracked
            refine ⟨tracked.stored, tracked.past, ?_, tracked.owed.imp (·.cons _) id, ?_, ?_⟩
            · intro poll started finished
              exact (tracked.polled poll (by simpa using started) (by simpa using finished)).cons _
            · rintro poll ⟨⟩
              refine (tracked.inFlight _ inFlight).imp (·.cons _) fun below => ?_
              by_cases early : row.2 ≤ stamp
              · refine Or.inr ⟨mem_finalizedBetween.mpr ⟨tracked.stored, below, early⟩, [], ?_⟩
                exact since_cons.mpr (Or.inl ⟨rfl, rfl⟩)
              · exact Or.inl (not_le.mp early)
            · rintro poll ⟨⟩ started
              have started : .started number ∈ newer := by simpa using started
              exact tracked.fresh ⟨number, stamp, lower, none⟩ inFlight started
        case listed =>
            intro _ _ _ _ row checked watched
            refine (checked watched).imp (·.cons _) fun waiting =>
              ⟨by simpa using waiting.1, ?_⟩
            rintro poll ⟨⟩ same
            obtain ⟨listing, listed, _⟩ := waiting.2 _ inFlight same
            cases listed
        case finished =>
        intro rows org first retained
        refine ⟨retained.stored, retained.below_cons _, ?_, ?_⟩
        · rintro poll ⟨⟩ unlisted
          cases unlisted
        · intro next nextServers found later between split noneDone row member same
          rcases cons_eq_append_cons.mp split with ⟨_, listedEq, newerEq⟩ | ⟨rest, _, newerEq⟩
          · cases listedEq
            subst newerEq
            obtain ⟨time, marked, below⟩ := retained.below noneDone
            obtain ⟨stored, late, _⟩ := retained.stored row member same
            have early := retained.unlisted _ inFlight rfl row member same
            refine mem_finalizedBetween.mpr ⟨stored, ?_, early⟩
            exact lt_of_lt_of_le ((sound.since time marked).trans_lt below) late
          · exact retained.listed next nextServers found rest between newerEq noneDone row member
              same
  · exact faithful

theorem FirstOf.unique {rows : List Row} {org : Uuid} {first other : ℤ}
    (least : FirstOf rows org first) (otherLeast : FirstOf rows org other) : first = other := by
  obtain ⟨⟨marker, member, markerOrg⟩, below⟩ := least
  obtain ⟨⟨otherMarker, otherMember, otherOrg⟩, otherBelow⟩ := otherLeast
  exact le_antisymm (below _ otherMember otherOrg) (otherBelow _ member markerOrg)

theorem heldAt_le (stamp first : ℤ) (settles : Bool) (reached : ℤ) :
    heldAt stamp first settles reached ≤ reached := by
  rw [heldAt]
  split
  · exact min_le_left _ _
  · exact le_refl reached

theorem heldAt_lt {stamp first : ℤ} (recent : stamp - first < hold) (reached : ℤ) :
    heldAt stamp first false reached < first := by
  rw [heldAt, if_pos ⟨rfl, recent⟩]
  have := min_le_right reached (first - 1)
  omega

theorem Listing.Sound.validate {servers : Uuid → Option Uuid} {rows : List Row} {org : Uuid}
    {scope : OrgScope} {waiting : List (Uuid × OrgScope)} {settled : List (Uuid × Bool)}
    {reached stamp : ℤ} {markers : List (Marker × Option ℤ)}
    (sound : (⟨servers, rows, (org, scope) :: waiting, settled, reached⟩ : Listing).Sound markers stamp)
    (settles : Bool) :
    (⟨servers, rows, waiting, settled ++ [(org, settles)],
      heldAt stamp scope.first settles reached⟩ : Listing).Sound markers stamp where
  rows := sound.rows
  reached_le := (heldAt_le stamp scope.first settles reached).trans sound.reached_le
  waiting := fun entry member => sound.waiting entry (List.mem_cons_of_mem _ member)
  settled := by
    intro other first unsettled least recent
    rcases List.mem_append.mp unsettled with before | last
    · exact (heldAt_le stamp scope.first settles reached).trans_lt
        (sound.settled other first before least recent)
    · obtain ⟨rfl, rfl⟩ := Prod.mk.inj (List.mem_singleton.mp last)
      have firstEq := (sound.waiting _ List.mem_cons_self).unique least
      dsimp only at firstEq ⊢
      rw [firstEq]
      exact heldAt_lt recent reached

theorem faithful_validate (faithful : system.Faithful) (settles : Bool) :
    (system.step (.validate settles)).Faithful := by
  rw [System.step, System.validate]
  split
  · rename_i number stamp lower servers rows org scope waiting settled reached inFlight
    have sound := faithful.poll _ inFlight
    refine ⟨⟨faithful.drains, faithful.watermark, ?_, ?_⟩, atEvery_cons.mpr ⟨trivial, ?_⟩⟩
    · apply faithful.numbers_cons le_rfl
      rintro poll ⟨⟩
      exact sound.number
    · rintro poll ⟨⟩
      refine ⟨sound.number, by simpa using sound.unfinished, sound.stamp, sound.since_le,
        sound.since, ?_⟩
      rintro listing ⟨⟩
      exact (sound.listing _ rfl).validate settles
    · refine faithful.kept.imp fun event newer since before => ?_
      have kept : Kept system event
          (.validated number ⟨org, scope.objects, scope.delegators⟩ settles :: newer) :=
        before.cons (by simp) (by simp) (by simp)
      apply kept.imp
      case committed =>
          intro _ _ row _ tracked
          refine ⟨tracked.stored, tracked.past, tracked.polled, tracked.owed, ?_, ?_⟩
          · rintro poll ⟨⟩
            have awaited := tracked.inFlight _ inFlight
            exact awaited
          · rintro poll ⟨⟩
            have early := tracked.fresh _ inFlight
            exact early
      case listed =>
          intro other _ _ _ row checked watched
          rcases checked watched with done | ⟨unfinished, waits⟩
          · exact Or.inl done
          · by_cases same : number = other
            · subst same
              obtain ⟨listing, listed, entry, entryMem, contains⟩ := waits _ inFlight rfl
              cases listed
              rcases List.mem_cons.mp entryMem with rfl | entryMem
              · exact Or.inl ⟨_, settles, List.mem_cons_self, contains⟩
              · refine Or.inr ⟨unfinished, ?_⟩
                rintro poll ⟨⟩ _
                exact ⟨_, rfl, entry, entryMem, contains⟩
            · refine Or.inr ⟨unfinished, ?_⟩
              rintro poll ⟨⟩ equal
              exact absurd equal same
      case finished =>
      intro _ other first retained
      refine ⟨retained.stored, retained.below, ?_, retained.listed⟩
      rintro poll ⟨⟩ unlisted
      cases unlisted
  · exact faithful

theorem faithful_finish (faithful : system.Faithful) : (system.step .finish).Faithful := by
  rw [System.step, System.finish]
  split
  · rename_i number stamp lower servers rows settled reached inFlight
    have sound := faithful.poll _ inFlight
    have listing := sound.listing _ rfl
    refine ⟨⟨faithful.drains, ?_, ?_, by simp⟩, atEvery_cons.mpr ⟨?_, ?_⟩⟩
    · rintro time ⟨⟩
      exact listing.reached_le.trans sound.stamp
    · apply faithful.numbers_cons le_rfl
      rintro poll ⟨⟩
      exact sound.number
    · intro org first unsettled least recent
      refine ⟨fun row member same => ?_, fun _ => ?_, by simp, by simp⟩
      · have stored := listing.rows row member
        exact ⟨stored.1, least.2 row member same, stored.2.trans sound.stamp⟩
      · exact ⟨reached, rfl, listing.settled org first unsettled least recent⟩
    · refine faithful.kept.imp fun event newer since kept => ?_
      apply kept.imp
      case committed =>
          intro _ _ row _ tracked
          have settles : Settled (.finished number stamp rows settled :: newer) row ∨
              stamp < row.2 := by
            rcases tracked.inFlight _ inFlight with earlier | late | ⟨found, after, place⟩
            · exact Or.inl (earlier.cons _)
            · exact Or.inr late
            · refine Or.inl ⟨number, servers, rows, _, since_cons.mpr (Or.inr ⟨after, rfl, place⟩),
                found, ?_⟩
              exact finished_cons.mpr (Or.inl ⟨stamp, rows, settled, rfl⟩)
          refine ⟨tracked.stored, tracked.past, fun poll started finished => ?_, ?_, by simp, by simp⟩
          · have started : .started poll ∈ newer := by simpa using started
            rcases finished_cons.mp finished with ⟨_, _, _, same⟩ | earlier
            · cases same
              have early := tracked.fresh _ inFlight started
              exact settles.resolve_right (not_lt.mpr early)
            · exact (tracked.polled poll started earlier).cons _
          · refine settles.imp id fun late time marked => ?_
            cases marked
            exact listing.reached_le.trans_lt late
      case listed =>
          intro other _ _ _ row checked watched
          rcases checked watched with done | ⟨unfinished, waits⟩
          · exact Or.inl (done.cons _)
          · refine Or.inr ⟨fun finished => ?_, by simp⟩
            rcases finished_cons.mp finished with ⟨_, _, _, same⟩ | earlier
            · cases same
              obtain ⟨_, listed, entry, entryMem, _⟩ := waits _ inFlight rfl
              cases listed
              exact absurd entryMem List.not_mem_nil
            · exact unfinished earlier
      case finished =>
          intro _ other first retained
          refine ⟨retained.stored, fun none => ?_, by simp, retained.listed_cons _ (by simp)⟩
          exact absurd (finished_cons.mpr (Or.inl ⟨stamp, rows, settled, rfl⟩)) (none number)
  · exact faithful

theorem faithful_step (faithful : system.Faithful) {action : Action}
    (inTime : InTime system action) : (system.step action).Faithful := by
  cases action with
  | advance duration => exact faithful_advance faithful duration
  | recordRevocation marker => exact faithful_recordRevocation faithful marker
  | startDrain drain => exact faithful_startDrain faithful drain
  | commitDrain drain ids => exact faithful_commitDrain faithful drain ids inTime
  | rollbackDrain drain => exact faithful_rollbackDrain faithful drain
  | startPoll => exact faithful_startPoll faithful inTime
  | list servers => exact faithful_list faithful servers
  | validate settles => exact faithful_validate faithful settles
  | finish => exact faithful_finish faithful
  | abort => exact faithful_abort faithful

end Steps

theorem faithful_initial (now : ℤ) (markers : List (Marker × Option ℤ)) :
    (System.initial now markers).Faithful :=
  ⟨⟨by simp [System.initial], by simp [System.initial], by simp [System.initial],
    by simp [System.initial]⟩, atEvery_nil _⟩

theorem System.Faithful.missesNone {system : System} (faithful : system.Faithful) :
    MissesNone system.log := by
  intro rows newer since poll started finished row member
  obtain ⟨settledPoll, servers, listed, after, place, found, done⟩ :=
    (faithful.kept _ newer since row member).polled poll started finished
  obtain ⟨older, newerEq⟩ := place
  refine ⟨settledPoll, servers, listed, by rw [newerEq]; simp, found, ?_, fun watched => ?_⟩
  · exact done.mono (by rw [newerEq]; simp)
  · obtain ⟨oldest, logEq⟩ := since
    have checked := faithful.kept (.listed settledPoll servers listed) after
      ⟨older ++ .committed rows :: oldest, by rw [logEq, newerEq]; simp⟩ row found watched
    obtain ⟨scope, settled, validated, contains⟩ :=
      checked.resolve_right fun unfinished => unfinished.1 done
    exact ⟨scope, settled, by rw [newerEq]; exact List.mem_append_left _ validated, contains⟩

theorem System.Faithful.pollsAgain {system : System} (faithful : system.Faithful) :
    PollsAgain system.log := by
  intro poll stamp rows settled newer since org first unsettled least recent next servers listed
    later between newerEq noneDone row member same
  have retained := faithful.kept _ newer since org first unsettled least recent
  have found := retained.listed next servers listed later between newerEq noneDone row member same
  refine ⟨found, fun done watched => ?_⟩
  obtain ⟨oldest, logEq⟩ := since
  have checked := faithful.kept (.listed next servers listed) later
    ⟨between ++ .finished poll stamp rows settled :: oldest, by rw [logEq, newerEq]; simp⟩ row found
    watched
  exact checked.resolve_right fun unfinished => unfinished.1 done

/-- In a run in which every drain commits before the polls have passed its stamp, no
finalized marker is missed, and an organization that has not settled is polled again. -/
theorem retry_misses_none {now : ℤ} {markers : List (Marker × Option ℤ)} {actions : List Action}
    (inTime : StepRuns.EveryStep System.step InTime (System.initial now markers) actions) :
    MissesNone (systemAfter now markers actions).log ∧
      PollsAgain (systemAfter now markers actions).log := by
  have faithful := StepRuns.run_allowed_invariant System.Faithful
    (fun _ _ allowed kept => faithful_step kept allowed) (faithful_initial now markers) inTime
  exact ⟨faithful.missesNone, faithful.pollsAgain⟩

def toolMarker : Marker where
  id := 1
  orgId := 2
  tenantId := 3
  scope := .grant
  subject := "user:00000000-0000-0000-0000-000000000004".toList
  object := "tool:00000000-0000-0000-0000-000000000005".toList

/-- A drain that commits before the next poll starts. -/
theorem retry_misses_none_in_time :
    MissesNone (systemAfter 10 [(toolMarker, none)]
        [.startDrain 0, .advance 5, .commitDrain 0 [1], .startPoll]).log ∧
      PollsAgain (systemAfter 10 [(toolMarker, none)]
        [.startDrain 0, .advance 5, .commitDrain 0 [1], .startPoll]).log := by
  apply retry_misses_none
  refine ⟨trivial, trivial, ?_, ?_, trivial⟩
  · rintro stamp ⟨⟩ _ time passed
    cases passed
  · rintro _ _ rows member row rowMember
    replace member : Event.committed rows ∈ [Event.committed [(toolMarker, 10)]] := member
    cases List.mem_singleton.mp member
    rw [List.mem_singleton.mp rowMember]
    decide

/-- A drain that starts before a poll and commits after it; then a whole poll. -/
def lateCommit : List Action :=
  [.startDrain 0, .advance 5, .startPoll, .list fun _ => none, .finish, .commitDrain 0 [1],
    .startPoll, .list fun _ => none, .finish]

/-- The poll after the commit validates no scope with the marker, and the watermark has
passed the marker. -/
theorem lateCommit_missed : ∃ newer,
    Since (systemAfter 10 [(toolMarker, none)] lateCommit).log
    (.committed [(toolMarker, 10)]) newer ∧
      (.started 1 ∈ newer ∧ Finished newer 1) ∧ (∀ servers, Watched servers toolMarker) ∧
      (∀ poll servers, ¬ Validated newer poll servers toolMarker) ∧
      (systemAfter 10 [(toolMarker, none)] lateCommit).watermark = some 15 := by
  refine ⟨[.finished 1 15 [] [], .listed 1 (fun _ => none) [], .started 1],
    ⟨[.finished 0 15 [] [], .listed 0 (fun _ => none) [], .started 0], rfl⟩,
    ⟨by simp, ?_⟩, ?_, ?_, rfl⟩
  · exact ⟨15, [], [], by simp⟩
  · intro servers
    refine Or.inl ?_
    have split : partition ':' toolMarker.object =
        ("tool".toList, "00000000-0000-0000-0000-000000000005".toList) := by decide
    have parsed : PythonText.parseUuid "00000000-0000-0000-0000-000000000005".toList = some 5 := by
      decide
    simp only [key, split, parsed]
    rw [if_neg (by decide), if_pos (by decide)]
    exact Option.some_ne_none _
  · rintro poll servers ⟨scope, settled, validated, _⟩
    simp at validated

end NaturalMold.Authz.DelegationRetry
