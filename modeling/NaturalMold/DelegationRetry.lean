import Mathlib.Data.Finset.Basic
import Mathlib.Data.Prod.Lex
import NaturalMold.Histories
import NaturalMold.OrderedDictionaries
import NaturalMold.PythonText
import NaturalMold.Reconciliation
import NaturalMold.StepRuns

/-!
# Delegations validated again once revocations settle

A drain stamps the markers that it finalizes with the time at its start and commits them later.
-/

namespace NaturalMold.Authz

open Conversations (Uuid)
open Histories (Since)

namespace DelegationRetry

/-- Times are in microseconds. -/
def lookback : ℤ := 15 * 60 * 1000000

def hold : ℤ := 60 * 60 * 1000000

/-- A revocation marker; the time it was finalized at is kept beside it. -/
structure Marker where
  id : Uuid
  orgId : Uuid
  tenantId : Uuid
  scope : RevocationScope
  subject : List Char
  object : List Char
  deriving DecidableEq

/-- A listed marker, and when it was finalized. -/
abbrev Row := Marker × ℤ

/-- The kind of a delegated object, and its id. -/
abbrev Key := List Char × Uuid

/-- The keys of `LINK_SOURCES`. -/
def linkSources : List (List Char) :=
  ["tool", "mcp_server", "skill", "agent", "credential"].map String.toList

/-- `text.partition(separator)`, without the separator. -/
def partition (separator : Char) (text : List Char) : List Char × List Char :=
  (text.takeWhile (· ≠ separator), (text.dropWhile (· ≠ separator)).drop 1)

/-- `_key`; `servers` gives the server of each MCP tool that still exists. -/
def key (object : List Char) (servers : Uuid → Option Uuid) : Option Key :=
  let (kind, raw) := partition ':' object
  match PythonText.parseUuid raw with
  | none => none
  | some id =>
      if kind = "mcp_tool".toList then (servers id).map ("mcp_server".toList, ·)
      else if linkSources.contains kind then some (kind, id)
      else none

/-- What one organization's markers add up to. -/
structure OrgScope where
  tenantId : Uuid
  objects : Finset Key
  delegators : Finset Uuid
  first : ℤ

/-- `scopes.setdefault(org_id, …)`. -/
def orgScope (scopes : OrderedDict Uuid OrgScope) (row : Row) : OrgScope :=
  (scopes.get? row.1.orgId).getD ⟨row.1.tenantId, ∅, ∅, row.2⟩

/-- The subject of an organization-wide marker, without `user:`. -/
def delegatorText (marker : Marker) : Option (List Char) :=
  if marker.scope.orgWide then PythonText.afterPrefix? "user:".toList marker.subject else none

def addObject (servers : Uuid → Option Uuid) (marker : Marker) (objects : Finset Key) :
    Finset Key :=
  match key marker.object servers with
  | none => objects
  | some found => insert found objects

/-- The loop's body; `none` is the `ValueError` of a subject that is not a UUID. -/
def addRow (servers : Uuid → Option Uuid) (scopes : OrderedDict Uuid OrgScope) (row : Row) :
    Option (OrderedDict Uuid OrgScope) :=
  let scope := orgScope scopes row
  let objects := addObject servers row.1 scope.objects
  match delegatorText row.1 with
  | none => some (scopes.set row.1.orgId { scope with objects })
  | some text =>
      match PythonText.parseUuid text with
      | none => none
      | some delegator =>
          some (scopes.set row.1.orgId
            { scope with objects, delegators := insert delegator scope.delegators })

def scopesOf (servers : Uuid → Option Uuid) (rows : List Row) :
    Option (OrderedDict Uuid OrgScope) :=
  rows.foldlM (addRow servers) OrderedDict.empty

def toValidate (scopes : OrderedDict Uuid OrgScope) : List (Uuid × OrgScope) :=
  (scopes.entries.insertionSort fun first second => first.1 ≤ second.1).filter fun entry =>
    entry.2.objects ≠ ∅ ∨ entry.2.delegators ≠ ∅

/-- By `finalized_at`, then by id. -/
def rowBefore (first second : Row) : Prop :=
  toLex (first.2, first.1.id) ≤ toLex (second.2, second.1.id)

instance : DecidableRel rowBefore :=
  fun _ _ => inferInstanceAs (Decidable (toLex _ ≤ toLex _))

/-- The query of a poll. -/
def finalizedBetween (markers : List (Marker × Option ℤ)) (since stamp : ℤ) : List Row :=
  (markers.filterMap fun marker => marker.2.bind fun time =>
    if since < time ∧ time ≤ stamp then some (marker.1, time) else none).insertionSort rowBefore

structure Listing where
  servers : Uuid → Option Uuid
  rows : List Row
  /-- The organizations that are still to be validated. -/
  waiting : List (Uuid × OrgScope)
  settled : List (Uuid × Bool)
  reached : ℤ

/-- A poll from its start on; it lists the markers in a transaction of its own. -/
structure Poll where
  number : ℕ
  stamp : ℤ
  since : ℤ
  listing : Option Listing

structure DelegationScope where
  orgId : Uuid
  objects : Finset Key
  delegators : Finset Uuid

/-- What happened, for the statements only. -/
inductive Event
  | committed (rows : List Row)
  | started (poll : ℕ)
  | listed (poll : ℕ) (servers : Uuid → Option Uuid) (rows : List Row)
  | validated (poll : ℕ) (scope : DelegationScope) (settled : Bool)
  | finished (poll : ℕ) (stamp : ℤ) (rows : List Row) (settled : List (Uuid × Bool))

/-- The clock, the committed markers, the stamps of the open drains, the leader's
watermark and its poll, the number of polls so far, and the events, newest first. -/
structure System where
  now : ℤ
  markers : List (Marker × Option ℤ)
  drains : ℕ → Option ℤ
  watermark : Option ℤ
  poll : Option Poll
  polls : ℕ
  log : List Event

/-- A leader that starts; markers may have been finalized before. -/
def System.initial (now : ℤ) (markers : List (Marker × Option ℤ)) : System where
  now := now
  markers := markers
  drains := fun _ => none
  watermark := none
  poll := none
  polls := 0
  log := []

inductive Action
  | advance (duration : ℕ)
  | recordRevocation (marker : Marker)
  | startDrain (drain : ℕ)
  | commitDrain (drain : ℕ) (ids : List Uuid)
  | rollbackDrain (drain : ℕ)
  | startPoll
  | list (servers : Uuid → Option Uuid)
  | validate (settles : Bool)
  | finish
  | abort

/-- The markers that `finalize_revocations` closes. -/
def System.closing (system : System) (ids : List Uuid) (stamp : ℤ) : List Row :=
  (system.markers.filter fun marker => marker.2 = none ∧ marker.1.id ∈ ids).map fun marker =>
    (marker.1, stamp)

/-- `finalize_revocations`: only markers that are not finalized are changed. -/
def finalizeRevocations (markers : List (Marker × Option ℤ)) (ids : List Uuid) (stamp : ℤ) :
    List (Marker × Option ℤ) :=
  markers.map fun marker =>
    if marker.2 = none ∧ marker.1.id ∈ ids then (marker.1, some stamp) else marker

def System.commitDrain (system : System) (drain : ℕ) (ids : List Uuid) : System :=
  match system.drains drain with
  | none => system
  | some stamp =>
      { system with
        markers := finalizeRevocations system.markers ids stamp
        drains := Function.update system.drains drain none
        log := .committed (system.closing ids stamp) :: system.log }

/-- `revalidate_finalized` up to its query; the job runs at most once at a time. -/
def System.startPoll (system : System) : System :=
  match system.poll with
  | some _ => system
  | none =>
      { system with
        poll := some ⟨system.polls, system.now,
          system.watermark.getD (system.now - lookback), none⟩
        polls := system.polls + 1
        log := .started system.polls :: system.log }

/-- The poll's query and its scopes; a `ValueError` ends the poll. -/
def System.list (system : System) (servers : Uuid → Option Uuid) : System :=
  match system.poll with
  | some ⟨number, stamp, since, none⟩ =>
      let rows := finalizedBetween system.markers since stamp
      match scopesOf servers rows with
      | none => { system with poll := none }
      | some scopes =>
          { system with
            poll := some ⟨number, stamp, since,
              some ⟨servers, rows, toValidate scopes, [], stamp⟩⟩
            log := .listed number servers rows :: system.log }
  | _ => system

/-- The watermark goes back before the first marker of an organization that did not
settle, unless that marker is too old. -/
def heldAt (stamp first : ℤ) (settles : Bool) (reached : ℤ) : ℤ :=
  if !settles ∧ stamp - first < hold then min reached (first - 1) else reached

/-- `validate_in_session` for the next organization; it settles unless links were
deferred, links failed or an exception was raised. -/
def System.validate (system : System) (settles : Bool) : System :=
  match system.poll with
  | some ⟨number, stamp, since, some ⟨servers, rows, (org, scope) :: waiting, settled, reached⟩⟩ =>
      { system with
        poll := some ⟨number, stamp, since,
          some ⟨servers, rows, waiting, settled ++ [(org, settles)],
            heldAt stamp scope.first settles reached⟩⟩
        log := .validated number ⟨org, scope.objects, scope.delegators⟩ settles :: system.log }
  | _ => system

def System.finish (system : System) : System :=
  match system.poll with
  | some ⟨number, stamp, _, some ⟨_, rows, [], settled, reached⟩⟩ =>
      { system with
        watermark := some reached
        poll := none
        log := .finished number stamp rows settled :: system.log }
  | _ => system

/-- One step; a step that is not possible changes nothing. -/
def System.step (system : System) : Action → System
  | .advance duration => { system with now := system.now + duration }
  | .recordRevocation marker => { system with markers := system.markers ++ [(marker, none)] }
  | .startDrain drain =>
      { system with drains := Function.update system.drains drain (some system.now) }
  | .commitDrain drain ids => system.commitDrain drain ids
  | .rollbackDrain drain => { system with drains := Function.update system.drains drain none }
  | .startPoll => system.startPoll
  | .list servers => system.list servers
  | .validate settles => system.validate settles
  | .finish => system.finish
  -- The listing failed, or the task was cancelled.
  | .abort => { system with poll := none }

def systemAfter (now : ℤ) (markers : List (Marker × Option ℤ)) (actions : List Action) : System :=
  StepRuns.run System.step (System.initial now markers) actions

/-- The marker names a delegable object or an organization-wide user subject. -/
def Watched (servers : Uuid → Option Uuid) (marker : Marker) : Prop :=
  key marker.object servers ≠ none ∨ delegatorText marker ≠ none

structure DelegationScope.Contains (scope : DelegationScope) (servers : Uuid → Option Uuid)
    (marker : Marker) : Prop where
  org : scope.orgId = marker.orgId
  object : ∀ found, key marker.object servers = some found → found ∈ scope.objects
  delegator : ∀ text, delegatorText marker = some text →
    ∃ delegator ∈ scope.delegators, PythonText.parseUuid text = some delegator

def Validated (log : List Event) (poll : ℕ) (servers : Uuid → Option Uuid) (marker : Marker) :
    Prop :=
  ∃ scope settled, .validated poll scope settled ∈ log ∧ scope.Contains servers marker

def Finished (log : List Event) (poll : ℕ) : Prop :=
  ∃ stamp rows settled, .finished poll stamp rows settled ∈ log

/-- A poll that finished has listed a marker, and a scope that it has validated contains
the marker if it is watched. -/
def Scoped (log : List Event) (row : Row) : Prop :=
  ∃ poll servers rows, .listed poll servers rows ∈ log ∧ row ∈ rows ∧
    Finished log poll ∧ (Watched servers row.1 → Validated log poll servers row.1)

/-- `first` is the time of an organization's first listed marker. -/
def FirstOf (rows : List Row) (org : Uuid) (first : ℤ) : Prop :=
  (∃ marker, (marker, first) ∈ rows ∧ marker.orgId = org) ∧
    ∀ row ∈ rows, row.1.orgId = org → first ≤ row.2

/-- No marker is missed: a poll that starts after the commit and finishes leaves no
committed marker that no poll has scoped since. -/
def MissesNone (log : List Event) : Prop :=
  ∀ rows newer, Since log (.committed rows) newer →
    ∀ poll, .started poll ∈ newer → Finished newer poll → ∀ row ∈ rows, Scoped newer row

/-- An organization that has not settled is polled again: the next poll lists the same
markers of it and, if it finishes, has validated a scope that contains the watched ones,
unless the first of them is too old. -/
def PollsAgain (log : List Event) : Prop :=
  ∀ poll stamp rows settled newer, Since log (.finished poll stamp rows settled) newer →
    ∀ org first, (org, false) ∈ settled → FirstOf rows org first → stamp - first < hold →
      ∀ next servers listed later between, newer = later ++ .listed next servers listed :: between →
        (∀ other, ¬ Finished between other) → ∀ row ∈ rows, row.1.orgId = org →
          row ∈ listed ∧
            (Finished later next → Watched servers row.1 → Validated later next servers row.1)

/-- The time up to which markers are no longer listed: a poll lists no more markers once
its query has run. -/
def System.passed (system : System) : Option ℤ :=
  match system.poll with
  | none => system.watermark
  | some poll => some (if poll.listing.isSome then poll.stamp else poll.since)

/-- A drain commits what it finalizes before the polls have passed its stamp, and the
first polls start within `LOOKBACK` after the stamps of the markers committed so far. -/
def InTime (system : System) : Action → Prop
  | .commitDrain drain ids => ∀ stamp, system.drains drain = some stamp →
      system.closing ids stamp ≠ [] → ∀ time, system.passed = some time → time < stamp
  | .startPoll => system.poll = none → system.watermark = none →
      ∀ rows, .committed rows ∈ system.log → ∀ row ∈ rows, system.now - lookback < row.2
  | _ => True

end DelegationRetry

end NaturalMold.Authz
