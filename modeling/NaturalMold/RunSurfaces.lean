import NaturalMold.FallibleSteps
import NaturalMold.FilesystemPermissions

/-! # The trees of a run -/

namespace NaturalMold.FilesystemPermissions

open CronExpressions (Text)
open PosixPaths
open Fallible

/-- A tree of names with the operations that a run may do there. -/
structure Surface where
  root : Path
  operations : List FilesystemOperation
  deriving DecidableEq

def readOnly (root : Path) : Surface :=
  ⟨root, [.read]⟩

section Matching

variable {globmatch : Text → Text → Bool}

end Matching

variable {mode : FilesystemAccess}

/-- Names that a rule can be written from. -/
def Literal (parts : Path) : Prop :=
  ∀ part ∈ parts, IsName part ∧ '*' ∉ part

/-- What the checks of a run establish. -/
structure Accepted (scope : RuntimeScope) : Prop where
  thread : Literal [scope.threadId]
  agent : ∀ agentId, given scope.agentId = some agentId → Literal [agentId]
  runtimeName : ∀ name, given scope.agentRuntimeName = some name → Literal [name]
  slugs : Literal scope.selectedSkillSlugs

section Rules

variable {scope : RuntimeScope} {rule : FilesystemPermission}

end Rules

section Runs

variable {globmatch : Text → Text → Bool}

variable {permissions : List FilesystemPermission}

variable {artifactsRoot : Option Text}

variable (globmatch)

def Writes (permissions : List FilesystemPermission) (path : Text) : Prop :=
  ∃ rawPath, calculateFilesystemAccess globmatch permissions .write rawPath = .ok (.allow, path)

variable {globmatch}

/-- The runs are of other conversations and agents, and their drafts are no part of each
other. -/
structure Apart (first second : RuntimeScope) : Prop where
  threads : first.threadId ≠ second.threadId
  agents : ∀ agentId, given first.agentId = some agentId → given second.agentId ≠ some agentId
  drafts : ∀ draft other, given first.draftWorkspacePath = some draft →
    given second.draftWorkspacePath = some other →
      ¬ components draft <+: components other ∧ ¬ components other <+: components draft

theorem Apart.symm {first second : RuntimeScope} (apart : Apart first second) :
    Apart second first where
  threads := apart.threads.symm
  agents := fun agentId present present' => apart.agents agentId present' present
  drafts := fun draft other present present' => (apart.drafts other draft present' present).symm

end Runs

def chatRun : RuntimeScope where
  threadId := "7".toList
  agentId := some "helper".toList
  userId := some "ada".toList
  selectedSkillSlugs := ["search".toList]
  agentRuntimeName := none
  draftWorkspacePath := none
  agentMemoryFile := true

end NaturalMold.FilesystemPermissions
