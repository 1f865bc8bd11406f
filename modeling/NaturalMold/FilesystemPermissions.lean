import NaturalMold.PosixPaths
import Mathlib.Data.List.DropRight

/-!
# The filesystem rules of a run

A path from the model is read as one absolute path or refused. How a pattern matches a path is left
open.
-/

namespace NaturalMold.FilesystemPermissions

open CronExpressions (Text)
open PosixPaths

inductive FilesystemAccess
  | allow
  | deny
  | interrupt
  deriving DecidableEq

inductive FilesystemOperation
  | read
  | write
  deriving DecidableEq

structure FilesystemPermission where
  operations : List FilesystemOperation
  paths : List Text
  mode : FilesystemAccess
  deriving DecidableEq

/-- `UnsafeFilesystemPath`, and the `ValueError`s of the rules. -/
inductive FilesystemError
  | unsafePath
  | userRequired
  | unsafeSegment
  | draftOutside (draftWorkspacePath : Text)
  deriving DecidableEq

def isControl (char : Char) : Bool :=
  char.toNat < 32 || char.toNat = 127

def canonicalizeVirtualPath (rawPath : Text) : Except FilesystemError Text :=
  if rawPath = [] ∨ rawPath.head? ≠ some '/' ∨ rawPath.any isControl ∨ ':' ∈ rawPath ∨
      '%' ∈ rawPath then
    .error .unsafePath
  else if '\\' ∈ rawPath then .error .unsafePath
  else
    let parts := (rawPath.splitOn '/').tail
    if parts.dropLast.any fun part => part = [] ∨ part = ['.'] ∨ part = ['.', '.'] then
      .error .unsafePath
    else if parts.getLast? = some ['.'] ∨ parts.getLast? = some ['.', '.'] then
      .error .unsafePath
    else
      let path := rawPath.rdropWhile (· = '/')
      .ok (if path = [] then ['/'] else path)

section Decision

variable (globmatch : Text → Text → Bool)

def calculateFilesystemAccess (permissions : List FilesystemPermission)
    (operation : FilesystemOperation) (rawPath : Text) :
    Except FilesystemError (FilesystemAccess × Text) := do
  let path ← canonicalizeVirtualPath rawPath
  match permissions.find? fun rule =>
      operation ∈ rule.operations ∧ rule.paths.any (globmatch path) with
  | some rule => return (rule.mode, path)
  | none => return (.deny, path)

end Decision

/-- What the rules of a run are built from. -/
structure RuntimeScope where
  threadId : Text
  agentId : Option Text
  userId : Option Text
  selectedSkillSlugs : List Text
  agentRuntimeName : Option Text
  draftWorkspacePath : Option Text
  agentMemoryFile : Bool
  deriving DecidableEq

def given (text : Option Text) : Option Text :=
  text.filter (· ≠ [])

end NaturalMold.FilesystemPermissions
