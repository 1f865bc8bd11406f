import NaturalMold.PosixPaths

/-!
# Writes of files below a folder

The files that are written, one after another, into an empty folder.
-/

namespace NaturalMold.FileWrites

open PosixPaths (Path)

variable {Source Content : Type*}

/-- A file as it is written: what it was made from, where, and with which content. -/
structure Write (Source Content : Type*) where
  source : Source
  path : Path
  content : Content
deriving DecidableEq

def contents (writes : List (Write Source Content)) (path : Path) : Option Content :=
  (writes.reverse.find? fun write => write.path = path).map (·.content)

def underFile (writes : List (Write Source Content)) (path : Path) : Prop :=
  ∃ write ∈ writes, write.path <+: path ∧ write.path ≠ path

instance (writes : List (Write Source Content)) (path : Path) :
    Decidable (underFile writes path) :=
  inferInstanceAs (Decidable (∃ write ∈ writes, write.path <+: path ∧ write.path ≠ path))

def isFolder (root : Path) (writes : List (Write Source Content)) (path : Path) : Prop :=
  path = root ∨ ∃ write ∈ writes, path <+: write.path ∧ write.path ≠ path

instance (root : Path) (writes : List (Write Source Content)) (path : Path) :
    Decidable (isFolder root writes path) :=
  inferInstanceAs (Decidable (_ ∨ ∃ write ∈ writes, path <+: write.path ∧ write.path ≠ path))

theorem contents_concat (writes : List (Write Source Content)) (write : Write Source Content)
    (path : Path) :
    contents (writes ++ [write]) path =
      if write.path = path then some write.content else contents writes path := by
  rw [contents, List.reverse_append, List.reverse_singleton, List.singleton_append, List.find?_cons]
  by_cases same : write.path = path
  · simp [same]
  · simp [same, contents]

theorem exists_of_contents {writes : List (Write Source Content)} {path : Path}
    {content : Content} (stands : contents writes path = some content) :
    ∃ write ∈ writes, write.path = path ∧ write.content = content := by
  rw [contents, Option.map_eq_some_iff] at stands
  obtain ⟨write, last, same⟩ := stands
  have found := List.find?_some last
  rw [decide_eq_true_eq] at found
  exact ⟨write, List.mem_reverse.mp (List.mem_of_find?_eq_some last), found, same⟩

theorem exists_contents {writes : List (Write Source Content)} {write : Write Source Content}
    (member : write ∈ writes) : ∃ content, contents writes write.path = some content := by
  induction writes using List.reverseRecOn with
  | nil => exact absurd member List.not_mem_nil
  | append_singleton writes last ih =>
      rw [contents_concat]
      by_cases same : last.path = write.path
      · exact ⟨last.content, if_pos same⟩
      · rw [if_neg same]
        rcases List.mem_append.mp member with old | new
        · exact ih old
        · rw [List.mem_singleton] at new
          exact absurd (congrArg Write.path new.symm) same

end NaturalMold.FileWrites
