import Mathlib.Algebra.GroupWithZero.Nat
import NaturalMold.CronExpressions

/-! # POSIX paths as texts and as components -/

namespace NaturalMold.PosixPaths

open CronExpressions (Text)

abbrev Path := List Text

def parentName : Text := ['.', '.']

/-- The names in a text: `Path(text).parts` without the root. -/
def components (text : Text) : Path :=
  (text.splitOn '/').filter fun part => part ≠ [] ∧ part ≠ ['.']

/-- The text of a path: `Path.as_posix`. -/
def joined (path : Path) : Text :=
  ['/'].intercalate path

/-- Take names one after another from a folder; the root is its own parent. -/
def follow (base : Path) : Path → Path
  | [] => base
  | part :: parts => follow (if part = parentName then base.dropLast else base ++ [part]) parts

/-- Take names one after another from a folder, without leaving the outermost one. -/
def descend (base : Path) : Path → Option Path
  | [] => some base
  | part :: parts =>
      if part = parentName then
        if base = [] then none else descend base.dropLast parts
      else descend (base ++ [part]) parts

/-- A name that a folder entry can have. -/
structure IsName (part : Text) : Prop where
  ne_nil : part ≠ []
  notMem_slash : '/' ∉ part
  ne_dot : part ≠ ['.']
  ne_parentName : part ≠ parentName

/-- A path of names, below a folder. -/
structure IsPlain (path : Path) : Prop where
  ne_nil : path ≠ []
  names : ∀ part ∈ path, IsName part

instance (part : Text) : Decidable (IsName part) :=
  decidable_of_iff (part ≠ [] ∧ '/' ∉ part ∧ part ≠ ['.'] ∧ part ≠ parentName)
    ⟨fun ⟨nonempty, slash, dot, parent⟩ => ⟨nonempty, slash, dot, parent⟩,
      fun name => ⟨name.ne_nil, name.notMem_slash, name.ne_dot, name.ne_parentName⟩⟩

instance (path : Path) : Decidable (IsPlain path) :=
  decidable_of_iff (path ≠ [] ∧ ∀ part ∈ path, IsName part)
    ⟨fun ⟨nonempty, names⟩ => ⟨nonempty, names⟩, fun plain => ⟨plain.ne_nil, plain.names⟩⟩

theorem notMem_slash_of_mem_splitOn {text part : Text} (member : part ∈ text.splitOn '/') :
    '/' ∉ part := by
  induction text generalizing part with
  | nil =>
      rw [List.splitOn_nil, List.mem_singleton] at member
      rw [member]
      exact List.not_mem_nil
  | cons char text ih =>
      rw [List.splitOn_cons_eq_if_modifyHead] at member
      split at member
      · rcases List.mem_cons.mp member with rfl | later
        · exact List.not_mem_nil
        · exact ih later
      · rename_i different
        obtain ⟨first, rest, split⟩ := List.exists_cons_of_ne_nil (List.splitOn_ne_nil '/' text)
        rw [split] at ih member
        rw [List.modifyHead_cons] at member
        rcases List.mem_cons.mp member with rfl | later
        · rw [List.mem_cons, not_or]
          exact ⟨fun same => different (beq_iff_eq.mpr same.symm), ih List.mem_cons_self⟩
        · exact ih (List.mem_cons_of_mem _ later)

theorem mem_components_iff {text part : Text} :
    part ∈ components text ↔ part ∈ text.splitOn '/' ∧ part ≠ [] ∧ part ≠ ['.'] := by
  rw [components, List.mem_filter, decide_eq_true_eq]

theorem isName_of_mem_components {text part : Text} (member : part ∈ components text)
    (different : part ≠ parentName) : IsName part := by
  rw [mem_components_iff] at member
  exact ⟨member.2.1, notMem_slash_of_mem_splitOn member.1, member.2.2, different⟩

variable {path : Path}

/-- A text whose pieces are all names is the path of these names. -/
theorem components_joined (plain : IsPlain path) : components (joined path) = path := by
  rw [components, joined,
    List.splitOn_intercalate '/' (fun part member => (plain.names part member).notMem_slash)
      plain.ne_nil]
  apply List.filter_eq_self.mpr
  intro part member
  have name := plain.names part member
  rw [decide_eq_true_eq]
  exact ⟨name.ne_nil, name.ne_dot⟩

theorem splitOn_joined (plain : IsPlain path) : (joined path).splitOn '/' = path :=
  List.splitOn_intercalate '/' (fun part member => (plain.names part member).notMem_slash)
    plain.ne_nil

theorem joined_splitOn (text : Text) : joined (text.splitOn '/') = text :=
  List.intercalate_splitOn '/'

theorem joined_injective {other : Path} (plain : IsPlain path) (otherPlain : IsPlain other)
    (same : joined path = joined other) : path = other := by
  rw [← components_joined plain, same, components_joined otherPlain]

theorem joined_ne_nil (plain : IsPlain path) : joined path ≠ [] := by
  intro empty
  have split := splitOn_joined plain
  rw [empty, List.splitOn_nil] at split
  exact (plain.names [] (by rw [← split]; exact List.mem_singleton_self _)).ne_nil rfl

theorem getLast?_joined_ne (plain : IsPlain path) : (joined path).getLast? ≠ some '/' := by
  intro last
  obtain ⟨front, same⟩ := List.getLast?_eq_some_iff.mp last
  have split := splitOn_joined plain
  rw [same, List.splitOn_append_cons_self, List.splitOn_nil] at split
  have empty : [] ∈ path := by
    rw [← split]
    exact List.mem_append_right _ (List.mem_singleton_self _)
  exact (plain.names [] empty).ne_nil rfl

theorem head?_joined_ne (plain : IsPlain path) : (joined path).head? ≠ some '/' := by
  intro first
  obtain ⟨rest, same⟩ := List.head?_eq_some_iff.mp first
  have split := splitOn_joined plain
  rw [same, ← List.nil_append ('/' :: rest), List.splitOn_append_cons_self, List.splitOn_nil]
    at split
  have empty : [] ∈ path := by
    rw [← split]
    exact List.mem_append_left _ (List.mem_singleton_self _)
  exact (plain.names [] empty).ne_nil rfl

theorem joined_cons (part : Text) (nonempty : path ≠ []) :
    joined (part :: path) = part ++ '/' :: joined path := by
  rw [joined, List.intercalate_cons_of_ne_nil nonempty, List.append_assoc]
  rfl

/-- The characters of a joined path are those of its names, and slashes. -/
theorem mem_joined {char : Char} (member : char ∈ joined path) :
    char = '/' ∨ ∃ part ∈ path, char ∈ part := by
  induction path with
  | nil => exact absurd member List.not_mem_nil
  | cons part path ih =>
      by_cases empty : path = []
      · subst empty
        exact Or.inr ⟨part, List.mem_cons_self, by simpa [joined] using member⟩
      · rw [joined_cons part empty] at member
        rcases List.mem_append.mp member with inFirst | inRest
        · exact Or.inr ⟨part, List.mem_cons_self, inFirst⟩
        · rcases List.mem_cons.mp inRest with slash | later
          · exact Or.inl slash
          · exact (ih later).imp_right fun ⟨other, listed, inOther⟩ =>
              ⟨other, List.mem_cons_of_mem _ listed, inOther⟩

theorem mem_joined_of_mem {part : Text} {char : Char} (listed : part ∈ path)
    (member : char ∈ part) :
    char ∈ joined path := by
  induction path with
  | nil => exact absurd listed List.not_mem_nil
  | cons first path ih =>
      by_cases empty : path = []
      · subst empty
        rw [List.mem_singleton] at listed
        subst listed
        simpa [joined] using member
      · rw [joined_cons first empty]
        rcases List.mem_cons.mp listed with rfl | later
        · exact List.mem_append_left _ member
        · exact List.mem_append_right _ (List.mem_cons_of_mem _ (ih later))

theorem mem_of_mem_components {text part : Text} {char : Char} (listed : part ∈ components text)
    (member : char ∈ part) : char ∈ text := by
  rw [← joined_splitOn text]
  exact mem_joined_of_mem (mem_components_iff.mp listed).1 member

theorem components_append_slash (start rest : Text) :
    components (start ++ '/' :: rest) = components start ++ components rest := by
  rw [components, components, components, List.splitOn_append_cons_self, List.filter_append]

theorem follow_of_names {base : Path} (names : ∀ part ∈ path, part ≠ parentName) :
    follow base path = base ++ path := by
  induction path generalizing base with
  | nil => exact (List.append_nil base).symm
  | cons part path ih =>
      rw [follow, if_neg (names part List.mem_cons_self),
        ih fun later member => names later (List.mem_cons_of_mem _ member), List.append_assoc]
      rfl

theorem follow_joined {base : Path} (plain : IsPlain path) :
    follow base (components (joined path)) = base ++ path := by
  rw [components_joined plain]
  exact follow_of_names fun part member => (plain.names part member).ne_parentName

/-- The characters of a path, with one slash for each name. -/
def size (path : Path) : ℕ :=
  (path.map fun part => part.length + 1).sum

@[simp]
theorem size_nil : size [] = 0 :=
  rfl

@[simp]
theorem size_cons (part : Text) (path : Path) : size (part :: path) = part.length + 1 + size path :=
  rfl

@[simp]
theorem size_append (path other : Path) : size (path ++ other) = size path + size other := by
  simp [size]

theorem size_dropLast_le (path : Path) : size path.dropLast ≤ size path := by
  induction path using List.reverseRecOn with
  | nil => simp
  | append_singleton path part _ =>
      rw [List.dropLast_concat, size_append]
      omega

theorem size_follow_le (base path : Path) : size (follow base path) ≤ size base + size path := by
  induction path generalizing base with
  | nil => simp [follow]
  | cons part path ih =>
      rw [follow, size_cons]
      split
      · have shorter := size_dropLast_le base
        have rest := ih base.dropLast
        omega
      · have rest := ih (base ++ [part])
        rw [size_append, size_cons, size_nil] at rest
        omega

theorem size_splitOn (text : Text) : size (text.splitOn '/') = text.length + 1 := by
  induction text with
  | nil => rfl
  | cons char text ih =>
      rw [List.splitOn_cons_eq_if_modifyHead]
      obtain ⟨first, rest, split⟩ := List.exists_cons_of_ne_nil (List.splitOn_ne_nil '/' text)
      rw [split] at ih ⊢
      rw [size_cons] at ih
      split
      · rw [size_cons, size_cons, List.length_nil, List.length_cons]
        omega
      · rw [List.modifyHead_cons, size_cons, List.length_cons, List.length_cons]
        omega

theorem size_filter_le (keep : Text → Bool) (path : Path) :
    size (path.filter keep) ≤ size path := by
  induction path with
  | nil => simp
  | cons part path ih =>
      rw [List.filter_cons]
      split
      · rw [size_cons, size_cons]
        omega
      · rw [size_cons]
        omega

theorem size_components_le (text : Text) : size (components text) ≤ text.length + 1 := by
  have fewer := size_filter_le (fun part => part ≠ [] ∧ part ≠ ['.']) (text.splitOn '/')
  rwa [size_splitOn] at fewer

theorem length_joined (nonempty : path ≠ []) : (joined path).length + 1 = size path := by
  induction path with
  | nil => exact absurd rfl nonempty
  | cons part path ih =>
      cases path with
      | nil => simp [joined]
      | cons next rest =>
          have tail := ih (List.cons_ne_nil next rest)
          rw [joined] at tail ⊢
          rw [List.intercalate_cons_of_ne_nil (List.cons_ne_nil next rest), size_cons,
            List.length_append, List.length_append, List.length_singleton]
          omega

end NaturalMold.PosixPaths
