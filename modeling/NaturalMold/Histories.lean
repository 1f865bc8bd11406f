import Mathlib.Data.List.Basic

/-!
# Places in a history

A history lists what has happened, newest first. A place in it is an event together with everything
that happened after it.
-/

namespace NaturalMold.Histories

variable {Event : Type*}

/-- The event happened, and `newer` is what has happened after it. -/
def Since (log : List Event) (event : Event) (newer : List Event) : Prop :=
  ∃ older, log = newer ++ event :: older

theorem Since.mem {log newer : List Event} {event : Event} (since : Since log event newer) :
    event ∈ log := by
  obtain ⟨older, rfl⟩ := since
  simp

theorem Since.subset {log newer : List Event} {event : Event} (since : Since log event newer) :
    newer ⊆ log := by
  obtain ⟨older, rfl⟩ := since
  exact List.subset_append_left newer (event :: older)

@[simp]
theorem not_since_nil (event : Event) (newer : List Event) : ¬ Since [] event newer := by
  rintro ⟨older, empty⟩
  simp at empty

theorem cons_eq_append_cons {recent event : Event} {newer later between : List Event} :
    recent :: newer = later ++ event :: between ↔
      (later = [] ∧ recent = event ∧ newer = between) ∨
        ∃ rest, later = recent :: rest ∧ newer = rest ++ event :: between := by
  rw [List.cons_eq_append_iff]
  constructor
  · rintro (⟨laterEq, eventEq⟩ | ⟨rest, laterEq, newerEq⟩)
    · obtain ⟨rfl, rfl⟩ := List.cons.inj eventEq
      exact Or.inl ⟨laterEq, rfl, rfl⟩
    · exact Or.inr ⟨rest, laterEq, newerEq⟩
  · rintro (⟨laterEq, rfl, rfl⟩ | ⟨rest, laterEq, newerEq⟩)
    · exact Or.inl ⟨laterEq, rfl⟩
    · exact Or.inr ⟨rest, laterEq, newerEq⟩

theorem since_cons {recent event : Event} {log newer : List Event} :
    Since (recent :: log) event newer ↔
      (newer = [] ∧ recent = event) ∨ ∃ later, newer = recent :: later ∧ Since log event later := by
  constructor
  · rintro ⟨older, logEq⟩
    rcases cons_eq_append_cons.mp logEq with ⟨newerEq, recentEq, _⟩ | ⟨later, newerEq, logEq⟩
    · exact Or.inl ⟨newerEq, recentEq⟩
    · exact Or.inr ⟨later, newerEq, older, logEq⟩
  · rintro (⟨rfl, rfl⟩ | ⟨later, rfl, older, rfl⟩)
    · exact ⟨log, rfl⟩
    · exact ⟨older, rfl⟩

/-- A property of every place of a history. -/
def AtEvery (holds : Event → List Event → Prop) (log : List Event) : Prop :=
  ∀ event newer, Since log event newer → holds event newer

@[simp]
theorem atEvery_nil (holds : Event → List Event → Prop) : AtEvery holds [] :=
  fun event newer since => absurd since (not_since_nil event newer)

theorem atEvery_cons {holds : Event → List Event → Prop} {recent : Event} {log : List Event} :
    AtEvery holds (recent :: log) ↔
      holds recent [] ∧ AtEvery (fun event newer => holds event (recent :: newer)) log := by
  constructor
  · intro every
    refine ⟨every recent [] ⟨log, rfl⟩, fun event newer since => ?_⟩
    exact every event (recent :: newer) (since_cons.mpr (Or.inr ⟨newer, rfl, since⟩))
  · rintro ⟨first, every⟩ event newer since
    rcases since_cons.mp since with ⟨rfl, rfl⟩ | ⟨later, rfl, earlier⟩
    · exact first
    · exact every event later earlier

theorem AtEvery.imp {holds weaker : Event → List Event → Prop} {log : List Event}
    (every : AtEvery holds log)
    (weaken : ∀ event newer, Since log event newer → holds event newer → weaker event newer) :
    AtEvery weaker log :=
  fun event newer since => weaken event newer since (every event newer since)

end NaturalMold.Histories
