import Mathlib.Data.List.Basic

/-! # Calls under way -/

namespace NaturalMold.PendingCalls

variable {Call : Type*} {executions : List (List Call)} {call other : Call} {rest : List Call}
  {index : ℕ}

def UnderWay (executions : List (List Call)) (call : Call) : Prop :=
  ∃ execution ∈ executions, call ∈ execution

def next? (executions : List (List Call)) (index : ℕ) : Option (Call × List Call) :=
  match executions[index]? with
  | some (call :: rest) => some (call, rest)
  | _ => none

theorem next?_eq_some :
    next? executions index = some (call, rest) ↔ executions[index]? = some (call :: rest) := by
  unfold next?
  split
  case h_1 found => simp [found]
  case h_2 other =>
  constructor
  · intro none
    cases none
  · intro found
    exact absurd found (other _ _)

/-- An execution that is started leaves the others as they are. -/
theorem underWay_concat {execution : List Call} :
    UnderWay (executions ++ [execution]) call ↔ UnderWay executions call ∨ call ∈ execution := by
  unfold UnderWay
  simp only [List.mem_append, List.mem_singleton]
  constructor
  · rintro ⟨started, member | rfl, listed⟩
    · exact Or.inl ⟨started, member, listed⟩
    · exact Or.inr listed
  · rintro (⟨started, member, listed⟩ | listed)
    · exact ⟨started, Or.inl member, listed⟩
    · exact ⟨execution, Or.inr rfl, listed⟩

theorem underWay_of_next (next : next? executions index = some (call, rest)) :
    UnderWay executions call :=
  ⟨call :: rest, List.mem_of_getElem? (next?_eq_some.mp next), List.mem_cons_self⟩

theorem underWay_of_set (next : next? executions index = some (call, rest)) {more : List Call}
    (underWay : UnderWay (executions.set index (more ++ rest)) other) :
    UnderWay executions other ∨ other ∈ more := by
  obtain ⟨execution, member, listed⟩ := underWay
  rcases List.mem_or_eq_of_mem_set member with before | rfl
  · exact Or.inl ⟨execution, before, listed⟩
  · rcases List.mem_append.mp listed with added | left
    · exact Or.inr added
    · exact Or.inl ⟨call :: rest, List.mem_of_getElem? (next?_eq_some.mp next),
        List.mem_cons_of_mem call left⟩

theorem underWay_set_of_mem (next : next? executions index = some (call, rest))
    {more : List Call} (added : other ∈ more) :
    UnderWay (executions.set index (more ++ rest)) other := by
  obtain ⟨bound, _⟩ := List.getElem?_eq_some_iff.mp (next?_eq_some.mp next)
  exact ⟨more ++ rest, List.mem_set bound _, List.mem_append_left _ added⟩

/-- An advance performs one call and leaves the others under way. -/
theorem underWay_set (next : next? executions index = some (call, rest)) (more : List Call)
    (underWay : UnderWay executions other) :
    other = call ∨ UnderWay (executions.set index (more ++ rest)) other := by
  have found := next?_eq_some.mp next
  obtain ⟨bound, _⟩ := List.getElem?_eq_some_iff.mp found
  obtain ⟨execution, member, listed⟩ := underWay
  obtain ⟨position, at_position⟩ := List.mem_iff_getElem?.mp member
  by_cases same : index = position
  · subst same
    obtain rfl := Option.some.inj (found.symm.trans at_position)
    rcases List.mem_cons.mp listed with first | left
    · exact Or.inl first
    · exact Or.inr ⟨more ++ rest, List.mem_set bound _, List.mem_append_right _ left⟩
  · refine Or.inr ⟨execution, ?_, listed⟩
    rw [List.mem_iff_getElem?]
    exact ⟨position, (List.getElem?_set_ne same).trans at_position⟩

end NaturalMold.PendingCalls
