import Mathlib.Data.List.Forall2

/-! # Steps that may raise -/

namespace NaturalMold.Fallible

universe u v

variable {Error : Type u} {Value Result : Type v}

@[simp]
theorem bind_eq_ok {step : Except Error Value} {next : Value → Except Error Result}
    {result : Result} :
    (step >>= next) = .ok result ↔ ∃ value, step = .ok value ∧ next value = .ok result := by
  cases step with
  | error error => simp [bind, Except.bind]
  | ok value => simp [bind, Except.bind]

@[simp]
theorem mapError_eq_ok {Other : Type u} {translate : Error → Other} {step : Except Error Value}
    {value : Value} : step.mapError translate = .ok value ↔ step = .ok value := by
  cases step with
  | error error => simp [Except.mapError]
  | ok value => simp [Except.mapError]

def ensure (condition : Prop) [Decidable condition] (error : Error) : Except Error Unit :=
  if condition then .ok () else .error error

@[simp]
theorem ensure_eq_ok {condition : Prop} [Decidable condition] {error : Error} {passed : Unit} :
    ensure condition error = .ok passed ↔ condition := by
  rw [ensure]
  split <;> simp [*]

/-- Repeating a step over a list yields a result for each element, in order. -/
theorem mapM_eq_ok_iff {step : Value → Except Error Result} {values : List Value}
    {results : List Result} :
    values.mapM step = .ok results ↔
      List.Forall₂ (fun value result => step value = .ok result) values results := by
  induction values generalizing results with
  | nil =>
      rw [List.mapM_nil, List.forall₂_nil_left_iff]
      simp [pure, Except.pure, eq_comm]
  | cons value values ih =>
      rw [List.mapM_cons, List.forall₂_cons_left_iff]
      simp only [bind_eq_ok, ih]
      constructor
      · rintro ⟨result, resultEq, rest, restEq, equal⟩
        exact ⟨result, rest, resultEq, restEq, (Except.ok.inj equal).symm⟩
      · rintro ⟨result, rest, resultEq, restEq, rfl⟩
        exact ⟨result, resultEq, rest, restEq, rfl⟩

theorem exists_mapM_eq_ok {step : Value → Except Error Result} {values : List Value}
    (succeeds : ∀ value ∈ values, ∃ result, step value = .ok result) :
    ∃ results, values.mapM step = .ok results := by
  induction values with
  | nil => exact ⟨[], rfl⟩
  | cons value values ih =>
      obtain ⟨result, first⟩ := succeeds value List.mem_cons_self
      obtain ⟨results, rest⟩ :=
        ih fun later member => succeeds later (List.mem_cons_of_mem _ member)
      refine ⟨result :: results, ?_⟩
      rw [List.mapM_cons, first, bind_eq_ok]
      refine ⟨result, rfl, ?_⟩
      rw [rest]
      rfl

theorem mapM_zipIdx_map_eq_ok {Source : Type v} {encode : Source → Value}
    {step : Value → Nat → Except Error Source} {sources : List Source}
    (restored : ∀ source ∈ sources, ∀ index, step (encode source) index = .ok source)
    (start : Nat) :
    ((sources.map encode).zipIdx start).mapM (fun entry => step entry.1 entry.2) =
      .ok sources := by
  rw [mapM_eq_ok_iff]
  induction sources generalizing start with
  | nil => exact .nil
  | cons source sources ih =>
      exact .cons (restored source List.mem_cons_self start)
        (ih (fun later member => restored later (List.mem_cons_of_mem _ member)) _)

theorem optionMapM_eq_some_iff {step : Value → Option Result} {values : List Value}
    {results : List Result} :
    values.mapM step = some results ↔
      List.Forall₂ (fun value result => step value = some result) values results := by
  induction values generalizing results with
  | nil =>
      rw [List.mapM_nil, List.forall₂_nil_left_iff]
      simp [pure, eq_comm]
  | cons value values ih =>
      rw [List.mapM_cons, List.forall₂_cons_left_iff]
      simp only [Option.bind_eq_bind, Option.bind_eq_some_iff, ih]
      constructor
      · rintro ⟨result, resultEq, rest, restEq, equal⟩
        exact ⟨result, rest, resultEq, restEq, (Option.some.inj equal).symm⟩
      · rintro ⟨result, rest, resultEq, restEq, rfl⟩
        exact ⟨result, resultEq, rest, restEq, rfl⟩

theorem exists_mem_of_forall₂ {related : Value → Result → Prop} {values : List Value}
    {results : List Result} (all : List.Forall₂ related values results) {result : Result}
    (member : result ∈ results) : ∃ value ∈ values, related value result := by
  induction all with
  | nil => simp at member
  | cons first _ ih =>
      rcases List.mem_cons.mp member with rfl | later
      · exact ⟨_, List.mem_cons_self, first⟩
      · obtain ⟨value, valueMember, holds⟩ := ih later
        exact ⟨value, List.mem_cons_of_mem _ valueMember, holds⟩

theorem optionMapM_map_eq_some {Source : Type v} {encode : Source → Value}
    {step : Value → Option Source} {sources : List Source}
    (restored : ∀ source ∈ sources, step (encode source) = some source) :
    (sources.map encode).mapM step = some sources := by
  rw [optionMapM_eq_some_iff, List.forall₂_map_left_iff]
  exact List.forall₂_same.mpr restored

end NaturalMold.Fallible
