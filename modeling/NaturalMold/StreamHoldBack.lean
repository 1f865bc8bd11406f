import Mathlib.Data.Int.Notation
import NaturalMold.GuardrailActions
import NaturalMold.StepRuns

/-!
# Held-back streams

Streamed text is checked in windows, and the end of a checked window is held until more text comes.
-/

namespace NaturalMold.Guardrails

open StepRuns

def lookback : ℕ :=
  128

def burst : ℕ :=
  128

def sliceIndex (length : ℕ) (index : ℤ) : ℕ :=
  if index < 0 then (length + index).toNat else min index.toNat length

/-- `text[:index]`. -/
def sliceUpTo (text : Text) (index : ℤ) : Text :=
  text.take (sliceIndex text.length index)

/-- `text[index:]`. -/
def sliceFrom (text : Text) (index : ℤ) : Text :=
  text.drop (sliceIndex text.length index)

/-- `", ".join(sorted(set(values)))`. -/
def joinSorted (values : List String) : String :=
  ", ".intercalate (values.dedup.insertionSort fun first second => first ≤ second)

def blockNotice (decisions : List Decision) : Text :=
  let blocking := decisions.filter fun decision => decision.action = .block
  ("가드레일 정책(" ++ joinSorted (blocking.map Decision.rule) ++ ")에 따라 요청을 보내지 않았습니다. " ++
    joinSorted (blocking.map fun decision => label decision.entity) ++
    "이(가) 포함되어 있습니다. 해당 내용을 빼고 다시 시도해 주세요.").toList

/-- A redactor; the first part of a key is what it is dropped by. -/
structure StreamRedactor (Scope Rest : Type) where
  held : Scope × Rest → Option Text := fun _ => none
  blocked : List (Scope × Rest) := []

/-- A call of `feed`, with what the guard says about the window; it may raise. -/
structure Feed (Scope Rest : Type) where
  key : Scope × Rest
  text : Text
  check : Text → Option Applied

inductive RedactorCall (Scope Rest : Type)
  | feed (call : Feed Scope Rest)
  | drop (key : Scope × Rest)
  | dropPrefix (scope : Scope)

section Redactor

variable {Scope Rest : Type} [DecidableEq Scope] [DecidableEq Rest]

namespace StreamRedactor

variable (redactor : StreamRedactor Scope Rest)

/-- What is held for a key with the text that comes. -/
def window (call : Feed Scope Rest) : Text :=
  (redactor.held call.key).getD [] ++ call.text

/-- `feed`: what is returned, if the guard does not raise, and the redactor after it. -/
def feed (call : Feed Scope Rest) : Option Text × StreamRedactor Scope Rest :=
  if call.key ∈ redactor.blocked then (some [], redactor)
  else
    let held := redactor.window call
    if held.length < lookback + burst then
      (some [], { redactor with held := Function.update redactor.held call.key (some held) })
    else
      match call.check held with
      | none => (none, redactor)
      | some applied =>
          if applied.blocked then
            (some (blockNotice applied.decisions),
              { held := Function.update redactor.held call.key none
                blocked := call.key :: redactor.blocked })
          else
            let cut : ℤ := applied.text.length - lookback
            (some (sliceUpTo applied.text cut),
              { redactor with
                held := Function.update redactor.held call.key
                  (some (sliceFrom applied.text cut)) })

def drop (key : Scope × Rest) : StreamRedactor Scope Rest :=
  { redactor with held := Function.update redactor.held key none }

def dropPrefix (scope : Scope) : StreamRedactor Scope Rest where
  held key := if key.1 = scope then none else redactor.held key
  blocked := redactor.blocked.filter fun key => key.1 ≠ scope

def step (call : RedactorCall Scope Rest) : StreamRedactor Scope Rest :=
  match call with
  | .feed call => (redactor.feed call).2
  | .drop key => redactor.drop key
  | .dropPrefix scope => redactor.dropPrefix scope

def checkedText (call : Feed Scope Rest) : Option Text :=
  if call.key ∈ redactor.blocked then none
  else if (redactor.window call).length < lookback + burst then none
  else ((call.check (redactor.window call)).filter fun applied => !applied.blocked).map
    Applied.text

end StreamRedactor

/-- A checked text is returned up to some point and held from there on, and no end of it that
a value can still be in has been returned. -/
structure HeldBack (checked : Text) (returned held : Option Text) : Prop where
  parts : ∃ start rest, returned = some start ∧ held = some rest ∧ checked = start ++ rest ∧
    min lookback checked.length ≤ rest.length
  values : ∀ rest ∈ held, ∀ value : Text, value <:+ checked → value.length ≤ lookback →
    value <:+ rest

def KeepsHoldBack (redactor : StreamRedactor Scope Rest) : RedactorCall Scope Rest → Prop
  | .feed call => ∀ checked ∈ redactor.checkedText call,
      HeldBack checked (redactor.feed call).1 ((redactor.feed call).2.held call.key)
  | _ => True

def LeavesEnough (redactor : StreamRedactor Scope Rest) : RedactorCall Scope Rest → Prop
  | .feed call => ∀ checked ∈ redactor.checkedText call,
      lookback ≤ checked.length ∨ 2 * checked.length ≤ lookback
  | _ => True

theorem sliceIndex_cut (length : ℕ) :
    sliceIndex length (length - lookback) =
      if lookback ≤ length then length - lookback else 2 * length - lookback := by
  rw [sliceIndex, lookback]
  split <;> split <;> omega

theorem heldBack_cut_iff (checked : Text) :
    HeldBack checked (some (sliceUpTo checked (checked.length - lookback)))
        (some (sliceFrom checked (checked.length - lookback))) ↔
      lookback ≤ checked.length ∨ 2 * checked.length ≤ lookback := by
  rw [sliceUpTo, sliceFrom, sliceIndex_cut]
  constructor
  · intro back
    obtain ⟨start, rest, _, held, _, long⟩ := back.parts
    have same := Option.some.inj held
    have length := congrArg List.length same
    rw [List.length_drop] at length
    split at length <;> omega
  · intro enough
    have long : min lookback checked.length ≤ (checked.drop (if lookback ≤ checked.length then
        checked.length - lookback else 2 * checked.length - lookback)).length := by
      rw [List.length_drop]
      split <;> omega
    constructor
    case parts => exact ⟨_, _, rfl, rfl, (List.take_append_drop _ _).symm, long⟩
    case values =>
    rintro rest ⟨⟩ value isSuffix short
    apply List.suffix_of_suffix_length_le isSuffix (List.drop_suffix _ _)
    have within := isSuffix.length_le
    omega

theorem keepsHoldBack_iff (redactor : StreamRedactor Scope Rest)
    (call : RedactorCall Scope Rest) :
    KeepsHoldBack redactor call ↔ LeavesEnough redactor call := by
  cases call with
  | drop key => exact Iff.rfl
  | dropPrefix scope => exact Iff.rfl
  | feed call =>
      apply forall₂_congr
      intro checked isChecked
      rw [← heldBack_cut_iff checked]
      rw [Option.mem_def, StreamRedactor.checkedText] at isChecked
      split at isChecked
      · cases isChecked
      · next free =>
          split at isChecked
          · cases isChecked
          · next full =>
              obtain ⟨applied, kept, rfl⟩ := Option.map_eq_some_iff.mp isChecked
              obtain ⟨answered, unblocked⟩ := Option.filter_eq_some_iff.mp kept
              rw [Bool.not_eq_true'] at unblocked
              have fed : redactor.feed call =
                  (some (sliceUpTo applied.text (applied.text.length - lookback)),
                    { redactor with
                      held := Function.update redactor.held call.key
                        (some (sliceFrom applied.text (applied.text.length - lookback))) }) := by
                rw [StreamRedactor.feed, if_neg free]
                simp only [if_neg full, answered, unblocked]
                rfl
              rw [fed]
              dsimp only
              rw [Function.update_self]

/-- In a run from a new redactor every call keeps the contract just when every check leaves
enough. -/
theorem everyStep_keepsHoldBack_iff (calls : List (RedactorCall Scope Rest)) :
    EveryStep StreamRedactor.step KeepsHoldBack {} calls ↔
      EveryStep StreamRedactor.step LeavesEnough {} calls := by
  constructor
  · exact EveryStep.mono fun redactor call => (keepsHoldBack_iff redactor call).mp
  · exact EveryStep.mono fun redactor call => (keepsHoldBack_iff redactor call).mpr

end Redactor

/-- A long value becomes a short label: of the ninety-five characters that are left the first
sixty-two are returned at once. -/
theorem shortened_not_keepsHoldBack :
    ¬ EveryStep StreamRedactor.step KeepsHoldBack ({} : StreamRedactor String ℕ)
      [.feed { key := ("run", 0)
               text := List.replicate 90 'a' ++ List.replicate 166 '7'
               check := fun _ => some
                 { text := List.replicate 90 'a' ++ "[비밀값]".toList, decisions := [] } }] := by
  intro every
  have enough := (keepsHoldBack_iff _ _).mp every.1
    (List.replicate 90 'a' ++ "[비밀값]".toList) (by decide +kernel)
  revert enough
  decide

end NaturalMold.Guardrails
