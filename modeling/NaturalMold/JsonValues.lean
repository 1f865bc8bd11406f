import Mathlib.Algebra.Order.Ring.Rat

/-! # JSON values -/

namespace NaturalMold

inductive Json
  | null
  | bool (value : Bool)
  | int (value : Int)
  | float (value : ℚ)
  | str (value : String)
  | arr (items : List Json)
  | obj (fields : List (String × Json))

namespace Json

/-- `fields.get(name)` with a value for a missing field. -/
def getField (name : String) (missing : Json) : List (String × Json) → Json
  | [] => missing
  | field :: fields => if field.1 = name then field.2 else getField name missing fields

def hashable : Json → Bool
  | arr _ | obj _ => false
  | null | bool _ | int _ | float _ | str _ => true

/-- Whether Python takes a value as true. -/
def truthy : Json → Bool
  | null => false
  | bool value => value
  | int value => value ≠ 0
  | float value => value ≠ 0
  | str value => value ≠ ""
  | arr items => !items.isEmpty
  | obj fields => !fields.isEmpty

/-- Whether a value is the constant `False`. -/
def isFalse : Json → Bool
  | bool value => !value
  | null | int _ | float _ | str _ | arr _ | obj _ => false

/-- The value of a string, `none` for every other kind. -/
def str? : Json → Option String
  | str value => some value
  | null | bool _ | int _ | float _ | arr _ | obj _ => none

def number? : Json → Option ℚ
  | bool value => some (if value then 1 else 0)
  | int value => some value
  | float value => some value
  | null | str _ | arr _ | obj _ => none

mutual

/-- Python's `==`: numbers by value, objects regardless of the order of their
fields. -/
def equal : Json → Json → Bool
  | null, null => true
  | str value, str other => value = other
  | arr items, arr others => itemsEqual items others
  | obj fields, obj others => fields.length = others.length && fieldsEqual fields others
  | value, other => value.number?.isSome && value.number? = other.number?

def itemsEqual : List Json → List Json → Bool
  | [], [] => true
  | item :: items, other :: others => equal item other && itemsEqual items others
  | _, _ => false

def fieldsEqual : List (String × Json) → List (String × Json) → Bool
  | [], _ => true
  | (name, value) :: fields, others =>
      (match others.lookup name with
        | some other => equal value other
        | none => false) && fieldsEqual fields others

end

end Json

end NaturalMold
