import PayrollFormula.Number.Places
import PayrollFormula.Number.Written
import PayrollFormula.Text.Quoted
import PayrollFormula.Text.UpperCase

/-!
# Built-in functions

The functions that formulas can call, with their names and numbers of arguments. `Builtin.apply`
computes a function of numbers that need not be finite. The choice function is computed from three
numbers here; inside a formula only the argument that it takes is evaluated.
-/

set_option autoImplicit false

namespace PayrollFormula

/-- A function that formulas can call. -/
inductive Builtin where
  | min
  | max
  | round
  | floor
  | ceil
  | abs
  | choose
deriving DecidableEq, Repr

/-- Why the call of a function is refused. -/
inductive CallError where
  | unknown (name : String)
  | arity (f : Builtin) (count : Nat)
  | placesNotWhole
  | placesOutOfRange
  | notRounded (x : Double)
deriving DecidableEq, Repr

namespace Builtin

/-- The name in formulas. -/
def name : Builtin → String
  | .min => "MIN"
  | .max => "MAX"
  | .round => "ROUND"
  | .floor => "FLOOR"
  | .ceil => "CEIL"
  | .abs => "ABS"
  | .choose => "IF"

/-- The number of arguments. -/
def arity : Builtin → Nat
  | .min | .max | .round => 2
  | .floor | .ceil | .abs => 1
  | .choose => 3

/-- All functions. -/
def all : List Builtin := [min, max, round, floor, ceil, abs, choose]

/-- The function of a table with a given name. -/
def find? (table : List Builtin) (name : String) : Option Builtin := table.find? (·.name = name)

/-- The function with a name in any letter case. -/
def named (name : String) : Except CallError Builtin :=
  match find? all (upperCase name) with
  | some f => .ok f
  | none => .error (.unknown name)

/-- The greatest number of decimal places, before or after the point, that can be rounded to. -/
def maxPlaces : Int := 15

/-- A call fails by a refusal or by a conversion that has no result. -/
inductive Failure where
  | call (e : CallError)
  | number (e : NumberError)
deriving DecidableEq, Repr

/-- An integer as the result of a function. -/
def whole (i : Except NumberError Int) : Except Failure Double :=
  (i.bind Double.ofInt).mapError .number

/-- Rounding to a number of decimal places. It is refused if these are not whole or too many, and if
the rounded number would have too many digits. -/
def roundTo (x places : Double) : Except Failure Double :=
  match places with
  | .finite p =>
    if p.isWhole then
      if maxPlaces < p.floor.natAbs then .error (.call .placesOutOfRange)
      else
        match x with
        | .finite v =>
          match v.toPlaces? p.floor with
          | some y => .ok y
          | none => .error (.call (.notRounded x))
        | .infinite _ => .error (.call (.notRounded x))
        | .nan => .ok .nan
    else .error (.call .placesNotWhole)
  | _ => .error (.call .placesNotWhole)

/-- The value of a function. Of equal arguments the first is the least and the greatest. -/
def apply (f : Builtin) (args : List Double) : Except Failure Double :=
  match f, args with
  | .min, [x, y] => .ok (if y.lt x then y else x)
  | .max, [x, y] => .ok (if x.lt y then y else x)
  | .round, [x, places] => roundTo x places
  | .floor, [x] => whole x.floor
  | .ceil, [x] => whole x.ceil
  | .abs, [x] => .ok x.abs
  | .choose, [c, x, y] => .ok (if c.isTrue then x else y)
  | f, args => .error (.call (.arity f args.length))

/-- The arguments that a function looks at, in order. -/
def consulted (f : Builtin) (args : List Double) : List Double :=
  match f, args with
  | .choose, [c, x, y] => [c, if c.isTrue then x else y]
  | _, args => args

end Builtin

namespace CallError

/-- The function that the error is about, as it was named. -/
def functionName : CallError → String
  | .unknown name => name
  | .arity f _ => f.name
  | .placesNotWhole | .placesOutOfRange | .notRounded _ => Builtin.round.name

/-- The wording of the error. -/
def message : CallError → String
  | .unknown name => "Unknown function: " ++ quoted name
  | .arity f count =>
    let noun := if f.arity = 1 then "argument" else "arguments"
    s!"{f.name} requires exactly {f.arity} {noun}, got {count}"
  | .placesNotWhole => "ROUND decimal places must be a whole number"
  | .placesOutOfRange =>
    s!"ROUND decimal places must be between -{Builtin.maxPlaces} and {Builtin.maxPlaces}"
  | .notRounded x => "ROUND failed for " ++ x.text

end CallError

end PayrollFormula
