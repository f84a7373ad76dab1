import PayrollFormula.Number.Rank

/-!
# Binary64 numbers

A finite double is a sign and a rank; zero has two signs. The arithmetic below computes with whole
numbers of ticks, so each operation is exact up to the one rounding at its end, which is to
nearest with ties to even. Infinities and the undefined number are values too: they arise from
overflow and from numbers that are handed in, and are told apart by `Double.isFinite`.
-/

set_option autoImplicit false

namespace PayrollFormula

/-- A finite double: a sign and the rank of its magnitude. -/
structure Finite where
  negative : Bool
  rank : Nat
  rank_lt : rank < Rank.limit
deriving DecidableEq, Repr

/-- A binary64 number. -/
inductive Double where
  | finite (x : Finite)
  | infinite (negative : Bool)
  | nan
deriving DecidableEq, Repr

/-- Why a conversion between numbers is refused. -/
inductive NumberError where
  | infinityToInteger
  | nanToInteger
  | integerTooLarge
  | quotientTooLarge
  | signalingNan
  | outsideDomain
deriving DecidableEq, Repr

/-- The wording of a refused conversion. -/
def NumberError.message : NumberError → String
  | .infinityToInteger => "cannot convert float infinity to integer"
  | .nanToInteger => "cannot convert float NaN to integer"
  | .integerTooLarge => "int too large to convert to float"
  | .quotientTooLarge => "integer division result too large for a float"
  | .signalingNan => "cannot convert signaling NaN to float"
  | .outsideDomain => "math domain error"

namespace Finite

/-- The magnitude in ticks. -/
def magnitude (x : Finite) : Nat := Rank.ticks x.rank

/-- The signed value in ticks. -/
def ticks (x : Finite) : Int := if x.negative then -(x.magnitude : Int) else x.magnitude

/-- Zero with its usual sign. -/
def zero : Finite := ⟨false, 0, by decide⟩

instance : Inhabited Finite := ⟨zero⟩

/-- The number one. -/
def one : Finite := ⟨false, 1023 * Rank.binade, by decide⟩

/-- The largest finite double. -/
def largest : Finite := ⟨false, Rank.limit - 1, by decide⟩

/-- The same magnitude with the other sign. -/
def neg (x : Finite) : Finite := { x with negative := !x.negative }

/-- The magnitude as a number. -/
def abs (x : Finite) : Finite := { x with negative := false }

/-- Whether the value has no fractional part. -/
def isWhole (x : Finite) : Bool := x.magnitude % Rank.one = 0

/-- The greatest integer that is at most `x`. -/
def floor (x : Finite) : Int := x.ticks / (Rank.one : Int)

/-- The least integer that is at least `x`. -/
def ceil (x : Finite) : Int := -(-x.ticks / (Rank.one : Int))

end Finite

namespace Double

/-- Zero with its usual sign. -/
def zero : Double := .finite .zero

/-- The number one. -/
def one : Double := .finite .one

instance : Inhabited Double := ⟨zero⟩

/-- The double of a sign and a rank; from `Rank.limit` on it is infinite. -/
def ofRank (negative : Bool) (r : Nat) : Double :=
  if h : r < Rank.limit then .finite ⟨negative, r, h⟩ else .infinite negative

/-- The double nearest to the exact value `num / den` in ticks, under the given sign. -/
def round (negative : Bool) (num den : Nat) : Double :=
  ofRank negative (Rank.nearest num den)

/-- Whether the number is neither infinite nor undefined. -/
def isFinite : Double → Bool
  | .finite _ => true
  | _ => false

/-- The sign bit; the undefined number counts as positive. -/
def isNegative : Double → Bool
  | .finite x => x.negative
  | .infinite negative => negative
  | .nan => false

/-- Whether the number is a zero of either sign. -/
def isZero : Double → Bool
  | .finite x => x.rank = 0
  | _ => false

/-- The number with the other sign. -/
def neg : Double → Double
  | .finite x => .finite x.neg
  | .infinite negative => .infinite !negative
  | .nan => .nan

/-- The magnitude of the number. -/
def abs : Double → Double
  | .finite x => .finite x.abs
  | .infinite _ => .infinite false
  | .nan => .nan

/-- The sum. An exact zero is negative only if both terms are. -/
def add : Double → Double → Double
  | .nan, _ | _, .nan => .nan
  | .infinite s, .infinite t => if s = t then .infinite s else .nan
  | .infinite s, .finite _ => .infinite s
  | .finite _, .infinite t => .infinite t
  | .finite x, .finite y =>
    let t := x.ticks + y.ticks
    if t = 0 then .finite { Finite.zero with negative := x.negative && y.negative }
    else round (t < 0) t.natAbs 1

/-- The difference. -/
def sub (x y : Double) : Double := add x y.neg

/-- The product. -/
def mul : Double → Double → Double
  | .nan, _ | _, .nan => .nan
  | .infinite s, y => if y.isZero then .nan else .infinite (s != y.isNegative)
  | x, .infinite t => if x.isZero then .nan else .infinite (x.isNegative != t)
  | .finite x, .finite y =>
    round (x.negative != y.negative) (x.magnitude * y.magnitude) Rank.one

/-- The quotient. -/
def div : Double → Double → Double
  | .nan, _ | _, .nan => .nan
  | .infinite _, .infinite _ => .nan
  | .infinite s, .finite y => .infinite (s != y.negative)
  | .finite x, .infinite t => .finite { Finite.zero with negative := x.negative != t }
  | .finite x, .finite y =>
    if y.rank = 0 then
      if x.rank = 0 then .nan else .infinite (x.negative != y.negative)
    else
      round (x.negative != y.negative) (x.magnitude * Rank.one) y.magnitude

/-- The remainder of truncated division; it has the sign of the dividend. -/
def remainder : Double → Double → Except NumberError Double
  | .nan, _ | _, .nan => .ok .nan
  | .infinite _, _ => .error .outsideDomain
  | .finite x, .infinite _ => .ok (.finite x)
  | .finite x, .finite y =>
    if y.rank = 0 then .error .outsideDomain
    else .ok (round x.negative (x.magnitude % y.magnitude) 1)

/-- Numerical order: the two zeros are equal, and the undefined number is below nothing. -/
def lt : Double → Double → Bool
  | .nan, _ | _, .nan => false
  | .finite x, .finite y => x.ticks < y.ticks
  | .infinite s, .finite _ => s
  | .finite _, .infinite t => !t
  | .infinite s, .infinite t => s && !t

/-- Numerical equality: the two zeros are equal, and the undefined number equals nothing. -/
def numEq : Double → Double → Bool
  | .nan, _ | _, .nan => false
  | .finite x, .finite y => x.ticks = y.ticks
  | .infinite s, .infinite t => s = t
  | _, _ => false

/-- Numerical order or equality. -/
def le (x y : Double) : Bool := x.lt y || x.numEq y

/-- Whether the number is below zero. -/
def belowZero (x : Double) : Bool := x.lt zero

/-- A finite number without a minus sign is not below zero. -/
theorem belowZero_eq_false {x : Finite} (h : x.negative = false) :
    (Double.finite x).belowZero = false := by
  simp [belowZero, lt, zero, Finite.ticks, Finite.zero, Finite.magnitude, Rank.ticks_zero, h]

/-- Whether the number differs from zero, as the condition of a choice. -/
def isTrue (x : Double) : Bool := !x.numEq zero

/-- The truth values of formulas are the numbers one and zero. -/
def ofBool (b : Bool) : Double := if b then one else zero

/-- Whether the number is finite and has no fractional part. -/
def isWhole : Double → Bool
  | .finite x => x.isWhole
  | _ => false

/-- The greatest integer that is at most the number. -/
def floor : Double → Except NumberError Int
  | .finite x => .ok x.floor
  | .infinite _ => .error .infinityToInteger
  | .nan => .error .nanToInteger

/-- The least integer that is at least the number. -/
def ceil : Double → Except NumberError Int
  | .finite x => .ok x.ceil
  | .infinite _ => .error .infinityToInteger
  | .nan => .error .nanToInteger

/-- A finite number, or a refusal of any other. -/
def finiteOr (e : NumberError) : Double → Except NumberError Double
  | .finite x => .ok (.finite x)
  | _ => .error e

/-- The double nearest to an integer, or a refusal if it would be infinite. -/
def ofInt (i : Int) : Except NumberError Double :=
  finiteOr .integerTooLarge (round (i < 0) (i.natAbs * Rank.one) 1)

/-- The double nearest to a rational number, or a refusal if it would be infinite. -/
def ofRat (q : Rat) : Except NumberError Double :=
  finiteOr .quotientTooLarge (round (q.num < 0) (q.num.natAbs * Rank.one) q.den)

/-- Negation leaves the magnitude alone. -/
theorem abs_neg (x : Double) : x.neg.abs = x.abs := by
  cases x <;> rfl

/-- Negating twice changes nothing. -/
theorem neg_neg (x : Double) : x.neg.neg = x := by
  cases x with
  | finite x => simp [neg, Finite.neg]
  | infinite s => simp [neg]
  | nan => rfl

end Double

end PayrollFormula
