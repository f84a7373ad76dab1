import PayrollFormula.Number.Numeral

/-!
# The shortest numeral of a double

A double is written with the fewest digits that read back as the same double. Among the multiples
of a power of ten only the two next to the double can do so, so the search runs down through the
powers and stops at the first with a hit: the coarsest power gives the fewest digits. Of two hits
the nearer is taken, and the one with the even coefficient if both are equally near. The search
ends at the latest where the multiples of the power contain the double itself.
-/

set_option autoImplicit false

namespace PayrollFormula

namespace Numeral

/-- Of the two multiples of `10 ^ e` next to the magnitude of rank `r`, the one that reads back as
this rank; if both do, the nearer. -/
def atPower (r : Nat) (e : Int) : Option Numeral :=
  let num := Rank.ticks r * Nat.pow 10 (-e).toNat
  let den := Rank.one * Nat.pow 10 e.toNat
  let c := num / den
  let low : Numeral := ⟨c, e⟩
  let high : Numeral := ⟨c + 1, e⟩
  if low.rank = r then
    if high.rank = r then some ⟨Rank.nearer c (compare (2 * num) (den * (2 * c + 1))), e⟩
    else some low
  else if high.rank = r then some high
  else none

/-- The exact value of a rank, as a multiple of the smallest power of ten ever needed. -/
def exact (r : Nat) : Numeral := ⟨Rank.ticks r * Nat.pow 5 1074, -1074⟩

/-- The first numeral that `atPower` finds, going down from the power `k - 1074`. -/
def search (r : Nat) : Nat → Numeral
  | 0 => exact r
  | k + 1 => (atPower r ((k : Int) - 1073)).getD (search r k)

/-- The shortest numeral that reads back as the rank. -/
def shortest (r : Nat) : Numeral :=
  if r = 0 then ⟨0, 0⟩ else search r 1383

end Numeral

end PayrollFormula
