/-!
# Ranks of binary64 magnitudes

The non-negative doubles form an increasing sequence: zero, the smallest positive double, and so
on up to the largest finite one. The *rank* of a double is its place in this sequence, and a
*tick* is the smallest positive double, `2 ^ (-1074)`; every finite double is a whole number of
ticks. `Rank.ticks` gives the size of a rank in ticks, `Rank.below` the greatest rank of at most a
given size, and `Rank.nearest` rounds an exact quotient to the nearest rank, a tie going to the
even one. Ranks are not bounded above here: the finite doubles are those below `Rank.limit`, so a
magnitude that rounds to `Rank.limit` or beyond is an overflow. Powers are written `Nat.pow`, which
means the same whatever else is imported.
-/

set_option autoImplicit false

namespace PayrollFormula

namespace Rank

/-- The number of ranks between two neighbouring powers of two. -/
def binade : Nat := Nat.pow 2 52

/-- The first rank whose magnitude is too large for a finite double. -/
def limit : Nat := 2047 * binade

/-- The number one in ticks. -/
def one : Nat := Nat.pow 2 1074

/-- The base-two logarithm of the distance, in ticks, from a rank to the next one. -/
def scale (r : Nat) : Nat := r / binade - 1

/-- The magnitude of a rank in ticks. -/
def ticks (r : Nat) : Nat := (r - scale r * binade) * Nat.pow 2 (scale r)

/-- The greatest rank whose magnitude is at most `q` ticks. -/
def below (q : Nat) : Nat :=
  let k := q.log2 - 52
  k * binade + q / Nat.pow 2 k

/-- The nearer of the neighbours `low` and `low + 1` of something that compares so with the middle
between them; in the middle the even one. -/
def nearer (low : Nat) : Ordering → Nat
  | .lt => low
  | .gt => low + 1
  | .eq => if low % 2 = 0 then low else low + 1

/-- The rank nearest to the exact magnitude `num / den` in ticks; of two equally near ranks the
even one. -/
def nearest (num den : Nat) : Nat :=
  let low := below (num / den)
  nearer low (compare (2 * num) (den * (ticks low + ticks (low + 1))))

/-- The ticks of a rank below the first power of two with a scale are the rank itself. -/
theorem ticks_eq_self {r : Nat} (h : r < 2 * binade) : ticks r = r := by
  have hs : scale r = 0 := by
    have : r / binade < 2 := Nat.div_lt_of_lt_mul (by rw [Nat.mul_comm]; exact h)
    simp only [scale]
    omega
  simp [ticks, hs]

/-- Zero has rank zero. -/
theorem ticks_zero : ticks 0 = 0 := ticks_eq_self (by decide)

end Rank

end PayrollFormula
