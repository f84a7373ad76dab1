/-!
# UTF-8 with replacement

Decoding never fails: a byte that cannot continue the sequence so far ends it, and each broken
sequence counts as one replacement character. The decoder reads one byte at a time; between
sequences it is `ready`, and within one it knows how many bytes are owed and which the next may be.
-/

set_option autoImplicit false

namespace PayrollFormula

namespace Utf8

/-- The character that stands for a broken sequence. -/
def replacement : Char := Char.ofNat 0xfffd

/-- Where the decoder stands between bytes. -/
inductive State where
  /-- Between sequences. -/
  | ready
  /-- `owed` bytes are missing, the next from `low` to `high`; `bits` holds the value so far. -/
  | pending (owed low high bits : Nat)
deriving DecidableEq, Repr

/-- Reads the first byte of a sequence. -/
def start (b : Nat) : List Char × State :=
  if b < 0x80 then ([Char.ofNat b], .ready)
  else if b < 0xc2 then ([replacement], .ready)
  else if b < 0xe0 then ([], .pending 1 0x80 0xbf (b - 0xc0))
  else if b < 0xf0 then
    ([], .pending 2 (if b = 0xe0 then 0xa0 else 0x80) (if b = 0xed then 0x9f else 0xbf) (b - 0xe0))
  else if b < 0xf5 then
    ([], .pending 3 (if b = 0xf0 then 0x90 else 0x80) (if b = 0xf4 then 0x8f else 0xbf) (b - 0xf0))
  else ([replacement], .ready)

/-- Reads one byte. -/
def step (s : State) (b : Nat) : List Char × State :=
  match s with
  | .ready => start b
  | .pending owed low high bits =>
    if low ≤ b ∧ b ≤ high then
      let bits := 64 * bits + (b - 0x80)
      if owed ≤ 1 then ([Char.ofNat bits], .ready) else ([], .pending (owed - 1) 0x80 0xbf bits)
    else (replacement :: (start b).1, (start b).2)

/-- What is left to emit at the end. -/
def finish : State → List Char
  | .ready => []
  | .pending .. => [replacement]

/-- Reads bytes from a state on, adding to the characters read so far, which stand in reverse. -/
def run (s : State) (out : List Char) : List UInt8 → List Char × State
  | [] => (out, s)
  | b :: bs => run (step s b.toNat).2 ((step s b.toNat).1.reverse ++ out) bs

/-- The text of a list of bytes. -/
def decode (bytes : List UInt8) : List Char :=
  let (out, s) := run .ready [] bytes
  out.reverse ++ finish s

/-- The bytes of a text. -/
def encode (s : String) : List UInt8 := s.toUTF8.data.toList

end Utf8

end PayrollFormula
