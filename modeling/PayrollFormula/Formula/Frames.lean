import PayrollFormula.Formula.Expr

/-!
# Recursion over formulas

Formulas are evaluated and written out by functions that call each other from a node to its parts.
Every call takes a frame of the stack, and the stack has a limited number of them. How many frames
lie between a node and a part of it depends on the kind of the node and on what is done with it:
`Frames` lists these numbers, and `Expr.frames` adds them up along the deepest path of a formula.
-/

set_option autoImplicit false

namespace PayrollFormula

/-- How many frames a recursion takes at each kind of node before it comes to a part. A call takes
some to look at its function, and more for its arguments: so many if they are visited one after
another, and so many if the function asks for each of them. A node without parts takes one. -/
structure Frames where
  unary : Nat
  binary : Nat
  choice : Nat
  call : Nat
  each : Nat
  asked : Nat
deriving DecidableEq, Repr

namespace Frames

/-- The frames of an evaluation. An operation with two operands, a call, the loop over its
arguments, the choice function, and the request of that function for an argument have frames of
their own. -/
def evaluation : Frames := ⟨1, 2, 1, 2, 1, 2⟩

/-- The frames of writing a formula out. The loop over arguments has a frame of its own. -/
def writing : Frames := ⟨1, 1, 1, 1, 1, 0⟩

end Frames

namespace Expr

mutual

/-- How many frames a recursion over all parts of a formula takes. -/
def frames (c : Frames) : Expr → Nat
  | .literal _ | .variable _ => 1
  | .unary _ a => c.unary + a.frames c
  | .binary _ a b => c.binary + max (a.frames c) (b.frames c)
  | .choice d a b => c.choice + max (d.frames c) (max (a.frames c) (b.frames c))
  | .call _ args => c.call + max c.each c.asked + greatestFrames c args

/-- The greatest number of frames that one of several formulas takes. -/
def greatestFrames (c : Frames) : List Expr → Nat
  | [] => 0
  | a :: rest => max (a.frames c) (greatestFrames c rest)

end

end Expr

end PayrollFormula
