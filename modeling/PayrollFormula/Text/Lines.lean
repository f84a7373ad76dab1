import PayrollFormula.Text.CharClass

/-!
# Lines of a text

A text is cut at every line end; a carriage return with a line feed right after it is one line
end. The text after the last line end is a line only if it is not empty.
-/

set_option autoImplicit false

namespace PayrollFormula

namespace Lines

/-- Cuts a text into lines, with the current line so far and the finished lines in reverse. -/
def cut (current : List Char) (finished : List (List Char)) : List Char → List (List Char)
  | [] => (if current = [] then finished else current.reverse :: finished).reverse
  | '\r' :: '\n' :: cs => cut [] (current.reverse :: finished) cs
  | c :: cs =>
    if isLineEnd c then cut [] (current.reverse :: finished) cs
    else cut (c :: current) finished cs

end Lines

/-- The lines of a text, without their ends. -/
def splitLines (cs : List Char) : List (List Char) := Lines.cut [] [] cs

end PayrollFormula
