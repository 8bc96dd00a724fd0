/-!
# Layout of text

Cutting a text to a number of characters, filling it with spaces to a width, and cutting it into
lines. Characters are code points.
-/

namespace TruthTables.Text

/-! ### Aligned text -/

inductive Align where
  | left
  | right
  | center
deriving DecidableEq, Repr

def spaces (n : Nat) : String :=
  String.ofList (List.replicate n ' ')

/-- Fills a text with spaces to `width` characters; a longer text stays as it is. Of an odd number
of spaces around a centered text the larger half goes to the right. -/
def pad (align : Align) (width : Nat) (s : String) : String :=
  let missing := width - s.length
  match align with
  | .left => s ++ spaces missing
  | .right => spaces missing ++ s
  | .center => spaces (missing / 2) ++ s ++ spaces (missing - missing / 2)

/-- The first `precision` characters, or all of them where no precision is set. -/
def cut : Option Nat → String → String
  | none, s => s
  | some precision, s => String.ofList (s.toList.take precision)

/-- How a value is laid out in a field: it is cut first and then filled. -/
structure Field where
  align : Align := .left
  width : Nat := 0
  precision : Option Nat := none

def Field.layout (field : Field) (s : String) : String :=
  pad field.align field.width (cut field.precision s)

/-! ### Lines -/

/-- The text that consists of these lines, each ended by a line feed. -/
def ofLines (lines : List String) : String :=
  String.join (lines.map (· ++ "\n"))

/-- Drops a carriage return at the beginning of a line that is given backwards. -/
def dropReturn : List Char → List Char
  | '\r' :: line => line
  | line => line

/-- The lines of a text behind the beginning of its first line, which is given backwards. -/
def toLinesFrom (line : List Char) : List Char → List (List Char)
  | [] => if line.isEmpty then [] else [line.reverse]
  | c :: s =>
    if c = '\n' then (dropReturn line).reverse :: toLinesFrom [] s
    else toLinesFrom (c :: line) s

/-- The lines of a text. A line feed ends a line, and a carriage return before it belongs to the
end; after the last line feed there is a line only if there is more text. -/
def toLines (s : List Char) : List (List Char) :=
  toLinesFrom [] s

end TruthTables.Text
