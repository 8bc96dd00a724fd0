import TruthTables.Connective
import TruthTables.Text.Blank

/-!
# Tokens

The units of a formula. Parentheses stand for themselves, blank characters separate, and what is
left is words. Any word that is not the spelling of a connective is a name.
-/

namespace TruthTables

inductive Token where
  | connective (op : Connective)
  | openParen
  | closeParen
  | name (word : String)
deriving DecidableEq, Repr

namespace Token

def ofWord (word : String) : Token :=
  if word = "(" then openParen
  else if word = ")" then closeParen
  else match Connective.ofSpelling? word with
    | some op => connective op
    | none => name word

/-- The text of a token; a connective has its canonical spelling. -/
def text : Token → String
  | connective op => op.canonical
  | openParen => "("
  | closeParen => ")"
  | name word => word

/-- Whether a word holds the mark that starts canonical spellings. -/
def isEscaped (word : String) : Bool :=
  word.toList.contains Connective.escapeMark

/-- Connectives are logical, and so is every word that looks like the canonical spelling of one. -/
def isLogical : Token → Bool
  | connective _ => true
  | name word => isEscaped word
  | _ => false

end Token

/-- The text of a list of tokens: it does not depend on spacing nor on how connectives were
spelled. -/
def normalize (ts : List Token) : String :=
  " ".intercalate (ts.map Token.text)

/-! ### From text to tokens -/

open Text

def isParen (c : Char) : Bool :=
  c = '(' || c = ')'

/-- Puts a space on both sides of every parenthesis. -/
def spaceParens (s : List Char) : List Char :=
  s.flatMap fun c => if isParen c then [' ', c, ' '] else [c]

/-- The tokens of a text. -/
def tokenize (source : String) : List Token :=
  (words (spaceParens source.toList)).map fun word => Token.ofWord (String.ofList word)

end TruthTables
