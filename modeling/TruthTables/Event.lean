import TruthTables.Token

/-!
# Log events

What is logged while a table is built. Each event has a level and one line of text.
-/

namespace TruthTables

/-- A list of tokens is cut at a connective. -/
structure Cut where
  tokens : List Token
  op : Connective
deriving DecidableEq, Repr

inductive Event where
  /-- A table is begun. -/
  | began (columns atomic rows : Nat)
  /-- The cells of a variable change every `block` rows. -/
  | toggles (column : Nat) (name : String) (block : Nat)
  | cut (c : Cut)
deriving DecidableEq, Repr

namespace Event

inductive Level where
  | info
  | debug
  | trace
deriving DecidableEq, Repr

def Level.name : Level → String
  | info => "INFO"
  | debug => "DEBUG"
  | trace => "TRACE"

def level : Event → Level
  | began .. => .info
  | toggles .. => .debug
  | cut _ => .trace

def text : Event → String
  | began columns atomic rows =>
    "building truth table: " ++ toString columns ++ " columns, " ++ toString atomic ++
      " atomic, " ++ toString rows ++ " rows"
  | toggles column name block =>
    "atomic column " ++ toString column ++ " '" ++ name ++ "' toggles every " ++
      toString block ++ " rows"
  | cut c => "split '" ++ normalize c.tokens ++ "' at " ++ c.op.canonical

def line (e : Event) : String :=
  e.level.name ++ " " ++ e.text

end Event

end TruthTables
