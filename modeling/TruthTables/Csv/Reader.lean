/-!
# Reading CSV

Records are read in one pass over the input by a machine with a few states. A quoted field may hold
anything, with its quotes doubled; text after the closing quote belongs to the field. A carriage
return, a line feed, or both end a record; empty lines and lines that start with a number sign are
no records. The machine turns on five symbols only, so the input may be bytes or characters.
-/

namespace TruthTables.Csv

/-- What a symbol means to the reader. -/
inductive Mark where
  | comma
  | quote
  | carriageReturn
  | lineFeed
  | numberSign
  | ordinary
deriving DecidableEq, Repr

/-- Symbols that a CSV text can consist of. -/
class Symbol (σ : Type) where
  mark : σ → Mark

/-- The mark of a code point. -/
def Mark.ofCodePoint (n : Nat) : Mark :=
  if n = 0x2C then comma
  else if n = 0x22 then quote
  else if n = 0x0D then carriageReturn
  else if n = 0x0A then lineFeed
  else if n = 0x23 then numberSign
  else ordinary

instance : Symbol UInt8 where
  mark b := .ofCodePoint b.toNat

instance : Symbol Char where
  mark c := .ofCodePoint c.toNat

/-! ### The machine -/

/-- What the reader is in. -/
inductive Mode where
  /-- Between records. -/
  | between
  | comment
  /-- Behind a comma. -/
  | fieldStart
  | unquoted
  | quoted
  /-- Behind a quote inside a quoted field, which is its last one unless another follows. -/
  | quoteInQuoted
  /-- Behind a carriage return that ended a record, to which a line feed may belong. -/
  | afterReturn
deriving DecidableEq, Repr

/-- What is done with a symbol. -/
inductive Action where
  | skip (mode : Mode)
  | take (mode : Mode)
  | endField
  | endRecord (mode : Mode)
deriving DecidableEq, Repr

namespace Mark

/-- What is done with a symbol that continues a field without quotes around it. -/
def inField : Mark → Action
  | comma => .endField
  | carriageReturn => .endRecord .afterReturn
  | lineFeed => .endRecord .between
  | _ => .take .unquoted

/-- What is done with the first symbol of a field, or the one that ends it when it is empty. -/
def startingField : Mark → Action
  | quote => .skip .quoted
  | m => m.inField

def betweenRecords : Mark → Action
  | carriageReturn | lineFeed => .skip .between
  | numberSign => .skip .comment
  | m => m.startingField

end Mark

def Mode.action : Mode → Mark → Action
  | between, m => m.betweenRecords
  | comment, .lineFeed => .skip between
  | comment, _ => .skip comment
  | fieldStart, m => m.startingField
  | unquoted, m => m.inField
  | quoted, .quote => .skip quoteInQuoted
  | quoted, _ => .take quoted
  | quoteInQuoted, .quote => .take quoted
  | quoteInQuoted, m => m.inField
  | afterReturn, .lineFeed => .skip between
  | afterReturn, m => m.betweenRecords

/-- Whether the end of the input ends a record here. -/
def Mode.isInRecord : Mode → Bool
  | fieldStart | unquoted | quoted | quoteInQuoted => true
  | _ => false

/-- A place in the input. -/
structure Position where
  /-- The number of records before it. -/
  record : Nat := 0
  /-- The number of its line, from 1 on; only line feeds end lines. -/
  line : Nat := 1
  /-- The number of symbols before it. -/
  offset : Nat := 0
deriving DecidableEq, Repr

def Position.advance (p : Position) (m : Mark) : Position :=
  { p with offset := p.offset + 1, line := if m = .lineFeed then p.line + 1 else p.line }

structure Record (σ : Type) where
  /-- Where the record before it ended. -/
  start : Position
  fields : List (List σ)
deriving DecidableEq, Repr

/-- A reader in the middle of its work. -/
structure Reader (σ : Type) where
  mode : Mode := .between
  /-- The fields of the current record, the latest first. -/
  fields : List (List σ) := []
  /-- The symbols of the current field, the latest first. -/
  field : List σ := []
  /-- Where the last record ended. -/
  start : Position := {}
  here : Position := {}

namespace Reader

variable {σ : Type}

/-- The current record, if it ended here. -/
def current (r : Reader σ) : Record σ :=
  ⟨r.start, (r.field.reverse :: r.fields).reverse⟩

/-- The reader behind a symbol, and the record that the symbol ended. -/
def step [Symbol σ] (r : Reader σ) (s : σ) : Reader σ × Option (Record σ) :=
  let here := r.here.advance (Symbol.mark s)
  match r.mode.action (Symbol.mark s) with
  | .skip mode => ({ r with mode, here }, none)
  | .take mode => ({ r with mode, here, field := s :: r.field }, none)
  | .endField =>
    ({ r with mode := .fieldStart, here, fields := r.field.reverse :: r.fields, field := [] }, none)
  | .endRecord mode =>
    let here := { here with record := here.record + 1 }
    ({ mode, start := here, here }, some r.current)

/-- The record that the end of the input ends. -/
def finish (r : Reader σ) : Option (Record σ) :=
  if r.mode.isInRecord then some r.current else none

/-- The records of the rest of the input. -/
def records [Symbol σ] (r : Reader σ) : List σ → List (Record σ)
  | [] => r.finish.toList
  | s :: rest =>
    match r.step s with
    | (r, some record) => record :: r.records rest
    | (r, none) => r.records rest

end Reader

end TruthTables.Csv
