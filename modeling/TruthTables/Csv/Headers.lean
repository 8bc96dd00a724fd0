import TruthTables.Csv.Reader
import TruthTables.Text.Blank
import TruthTables.Text.Utf8

/-!
# Headers in CSV files

Every record of a file is one header. Its fields are trimmed, and empty ones are left out; so are
records in which nothing remains.
-/

namespace TruthTables.Csv

/-- A field that is not UTF-8. -/
structure Malformed where
  /-- Where the reader began to look for the record. -/
  start : Position
  /-- The number of the field in its record. -/
  field : Nat
  /-- The number of well-formed bytes at the beginning of the field. -/
  wellFormed : Nat
deriving DecidableEq, Repr

def Malformed.message (m : Malformed) : String :=
  "CSV parse error: record " ++ toString m.start.record ++ " (line " ++ toString m.start.line ++
    ", field: " ++ toString m.field ++ ", byte: " ++ toString m.start.offset ++
    "): invalid utf-8: invalid UTF-8 in field " ++ toString m.field ++ " near byte index " ++
    toString m.wellFormed

/-- The blank characters among the ASCII characters, without the vertical tab. -/
def isBlankByte (b : UInt8) : Bool :=
  b = 0x20 || b = 0x09 || b = 0x0A || b = 0x0C || b = 0x0D

def trimBytes (bytes : List UInt8) : List UInt8 :=
  ((bytes.dropWhile isBlankByte).reverse.dropWhile isBlankByte).reverse

/-- The texts of a record's fields, the first of which has the number `field`. Faults are looked for
in what remains when ASCII blanks are trimmed, in the first record of a file as in any other; all
blanks are trimmed afterwards. -/
def decodeFields (start : Position) (field : Nat) :
    List (List UInt8) → Except Malformed (List (List Char))
  | [] => .ok []
  | bytes :: rest =>
    match Text.decode (trimBytes bytes) with
    | .error wellFormed => .error ⟨start, field, wellFormed⟩
    | .ok s => do
      let texts ← decodeFields start (field + 1) rest
      pure (Text.trim s :: texts)

/-- The entries of the header that a record stands for. -/
def entriesOf (texts : List (List Char)) : List String :=
  (texts.filter fun s => !s.isEmpty).map String.ofList

/-- The byte order mark. -/
def byteOrderMark : List UInt8 :=
  [0xEF, 0xBB, 0xBF]

/-- The records of a file. A byte order mark at its beginning belongs to no record. -/
def recordsOf (bytes : List UInt8) : List (Record UInt8) :=
  if byteOrderMark.isPrefixOf bytes then
    Reader.records { here := { offset := byteOrderMark.length } } (bytes.drop byteOrderMark.length)
  else
    Reader.records {} bytes

/-- The headers of a file. The first malformed record ends the reading. -/
def readHeaders (bytes : List UInt8) : Except Malformed (List (List String)) := do
  let records ← (recordsOf bytes).mapM fun record => decodeFields record.start 0 record.fields
  pure ((records.map entriesOf).filter fun entries => !entries.isEmpty)

end TruthTables.Csv
