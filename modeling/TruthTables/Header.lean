import TruthTables.Formula

/-!
# Headers

The columns of a table in order. No two of them have the same tokens, because a formula could not
tell them apart.
-/

namespace TruthTables

structure Header where
  entries : List Formula
  distinct : entries.Pairwise fun e f => e.tokens ≠ f.tokens
deriving DecidableEq

namespace Header

def empty : Header :=
  ⟨[], .nil⟩

/-- Adds a last column, unless one with the same tokens is there. -/
def push? (header : Header) (f : Formula) : Option Header :=
  if h : ∀ e ∈ header.entries, e.tokens ≠ f.tokens then
    some ⟨header.entries ++ [f], List.pairwise_append.2
      ⟨header.distinct, List.pairwise_singleton _ _, fun e he g hg => by
        rw [List.mem_singleton.1 hg]
        exact h e he⟩⟩
  else none

/-- Adds columns with the given texts from left to right. -/
def extend (header : Header) : List String → Except TableError Header
  | [] => .ok header
  | source :: rest => do
    let f ← Formula.parse source
    match header.push? f with
    | some header => header.extend rest
    | none => .error (.duplicateEntry f.source)

/-- The header with these texts as columns. -/
def ofTexts (entries : List String) : Except TableError Header :=
  empty.extend entries

def size (header : Header) : Nat :=
  header.entries.length

/-- The texts of the columns. -/
def names (header : Header) : List String :=
  header.entries.map Formula.source

/-- The number of variables. -/
def atomicCount (header : Header) : Nat :=
  header.entries.countP Formula.isAtomic

/-- The column with these tokens. -/
def position? (header : Header) (ts : List Token) : Option Nat :=
  header.entries.findIdx? fun e => e.tokens = ts

end Header

end TruthTables
