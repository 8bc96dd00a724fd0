/-!
# Blank characters

The characters with the Unicode property White_Space, and the operations on texts that turn on
them: trimming, and cutting a text into words. Texts are lists of characters here.
-/

namespace TruthTables.Text

/-- The code points with the property White_Space, as closed ranges, ascending and apart. -/
def blankRanges : List (Nat × Nat) :=
  [(0x09, 0x0D), (0x20, 0x20), (0x85, 0x85), (0xA0, 0xA0), (0x1680, 0x1680), (0x2000, 0x200A),
   (0x2028, 0x2029), (0x202F, 0x202F), (0x205F, 0x205F), (0x3000, 0x3000)]

def isBlank (c : Char) : Bool :=
  blankRanges.any fun range => range.1 ≤ c.toNat && c.toNat ≤ range.2

/-! ### Trimming -/

def trimStart (s : List Char) : List Char :=
  s.dropWhile isBlank

def trimEnd (s : List Char) : List Char :=
  (s.reverse.dropWhile isBlank).reverse

def trim (s : List Char) : List Char :=
  trimEnd (trimStart s)

/-! ### Words -/

/-- The maximal runs of characters that are not blank, in order. -/
def words : List Char → List (List Char)
  | [] => []
  | c :: s =>
    if isBlank c then words s
    else (c :: s.takeWhile (!isBlank ·)) :: words (s.dropWhile (!isBlank ·))
termination_by s => s.length
decreasing_by
  · simp only [List.length_cons]
    omega
  · have := (List.dropWhile_sublist (!isBlank ·) (l := s)).length_le
    simp only [List.length_cons]
    omega

theorem words_cons_of_blank {c : Char} (h : isBlank c = true) (s : List Char) :
    words (c :: s) = words s := by
  rw [words, if_pos h]

theorem words_cons_of_not_blank {c : Char} (h : isBlank c = false) (s : List Char) :
    words (c :: s) = (c :: s.takeWhile (!isBlank ·)) :: words (s.dropWhile (!isBlank ·)) := by
  rw [words, if_neg (by simp [h])]

end TruthTables.Text
