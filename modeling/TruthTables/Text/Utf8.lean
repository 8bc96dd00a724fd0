/-!
# UTF-8

Bytes are lists here. Main statement: what `encode` writes is read back by `decode`.
-/

namespace TruthTables.Text

def encode (s : List Char) : List UInt8 :=
  s.flatMap String.utf8EncodeChar

/-- The character that the first bytes encode. No character takes more than four of them. -/
def firstChar? (bytes : List UInt8) : Option Char :=
  (bytes.take 4).toByteArray.utf8DecodeChar? 0

/-- Decodes bytes behind `count` others that encode the characters of `done`, which has the latest
first. -/
def decodeFrom (count : Nat) (done : List Char) (bytes : List UInt8) : Except Nat (List Char) :=
  if bytes = [] then .ok done.reverse
  else match firstChar? bytes with
    | none => .error count
    | some c => decodeFrom (count + c.utf8Size) (c :: done) (bytes.drop c.utf8Size)
termination_by bytes.length
decreasing_by
  have hc := c.utf8Size_pos
  have hb : 0 < bytes.length := List.length_pos_iff.2 ‹_›
  simp only [List.length_drop]
  omega

/-- The text that some bytes encode, or else the number of bytes in front of the first one that
belongs to no character. -/
def decode (bytes : List UInt8) : Except Nat (List Char) :=
  decodeFrom 0 [] bytes

theorem firstChar?_encodeChar_append (c : Char) (bytes : List UInt8) :
    firstChar? (String.utf8EncodeChar c ++ bytes) = some c := by
  have hlen : (String.utf8EncodeChar c).length ≤ 4 := by
    rw [String.length_utf8EncodeChar]
    exact c.utf8Size_le_four
  rw [firstChar?, List.take_append, List.take_of_length_le hlen, List.toByteArray_append]
  exact ByteArray.utf8DecodeChar?_utf8EncodeChar_append

theorem decodeFrom_encode (count : Nat) (done s : List Char) :
    decodeFrom count done (encode s) = .ok (done.reverse ++ s) := by
  induction s generalizing count done with
  | nil =>
    rw [decodeFrom]
    simp [encode]
  | cons c s ih =>
    have hne : String.utf8EncodeChar c ++ encode s ≠ [] := by
      intro h
      have := congrArg List.length h
      have := c.utf8Size_pos
      simp only [List.length_append, String.length_utf8EncodeChar, List.length_nil] at *
      omega
    have hdrop : (String.utf8EncodeChar c ++ encode s).drop c.utf8Size = encode s := by
      rw [← String.length_utf8EncodeChar c]
      exact List.drop_left
    show decodeFrom count done (String.utf8EncodeChar c ++ encode s) = _
    rw [decodeFrom, if_neg hne, firstChar?_encodeChar_append]
    simp only [hdrop, ih, List.reverse_cons, List.append_assoc, List.singleton_append]

theorem decode_encode (s : List Char) : decode (encode s) = .ok s :=
  decodeFrom_encode 0 [] s

end TruthTables.Text
