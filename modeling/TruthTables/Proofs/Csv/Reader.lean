import TruthTables.Csv.Reader
import TruthTables.Proofs.Utf8

/-!
# Records without their positions

What the reader takes for the fields of records does not depend on positions. Main statement: it
takes the same for fields whether it reads characters or the bytes that encode them.
-/

namespace TruthTables.Csv

variable {σ : Type} [Symbol σ] {mode mode' : Mode} {fields : List (List σ)}
  {field run rest : List σ} {s : σ}

/-- The fields of the records that the reader finds in `mode`, behind the fields and the field that
it has of the current record, with the latest first. -/
def fieldsFrom (mode : Mode) (fields : List (List σ)) (field : List σ) :
    List σ → List (List (List σ))
  | [] => if mode.isInRecord then [(field.reverse :: fields).reverse] else []
  | s :: rest =>
    match mode.action (Symbol.mark s) with
    | .skip mode => fieldsFrom mode fields field rest
    | .take mode => fieldsFrom mode fields (s :: field) rest
    | .endField => fieldsFrom .fieldStart (field.reverse :: fields) [] rest
    | .endRecord mode => (field.reverse :: fields).reverse :: fieldsFrom mode [] [] rest

theorem map_fields_records (r : Reader σ) (input : List σ) :
    (r.records input).map Record.fields = fieldsFrom r.mode r.fields r.field input := by
  induction input generalizing r with
  | nil =>
    rw [Reader.records, Reader.finish, fieldsFrom]
    split <;> rfl
  | cons s rest ih =>
    rw [Reader.records, Reader.step, fieldsFrom]
    cases r.mode.action (Symbol.mark s) with
    | skip mode => exact ih _
    | take mode => exact ih _
    | endField => exact ih _
    | endRecord mode => exact congrArg (r.current.fields :: ·) (ih _)

/-! ### One equation for each action -/

lemma fieldsFrom_of_skip (h : mode.action (Symbol.mark s) = .skip mode') :
    fieldsFrom mode fields field (s :: rest) = fieldsFrom mode' fields field rest := by
  rw [fieldsFrom, h]

lemma fieldsFrom_of_take (h : mode.action (Symbol.mark s) = .take mode') :
    fieldsFrom mode fields field (s :: rest) = fieldsFrom mode' fields (s :: field) rest := by
  rw [fieldsFrom, h]

lemma fieldsFrom_of_endField (h : mode.action (Symbol.mark s) = .endField) :
    fieldsFrom mode fields field (s :: rest) =
      fieldsFrom .fieldStart (field.reverse :: fields) [] rest := by
  rw [fieldsFrom, h]

lemma fieldsFrom_of_endRecord (h : mode.action (Symbol.mark s) = .endRecord mode') :
    fieldsFrom mode fields field (s :: rest) =
      (field.reverse :: fields).reverse :: fieldsFrom mode' [] [] rest := by
  rw [fieldsFrom, h]

/-- A run of symbols that leave the mode as it is and are skipped. -/
lemma fieldsFrom_skip_run (h : ∀ s ∈ run, mode.action (Symbol.mark s) = .skip mode) :
    fieldsFrom mode fields field (run ++ rest) = fieldsFrom mode fields field rest := by
  induction run with
  | nil => rfl
  | cons s run ih =>
    obtain ⟨hs, hrun⟩ := List.forall_mem_cons.1 h
    rw [List.cons_append, fieldsFrom_of_skip hs, ih hrun]

/-- A run of symbols that leave the mode as it is and are taken. -/
lemma fieldsFrom_take_run (h : ∀ s ∈ run, mode.action (Symbol.mark s) = .take mode) :
    fieldsFrom mode fields field (run ++ rest) =
      fieldsFrom mode fields (run.reverse ++ field) rest := by
  induction run generalizing field with
  | nil => rfl
  | cons s run ih =>
    obtain ⟨hs, hrun⟩ := List.forall_mem_cons.1 h
    rw [List.cons_append, fieldsFrom_of_take hs, ih hrun, List.reverse_cons, List.append_assoc,
      List.singleton_append]

/-! ### Ordinary symbols -/

/-- An ordinary symbol is taken, or skipped in a comment, and so is the next one. -/
lemma action_ordinary (mode : Mode) :
    (∃ mode', mode.action .ordinary = .take mode' ∧ mode'.action .ordinary = .take mode') ∨
      mode.action .ordinary = .skip mode := by
  cases mode with
  | comment => exact Or.inr rfl
  | quoted => exact Or.inl ⟨.quoted, rfl, rfl⟩
  | between | fieldStart | unquoted | quoteInQuoted | afterReturn =>
    exact Or.inl ⟨.unquoted, rfl, rfl⟩

lemma fieldsFrom_take_ordinary (haction : mode.action .ordinary = .take mode')
    (hagain : mode'.action .ordinary = .take mode') (hne : run ≠ [])
    (h : ∀ s ∈ run, Symbol.mark s = .ordinary) :
    fieldsFrom mode fields field (run ++ rest) =
      fieldsFrom mode' fields (run.reverse ++ field) rest := by
  obtain ⟨s, run, rfl⟩ := List.exists_cons_of_ne_nil hne
  obtain ⟨hs, hrun⟩ := List.forall_mem_cons.1 h
  rw [List.cons_append, fieldsFrom_of_take (hs ▸ haction),
    fieldsFrom_take_run fun u hu => (hrun u hu).symm ▸ hagain, List.reverse_cons,
    List.append_assoc, List.singleton_append]

/-! ### Bytes and characters -/

lemma ofCodePoint_of_le {n : Nat} (h : 128 ≤ n) : Mark.ofCodePoint n = .ordinary := by
  simp only [Mark.ofCodePoint]
  repeat rw [if_neg (by omega)]

lemma mark_ofNat {c : Char} (h : c.toNat < 128) :
    Symbol.mark (UInt8.ofNat c.toNat) = Symbol.mark c := by
  show Mark.ofCodePoint (UInt8.ofNat c.toNat).toNat = Mark.ofCodePoint c.toNat
  rw [UInt8.toNat_ofNat', Nat.mod_eq_of_lt (by omega)]

/-- The fields of encoded text are the encoded fields of the text. -/
theorem fieldsFrom_encode (mode : Mode) (fields : List (List Char)) (field s : List Char) :
    fieldsFrom mode (fields.map Text.encode) (Text.encode field.reverse).reverse (Text.encode s) =
      (fieldsFrom mode fields field s).map fun fields => fields.map Text.encode := by
  induction s generalizing mode fields field with
  | nil =>
    rw [Text.encode_nil, fieldsFrom, fieldsFrom]
    split <;> simp
  | cons c s ih =>
    have htake : ∀ run : List UInt8, run = String.utf8EncodeChar c →
        run.reverse ++ (Text.encode field.reverse).reverse =
          (Text.encode (c :: field).reverse).reverse := by
      rintro run rfl
      rw [List.reverse_cons, Text.encode_concat, List.reverse_append]
    rw [Text.encode_cons]
    by_cases hc : c.toNat < 128
    · -- the byte has the mark that the character has
      have hmark := mark_ofNat hc
      have hbyte := Text.encodeChar_of_lt hc
      rw [hbyte, List.singleton_append]
      cases haction : mode.action (Symbol.mark c) with
      | skip mode' =>
        rw [fieldsFrom_of_skip haction, fieldsFrom_of_skip (hmark ▸ haction), ih]
      | take mode' =>
        rw [fieldsFrom_of_take haction, fieldsFrom_of_take (hmark ▸ haction), ← ih,
          ← htake _ hbyte.symm]
        rfl
      | endField =>
        rw [fieldsFrom_of_endField haction, fieldsFrom_of_endField (hmark ▸ haction), ← ih]
        simp
      | endRecord mode' =>
        rw [fieldsFrom_of_endRecord haction, fieldsFrom_of_endRecord (hmark ▸ haction),
          List.map_cons, ← ih]
        simp
    · -- all bytes are ordinary, as the character is
      have hle : 128 ≤ c.toNat := Nat.not_lt.1 hc
      have hmark : Symbol.mark c = .ordinary := ofCodePoint_of_le hle
      have hbytes : ∀ b ∈ String.utf8EncodeChar c, Symbol.mark b = .ordinary :=
        fun b hb => ofCodePoint_of_le (Text.le_of_mem_encodeChar hle b hb)
      rcases action_ordinary mode with ⟨mode', haction, hagain⟩ | haction
      · rw [fieldsFrom_of_take (hmark ▸ haction),
          fieldsFrom_take_ordinary haction hagain (Text.encodeChar_ne_nil c) hbytes, htake _ rfl,
          ih]
      · rw [fieldsFrom_of_skip (hmark ▸ haction),
          fieldsFrom_skip_run fun b hb => (hbytes b hb).symm ▸ haction, ih]

end TruthTables.Csv
