import TruthTables.Csv.Headers
import TruthTables.Proofs.Blank
import TruthTables.Proofs.Csv.Reader
import TruthTables.Proofs.Logged

/-!
# Headers in text

Reading headers does not fail on encoded text: every header is the trimmed fields of a record, and
these are read from the characters.
-/

namespace TruthTables.Csv

open Text

variable {s : List Char} {fields : List (List Char)}

/-! ### Fields -/

lemma lt_of_isBlankByte (b : UInt8) (h : isBlankByte b) : b.toNat < 128 := by
  simp only [isBlankByte, Bool.or_eq_true, decide_eq_true_eq] at h
  rcases h with (((rfl | rfl) | rfl) | rfl) | rfl <;> decide

lemma isBlank_of_isByteWith {c : Char} (h : IsByteWith isBlankByte c) : isBlank c := by
  obtain ⟨hlt, hbyte⟩ := h
  have hmod : c.toNat % 256 = c.toNat := Nat.mod_eq_of_lt (by omega)
  simp only [isBlankByte, Bool.or_eq_true, decide_eq_true_eq, ← UInt8.toNat_inj,
    UInt8.toNat_ofNat', hmod] at hbyte
  simp only [isBlank, blankRanges, List.any_cons, Bool.or_eq_true, Bool.and_eq_true,
    decide_eq_true_eq]
  rcases hbyte with (((h | h) | h) | h) | h <;> simp [h]

/-- What is trimmed from the bytes of a field is blank. -/
lemma exists_trimBytes_encode (s : List Char) :
    ∃ before t after, AllBlank before ∧ AllBlank after ∧ s = before ++ t ++ after ∧
      trimBytes (encode s) = encode t := by
  obtain ⟨before, u, rfl, hbefore, hu⟩ := exists_dropWhile_encode lt_of_isBlankByte s
  obtain ⟨t, after, rfl, hafter, ht⟩ := exists_dropWhile_reverse_encode lt_of_isBlankByte u
  refine ⟨before, t, after, fun c hc => isBlank_of_isByteWith (hbefore c hc),
    fun c hc => isBlank_of_isByteWith (hafter c hc), by rw [List.append_assoc], ?_⟩
  rw [trimBytes, hu, ht]

lemma decodeFields_encode (start : Position) (field : Nat) (fields : List (List Char)) :
    decodeFields start field (fields.map encode) = .ok (fields.map trim) := by
  induction fields generalizing field with
  | nil => rfl
  | cons s fields ih =>
    obtain ⟨before, t, after, hbefore, hafter, rfl, ht⟩ := exists_trimBytes_encode s
    rw [List.map_cons, decodeFields, ht, decode_encode]
    simp only [ih, ok_bind, List.map_cons, trim_append hbefore hafter]
    rfl

/-! ### Headers -/

/-- The headers of a text without a byte order mark. -/
def headersOf (s : List Char) : List (List String) :=
  ((fieldsFrom .between [] [] s).map fun fields => entriesOf (fields.map trim)).filter
    fun entries => !entries.isEmpty

lemma byteOrderMark_eq : byteOrderMark = String.utf8EncodeChar '\uFEFF' := by
  decide

lemma isPrefixOf_encode_iff : byteOrderMark.isPrefixOf (encode s) ↔ s.head? = some '\uFEFF' := by
  rw [List.isPrefixOf_iff_prefix, byteOrderMark_eq]
  constructor
  · rintro ⟨rest, hrest⟩
    have hfirst := firstChar?_encodeChar_append '\uFEFF' rest
    cases s with
    | nil =>
      rw [encode_nil] at hrest
      simp at hrest
    | cons c s =>
      rwa [hrest, encode_cons, firstChar?_encodeChar_append] at hfirst
  · intro h
    obtain ⟨s, rfl⟩ := List.head?_eq_some_iff.1 h
    exact List.prefix_append _ _

/-- A text without a byte order mark at its beginning. -/
def withoutMark (s : List Char) : List Char :=
  if s.head? = some '\uFEFF' then s.tail else s

lemma withoutMark_of_head? (h : s.head? ≠ some '\uFEFF') : withoutMark s = s :=
  if_neg h

lemma withoutMark_append {t : List Char} (ht : t.head? ≠ some '\uFEFF') :
    withoutMark (s ++ t) = withoutMark s ++ t := by
  cases s with
  | nil => exact withoutMark_of_head? ht
  | cons c s =>
    by_cases hc : c = '\uFEFF' <;> simp [withoutMark, hc]

/-- The fields of a file are the encoded fields of its text. -/
lemma map_fields_recordsOf_encode (s : List Char) :
    (recordsOf (encode s)).map Record.fields =
      (fieldsFrom .between [] [] (withoutMark s)).map fun fields => fields.map encode := by
  rw [recordsOf]
  by_cases h : s.head? = some '\uFEFF'
  · rw [if_pos (isPrefixOf_encode_iff.2 h), map_fields_records]
    obtain ⟨s, rfl⟩ := List.head?_eq_some_iff.1 h
    rw [encode_cons, byteOrderMark_eq, List.drop_left]
    exact fieldsFrom_encode .between [] [] s
  · rw [if_neg (mt isPrefixOf_encode_iff.1 h), map_fields_records, withoutMark_of_head? h]
    exact fieldsFrom_encode .between [] [] s

/-- Reading does not fail on encoded text. -/
theorem readHeaders_encode_eq (s : List Char) :
    readHeaders (encode s) = .ok (headersOf (withoutMark s)) := by
  have hfields := map_fields_recordsOf_encode s
  have hrecords : ((recordsOf (encode s)).mapM fun record =>
      decodeFields record.start 0 record.fields) =
        .ok ((fieldsFrom .between [] [] (withoutMark s)).map fun fields => fields.map trim) := by
    rw [mapM_eq_ok_iff, List.forall₂_map_right_iff]
    rw [← List.forall₂_eq_eq_eq, List.forall₂_map_left_iff, List.forall₂_map_right_iff] at hfields
    refine hfields.imp fun record fields heq => ?_
    rw [heq, decodeFields_encode]
  rw [readHeaders, hrecords, ok_bind, List.map_map]
  rfl

theorem readHeaders_encode (h : s.head? ≠ some '\uFEFF') :
    readHeaders (encode s) = .ok (headersOf s) := by
  rw [readHeaders_encode_eq, withoutMark_of_head? h]

/-! ### What headers consist of -/

lemma eq_map_trim_of_decodeFields {start : Position} {field : Nat} {bytes : List (List UInt8)}
    {texts : List (List Char)} (h : decodeFields start field bytes = .ok texts) :
    ∃ decoded : List (List Char), texts = decoded.map trim := by
  induction bytes generalizing field texts with
  | nil => exact ⟨[], (Except.ok.inj h).symm⟩
  | cons b bytes ih =>
    rw [decodeFields] at h
    split at h
    · cases h
    · rename_i s _
      cases hrest : decodeFields start (field + 1) bytes with
      | error e =>
        rw [hrest] at h
        cases h
      | ok rest =>
        obtain ⟨decoded, rfl⟩ := ih hrest
        rw [hrest, ok_bind] at h
        exact ⟨s :: decoded, (Except.ok.inj h).symm⟩

/-- The entries of a record are the trimmed fields that are not empty. -/
lemma exists_of_mem_entriesOf {texts : List (List Char)} {entry : String}
    (h : entry ∈ entriesOf (texts.map trim)) : ∃ s, entry.toList = trim s ∧ trim s ≠ [] := by
  obtain ⟨text, htext, rfl⟩ := List.mem_map.1 h
  obtain ⟨hmem, hne⟩ := List.mem_filter.1 htext
  obtain ⟨s, -, rfl⟩ := List.mem_map.1 hmem
  exact ⟨s, String.toList_ofList, by simpa using hne⟩

lemma beginsVisibly_of_mem_entriesOf {texts : List (List Char)} {entry : String}
    (h : entry ∈ entriesOf (texts.map trim)) : BeginsVisibly entry := by
  obtain ⟨s, hs, hne⟩ := exists_of_mem_entriesOf h
  obtain ⟨c, t, ht⟩ := List.exists_cons_of_ne_nil hne
  exact ⟨c, t, hs.trans ht, isBlank_of_trim_eq_cons ht⟩

lemma endsVisibly_of_mem_entriesOf {texts : List (List Char)} {entry : String}
    (h : entry ∈ entriesOf (texts.map trim)) : EndsVisibly entry := by
  obtain ⟨s, hs, hne⟩ := exists_of_mem_entriesOf h
  have ht := (List.dropLast_append_getLast hne).symm
  exact ⟨_, _, hs.trans ht, isBlank_of_trim_eq_concat ht⟩

/-- A header that is read has the entries of some record, and at least one. -/
lemma exists_of_mem_readHeaders {bytes : List UInt8} {headers : List (List String)}
    (h : readHeaders bytes = .ok headers) {entries : List String} (hmem : entries ∈ headers) :
    entries ≠ [] ∧ ∃ decoded : List (List Char), entries = entriesOf (decoded.map trim) := by
  rw [readHeaders] at h
  cases hrecords : (recordsOf bytes).mapM fun record =>
      decodeFields record.start 0 record.fields with
  | error e =>
    rw [hrecords] at h
    cases h
  | ok records =>
    rw [hrecords, ok_bind] at h
    obtain rfl := Except.ok.inj h
    obtain ⟨hentries, hne⟩ := List.mem_filter.1 hmem
    obtain ⟨texts, htexts, rfl⟩ := List.mem_map.1 hentries
    obtain ⟨i, hi⟩ := List.getElem?_of_mem htexts
    obtain ⟨record, -, hrecord⟩ := getElem?_of_forall₂ (mapM_eq_ok_iff.1 hrecords).flip hi
    obtain ⟨decoded, rfl⟩ := eq_map_trim_of_decodeFields hrecord
    exact ⟨by simpa using hne, decoded, rfl⟩

/-- A header that is read has entries, and none of these begins with a blank character. -/
theorem beginsVisibly_of_readHeaders {bytes : List UInt8} {headers : List (List String)}
    (h : readHeaders bytes = .ok headers) :
    ∀ entries ∈ headers, entries ≠ [] ∧ ∀ entry ∈ entries, BeginsVisibly entry := by
  intro entries hmem
  obtain ⟨hne, decoded, rfl⟩ := exists_of_mem_readHeaders h hmem
  exact ⟨hne, fun entry hentry => beginsVisibly_of_mem_entriesOf hentry⟩

end TruthTables.Csv
