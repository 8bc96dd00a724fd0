import Mathlib.Logic.Function.Basic
import TruthTables.Proofs.Diagnosis
import TruthTables.Proofs.Failure
import TruthTables.Proofs.Substitution

/-!
# Renaming

Names mean nothing by themselves: they are compared with each other, and beyond that only the mark
of canonical spellings is looked for in them. Main statement: if the names in the columns are
renamed so that different ones stay different, the rows of the table are the same, or the same
failure is found in the same column.
-/

namespace TruthTables

variable {m m' : String → String} {word : String} {ts : List Token} {fault : Fault}

/-! ### Renamed tokens -/

def Token.rename (m : String → String) : Token → Token
  | name word => name (m word)
  | t => t

def Defect.rename (m : String → String) (d : Defect) : Defect :=
  d.substitute fun word => [.name (m word)]

def Fault.rename (m : String → String) : Fault → Fault
  | unresolved word => unresolved (m word)
  | defect d => defect (d.rename m)

lemma Token.rename_id : Token.rename id = id := by
  funext t
  cases t <;> rfl

lemma map_rename_eq_substitute (m : String → String) (ts : List Token) :
    ts.map (Token.rename m) = substitute (fun word => [.name (m word)]) ts := by
  induction ts with
  | nil => rfl
  | cons t ts ih =>
    rw [List.map_cons, ih]
    cases t <;> rfl

/-- A renamed name can take the place of a name. -/
lemma isOperand_name (word : String) : IsOperand [.name (m word)] :=
  Or.inl ⟨m word, rfl⟩

lemma map_rename_congr (h : ∀ word, .name word ∈ ts → m word = m' word) :
    ts.map (Token.rename m) = ts.map (Token.rename m') := by
  refine List.map_congr_left fun t ht => ?_
  cases t with
  | name word => exact congrArg Token.name (h word ht)
  | connective | openParen | closeParen => rfl

lemma Fault.rename_congr (h : ∀ word, .name word ∈ fault.tokens → m word = m' word) :
    fault.rename m = fault.rename m' := by
  cases fault with
  | unresolved word => exact congrArg Fault.unresolved (h word (List.mem_singleton_self _))
  | defect d =>
    cases d with
    | unjoined ts =>
      have hts := map_rename_congr h
      rw [map_rename_eq_substitute, map_rename_eq_substitute] at hts
      exact congrArg (fun ts => Fault.defect (.unjoined ts)) hts
    | _ => rfl

/-- Different words stay different, and the marked ones stay what they are. -/
structure KeepsNames (m : String → String) : Prop where
  injective : Function.Injective m
  isEscaped_eq (word : String) : Token.isEscaped (m word) = Token.isEscaped word
  eq_of_isEscaped {word : String} : Token.isEscaped word → m word = word

lemma keepsNames_id : KeepsNames id where
  injective := Function.injective_id
  isEscaped_eq _ := rfl
  eq_of_isEscaped _ := rfl

namespace KeepsNames

variable (hm : KeepsNames m)

include hm

lemma rename_injective : Function.Injective (Token.rename m) := by
  intro t u h
  cases t with
  | name word =>
    cases u with
    | name word' => exact congrArg Token.name (hm.injective (Token.name.inj h))
    | connective | openParen | closeParen => cases h
  | connective | openParen | closeParen => cases u <;> first | exact h | cases h

lemma isLogical_rename (t : Token) : (t.rename m).isLogical = t.isLogical := by
  cases t with
  | name word => exact hm.isEscaped_eq word
  | connective | openParen | closeParen => rfl

lemma fault_rename (word : String) :
    (Token.name (m word)).fault = (Token.name word).fault.rename m := by
  rw [Token.fault, Token.fault, hm.isEscaped_eq]
  split
  · rename_i hescaped
    rw [hm.eq_of_isEscaped hescaped]
    rfl
  · rfl

/-- Renamed tokens evaluate as before if they are looked up as before. -/
theorem result_evaluate_rename {look look' : List Token → Option Bool}
    (hlook : ∀ ts, look' (ts.map (Token.rename m)) = look ts) (hts : Balanced ts) :
    (evaluate look' (ts.map (Token.rename m))).result =
      (evaluate look ts).result.mapError (Fault.rename m) := by
  have hid : ∀ x : Except Fault Bool, x.mapError id = x := by
    intro x
    cases x <;> rfl
  have hname : ∀ word, (evaluate look' [.name (m word)]).result =
      (evaluate look [.name word]).result.mapError (Fault.rename m) := by
    intro word
    have hword : look' [.name (m word)] = look [.name word] := hlook [.name word]
    cases hvalue : look [.name word] with
    | some value =>
      rw [result_evaluate_of_look hvalue, result_evaluate_of_look (hword.trans hvalue)]
      rfl
    | none =>
      rw [result_evaluate_of_faulty hvalue rfl, result_evaluate_of_faulty (hword.trans hvalue) rfl,
        hm.fault_rename]
      rfl
  rw [map_rename_eq_substitute, ← hid (evaluate look' _).result]
  refine result_evaluate_substitute isOperand_name ?_ ?_ (fun _ => rfl) hts
  · intro ts _
    rw [← map_rename_eq_substitute, hlook]
  · intro word
    rw [hid, hname]

end KeepsNames

/-! ### Renamed columns -/

/-- The tokens are the same, with the names renamed. -/
def Formula.IsRenamed (m : String → String) (f f' : Formula) : Prop :=
  f'.tokens = f.tokens.map (Token.rename m)

lemma Formula.IsRenamed.isAtomic_eq {f f' : Formula} (hm : KeepsNames m) (h : f.IsRenamed m f') :
    f.isAtomic = f'.isAtomic := by
  have hlogical : (Token.isLogical ∘ Token.rename m) = Token.isLogical :=
    funext hm.isLogical_rename
  rw [isAtomic, isAtomic, h, List.any_map, hlogical]

namespace Header

variable {header header' : Header} {row : Row} {f f' : Formula} {number i : Nat} {value : Bool}
  {e : TableError}

/-- The columns have the same tokens, with the names renamed. -/
def IsRenamed (m : String → String) (header header' : Header) : Prop :=
  List.Forall₂ (Formula.IsRenamed m) header.entries header'.entries

namespace IsRenamed

variable (hm : KeepsNames m) (h : header.IsRenamed m header')

include hm h

lemma map_isAtomic_eq :
    header.entries.map Formula.isAtomic = header'.entries.map Formula.isAtomic := by
  rw [← List.forall₂_eq_eq_eq, List.forall₂_map_left_iff, List.forall₂_map_right_iff]
  exact h.imp fun f f' hf => hf.isAtomic_eq hm

lemma atomicCount_eq : header.atomicCount = header'.atomicCount := by
  rw [atomicCount, ← count_map_isAtomic, h.map_isAtomic_eq hm, count_map_isAtomic, atomicCount]

lemma blocks_eq : header.blocks = header'.blocks := by
  rw [blocks, h.map_isAtomic_eq hm, blocks]

lemma position?_eq (ts : List Token) :
    header'.position? (ts.map (Token.rename m)) = header.position? ts := by
  refine Option.ext fun column => ?_
  rw [position?_eq_some_iff, position?_eq_some_iff]
  constructor
  · rintro ⟨f', hf', hts⟩
    obtain ⟨f, hf, hrenamed⟩ := getElem?_of_forall₂ h.flip hf'
    exact ⟨f, hf, hm.rename_injective.list_map (hrenamed.symm.trans hts)⟩
  · rintro ⟨f, hf, rfl⟩
    obtain ⟨f', hf', hrenamed⟩ := getElem?_of_forall₂ h hf
    exact ⟨f', hf', hrenamed⟩

lemma lookup_eq (row : Row) (ts : List Token) :
    header'.lookup row (ts.map (Token.rename m)) = header.lookup row ts := by
  rw [lookup, lookup, h.position?_eq hm]

lemma result_evaluate_eq (row : Row) (hf : f.IsRenamed m f') :
    (TruthTables.evaluate (header'.lookup row) f'.tokens).result =
      (TruthTables.evaluate (header.lookup row) f.tokens).result.mapError (Fault.rename m) := by
  rw [hf]
  exact hm.result_evaluate_rename (h.lookup_eq hm row) f.balanced

lemma evaluate_eq_ok_iff (row : Row) (hf : f.IsRenamed m f') :
    (header.evaluate row f).result = .ok value ↔ (header'.evaluate row f').result = .ok value := by
  rw [result_evaluate, result_evaluate, h.result_evaluate_eq hm row hf]
  simp only [mapError_eq_ok_iff]

/-- The same rows. -/
lemma isRow_iff (row : List Bool) : header.IsRow number row ↔ header'.IsRow number row := by
  rw [IsRow, IsRow, h.blocks_eq hm]
  exact forall₂_congr_left h fun f f' value hf => h.evaluate_eq_ok_iff hm _ hf

/-- The same column is the first without a value. -/
lemma exists_failsAt (hfails : header.FailsAt row i e) :
    ∃ (f f' : Formula) (fault : Fault), header.entries[i]? = some f ∧
      header'.entries[i]? = some f' ∧ fault.tokens ⊆ f.tokens ∧ e = fault.inFormula f.source ∧
      header'.FailsAt row i ((fault.rename m).inFormula f'.source) := by
  obtain ⟨f, hf, hbefore, he⟩ := hfails
  obtain ⟨f', hf', hrenamed⟩ := getElem?_of_forall₂ h hf
  rw [result_evaluate, mapError_eq_error_iff] at he
  obtain ⟨fault, hfault, rfl⟩ := he
  refine ⟨f, f', fault, hf, hf', tokens_subset_of_result_eq_error hfault, rfl, f', hf', ?_, ?_⟩
  · intro g' hg'
    obtain ⟨j, hj⟩ := List.getElem?_of_mem hg'
    obtain ⟨g, hg, hrenamed⟩ := getElem?_of_forall₂ (List.forall₂_take i h).flip hj
    obtain ⟨value, hvalue⟩ := hbefore g (List.mem_of_getElem? hg)
    exact ⟨value, (h.evaluate_eq_ok_iff hm row hrenamed).1 hvalue⟩
  · rw [result_evaluate, h.result_evaluate_eq hm row hrenamed, hfault]
    rfl

end IsRenamed

end Header

/-! ### Tables -/

namespace Table

variable {limit : Limit} {header header' : Header} {table : Table}

theorem exists_build_of_isRenamed (hm : KeepsNames m) (h : header.IsRenamed m header')
    (hbuild : (build limit header).result = .ok table) :
    ∃ table', (build limit header').result = .ok table' ∧ table'.rows = table.rows := by
  obtain ⟨hroom, -, hrows⟩ := build_eq_ok_iff.1 hbuild
  refine ⟨⟨header', table.rows⟩, build_eq_ok_iff.2 ⟨?_, rfl, ?_⟩, rfl⟩
  · rwa [← h.atomicCount_eq hm]
  · rw [← h.atomicCount_eq hm]
    exact hrows.imp fun number row => (h.isRow_iff hm row).1

/-- Both headers have tables with the same rows, or both have too many variables, or both fail at
the same column. -/
theorem build_or_of_isRenamed (hm : KeepsNames m) (h : header.IsRenamed m header')
    (limit : Limit) :
    (∃ table table', (build limit header).result = .ok table ∧
      (build limit header').result = .ok table' ∧ table'.rows = table.rows) ∨
    (∃ count, (build limit header).result = .error (.tooManyVariables count limit.effective) ∧
      (build limit header').result = .error (.tooManyVariables count limit.effective)) ∨
    ∃ (i : Nat) (f f' : Formula) (fault : Fault), header.entries[i]? = some f ∧
      header'.entries[i]? = some f' ∧ fault.tokens ⊆ f.tokens ∧
      header.FailsAt (startRow header.blocks 0) i (fault.inFormula f.source) ∧
      header'.FailsAt (startRow header'.blocks 0) i ((fault.rename m).inFormula f'.source) ∧
      (build limit header).result = .error (fault.inFormula f.source) ∧
      (build limit header').result = .error ((fault.rename m).inFormula f'.source) := by
  have hcounts := h.atomicCount_eq hm
  by_cases hroom : header.atomicCount ≤ limit.effective ∧ isAllocatable header.atomicCount
  · have hroom' := hcounts ▸ hroom
    cases hbuild : (build limit header).result with
    | ok table =>
      obtain ⟨table', hbuild', hrows⟩ := exists_build_of_isRenamed hm h hbuild
      exact Or.inl ⟨table, table', rfl, hbuild', hrows⟩
    | error e =>
      obtain ⟨i, hfails⟩ := (build_eq_error_iff_failsAt hroom.1 hroom.2).1 hbuild
      obtain ⟨f, f', fault, hf, hf', htokens, rfl, hfails'⟩ := h.exists_failsAt hm hfails
      rw [h.blocks_eq hm] at hfails'
      exact Or.inr (Or.inr ⟨i, f, f', fault, hf, hf', htokens, hfails, hfails', rfl,
        (build_eq_error_iff_failsAt hroom'.1 hroom'.2).2 ⟨i, hfails'⟩⟩)
  · refine Or.inr (Or.inl ⟨header.atomicCount, result_build_of_overflow hroom, ?_⟩)
    rw [hcounts]
    exact result_build_of_overflow (hcounts ▸ hroom)

end Table

end TruthTables
