import TruthTables.Proofs.Blank
import TruthTables.Proofs.Header
import TruthTables.Proofs.Renaming

/-!
# Spelling of columns

The rows of a table depend on the tokens of its columns and on nothing else in their texts. Main
statement: blank characters at the ends of the texts can be left out.
-/

namespace TruthTables

variable {limit : Limit} {header header' : Header} {table : Table}

namespace Header

/-- The columns have the same tokens, however these are spelled. -/
def IsRespelling (header header' : Header) : Prop :=
  header.entries.map Formula.tokens = header'.entries.map Formula.tokens

/-- No name is renamed. -/
lemma IsRespelling.isRenamed (h : header.IsRespelling header') : header.IsRenamed id header' := by
  rw [IsRespelling, ← List.forall₂_eq_eq_eq, List.forall₂_map_left_iff,
    List.forall₂_map_right_iff] at h
  refine h.imp fun f f' htokens => ?_
  rw [Formula.IsRenamed, Token.rename_id, List.map_id, htokens]

end Header

namespace Formula

/-- The formula without blank characters at its ends. -/
def trimmed (f : Formula) : Formula where
  source := trimText f.source
  tokens := f.tokens
  tokens_eq := by rw [tokenize_trimText, f.tokens_eq]
  ne_nil := f.ne_nil
  balanced := f.balanced

end Formula

namespace Header

def trimmed (header : Header) : Header where
  entries := header.entries.map Formula.trimmed
  distinct := List.pairwise_map.2 header.distinct

lemma isRespelling_trimmed (header : Header) : header.IsRespelling header.trimmed := by
  rw [IsRespelling, trimmed, List.map_map]
  rfl

lemma ofTexts_map_trimText (header : Header) :
    ofTexts (header.names.map trimText) = .ok header.trimmed := by
  rw [ofTexts_eq_ok_iff, names, names, trimmed, List.map_map, List.map_map]
  rfl

end Header

namespace Table

lemma exists_ofTexts_trimText (hbuild : (build limit header).result = .ok table) :
    ∃ table', (ofTexts limit (header.names.map trimText)).result = .ok table' ∧
      table'.rows = table.rows := by
  rw [result_ofTexts header.ofTexts_map_trimText]
  have hrenamed := header.isRespelling_trimmed.isRenamed
  exact exists_build_of_isRenamed keepsNames_id hrenamed hbuild

end Table

end TruthTables
