import Protowire.Proofs.Schema
import Protowire.Vision.Schema

/-!
The schema of the product-search service is well formed, so that whatever holds of well-formed
schemas holds of its messages.
-/

namespace Protowire.Vision

theorem schema_wellFormed : schema.WellFormed := by decide +kernel

theorem id_lt_size (t : TypeName) : t.id < schema.types.size := by
  cases t <;> decide

end Protowire.Vision
