import Mend.Capped
import Mend.Damage.Content
import Mend.Damage.DamageId

set_option autoImplicit false

/-! # Damage: one destructive occurrence and the cells it took -/

namespace Mend

/-- One destructive occurrence: where it was centered, how strong it was, and every cell it
    destroyed. -/
structure Damage where
  world : WorldName
  origin : Pos
  intensity : Count
  cells : List LostCell
deriving DecidableEq, Inhabited

end Mend
