import Mend.Text.Bytes
import Mend.Yaml.Cursor

set_option autoImplicit false

/-! # Room for scalars

The text of a scalar is gathered in a store of bytes that grows with the characters put into it.
Space that comes before them is put in as a whole: it must fit into what is left of the store, and
where it does not, reading stops for good. -/

namespace Mend

namespace Yaml

/-- Why a text is not read to its end. -/
inductive Fault where
  /-- It breaks the rules. -/
  | malformed
  /-- The space inside a scalar does not fit. No caller can go on after that. -/
  | noRoom
deriving DecidableEq, Inhabited

/-- The store for the text of one scalar. -/
structure Room where
  used : Nat
  size : Nat
deriving DecidableEq, Inhabited

namespace Room

/-- The store before the first character. -/
def start : Room := ⟨0, 16⟩

/-- Put a character in. The store doubles before fewer than six bytes are left. -/
def put (r : Room) (c : Char) : Room :=
  ⟨r.used + c.utf8Size, if r.size ≤ r.used + 5 then 2 * r.size else r.size⟩

/-- Put characters in as a whole, if they fit. -/
def fit? (r : Room) (cs : List Char) : Option Room :=
  let used := r.used + byteCount cs
  if used ≤ r.size then some { r with used } else none

end Room

end Yaml

end Mend
