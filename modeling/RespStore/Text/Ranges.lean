import RespStore.Text.Basic

/-!
Classes of characters, given by ranges of code points.
-/

namespace RespStore

abbrev Ranges := List (Nat × Nat)

namespace Ranges

def has (rs : Ranges) (c : Char) : Bool := rs.any fun r => r.1 ≤ c.toNat && c.toNat ≤ r.2

end Ranges

end RespStore
