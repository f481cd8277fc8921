/-!
# Signed positions

An index may count from the end: `-1` is the last place. A single place must exist; the ends of a
range are moved to the nearest place that does.
-/

namespace EmbeddedTcl

/-- The place that a signed index names among `size` places. -/
def place? (size : Nat) (i : Int) : Option Nat :=
  let j := if i < 0 then i + size else i
  if 0 ≤ j ∧ j < size then some j.toNat else none

/-- The end of a range that a signed index names among `size` places. -/
def bound (size : Nat) (i : Int) : Nat :=
  min (if i < 0 then i + size else i).toNat size

end EmbeddedTcl
