/-!
Sets of characters given as closed ranges of code points, in ascending order.
-/
namespace Partbook.Text

abbrev Ranges := List (Nat × Nat)

def Ranges.contains (ranges : Ranges) (c : Char) : Bool :=
  ranges.any fun range => range.1 ≤ c.toNat && c.toNat ≤ range.2

end Partbook.Text
