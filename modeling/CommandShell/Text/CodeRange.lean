namespace CommandShell.Text

-- A class of characters is an array of closed ranges of code points in increasing order.
abbrev CodeRanges := Array (Nat × Nat)

namespace CodeRanges

def contains (ranges : CodeRanges) (c : Char) : Bool :=
  ranges.any fun (first, last) => first ≤ c.toNat && c.toNat ≤ last

end CodeRanges

end CommandShell.Text
