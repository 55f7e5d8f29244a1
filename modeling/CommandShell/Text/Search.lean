namespace CommandShell.Text

-- Whether a text occurs in another one.
def occursIn (pattern : List Char) : List Char → Bool
  | [] => pattern.isEmpty
  | c :: cs => pattern.isPrefixOf (c :: cs) || occursIn pattern cs

def startsWith (s start : String) : Bool := start.toList.isPrefixOf s.toList

def contains (s pattern : String) : Bool := occursIn pattern.toList s.toList

theorem occursIn_iff {pattern cs : List Char} : occursIn pattern cs = true ↔ pattern <:+: cs := by
  induction cs with
  | nil => simp [occursIn]
  | cons c cs ih => simp [occursIn, ih, List.infix_cons_iff]

end CommandShell.Text
