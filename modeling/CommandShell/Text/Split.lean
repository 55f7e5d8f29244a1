namespace CommandShell.Text

-- The parts of a text between separators; one more part than there are separators.
def splitAtChar (separator : Char) : List Char → List (List Char)
  | [] => [[]]
  | c :: cs =>
    match splitAtChar separator cs with
    | [] => [[c]]
    | part :: rest => if c = separator then [] :: part :: rest else (c :: part) :: rest

-- What stands before and after the first separator, if there is one.
def splitOnce (separator : Char) : List Char → Option (List Char × List Char)
  | [] => none
  | c :: cs =>
    if c = separator then some ([], cs)
    else (splitOnce separator cs).map fun (before, after) => (c :: before, after)

theorem length_of_splitOnce {c : Char} {cs before after : List Char}
    (h : splitOnce c cs = some (before, after)) : after.length < cs.length := by
  induction cs generalizing before after with
  | nil => cases h
  | cons d ds ih =>
    simp only [splitOnce] at h
    split at h
    · cases h
      simp
    · obtain ⟨q, hq, he⟩ := Option.map_eq_some_iff.1 h
      cases he
      have hl := @ih q.1 q.2 hq
      simp
      omega

def splitString (separator : Char) (s : String) : List String :=
  (splitAtChar separator s.toList).map String.ofList

private def dropReturn (line : List Char) : List Char :=
  if line.getLast? = some '\r' then line.dropLast else line

-- The lines of a text without their ends; a last line need not have one.
def lines (s : String) : List String :=
  let parts := splitAtChar '\n' s.toList
  let last := (parts.getLast?).getD []
  (parts.dropLast.map dropReturn ++ if last.isEmpty then [] else [last]).map String.ofList

end CommandShell.Text
