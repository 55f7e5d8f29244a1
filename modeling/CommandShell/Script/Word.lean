namespace CommandShell.Script

-- Blanks separate words within a line.
def isBlank (c : Char) : Bool :=
  c = ' ' || c = '\t' || c = '\r'

-- Characters that end a word unless they are quoted or escaped.
def isDelimiter (c : Char) : Bool :=
  isBlank c || c = ';' || c = '|' || c = '>' || c = '\x7b' || c = '\x7d'

def isQuote (c : Char) : Bool :=
  c = '\'' || c = '"'

def endsWord (c : Char) : Bool :=
  isDelimiter c || c = '\n'

def endsBare (c : Char) : Bool :=
  endsWord c || isQuote c

theorem isBlank_of_endsWord {c : Char} (hc : endsWord c = false) : isBlank c = false := by
  simp only [endsWord, isDelimiter, Bool.or_eq_false_iff] at hc
  exact hc.1.1.1.1.1.1

-- What follows a backslash, when lines may be joined there.
inductive Join where
  -- blanks and a newline, then the rest of the input
  | joined (gap rest : List Char)
  -- nothing but blanks up to the end of the input
  | unfinished
  | absent
deriving DecidableEq, Repr

def join (cs : List Char) : Join :=
  match cs.dropWhile isBlank with
  | [] => .unfinished
  | '\n' :: rest => .joined (cs.takeWhile isBlank ++ ['\n']) rest
  | _ => .absent

theorem append_of_join_joined {cs gap rest : List Char} (h : join cs = .joined gap rest) :
    gap ++ rest = cs := by
  have hs := List.takeWhile_append_dropWhile (p := isBlank) (l := cs)
  unfold join at h
  split at h
  · cases h
  · next heq =>
    cases h
    rw [heq] at hs
    simpa using hs
  · cases h

theorem length_of_join_joined {cs gap rest : List Char} (h : join cs = .joined gap rest) :
    rest.length < cs.length := by
  have ha := append_of_join_joined h
  unfold join at h
  split at h
  · cases h
  · cases h
    rw [← ha]
    simp
    omega
  · cases h

theorem forall_mem_takeWhile (test : Char → Bool) (cs : List Char) :
    ∀ c ∈ cs.takeWhile test, test c = true :=
  List.all_eq_true.1 List.all_takeWhile

theorem blanks_of_join_joined {cs gap rest : List Char} (h : join cs = .joined gap rest) :
    ∃ blanks, (∀ c ∈ blanks, isBlank c = true) ∧ gap = blanks ++ ['\n'] := by
  unfold join at h
  split at h
  · cases h
  · cases h
    exact ⟨_, forall_mem_takeWhile isBlank cs, rfl⟩
  · cases h

-- A piece read off the front of the input, and what is left.
abbrev Piece := List Char × List Char

namespace Piece

def after (front : List Char) (p : Piece) : Piece := (front ++ p.1, p.2)

end Piece

-- The rest of a quoted piece with its closing quote; `none` when the quote stays open.
def quoted (quote : Char) : List Char → Option Piece
  | [] => none
  | [c] => if c = quote then some ([c], []) else none
  | c :: d :: ds =>
    if c = quote then some ([c], d :: ds)
    else if c = '\\' ∧ quote = '"' then (quoted quote ds).map (Piece.after [c, d])
    else (quoted quote (d :: ds)).map (Piece.after [c])

-- An unquoted piece; `none` when the input ends inside an escape.
def bare : List Char → Option Piece
  | [] => some ([], [])
  | c :: cs =>
    if c = '\\' then
      match h : join cs with
      | .joined gap rest =>
        have := length_of_join_joined h
        (bare rest).map (Piece.after (c :: gap))
      | .unfinished => none
      | .absent =>
        match cs with
        | [] => none
        | d :: ds => (bare ds).map (Piece.after [c, d])
    else if endsBare c then some ([], c :: cs)
    else (bare cs).map (Piece.after [c])
termination_by cs => cs.length

-- A piece starts with the character that it was read at.
theorem head_of_append {c : Char} {cs piece rest : List Char} (hp : piece ≠ [])
    (ha : piece ++ rest = c :: cs) : ∀ d ∈ piece.head?, d = c := by
  intro d hd
  cases piece with
  | nil => exact absurd rfl hp
  | cons e more =>
    obtain rfl := Option.some.inj hd
    exact (List.cons.inj ha).1

theorem append_of_quoted {quote : Char} {cs : List Char} {p : Piece}
    (h : quoted quote cs = some p) : p.1 ++ p.2 = cs := by
  fun_induction quoted quote cs generalizing p with
  | case1 => cases h
  | case2 => cases h; rfl
  | case3 => cases h
  | case4 => cases h; rfl
  | case5 _ _ _ _ _ ih =>
    obtain ⟨q, hq, rfl⟩ := Option.map_eq_some_iff.1 h
    simp [Piece.after, ih hq]
  | case6 _ _ _ _ _ ih =>
    obtain ⟨q, hq, rfl⟩ := Option.map_eq_some_iff.1 h
    simp [Piece.after, ih hq]

theorem append_of_bare {cs : List Char} {p : Piece} (h : bare cs = some p) : p.1 ++ p.2 = cs := by
  fun_induction bare cs generalizing p with
  | case1 => cases h; rfl
  | case2 cs gap rest hj _ ih =>
    obtain ⟨q, hq, rfl⟩ := Option.map_eq_some_iff.1 h
    have ha := append_of_join_joined hj
    simp [Piece.after, ih hq, ha]
  | case3 => cases h
  | case4 => cases h
  | case5 _ _ _ ih =>
    obtain ⟨q, hq, rfl⟩ := Option.map_eq_some_iff.1 h
    simp [Piece.after, ih hq]
  | case6 => cases h; rfl
  | case7 _ _ _ _ ih =>
    obtain ⟨q, hq, rfl⟩ := Option.map_eq_some_iff.1 h
    simp [Piece.after, ih hq]

-- A bare piece that may start here takes at least one character.
theorem bare_ne_nil {c : Char} {cs : List Char} {p : Piece} (hc : endsBare c = false)
    (h : bare (c :: cs) = some p) : p.1 ≠ [] := by
  rw [bare] at h
  split at h
  · split at h
    · obtain ⟨q, _, rfl⟩ := Option.map_eq_some_iff.1 h
      simp [Piece.after]
    · cases h
    · split at h
      · cases h
      · obtain ⟨q, _, rfl⟩ := Option.map_eq_some_iff.1 h
        simp [Piece.after]
  · simp only [hc] at h
    obtain ⟨q, _, rfl⟩ := Option.map_eq_some_iff.1 h
    simp [Piece.after]

-- A bare piece goes as far as it can.
theorem endsBare_of_bare {cs : List Char} {p : Piece} (h : bare cs = some p) :
    ∀ c ∈ p.2.head?, endsBare c = true := by
  fun_induction bare cs generalizing p with
  | case1 =>
    cases h
    simp
  | case2 _ _ _ _ _ ih =>
    obtain ⟨q, hq, rfl⟩ := Option.map_eq_some_iff.1 h
    exact ih (p := q) hq
  | case3 => cases h
  | case4 => cases h
  | case5 _ _ _ ih =>
    obtain ⟨q, hq, rfl⟩ := Option.map_eq_some_iff.1 h
    exact ih (p := q) hq
  | case6 =>
    cases h
    simpa
  | case7 _ _ _ _ ih =>
    obtain ⟨q, hq, rfl⟩ := Option.map_eq_some_iff.1 h
    exact ih (p := q) hq

theorem length_of_quoted {quote : Char} {cs : List Char} {p : Piece}
    (h : quoted quote cs = some p) : p.2.length ≤ cs.length := by
  have ha := congrArg List.length (append_of_quoted h)
  simp at ha
  omega

theorem length_of_bare {c : Char} {cs : List Char} {p : Piece} (hc : endsBare c = false)
    (h : bare (c :: cs) = some p) : p.2.length < (c :: cs).length := by
  have ha := congrArg List.length (append_of_bare h)
  have hn := List.length_pos_iff.2 (bare_ne_nil hc h)
  simp at ha ⊢
  omega

-- A word in which quoted and bare pieces touch; `none` when the input ends inside a quote or an
-- escape.
def word : List Char → Option Piece
  | [] => some ([], [])
  | c :: cs =>
    if hq : isQuote c then
      match h : quoted c cs with
      | none => none
      | some (piece, rest) =>
        have := length_of_quoted h
        (word rest).map (Piece.after (c :: piece))
    else if he : endsWord c then some ([], c :: cs)
    else
      match h : bare (c :: cs) with
      | none => none
      | some (piece, rest) =>
        have := length_of_bare (by simp_all [endsBare]) h
        (word rest).map (Piece.after piece)
termination_by cs => cs.length
decreasing_by
  · exact Nat.lt_succ_of_le this
  · assumption

theorem append_of_word {cs : List Char} {p : Piece} (h : word cs = some p) : p.1 ++ p.2 = cs := by
  fun_induction word cs generalizing p with
  | case1 => cases h; rfl
  | case2 => cases h
  | case3 c cs _ piece rest hq _ ih =>
    obtain ⟨q, hq', rfl⟩ := Option.map_eq_some_iff.1 h
    have ha := append_of_quoted hq
    simp only [Piece.after, List.append_assoc, List.cons_append, ih hq'] at ha ⊢
    rw [ha]
  | case4 => cases h; rfl
  | case5 => cases h
  | case6 c cs _ _ piece rest hb _ ih =>
    obtain ⟨q, hq', rfl⟩ := Option.map_eq_some_iff.1 h
    have ha := append_of_bare hb
    simp only [Piece.after, List.append_assoc, ih hq'] at ha ⊢
    exact ha

theorem word_ne_nil {c : Char} {cs : List Char} {p : Piece} (hc : endsWord c = false)
    (h : word (c :: cs) = some p) : p.1 ≠ [] := by
  rw [word] at h
  split at h
  · split at h
    · cases h
    · obtain ⟨q, _, rfl⟩ := Option.map_eq_some_iff.1 h
      simp [Piece.after]
  · next hq =>
    simp only [hc] at h
    split at h
    · next he => cases he
    · split at h
      · cases h
      · next hb =>
        obtain ⟨q, _, rfl⟩ := Option.map_eq_some_iff.1 h
        have hne := bare_ne_nil (by simp_all [endsBare]) hb
        simp_all [Piece.after]

-- Where the quote that is still open at the end of the input was opened.  `offset` is the byte
-- offset of the input.
def openQuote (quote : Option (Char × Nat)) (offset : Nat) : List Char → Option Nat
  | [] => quote.map (·.2)
  | c :: cs =>
    match quote with
    | some (q, start) =>
      if c = q then openQuote none (offset + c.utf8Size) cs
      else if c = '\\' ∧ q = '"' then
        match cs with
        | [] => some start
        | d :: ds => openQuote quote (offset + c.utf8Size + d.utf8Size) ds
      else openQuote quote (offset + c.utf8Size) cs
    | none =>
      if isQuote c then openQuote (some (c, offset)) (offset + c.utf8Size) cs
      else if c = '\\' then
        match cs with
        | [] => none
        | d :: ds => openQuote none (offset + c.utf8Size + d.utf8Size) ds
      else openQuote none (offset + c.utf8Size) cs
termination_by cs => cs.length

end CommandShell.Script
