import CommandShell.Script.Word

namespace CommandShell.Script

variable {c d : Char} {cs ds gap rest : List Char} {p : Piece}

theorem bare_of_joined (h : join cs = .joined gap rest) :
    bare ('\\' :: cs) = (bare rest).map (Piece.after ('\\' :: gap)) := by
  rw [bare, if_pos rfl]
  split
  · next hj =>
    rw [h] at hj
    cases hj
    rfl
  · next hj => simp [h] at hj
  · next hj => simp [h] at hj

theorem bare_of_absent (h : join (d :: cs) = .absent) :
    bare ('\\' :: d :: cs) = (bare cs).map (Piece.after ['\\', d]) := by
  rw [bare, if_pos rfl]
  split
  · next hj => simp [h] at hj
  · next hj => simp [h] at hj
  · rfl

theorem bare_of_endsBare (hc : endsBare c = true) : bare (c :: cs) = some ([], c :: cs) := by
  have hb : c ≠ '\\' := by
    rintro rfl
    cases hc
  rw [bare, if_neg hb, if_pos hc]

theorem bare_of_plain (hb : c ≠ '\\') (hc : endsBare c = false) :
    bare (c :: cs) = (bare cs).map (Piece.after [c]) := by
  rw [bare, if_neg hb, if_neg (by simp [hc])]

theorem word_of_quoted (hq : isQuote c = true) (h : quoted c cs = some p) :
    word (c :: cs) = (word p.2).map (Piece.after (c :: p.1)) := by
  rw [word, dif_pos hq]
  split
  · next hn => simp [h] at hn
  · next hs =>
    rw [h] at hs
    cases hs
    rfl

theorem word_of_endsWord (hc : endsWord c = true) : word (c :: cs) = some ([], c :: cs) := by
  have hq : ¬isQuote c = true := by
    intro hq
    simp only [isQuote, Bool.or_eq_true, decide_eq_true_eq] at hq
    rcases hq with rfl | rfl <;> cases hc
  rw [word, dif_neg hq, dif_pos hc]

theorem word_of_bare (hq : isQuote c = false) (hc : endsWord c = false)
    (h : bare (c :: cs) = some p) : word (c :: cs) = (word p.2).map (Piece.after p.1) := by
  rw [word, dif_neg (by simp [hq]), dif_neg (by simp [hc])]
  split
  · next hn => simp [h] at hn
  · next hs =>
    rw [h] at hs
    cases hs
    rfl

theorem plain_of_isBlank (h : isBlank c = true) : isQuote c = false ∧ c ≠ '\\' := by
  simp only [isBlank, Bool.or_eq_true, decide_eq_true_eq] at h
  rcases h with (rfl | rfl) | rfl <;> exact ⟨rfl, by decide⟩

theorem ne_nil_of_joined (h : join cs = .joined gap rest) : gap ≠ [] := by
  obtain ⟨blanks, -, rfl⟩ := blanks_of_join_joined h
  simp

-- Lines that are joined hold no quote and no escape.
theorem plain_of_joined (h : join cs = .joined gap rest) :
    ∀ c ∈ gap, isQuote c = false ∧ c ≠ '\\' := by
  obtain ⟨blanks, hblanks, rfl⟩ := blanks_of_join_joined h
  intro c hc
  rcases List.mem_append.1 hc with hc | hc
  · exact plain_of_isBlank (hblanks c hc)
  · obtain rfl := List.mem_singleton.1 hc
    exact ⟨rfl, by decide⟩

-- What is read to its end is read in the same way when the input goes on.
section Append

variable {after : List Char}

theorem dropWhile_append_of_ne_nil {test : Char → Bool} (after : List Char)
    (h : cs.dropWhile test ≠ []) : (cs ++ after).dropWhile test = cs.dropWhile test ++ after := by
  rw [List.dropWhile_append, if_neg (by simpa using h)]

theorem takeWhile_append_of_ne_nil {test : Char → Bool} (after : List Char)
    (h : cs.dropWhile test ≠ []) : (cs ++ after).takeWhile test = cs.takeWhile test := by
  have hsplit := congrArg List.length (List.takeWhile_append_dropWhile (p := test) (l := cs))
  have hpos := List.length_pos_iff.2 h
  rw [List.length_append] at hsplit
  rw [List.takeWhile_append, if_neg (by omega)]

theorem join_append_of_joined (after : List Char) (h : join cs = .joined gap rest) :
    join (cs ++ after) = .joined gap (rest ++ after) := by
  unfold join at h
  split at h
  · cases h
  · next heq =>
    cases h
    have hne : cs.dropWhile isBlank ≠ [] := by simp [heq]
    simp [join, dropWhile_append_of_ne_nil after hne, takeWhile_append_of_ne_nil after hne, heq]
  · cases h

theorem join_append_of_absent (after : List Char) (h : join cs = .absent) :
    join (cs ++ after) = .absent := by
  unfold join at h
  split at h
  · cases h
  · cases h
  · next hnil hnewline =>
    rw [join, dropWhile_append_of_ne_nil after hnil]
    cases heq : cs.dropWhile isBlank with
    | nil => exact absurd heq hnil
    | cons c rest =>
      split
      · next hs => simp at hs
      · next hs =>
        simp only [List.cons_append, List.cons.injEq] at hs
        exact absurd (hs.1 ▸ heq) (hnewline rest)
      · rfl

theorem quoted_append {quote : Char} (after : List Char) (h : quoted quote cs = some p) :
    quoted quote (cs ++ after) = some (p.1, p.2 ++ after) := by
  fun_induction quoted quote cs generalizing p with
  | case1 => cases h
  | case2 =>
    cases h
    cases after <;> simp [quoted]
  | case3 => cases h
  | case4 =>
    cases h
    simp [quoted]
  | case5 c d tail hc hb ih =>
    obtain ⟨q, hq, rfl⟩ := Option.map_eq_some_iff.1 h
    rw [List.cons_append, List.cons_append, quoted, if_neg hc, if_pos hb, ih hq]
    rfl
  | case6 c d tail hc hb ih =>
    obtain ⟨q, hq, rfl⟩ := Option.map_eq_some_iff.1 h
    have ht := ih hq
    rw [List.cons_append] at ht
    rw [List.cons_append, List.cons_append, quoted, if_neg hc, if_neg hb, ht]
    rfl

-- A bare piece goes on unless what follows ends it.
theorem bare_append (ha : ∀ c ∈ after.head?, endsBare c = true) (h : bare cs = some p) :
    bare (cs ++ after) = some (p.1, p.2 ++ after) := by
  fun_induction bare cs generalizing p with
  | case1 =>
    cases h
    cases after with
    | nil => exact bare.eq_1
    | cons c cs => exact bare_of_endsBare (ha c rfl)
  | case2 cs gap rest hj _ ih =>
    obtain ⟨q, hq, rfl⟩ := Option.map_eq_some_iff.1 h
    rw [List.cons_append, bare_of_joined (join_append_of_joined after hj), ih hq]
    rfl
  | case3 => cases h
  | case4 => cases h
  | case5 d tail hj ih =>
    obtain ⟨q, hq, rfl⟩ := Option.map_eq_some_iff.1 h
    have hj' := join_append_of_absent after hj
    rw [List.cons_append] at hj'
    rw [List.cons_append, List.cons_append, bare_of_absent hj', ih hq]
    rfl
  | case6 c cs hb hc =>
    cases h
    exact bare_of_endsBare hc
  | case7 c cs hb hc ih =>
    obtain ⟨q, hq, rfl⟩ := Option.map_eq_some_iff.1 h
    rw [List.cons_append, bare_of_plain hb (by simpa using hc), ih hq]
    rfl

theorem word_append (ha : ∀ c ∈ after.head?, endsWord c = true) (h : word cs = some p) :
    word (cs ++ after) = some (p.1, p.2 ++ after) := by
  have hb : ∀ c ∈ after.head?, endsBare c = true := fun c hc => by simp [endsBare, ha c hc]
  fun_induction word cs generalizing p with
  | case1 =>
    cases h
    cases after with
    | nil => exact word.eq_1
    | cons c cs => exact word_of_endsWord (ha c rfl)
  | case2 => cases h
  | case3 c cs hc piece rest hq _ ih =>
    obtain ⟨q, hw, rfl⟩ := Option.map_eq_some_iff.1 h
    rw [List.cons_append, word_of_quoted hc (quoted_append after hq), ih hw]
    rfl
  | case4 c cs _ hc =>
    cases h
    exact word_of_endsWord hc
  | case5 => cases h
  | case6 c cs hc he piece rest hbare _ ih =>
    obtain ⟨q, hw, rfl⟩ := Option.map_eq_some_iff.1 h
    have happend := bare_append hb hbare
    rw [List.cons_append] at happend
    rw [List.cons_append, word_of_bare (by simpa using hc) (by simpa using he) happend, ih hw]
    rfl

end Append

-- The input goes on in a line of its own.
section Newline

theorem takeWhile_append_newline (test : Char → Bool) (cs ds : List Char)
    (h : test '\n' = false) :
    (cs ++ '\n' :: ds).takeWhile test = cs.takeWhile test := by
  induction cs with
  | nil => simp [h]
  | cons c cs ih => cases hc : test c <;> simp [hc, ih]

theorem dropWhile_append_newline (test : Char → Bool) (cs ds : List Char)
    (h : test '\n' = false) :
    (cs ++ '\n' :: ds).dropWhile test = cs.dropWhile test ++ '\n' :: ds := by
  induction cs with
  | nil => simp [h]
  | cons c cs ih => cases hc : test c <;> simp [hc, ih]

theorem bare_append_newline (ds : List Char) (h : bare cs = some p) :
    bare (cs ++ '\n' :: ds) = some (p.1, p.2 ++ '\n' :: ds) :=
  bare_append (fun c hc => by rw [← Option.some.inj hc]; rfl) h

theorem word_append_newline (ds : List Char) (h : word cs = some p) :
    word (cs ++ '\n' :: ds) = some (p.1, p.2 ++ '\n' :: ds) :=
  word_append (fun c hc => by rw [← Option.some.inj hc]; rfl) h

end Newline

end CommandShell.Script
