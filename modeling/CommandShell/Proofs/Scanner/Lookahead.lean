import CommandShell.Proofs.Grammar.Arguments
import CommandShell.Proofs.Scanner.Word
import Mathlib.Data.List.DropRight

namespace CommandShell.Script

variable {c d : Char} {cs ds front gap rest rest' : List Char} {p : Piece}

section Heads

variable {α : Type} {test : α → Bool} {front rest : List α}

theorem takeWhile_of_head (hf : ∀ x ∈ front, test x = true)
    (hr : ∀ x ∈ rest.head?, test x = false) : (front ++ rest).takeWhile test = front := by
  rw [List.takeWhile_append_of_pos hf]
  cases rest with
  | nil => simp
  | cons c rest => simp [hr c rfl]

theorem dropWhile_of_head (hf : ∀ x ∈ front, test x = true)
    (hr : ∀ x ∈ rest.head?, test x = false) : (front ++ rest).dropWhile test = rest := by
  rw [List.dropWhile_append_of_pos hf]
  cases rest with
  | nil => rfl
  | cons c rest => simp [hr c rfl]

end Heads

theorem not_of_head_dropWhile (test : Char → Bool) (cs : List Char) :
    ∀ c ∈ (cs.dropWhile test).head?, test c = false := by
  intro c hc
  have hd := List.head?_dropWhile_not test cs
  rw [Option.mem_def.1 hc] at hd
  simpa using hd

theorem join_of_blanks {blanks : List Char} (hb : ∀ c ∈ blanks, isBlank c = true)
    (rest : List Char) : join (blanks ++ ['\n'] ++ rest) = .joined (blanks ++ ['\n']) rest := by
  have hn : ∀ c ∈ ('\n' :: rest).head?, isBlank c = false := by
    intro c hc
    obtain rfl := Option.some.inj hc
    rfl
  have htake := takeWhile_of_head hb hn
  have hdrop := dropWhile_of_head hb hn
  rw [List.append_assoc, List.singleton_append, join, hdrop]
  simp only [htake]

theorem join_of_joined (h : join cs = .joined gap rest) (rest' : List Char) :
    join (gap ++ rest') = .joined gap rest' := by
  obtain ⟨blanks, hb, rfl⟩ := blanks_of_join_joined h
  exact join_of_blanks hb rest'

theorem exists_cons_of_append (hn : front ≠ []) (h : front ++ rest = c :: cs) :
    ∃ more, front = c :: more ∧ cs = more ++ rest := by
  cases front with
  | nil => exact absurd rfl hn
  | cons d more =>
    obtain ⟨rfl, rfl⟩ := List.cons.inj h
    exact ⟨more, rfl, rfl⟩

theorem exists_of_word (hc : endsWord c = false) (h : word (c :: cs) = some (front, rest)) :
    ∃ more, front = c :: more ∧ cs = more ++ rest :=
  exists_cons_of_append (word_ne_nil hc h) (append_of_word h)

theorem exists_of_bare (hc : endsBare c = false) (h : bare (c :: cs) = some (front, rest)) :
    ∃ more, front = c :: more ∧ cs = more ++ rest :=
  exists_cons_of_append (bare_ne_nil hc h) (append_of_bare h)

-- Lines are joined in front of a blank or not at all, whatever stands behind other characters.
theorem join_absent_of_mem (hf : ∃ c ∈ front, isBlank c = false)
    (h : join (front ++ rest) = .absent) (rest' : List Char) : join (front ++ rest') = .absent := by
  have hne : front.dropWhile isBlank ≠ [] := by
    obtain ⟨c, hc, hb⟩ := hf
    intro hn
    simp [List.dropWhile_eq_nil_iff.1 hn c hc] at hb
  obtain ⟨c, tail, hd⟩ := List.exists_cons_of_ne_nil hne
  have hdrop (rest : List Char) : (front ++ rest).dropWhile isBlank = c :: (tail ++ rest) := by
    rw [dropWhile_append_of_ne_nil rest hne, hd, List.cons_append]
  have hc : c ≠ '\n' := by
    rintro rfl
    simp [join, hdrop] at h
  rw [join, hdrop]
  split
  · next hs => cases hs
  · next hs => exact absurd (List.cons.inj hs).1 hc
  · rfl

-- Two texts of which either both go on and begin alike, or the second one is at its end.  A
-- construct that ends in front of the first one ends in front of the second one.  An escape at the
-- end of the construct must not become a line join that goes on.
structure EndsAlike (cs rest rest' : List Char) : Prop where
  head : ∀ c ∈ rest'.head?, rest.head? = some c
  escape : ∀ d, '\\' :: d :: rest <:+ cs → join (d :: rest) = .absent → join (d :: rest') = .absent

theorem EndsAlike.of_suffix (h : EndsAlike ds rest rest') (hs : cs <:+ ds) :
    EndsAlike cs rest rest' :=
  ⟨h.head, fun d hd => h.escape d (hd.trans hs)⟩

-- More text in front that is not all blanks.
theorem EndsAlike.append (h : EndsAlike cs rest rest')
    (hf : front = [] ∨ ∃ c ∈ front, isBlank c = false) :
    EndsAlike cs (front ++ rest) (front ++ rest') := by
  rcases hf with rfl | hf
  · exact h
  · refine ⟨?_, fun d _ hd => ?_⟩
    · obtain ⟨c, hc, -⟩ := hf
      cases front with
      | nil => cases hc
      | cons e more => exact fun _ hd => hd
    · obtain ⟨c, hc, hb⟩ := hf
      exact join_absent_of_mem ⟨c, List.mem_cons_of_mem d hc, hb⟩ hd rest'

theorem EndsAlike.eq_nil_or_cons (h : EndsAlike cs rest rest') :
    rest' = [] ∨ ∃ c tail tail', rest = c :: tail ∧ rest' = c :: tail' := by
  cases rest' with
  | nil => exact .inl rfl
  | cons c tail' =>
    have hc := h.head c rfl
    cases rest with
    | nil => cases hc
    | cons d tail =>
      obtain rfl := Option.some.inj hc
      exact .inr ⟨d, tail, tail', rfl, rfl⟩

-- What the end of a construct can tell of the text behind it.
structure Resembles (rest rest' : List Char) : Prop where
  head : rest'.head? = rest.head?
  join : join rest = .absent → join rest' = .absent

theorem join_absent_of_resembles (front : List Char) (hr : Resembles rest rest')
    (h : join (front ++ rest) = .absent) :
    join (front ++ rest') = .absent := by
  by_cases hf : ∃ c ∈ front, isBlank c = false
  · exact join_absent_of_mem hf h rest'
  · have hd : front.dropWhile isBlank = [] := by simpa [List.dropWhile_eq_nil_iff] using hf
    have hblank (rest : List Char) : join (front ++ rest) = .absent ↔ join rest = .absent := by
      have hdrop : (front ++ rest).dropWhile isBlank = rest.dropWhile isBlank := by
        rw [List.dropWhile_append, hd]
        rfl
      simp only [join, hdrop]
      split <;> simp
    exact (hblank rest').2 (hr.join ((hblank rest).1 h))

theorem Resembles.append (hr : Resembles rest rest') (front : List Char) :
    Resembles (front ++ rest) (front ++ rest') := by
  refine ⟨?_, join_absent_of_resembles front hr⟩
  cases front with
  | nil => exact hr.head
  | cons c front => rfl

theorem Resembles.endsAlike (hr : Resembles rest rest') (cs : List Char) :
    EndsAlike cs rest rest' :=
  ⟨fun _ hc => hr.head ▸ hc, fun d _ => (hr.append [d]).join⟩

-- A closing quote ends a quoted piece whatever follows it.
theorem quoted_before {quote : Char} (h : quoted quote cs = some p) (rest : List Char) :
    quoted quote (p.1 ++ rest) = some (p.1, rest) := by
  have hone : quoted quote ([quote] ++ rest) = some ([quote], rest) := by
    cases rest <;> simp [quoted]
  fun_induction quoted quote cs generalizing p with
  | case1 => cases h
  | case2 =>
    cases h
    exact hone
  | case3 => cases h
  | case4 =>
    cases h
    exact hone
  | case5 c d ds hc hb ih =>
    obtain ⟨q, hq, rfl⟩ := Option.map_eq_some_iff.1 h
    simp only [Piece.after, List.cons_append, List.nil_append]
    rw [quoted, if_neg hc, if_pos hb, ih hq]
    rfl
  | case6 c d ds hc hb ih =>
    obtain ⟨q, hq, rfl⟩ := Option.map_eq_some_iff.1 h
    have hr := ih hq
    have hn : ∃ e es, q.1 ++ rest = e :: es ∧ ¬(c = '\\' ∧ quote = '"') := by
      cases hs : q.1 ++ rest with
      | nil =>
        rw [hs] at hr
        cases hr
      | cons e es => exact ⟨e, es, rfl, hb⟩
    obtain ⟨e, es, hs, hb'⟩ := hn
    rw [hs] at hr
    simp only [Piece.after, List.cons_append, List.nil_append, hs]
    rw [quoted, if_neg hc, if_neg hb', hr]
    rfl

-- A piece does not start with a character that ends pieces.
theorem endsBare_of_head_bare (h : bare cs = some p) : ∀ c ∈ p.1.head?, endsBare c = false := by
  intro c hc
  cases cs with
  | nil =>
    rw [bare] at h
    cases h
    cases hc
  | cons d ds =>
    by_cases hd : endsBare d = true
    · rw [bare_of_endsBare hd] at h
      cases h
      cases hc
    · have hd' : endsBare d = false := by simpa using hd
      rwa [head_of_append (bare_ne_nil hd' h) (append_of_bare h) c hc]

theorem endsWord_of_head_word (h : word cs = some p) : ∀ c ∈ p.1.head?, endsWord c = false := by
  intro c hc
  cases cs with
  | nil =>
    rw [word] at h
    cases h
    cases hc
  | cons d ds =>
    by_cases hd : endsWord d = true
    · rw [word_of_endsWord hd] at h
      cases h
      cases hc
    · have hd' : endsWord d = false := by simpa using hd
      rwa [head_of_append (word_ne_nil hd' h) (append_of_word h) c hc]

theorem isBlank_of_endsBare (hc : endsBare c = false) : isBlank c = false := by
  simp only [endsBare, Bool.or_eq_false_iff] at hc
  exact isBlank_of_endsWord hc.1

-- Text that is empty or starts with anything but a blank.
theorem eq_nil_or_mem_of_head (hh : ∀ c ∈ front.head?, isBlank c = false) :
    front = [] ∨ ∃ c ∈ front, isBlank c = false := by
  cases front with
  | nil => exact .inl rfl
  | cons c more => exact .inr ⟨c, List.mem_cons_self .., hh c rfl⟩

-- A bare piece ends in front of every text that ends alike.
theorem bare_before (h : bare cs = some p) (hr : EndsAlike cs p.2 rest') :
    bare (p.1 ++ rest') = some (p.1, rest') := by
  fun_induction bare cs generalizing p with
  | case1 =>
    cases h
    rcases hr.eq_nil_or_cons with rfl | ⟨c, tail, tail', hn, -⟩
    · exact bare.eq_1
    · cases hn
  | case2 cs gap rest hj _ ih =>
    obtain ⟨q, hq, rfl⟩ := Option.map_eq_some_iff.1 h
    have hj' := join_of_joined hj (q.1 ++ rest')
    have hs : rest <:+ '\\' :: cs := by
      rw [← append_of_join_joined hj]
      exact List.suffix_append ('\\' :: gap) rest
    simp only [Piece.after, List.cons_append, List.append_assoc]
    rw [bare_of_joined hj', ih hq (hr.of_suffix hs)]
    rfl
  | case3 => cases h
  | case4 => cases h
  | case5 d ds hj ih =>
    obtain ⟨q, hq, rfl⟩ := Option.map_eq_some_iff.1 h
    have hds := append_of_bare hq
    have hblank := eq_nil_or_mem_of_head fun c hc =>
      isBlank_of_endsBare (endsBare_of_head_bare hq c hc)
    have hs : ds <:+ '\\' :: d :: ds := List.suffix_append ['\\', d] ds
    have hj' : join (d :: (q.1 ++ rest')) = .absent := by
      refine (hr.append hblank).escape d ?_ ?_
      · simp only [Piece.after, hds]
        exact List.suffix_rfl
      · simp only [Piece.after, hds]
        exact hj
    simp only [Piece.after, List.cons_append, List.nil_append]
    rw [bare_of_absent hj', ih hq (hr.of_suffix hs)]
    rfl
  | case6 c cs hb hc =>
    cases h
    rcases hr.eq_nil_or_cons with rfl | ⟨d, tail, tail', hn, rfl⟩
    · exact bare.eq_1
    · obtain ⟨rfl, rfl⟩ := List.cons.inj hn
      exact bare_of_endsBare hc
  | case7 c cs hb hc ih =>
    obtain ⟨q, hq, rfl⟩ := Option.map_eq_some_iff.1 h
    simp only [Piece.after, List.cons_append, List.nil_append]
    rw [bare_of_plain hb (by simpa using hc), ih hq (hr.of_suffix (List.suffix_cons c cs))]
    rfl

theorem word_before (h : word cs = some p) (hr : EndsAlike cs p.2 rest') :
    word (p.1 ++ rest') = some (p.1, rest') := by
  fun_induction word cs generalizing p with
  | case1 =>
    cases h
    rcases hr.eq_nil_or_cons with rfl | ⟨c, tail, tail', hn, -⟩
    · exact word.eq_1
    · cases hn
  | case2 => cases h
  | case3 c cs hc piece rest hq _ ih =>
    obtain ⟨q, hw, rfl⟩ := Option.map_eq_some_iff.1 h
    have hquoted := quoted_before hq (q.1 ++ rest')
    have hs : rest <:+ c :: cs := by
      rw [← append_of_quoted hq]
      exact List.suffix_append (c :: piece) rest
    simp only [Piece.after, List.cons_append, List.append_assoc]
    rw [word_of_quoted hc hquoted, ih hw (hr.of_suffix hs)]
    rfl
  | case4 c cs _ hc =>
    cases h
    rcases hr.eq_nil_or_cons with rfl | ⟨d, tail, tail', hn, rfl⟩
    · exact word.eq_1
    · obtain ⟨rfl, rfl⟩ := List.cons.inj hn
      exact word_of_endsWord hc
  | case5 => cases h
  | case6 c cs hc he piece rest hbare _ ih =>
    obtain ⟨q, hw, rfl⟩ := Option.map_eq_some_iff.1 h
    have hc' : isQuote c = false := by simpa using hc
    have he' : endsWord c = false := by simpa using he
    have hblank := eq_nil_or_mem_of_head fun d hd =>
      isBlank_of_endsWord (endsWord_of_head_word hw d hd)
    have hs : rest <:+ c :: cs := by
      rw [← append_of_bare hbare]
      exact List.suffix_append piece rest
    have hlook : EndsAlike (c :: cs) rest (q.1 ++ rest') := by
      rw [← append_of_word hw]
      exact hr.append hblank
    have hb := bare_before hbare hlook
    obtain ⟨more, rfl, -⟩ := exists_of_bare (by simp [endsBare, hc', he']) hbare
    simp only [Piece.after, List.append_assoc, List.cons_append] at hb ⊢
    rw [word_of_bare hc' he' hb, ih hw (hr.of_suffix hs)]
    rfl

-- Redirections look further ahead than a word: to the end of a shell command, and to what stands
-- behind the name of a file.
structure Token.SameBehind (t : Token) (rest rest' : List Char) : Prop where
  shell : t.kind = .shellRedirection →
    rest'.takeWhile (fun c => c ≠ ';' && c ≠ '\n') = rest.takeWhile fun c => c ≠ ';' && c ≠ '\n'
  file : t.kind = .fileRedirection →
    (rest'.dropWhile isBlank).head? = (rest.dropWhile isBlank).head?

-- How far ahead a redirection looks, when the text behind it may also be shorter.
structure Token.EndsAlike (t : Token) (rest rest' : List Char) : Prop where
  shell : t.kind = .shellRedirection → rest'.takeWhile (fun c => c ≠ ';' && c ≠ '\n') <+:
    rest.takeWhile fun c => c ≠ ';' && c ≠ '\n'
  file : t.kind = .fileRedirection →
    ∀ c ∈ (rest'.dropWhile isBlank).head?, (rest.dropWhile isBlank).head? = some c

theorem Token.SameBehind.endsAlike {t : Token} (h : t.SameBehind rest rest') :
    t.EndsAlike rest rest' :=
  ⟨fun hk => h.shell hk ▸ List.prefix_rfl, fun hk _ hc => h.file hk ▸ hc⟩

-- What follows a shell command up to where it could go on is white space, and less of it is too.
theorem trimEnd_append_of_spaces {body text front more : List Char} (ht : Text.trimEnd body = text)
    (hb : text ++ more = body) (hp : front <+: more) : Text.trimEnd (text ++ front) = text := by
  subst ht
  have hmore : ∀ c ∈ more, Text.isWhiteSpace c = true := by
    intro c hc
    have hall : Text.trimEnd body ++ (body.reverse.takeWhile Text.isWhiteSpace).reverse =
        Text.trimEnd body ++ more := by
      rw [hb, Text.trimEnd, ← List.reverse_append, List.takeWhile_append_dropWhile,
        List.reverse_reverse]
    rw [← List.append_cancel_left hall, List.mem_reverse] at hc
    exact forall_mem_takeWhile _ _ c hc
  have hfront : ∀ c ∈ front.reverse, Text.isWhiteSpace c = true := fun c hc =>
    hmore c (hp.subset (List.mem_reverse.1 hc))
  rw [Text.trimEnd, List.reverse_append, List.dropWhile_append_of_pos hfront, Text.trimEnd,
    List.reverse_reverse, List.dropWhile_idempotent]

end CommandShell.Script
