import CommandShell.Proofs.Scanner.Faults
import CommandShell.Proofs.Scanner.Lookahead

namespace CommandShell.Script

open Text (width)

-- Pieces in front of the rest of a word, each of them complete.  Quotes that are escaped, or that
-- stand between other quotes, are inside of a piece.
inductive Complete (rest : List Char) : List Char → Prop where
  | nil : Complete rest []
  | quote {c : Char} {body more : List Char} (opens : isQuote c = true)
      (closed : quoted c (body ++ (more ++ rest)) = some (body, more ++ rest))
      (later : Complete rest more) : Complete rest (c :: (body ++ more))
  | bare {c : Char} {body more : List Char} (plain : endsBare c = false)
      (ended : bare (c :: (body ++ (more ++ rest))) = some (c :: body, more ++ rest))
      (later : Complete rest more) : Complete rest (c :: (body ++ more))

-- A quote character of a word, read outside of quotes, with no closing quote behind it.
def OpensAt (offset : Nat) (cs : List Char) (start : Nat) (q : Char) : Prop :=
  isQuote q = true ∧ ∃ before after, cs = before ++ q :: after ∧ Complete (q :: after) before ∧
    start = offset + width before ∧ quoted q after = none

-- The same in the word of a construct, behind the sign of a redirection and blanks.
def OpensBehind (offset : Nat) (cs : List Char) (start : Nat) (q : Char) : Prop :=
  ∃ signs word, cs = signs ++ word ∧ (∀ c ∈ signs, endsWord c = true) ∧
    OpensAt (offset + width signs) word start q

-- The same in what a scanner has not taken, behind all the text that it has.
def Scanner.LeavesOpen (s : Scanner) (start : Nat) (q : Char) : Prop :=
  ∃ taken, s.source.toList = taken ++ s.rest ∧ OpensBehind (width taken) s.rest start q

section OpenQuote

variable {offset start start' : Nat} {c q q' : Char} {front cs ds gap rest : List Char} {p : Piece}

theorem OpensAt.of_quoted (hc : isQuote c = true) (h : quoted c cs = none) :
    OpensAt offset (c :: cs) offset c :=
  ⟨hc, [], cs, rfl, .nil, rfl, h⟩

theorem OpensAt.behind_quoted (hc : isQuote c = true)
    (hq : quoted c (front ++ cs) = some (front, cs))
    (h : OpensAt (offset + width (c :: front)) cs start q) :
    OpensAt offset (c :: (front ++ cs)) start q := by
  obtain ⟨hopens, before, after, rfl, hcomplete, rfl, hn⟩ := h
  exact ⟨hopens, c :: (front ++ before), after, by simp, .quote hc hq hcomplete,
    by simp [Text.width_append, Nat.add_assoc], hn⟩

theorem OpensAt.behind_bare (hc : endsBare c = false)
    (hb : bare (c :: (front ++ cs)) = some (c :: front, cs))
    (h : OpensAt (offset + width (c :: front)) cs start q) :
    OpensAt offset (c :: (front ++ cs)) start q := by
  obtain ⟨hopens, before, after, rfl, hcomplete, rfl, hn⟩ := h
  exact ⟨hopens, c :: (front ++ before), after, by simp, .bare hc hb hcomplete,
    by simp [Text.width_append, Nat.add_assoc], hn⟩

theorem OpensAt.behind_nothing (h : OpensAt offset cs start q) : OpensBehind offset cs start q :=
  ⟨[], cs, rfl, by simp, h⟩

theorem OpensAt.endsWord_head (h : OpensAt offset cs start q) :
    ∃ c rest, cs = c :: rest ∧ endsWord c = false := by
  obtain ⟨hq, before, after, rfl, hcomplete, -, -⟩ := h
  have hquote {c : Char} (hc : isQuote c = true) : endsWord c = false := by
    simp only [isQuote, Bool.or_eq_true, decide_eq_true_eq] at hc
    rcases hc with rfl | rfl <;> decide
  cases hcomplete with
  | nil => exact ⟨q, after, rfl, hquote hq⟩
  | quote opens => exact ⟨_, _, rfl, hquote opens⟩
  | bare plain =>
    simp only [endsBare, Bool.or_eq_false_iff] at plain
    exact ⟨_, _, rfl, plain.1⟩

theorem openQuote_nil (quote : Option (Char × Nat)) :
    openQuote quote offset [] = quote.map (·.2) := by
  rw [openQuote]

theorem openQuote_closing (cs : List Char) :
    openQuote (some (q, start)) offset (q :: cs) = openQuote none (offset + q.utf8Size) cs := by
  rw [openQuote.eq_def]
  exact if_pos rfl

theorem openQuote_opening (hq : isQuote q = true) (cs : List Char) :
    openQuote none offset (q :: cs) = openQuote (some (q, offset)) (offset + q.utf8Size) cs := by
  rw [openQuote.eq_def]
  exact if_pos hq

theorem openQuote_plain (hq : isQuote c = false) (hb : c ≠ '\\') (cs : List Char) :
    openQuote none offset (c :: cs) = openQuote none (offset + c.utf8Size) cs := by
  rw [openQuote.eq_def]
  simp [hq, hb]

theorem openQuote_backslash (d : Char) (ds : List Char) :
    openQuote none offset ('\\' :: d :: ds) = openQuote none (offset + width ['\\', d]) ds := by
  rw [openQuote, if_neg (by decide), if_pos rfl]
  simp [Nat.add_assoc]

theorem openQuote_append (h : ∀ c ∈ front, isQuote c = false ∧ c ≠ '\\') :
    openQuote none offset (front ++ cs) = openQuote none (offset + width front) cs := by
  induction front generalizing offset with
  | nil => rfl
  | cons c front ih =>
    obtain ⟨⟨hq, hb⟩, hrest⟩ := List.forall_mem_cons.1 h
    rw [List.cons_append, openQuote_plain hq hb, ih hrest, Text.width_cons, Nat.add_assoc]

theorem openQuote_of_quoted_eq_none (h : quoted q cs = none) :
    openQuote (some (q, start)) offset cs = some start := by
  fun_induction quoted q cs generalizing offset with
  | case1 => exact openQuote_nil _
  | case2 => cases h
  | case3 c hc =>
    rw [openQuote, if_neg hc]
    split
    · rfl
    · exact openQuote_nil _
  | case4 => cases h
  | case5 c d ds hc hb ih =>
    rw [openQuote, if_neg hc, if_pos hb]
    exact ih (Option.map_eq_none_iff.1 h)
  | case6 c d ds hc hb ih =>
    rw [openQuote, if_neg hc, if_neg hb]
    exact ih (Option.map_eq_none_iff.1 h)

-- Behind a closing quote, open quotes are looked for as at the beginning.
theorem openQuote_of_quoted (h : quoted q cs = some p) :
    openQuote (some (q, start)) offset cs = openQuote none (offset + width p.1) p.2 := by
  fun_induction quoted q cs generalizing offset p with
  | case1 => cases h
  | case2 =>
    cases h
    exact openQuote_closing []
  | case3 => cases h
  | case4 d ds =>
    cases h
    exact openQuote_closing (d :: ds)
  | case5 c d ds hc hb ih =>
    obtain ⟨p, hp, rfl⟩ := Option.map_eq_some_iff.1 h
    rw [openQuote, if_neg hc, if_pos hb, ih hp]
    simp [Piece.after, Nat.add_assoc]
  | case6 c d ds hc hb ih =>
    obtain ⟨p, hp, rfl⟩ := Option.map_eq_some_iff.1 h
    rw [openQuote, if_neg hc, if_neg hb, ih hp]
    simp [Piece.after, Nat.add_assoc]

theorem plain_of_endsBare (h : ¬endsBare c = true) : isQuote c = false := by
  simp only [endsBare, Bool.or_eq_true, not_or, Bool.not_eq_true] at h
  exact h.2

-- Lines that are joined hold no quote.
theorem openQuote_of_joined (h : join cs = .joined gap rest) :
    openQuote none offset ('\\' :: cs) = openQuote none (offset + width ('\\' :: gap)) rest := by
  have hplain := plain_of_joined h
  rw [← append_of_join_joined h]
  cases gap with
  | nil => exact absurd rfl (ne_nil_of_joined h)
  | cons d more =>
    rw [List.cons_append, openQuote_backslash, openQuote_append (List.forall_mem_cons.1 hplain).2]
    simp [Nat.add_assoc]

-- A backslash in front of the end of the input opens no quote.
theorem openQuote_of_unfinished (h : join cs = .unfinished) :
    openQuote none offset ('\\' :: cs) = none := by
  have hblank : ∀ c ∈ cs, isBlank c = true := by
    have hs := List.takeWhile_append_dropWhile (p := isBlank) (l := cs)
    unfold join at h
    split at h
    · next hd =>
      rw [hd, List.append_nil] at hs
      rw [← hs]
      exact forall_mem_takeWhile isBlank cs
    · cases h
    · cases h
  cases cs with
  | nil => rw [openQuote, if_neg (by decide), if_pos rfl]
  | cons d ds =>
    have hplain : ∀ c ∈ ds, isQuote c = false ∧ c ≠ '\\' := fun c hc =>
      plain_of_isBlank (hblank c (List.mem_cons_of_mem _ hc))
    have hend : openQuote none (offset + width ['\\', d]) (ds ++ []) =
        openQuote none (offset + width ['\\', d] + width ds) [] := openQuote_append hplain
    rw [List.append_nil, openQuote_nil] at hend
    rw [openQuote_backslash, hend]
    rfl

theorem openQuote_of_bare_eq_none (h : bare cs = none) : openQuote none offset cs = none := by
  fun_induction bare cs generalizing offset with
  | case1 => cases h
  | case2 cs gap rest hj _ ih =>
    rw [openQuote_of_joined hj]
    exact ih (Option.map_eq_none_iff.1 h)
  | case3 cs hj => exact openQuote_of_unfinished hj
  | case4 => rw [openQuote, if_neg (by decide), if_pos rfl]
  | case5 d ds hj ih =>
    rw [openQuote_backslash]
    exact ih (Option.map_eq_none_iff.1 h)
  | case6 => cases h
  | case7 c cs hb hc ih =>
    rw [openQuote_plain (plain_of_endsBare hc) hb]
    exact ih (Option.map_eq_none_iff.1 h)

theorem openQuote_of_bare (h : bare cs = some p) :
    openQuote none offset cs = openQuote none (offset + width p.1) p.2 := by
  fun_induction bare cs generalizing offset p with
  | case1 =>
    cases h
    rfl
  | case2 cs gap rest hj _ ih =>
    obtain ⟨p, hp, rfl⟩ := Option.map_eq_some_iff.1 h
    rw [openQuote_of_joined hj, ih hp]
    simp [Piece.after, Text.width_append, Nat.add_assoc]
  | case3 => cases h
  | case4 => cases h
  | case5 d ds hj ih =>
    obtain ⟨p, hp, rfl⟩ := Option.map_eq_some_iff.1 h
    rw [openQuote_backslash, ih hp]
    simp [Piece.after, Nat.add_assoc]
  | case6 =>
    cases h
    rfl
  | case7 c cs hb hc ih =>
    obtain ⟨p, hp, rfl⟩ := Option.map_eq_some_iff.1 h
    rw [openQuote_plain (plain_of_endsBare hc) hb, ih hp]
    simp [Piece.after, Nat.add_assoc]

-- The open quote of a word is the one that looking for it from the beginning of the word finds.
theorem OpensAt.openQuote_eq (h : OpensAt offset cs start q) :
    openQuote none offset cs = some start := by
  obtain ⟨hq, before, after, rfl, hcomplete, rfl, hn⟩ := h
  induction hcomplete generalizing offset with
  | nil =>
    rw [List.nil_append, openQuote_opening hq, openQuote_of_quoted_eq_none hn]
    rfl
  | quote opens closed _ ih =>
    rw [List.cons_append, List.append_assoc, openQuote_opening opens, openQuote_of_quoted closed,
      ih]
    simp [Text.width_append, Nat.add_assoc]
  | bare _ ended _ ih =>
    rw [List.cons_append, List.append_assoc, openQuote_of_bare ended, ih]
    simp [Text.width_append, Nat.add_assoc]

-- There is one such quote at most.
theorem OpensBehind.unique (h : OpensBehind offset cs start q)
    (h' : OpensBehind offset cs start' q') : start = start' := by
  have hsigns {signs word : List Char} {offset start : Nat} {q : Char}
      (hs : ∀ c ∈ signs, endsWord c = true) (ho : OpensAt offset word start q) :
      (signs ++ word).takeWhile endsWord = signs := by
    obtain ⟨c, rest, rfl, hc⟩ := ho.endsWord_head
    rw [List.takeWhile_append_of_pos hs]
    simp [hc]
  obtain ⟨signs, word, rfl, hs, ho⟩ := h
  obtain ⟨signs', word', hcs, hs', ho'⟩ := h'
  obtain rfl : signs = signs' := by
    rw [← hsigns hs ho, hcs, hsigns hs' ho']
  obtain rfl := List.append_cancel_left hcs
  exact Option.some.inj (ho.openQuote_eq.symm.trans ho'.openQuote_eq)

-- A double quote behind a backslash is no open quote of the word, which opens one in front of it.
example : ¬∃ q, OpensBehind 5 ['"', 'a', '\\', '"', 'b'] 8 q := by
  rintro ⟨q, h⟩
  have hopens : OpensAt 5 ['"', 'a', '\\', '"', 'b'] 5 '"' := .of_quoted rfl rfl
  exact absurd (h.unique hopens.behind_nothing) (by decide)

theorem Scanner.LeavesOpen.unique {s : Scanner} (h : s.LeavesOpen start q)
    (h' : s.LeavesOpen start' q') : start = start' := by
  obtain ⟨taken, hs, ho⟩ := h
  obtain ⟨taken', hs', ho'⟩ := h'
  obtain rfl := List.append_cancel_right (hs.symm.trans hs')
  exact ho.unique ho'

-- A quoted piece without a closing quote ends with one in the next line, even behind a backslash,
-- which the newline then belongs to.
theorem quoted_append_closing (hq : isQuote q = true) (h : quoted q cs = none) :
    quoted q (cs ++ ['\n', q]) = some (cs ++ ['\n', q], []) := by
  have hne : '\n' ≠ q := by
    rintro rfl
    cases hq
  have hend : quoted q [q] = some ([q], []) := by simp [quoted]
  have hline : quoted q ['\n', q] = some (['\n', q], []) := by
    simp [quoted, hne, Piece.after]
  fun_induction quoted q cs with
  | case1 => exact hline
  | case2 => cases h
  | case3 c hc =>
    rw [List.singleton_append, quoted, if_neg hc]
    split
    · simp [hend, Piece.after]
    · simp [hline, Piece.after]
  | case4 => cases h
  | case5 c d ds hc hb ih =>
    rw [List.cons_append, List.cons_append, quoted, if_neg hc, if_pos hb,
      ih (Option.map_eq_none_iff.1 h)]
    rfl
  | case6 c d ds hc hb ih =>
    have hrest := ih (Option.map_eq_none_iff.1 h)
    rw [List.cons_append] at hrest
    rw [List.cons_append, List.cons_append, quoted, if_neg hc, if_neg hb, hrest]
    rfl

-- A word that ends inside a quote is complete with the quote character in the next line.
theorem word_append_closing (hw : word cs = none) (ho : openQuote none offset cs = some start) :
    ∃ q, OpensAt offset cs start q ∧ word (cs ++ ['\n', q]) = some (cs ++ ['\n', q], []) := by
  fun_induction word cs generalizing offset with
  | case1 => cases hw
  | case2 c cs hc hq =>
    rw [openQuote_opening hc, openQuote_of_quoted_eq_none hq] at ho
    obtain rfl := Option.some.inj ho
    refine ⟨c, .of_quoted hc hq, ?_⟩
    rw [List.cons_append, word_of_quoted hc (quoted_append_closing hc hq), word]
    simp [Piece.after]
  | case3 c cs hc piece rest hq _ ih =>
    rw [openQuote_opening hc, openQuote_of_quoted hq, Nat.add_assoc, ← Text.width_cons] at ho
    obtain ⟨q, hopens, hword⟩ := ih (Option.map_eq_none_iff.1 hw) ho
    obtain rfl := append_of_quoted hq
    refine ⟨q, hopens.behind_quoted hc hq, ?_⟩
    rw [List.cons_append, word_of_quoted hc (quoted_append _ hq), hword]
    simp [Piece.after]
  | case4 => cases hw
  | case5 c cs hc he hb =>
    rw [openQuote_of_bare_eq_none hb] at ho
    cases ho
  | case6 c cs hc he piece rest hb _ ih =>
    rw [openQuote_of_bare hb] at ho
    obtain ⟨q, hopens, hword⟩ := ih (Option.map_eq_none_iff.1 hw) ho
    have hplain : endsBare c = false := by simp [endsBare, hc, he]
    obtain ⟨body, rfl, rfl⟩ := exists_of_bare hplain hb
    have hlonger := bare_append_newline [q] hb
    rw [List.cons_append] at hlonger
    refine ⟨q, hopens.behind_bare hplain hb, ?_⟩
    rw [List.cons_append, word_of_bare (by simpa using hc) (by simpa using he) hlonger, hword]
    simp [Piece.after]

end OpenQuote

theorem Tree.enclosing_of_insert_blockEnd {t : Tree} {token : Token} {frame : Enclosing}
    {outer : List Enclosing} (hk : token.kind = .blockEnd) (he : t.enclosing = frame :: outer) :
    ∃ u, t.insert token = .ok u ∧ u.enclosing = outer := by
  simp only [insert, hk, he]
  refine ⟨_, rfl, ?_⟩
  split <;> simp [push, update]

namespace Scanner

-- Nothing is left to read, or something is wrong.
def Step.Ends : Step → Prop
  | done s => s.rest = [] ∧ s.pending = none
  | wait _ => False
  | reject _ _ => True

-- A quote that a construct ends in is closed by its quote character in the next line.
def Closes (s : Scanner) (cs : List Char) (start : Nat) (longer : Scanner → List Char → Step) :
    Prop :=
  ∃ q, OpensBehind s.offset cs start q ∧ (longer (s.resume (String.singleton q)) ['\n', q]).Ends

variable {s s' : Scanner} {kind : TokenKind} {position : Position} {c : Char} {start offset : Nat}
  {gap piece rest text front cs : List Char} {p : Pending} {lines : List String}

theorem emit_ne_wait : s.emit kind gap piece rest text position ≠ .wait p := by
  rw [emit_eq]
  split <;> simp

theorem emitDecoded_ne_wait : s.emitDecoded kind gap piece rest position ≠ .wait p := by
  rw [emitDecoded]
  split
  · simp
  · exact emit_ne_wait

theorem readShell_ne_wait : s.readShell front cs ≠ .wait p := by
  simp only [readShell]
  split
  · simp
  · exact emit_ne_wait

theorem openQuote_of_wait (h : s.unfinished gap cs offset = .wait (.quote start)) :
    openQuote none (s.offset + width gap) cs = some start := by
  rw [unfinished] at h
  split at h
  · next ho =>
    cases h
    exact ho
  · cases h

theorem ends_emit (hp : s.pending = none) : (s.emit kind gap piece [] text position).Ends := by
  rw [emit_eq]
  split
  · trivial
  · exact ⟨rfl, hp⟩

theorem ends_emitDecoded (hp : s.pending = none) :
    (s.emitDecoded kind gap piece [] position).Ends := by
  rw [emitDecoded]
  split
  · trivial
  · exact ends_emit hp

theorem ends_readShell (s : Scanner) (front : List Char) : (s.readShell front []).Ends := by
  simp only [readShell, List.dropWhile_nil, List.takeWhile_nil]
  trivial

theorem closes_readCommand (h : s.readCommand c cs = .wait (.quote start)) :
    s.Closes (c :: cs) start fun s more => s.readCommand c (cs ++ more) := by
  rw [readCommand] at h
  split at h
  · next hw =>
    obtain ⟨q, hopens, hword⟩ := word_append_closing hw (openQuote_of_wait h)
    refine ⟨q, hopens.behind_nothing, ?_⟩
    rw [List.cons_append] at hword
    simp only [readCommand, hword]
    exact ends_emitDecoded rfl
  · exact absurd h emitDecoded_ne_wait

theorem closes_readArgument {options : Bool}
    (h : s.readArgument options c cs = .wait (.quote start)) :
    s.Closes (c :: cs) start fun s more => s.readArgument options c (cs ++ more) := by
  rw [readArgument] at h
  by_cases hc : isQuote c = true
  · rw [if_pos hc] at h
    split at h
    · next hq =>
      cases h
      refine ⟨c, (OpensAt.of_quoted hc hq).behind_nothing, ?_⟩
      simp only [readArgument, if_pos hc, quoted_append_closing hc hq]
      exact ends_emitDecoded rfl
    · exact absurd h emitDecoded_ne_wait
  · rw [if_neg hc] at h
    split at h
    · cases h
    · split at h
      · split at h
        · cases h
        · exact absurd h emitDecoded_ne_wait
      · exact absurd h emitDecoded_ne_wait

theorem closes_readWord (h : s.readWord c cs = .wait (.quote start)) :
    s.Closes (c :: cs) start fun s more => s.readWord c (cs ++ more) := by
  rw [readWord] at h
  split at h
  · next hp =>
    obtain ⟨q, hopens, hends⟩ := closes_readCommand h
    exact ⟨q, hopens, by simpa only [readWord, resume, hp] using hends⟩
  · next options hp =>
    obtain ⟨q, hopens, hends⟩ := closes_readArgument h
    exact ⟨q, hopens, by simpa only [readWord, resume, hp] using hends⟩

-- The sign of a redirection and the blanks behind it all end a word.
theorem endsWord_of_sign (hc : c = '|' ∨ c = '>')
    (hblanks : ∀ b ∈ cs, (isBlank b || decide (b = '\n')) = true) :
    ∀ b ∈ c :: cs, endsWord b = true := by
  refine List.forall_mem_cons.2 ⟨?_, fun b hb => ?_⟩
  · rcases hc with rfl | rfl <;> decide
  · have hblank := hblanks b hb
    simp only [Bool.or_eq_true] at hblank
    simp only [endsWord, isDelimiter, Bool.or_eq_true]
    tauto

theorem closes_readRedirection (h : s.readRedirection cs = .wait (.quote start)) :
    s.Closes ('|' :: cs) start fun s more => s.readRedirection (cs ++ more) := by
  have hcs := List.takeWhile_append_dropWhile (p := fun c => isBlank c || c = '\n') (l := cs)
  rw [readRedirection] at h
  split at h
  · cases h
  next c rest heq =>
  rw [heq] at hcs
  split at h
  · exact absurd h readShell_ne_wait
  next hc =>
  split at h
  · cases h
  next he =>
  split at h
  · next hw =>
    obtain ⟨q, hopens, hword⟩ := word_append_closing hw (openQuote_of_wait h)
    have hne : cs.dropWhile (fun c => isBlank c || c = '\n') ≠ [] := by simp [heq]
    have hsigns := endsWord_of_sign (.inl rfl)
      (forall_mem_takeWhile (fun c => isBlank c || c = '\n') cs)
    refine ⟨q, ⟨_, _, by rw [List.cons_append, hcs], hsigns, hopens⟩, ?_⟩
    rw [List.cons_append] at hword
    simp only [readRedirection, dropWhile_append_of_ne_nil _ hne, takeWhile_append_of_ne_nil _ hne,
      heq, List.cons_append, if_neg hc, if_neg he, hword]
    split
    · trivial
    · split
      · exact ends_readShell _ _
      · exact ends_emit rfl
  · split at h
    · cases h
    · split at h
      · exact absurd h readShell_ne_wait
      · exact absurd h emit_ne_wait

theorem closes_readFile (h : s.readFile cs = .wait (.quote start)) :
    s.Closes ('>' :: cs) start fun s more => s.readFile (cs ++ more) := by
  have hcs := List.takeWhile_append_dropWhile (p := isBlank) (l := cs)
  rw [readFile] at h
  split at h
  · cases h
  next c rest heq =>
  rw [heq] at hcs
  split at h
  · cases h
  next he =>
  split at h
  · next hw =>
    obtain ⟨q, hopens, hword⟩ := word_append_closing hw (openQuote_of_wait h)
    have hne : cs.dropWhile isBlank ≠ [] := by simp [heq]
    have hblanks : ∀ b ∈ cs.takeWhile isBlank, (isBlank b || decide (b = '\n')) = true :=
      fun b hb => by simp [forall_mem_takeWhile isBlank cs b hb]
    have hsigns := endsWord_of_sign (.inr rfl) hblanks
    refine ⟨q, ⟨_, _, by rw [List.cons_append, hcs], hsigns, hopens⟩, ?_⟩
    rw [List.cons_append] at hword
    simp only [readFile, dropWhile_append_of_ne_nil _ hne, takeWhile_append_of_ne_nil _ hne, heq,
      List.cons_append, if_neg he, hword, List.dropWhile_nil]
    exact ends_emitDecoded rfl
  · split at h
    · exact absurd h emitDecoded_ne_wait
    · split at h
      · exact absurd h emitDecoded_ne_wait
      · cases h

theorem closes_step (h : s.step c cs = .wait (.quote start)) :
    s.Closes (c :: cs) start fun s more => s.step c (cs ++ more) := by
  simp only [step] at h
  by_cases hblank : isBlank c = true
  · rw [if_pos hblank] at h
    cases h
  rw [if_neg hblank] at h
  by_cases hsep : c = '\n' ∨ c = ';'
  · rw [if_pos hsep] at h
    exact absurd h emit_ne_wait
  rw [if_neg hsep] at h
  by_cases hcomment : c = '#' ∧ !s.isGlued
  · rw [if_pos hcomment] at h
    cases h
  rw [if_neg hcomment] at h
  by_cases hopen : c = '\x7b'
  · rw [if_pos hopen] at h
    exact absurd h emit_ne_wait
  rw [if_neg hopen] at h
  by_cases hclose : c = '\x7d'
  · rw [if_pos hclose] at h
    exact absurd h emit_ne_wait
  rw [if_neg hclose] at h
  -- the constructs that are left are told apart in the longer text as in this one
  have hglued (line : String) : (s.resume line).isGlued = s.isGlued := rfl
  have hhead (q : Char) : ((cs ++ ['\n', q]).head? = some ' ' ∨ (cs ++ ['\n', q]).head? = some '\t') ↔
      cs.head? = some ' ' ∨ cs.head? = some '\t' := by
    cases cs <;> simp
  simp only [Closes, step, if_neg hblank, if_neg hsep, hglued, if_neg hcomment, if_neg hopen,
    if_neg hclose, hhead]
  by_cases hback : c = '\\' ∧ !s.isGlued
  · simp only [if_pos hback] at h ⊢
    split at h
    · cases h
    · cases h
    · next hj =>
      obtain ⟨q, hopens, hends⟩ := closes_readWord h
      exact ⟨q, hopens, by simpa only [join_append_of_absent _ hj] using hends⟩
  simp only [if_neg hback] at h ⊢
  by_cases hpipe : c = '|'
  · simp only [if_pos hpipe] at h ⊢
    exact hpipe ▸ closes_readRedirection h
  simp only [if_neg hpipe] at h ⊢
  by_cases hbang : c = '!' ∧ !s.isGlued ∧ (cs.head? = some ' ' ∨ cs.head? = some '\t')
  · rw [if_pos hbang] at h
    exact absurd h readShell_ne_wait
  simp only [if_neg hbang] at h ⊢
  by_cases hfile : c = '>'
  · simp only [if_pos hfile] at h ⊢
    exact hfile ▸ closes_readFile h
  simp only [if_neg hfile] at h ⊢
  exact closes_readWord h

-- Where a scan comes to a stop: at the end, or in front of a construct that is incomplete.
inductive Halted : Scanner → Prop where
  | ended {s : Scanner} (hr : s.rest = []) (hp : s.pending = none) : Halted s
  | waits {s : Scanner} {c : Char} {cs : List Char} {p : Pending} (hr : s.rest = c :: cs)
      (hs : s.step c cs = .wait p) : Halted { s with pending := some p }

theorem halted_of_scan (h : s.scan = (s', none)) (hp : s.pending = none) : Halted s' := by
  fun_induction scan s with
  | case1 s hr =>
    cases h
    exact .ended hr hp
  | case2 s c cs hr next hs _ ih =>
    have hnext : next.pending = s.pending := by cases reads_of_step hs <;> rfl
    exact ih h (hnext.trans hp)
  | case3 s c cs hr pending hs =>
    cases h
    exact .waits hr hs
  | case4 => cases h

theorem halted_of_feedLines (h : s.feedLines lines = (s', none)) (hs : Halted s) : Halted s' := by
  induction lines generalizing s with
  | nil =>
    cases h
    exact hs
  | cons line lines ih =>
    rw [feedLines] at h
    split at h
    · next next hn => exact ih h (halted_of_scan hn rfl)
    · cases h

theorem halted_starting (mode : Mode) : Halted (starting mode) := .ended rfl rfl

theorem Halted.rest_eq_nil (h : Halted s) (hp : s.pending = none) : s.rest = [] := by
  cases h with
  | ended hr _ => exact hr
  | waits => cases hp

theorem pending_of_ends (hr : s.rest = c :: cs) (h : (s.step c cs).Ends) (he : s.scan.2 = none) :
    s.scan.1.pending = none := by
  rw [scan_of_cons hr] at he ⊢
  cases hs : s.step c cs with
  | done next =>
    rw [hs] at h
    simp only [scan_of_rest_nil h.1, h.2]
  | wait p =>
    rw [hs] at h
    exact h.elim
  | reject next e =>
    rw [hs] at he
    cases he

-- The quote that a scan stopped in is the one that its construct leaves open, and one more quote
-- character closes it.
theorem Halted.closes (h : Halted s) (ha : Aligned s) (hp : s.pending = some (.quote start)) :
    ∃ q, s.LeavesOpen start q ∧
      ((s.feed (String.singleton q)).2 = none →
        (s.feed (String.singleton q)).1.pending = none) := by
  cases h with
  | ended _ hn => cases hp.symm.trans hn
  | @waits s c cs _ hr hs =>
    obtain rfl := Option.some.inj hp
    obtain ⟨front, hsplit, hoffset⟩ := ha.split
    obtain ⟨q, hopens, hends⟩ := closes_step hs
    have hne := ha.source_ne_empty (by simp [expectMore])
    have hfeed : ({ s with pending := some (.quote start) } : Scanner).feed (String.singleton q) =
        (s.resume (String.singleton q)).scan := feed_eq_scan_resume hne
    have hrest : (s.resume (String.singleton q)).rest = c :: (cs ++ ['\n', q]) := by
      simp [resume, hr]
    refine ⟨q, ⟨front, hsplit, ?_⟩, fun he => ?_⟩
    · dsimp only at hoffset ⊢
      rwa [← hoffset, hr]
    · rw [hfeed] at he ⊢
      exact pending_of_ends hrest hends he

-- A newline is a separator, in a block and outside of it.
theorem step_newline (s : Scanner) (cs : List Char) :
    ∃ next, s.step '\n' cs = .done next ∧ next.rest = cs ∧ next.pending = s.pending ∧
      next.source = s.source ∧ next.tree.enclosing = s.tree.enclosing := by
  have hs : s.step '\n' cs = s.emit .separator [] ['\n'] cs ['\n'] .command := rfl
  rw [hs, emit_eq, Derivation.insert_separator rfl]
  exact ⟨_, rfl, rfl, rfl, rfl, rfl⟩

theorem step_closing_brace {frame : Enclosing} {outer : List Enclosing}
    (he : s.tree.enclosing = frame :: outer) (cs : List Char) :
    ∃ next, s.step '\x7d' cs = .done next ∧ next.rest = cs ∧ next.pending = s.pending ∧
      next.source = s.source ∧ next.tree.enclosing = outer := by
  have hs : s.step '\x7d' cs = s.emit .blockEnd [] ['\x7d'] cs ['\x7d'] .command := rfl
  have hk : (s.tokenAt .blockEnd [] ['\x7d'] ['\x7d']).kind = .blockEnd := rfl
  obtain ⟨tree, hi, ho⟩ := Tree.enclosing_of_insert_blockEnd hk he
  rw [hs, emit_eq, hi]
  exact ⟨_, rfl, rfl, rfl, rfl, ho⟩

-- A line with a closing brace ends the innermost block.
theorem feed_closing_brace {frame : Enclosing} {outer : List Enclosing} (hr : s.rest = [])
    (hne : s.source ≠ "") (he : s.tree.enclosing = frame :: outer) :
    ∃ u, s.feed "\x7d" = (u, none) ∧ u.pending = none ∧ u.rest = [] ∧ u.source ≠ "" ∧
      u.tree.enclosing = outer := by
  have hrest : (s.resume "\x7d").rest = '\n' :: ['\x7d'] := by simp [resume, hr]
  obtain ⟨v, hv, hvr, hvp, hvs, hve⟩ := step_newline (s.resume "\x7d") ['\x7d']
  obtain ⟨u, hu, hur, hup, hus, hue⟩ := step_closing_brace (hve.trans he) []
  refine ⟨u, ?_, hup.trans hvp, hur, ?_, hue⟩
  · rw [feed_eq_scan_resume hne, scan_of_done hrest hv, scan_of_done hvr hu, scan_of_rest_nil hur]
  · rw [hus, hvs]
    simp [resume]

-- As many lines with a closing brace as blocks are open end the innermost ones of them.
theorem feedLines_closing_braces {n : Nat} (hr : s.rest = []) (hp : s.pending = none)
    (hne : 0 < n → s.source ≠ "") (hd : n ≤ s.tree.depth) :
    ∃ u, s.feedLines (List.replicate n "\x7d") = (u, none) ∧ u.pending = none ∧
      u.tree.depth = s.tree.depth - n := by
  induction n generalizing s with
  | zero => exact ⟨s, rfl, hp, rfl⟩
  | succ n ih =>
    cases he : s.tree.enclosing with
    | nil => simp [Tree.depth, he] at hd
    | cons frame outer =>
      obtain ⟨v, hfeed, hvp, hvr, hvs, hve⟩ := feed_closing_brace hr (hne (Nat.succ_pos n)) he
      have hdepth : s.tree.depth = v.tree.depth + 1 := by simp [Tree.depth, he, hve]
      obtain ⟨u, hu, hup, hud⟩ := ih hvr hvp (fun _ => hvs) (by omega)
      refine ⟨u, ?_, hup, by omega⟩
      rw [List.replicate_succ, feedLines, hfeed]
      exact hu

end Scanner

-- An incomplete logical line can be completed.  Whatever lines a scanner has taken, it can be closed
-- exactly if it expects no more.  The quote it may be waiting for is the only one that is left open
-- in the construct it has stopped at, and its character in a line of its own either shows that
-- something is wrong or leaves nothing pending.  With nothing pending, as many closing braces as
-- blocks are open, each in a line of its own, are taken without an error and leave nothing open,
-- and no fewer do.
theorem closable_of_feedLines {mode : Mode} {lines : List String} {s : Scanner}
    (h : (Scanner.starting mode).feedLines lines = (s, none)) :
    ((∃ script, s.finish.2 = .ok script) ↔ s.expectMore = false) ∧
    (∀ start, s.pending = some (.quote start) → ∃ q, s.LeavesOpen start q ∧
      (∀ other q', s.LeavesOpen other q' → other = start) ∧
      ((s.feed (String.singleton q)).2 = none →
        (s.feed (String.singleton q)).1.pending = none)) ∧
    (s.pending = none → ∀ n ≤ s.tree.depth, ∃ u,
      s.feedLines (List.replicate n "\x7d") = (u, none) ∧
        (u.expectMore = false ↔ n = s.tree.depth)) := by
  have hhalted := Scanner.halted_of_feedLines h (Scanner.halted_starting mode)
  have haligned := (Scanner.of_feedLines h (.starting mode)).1
  have hgrouped := (grouped_starting mode).of_feedLines h
  refine ⟨⟨fun ⟨script, hf⟩ => ?_, fun he => ?_⟩, fun start hp => ?_, fun hp n hn => ?_⟩
  · obtain ⟨hp, ho, -⟩ := Scanner.of_finish_ok hf
    simp [Scanner.expectMore, hp, Tree.depth_of_innermostOpen? hgrouped.rooted ho]
  · exact ⟨s.snapshot, by rw [Scanner.finish_of_expectMore he]⟩
  · obtain ⟨q, hopens, hclosed⟩ := hhalted.closes haligned hp
    exact ⟨q, hopens, fun other q' ho => ho.unique hopens, hclosed⟩
  · have hne (hpos : 0 < n) : s.source ≠ "" :=
      haligned.source_ne_empty (by simp [Scanner.expectMore]; omega)
    obtain ⟨u, hu, hup, hud⟩ := Scanner.feedLines_closing_braces (hhalted.rest_eq_nil hp) hp hne hn
    refine ⟨u, hu, ?_⟩
    simp only [Scanner.expectMore, hup, hud]
    simp
    omega

-- A double quote behind a backslash in a block, and two blocks.
theorem closable_of_feedLines_of_backslash :
    let quoted := Scanner.new.feedLines ["in a \x7b", "echo \"b\\"]
    let nested := Scanner.new.feedLines ["in a \x7b", "in b \x7b ls"]
    quoted.2 = none ∧ quoted.1.pending = some (.quote 12) ∧
      (¬∃ script, quoted.1.finish.2 = .ok script) ∧
      (∃ q, quoted.1.LeavesOpen 12 q ∧
        (∀ other q', quoted.1.LeavesOpen other q' → other = 12) ∧
        ((quoted.1.feed (String.singleton q)).2 = none →
          (quoted.1.feed (String.singleton q)).1.pending = none)) ∧
      nested.2 = none ∧ nested.1.pending = none ∧ nested.1.tree.depth = 2 ∧
      ∃ u, nested.1.feedLines ["\x7d", "\x7d"] = (u, none) ∧ u.expectMore = false := by
  intro quoted nested
  have hq : quoted.2 = none := by decide +kernel
  have hn : nested.2 = none := by decide +kernel
  have hmore : quoted.1.expectMore = true := by decide +kernel
  have hp : quoted.1.pending = some (.quote 12) := by decide +kernel
  have hnone : nested.1.pending = none := by decide +kernel
  have hd : nested.1.tree.depth = 2 := by decide +kernel
  have hquoted : (Scanner.starting .command).feedLines ["in a \x7b", "echo \"b\\"] =
      (quoted.1, none) := Prod.ext rfl hq
  have hnested : (Scanner.starting .command).feedLines ["in a \x7b", "in b \x7b ls"] =
      (nested.1, none) := Prod.ext rfl hn
  obtain ⟨hfinish, hclose, -⟩ := closable_of_feedLines hquoted
  obtain ⟨-, -, hbraces⟩ := closable_of_feedLines hnested
  obtain ⟨u, hu, hcomplete⟩ := hbraces hnone 2 (by omega)
  refine ⟨hq, hp, fun hf => ?_, hclose 12 hp, hn, hnone, hd, u, hu, hcomplete.2 hd.symm⟩
  have he := hfinish.1 hf
  rw [hmore] at he
  cases he

end CommandShell.Script
