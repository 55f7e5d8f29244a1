import CommandShell.Proofs.Scanner.Lookahead

namespace CommandShell.Script

variable {c d : Char} {cs ds front gap rest rest' : List Char}

-- A tree that grows by a token like another one, or neither of them does.
structure Tree.GrowsAlike (t u t' u' : Tree) : Prop where
  same : u = t → u' = t'
  insert : ∀ token, t.insert token = .ok u → t'.insert token = .ok u'

theorem Tree.GrowsAlike.refl (t u : Tree) : Tree.GrowsAlike t u t u :=
  ⟨fun h => h, fun _ h => h⟩

namespace Scanner

variable {s next : Scanner} {kind : TokenKind} {position : Position} {piece text before : List Char}
  {tree tree' : Tree}

-- The scanner in another text, of which `rest` is left.
def inside (s : Scanner) (source : String) (rest : List Char) : Scanner :=
  { s with source, rest }

-- The scanner in another text and in front of another tree.
def within (s : Scanner) (source : String) (rest : List Char) (tree : Tree) : Scanner :=
  { s with source, rest, tree }

-- What is read up to a scanner ends in front of another text, too.  Where arguments are read, a
-- dash alone must not have been told from an option by a quote behind it.
structure Stops (cs : List Char) (next : Scanner) (rest' : List Char) : Prop where
  ends : EndsAlike cs next.rest rest'
  quote : next.position ≠ .command → rest' = [] → ∀ c ∈ next.rest.head?, isQuote c = false
  tokens : ∀ t ∈ next.tree.tokens.toList, t.span.stop = next.offset → t.EndsAlike next.rest rest'

theorem emit_within (h : s.emit kind gap piece rest text position = .done next)
    (hg : s.tree.GrowsAlike next.tree tree tree') (source : String) (rest₀ rest' : List Char) :
    (s.within source rest₀ tree).emit kind gap piece rest' text position =
      .done (next.within source rest' tree') := by
  have ht : (s.within source rest₀ tree).tokenAt kind gap piece text =
    s.tokenAt kind gap piece text := rfl
  have htree : (s.within source rest₀ tree).tree = tree := rfl
  rw [emit_eq] at h
  rw [emit_eq, ht, htree]
  cases hi : s.tree.insert (s.tokenAt kind gap piece text) with
  | error e =>
    rw [hi] at h
    cases h
  | ok grown =>
    rw [hi] at h
    cases h
    rw [hg.insert _ hi]
    rfl

theorem rest_of_emit (h : s.emit kind gap piece rest text position = .done next) :
    next.rest = rest := by
  rw [emit_eq] at h
  split at h
  · cases h
  · cases h
    rfl

theorem position_of_emit (h : s.emit kind gap piece rest text position = .done next) :
    next.position = position := by
  rw [emit_eq] at h
  split at h
  · cases h
  · cases h
    rfl

-- The token that was read is kept behind those there are, and it ends where the text is left.
theorem exists_of_emit (h : s.emit kind gap piece rest text position = .done next) :
    ∃ t, next.tree.tokens.toList = s.tree.tokens.toList ++ [t] ∧ t.kind = kind ∧
      t.span.stop = next.offset := by
  rw [emit_eq] at h
  split at h
  · cases h
  · next tree hi =>
    cases h
    obtain ⟨id, ht⟩ := Tree.tokens_of_insert hi
    exact ⟨{ s.tokenAt kind gap piece text with node := id }, by simp [ht], rfl, rfl⟩

theorem emit_of_emitDecoded (h : s.emitDecoded kind gap piece rest position = .done next) :
    ∃ text, s.emit kind gap piece rest text position = .done next := by
  simp only [emitDecoded] at h
  split at h
  · cases h
  · next text _ => exact ⟨text, h⟩

theorem rest_of_emitDecoded (h : s.emitDecoded kind gap piece rest position = .done next) :
    next.rest = rest := by
  obtain ⟨text, hemit⟩ := emit_of_emitDecoded h
  exact rest_of_emit hemit

theorem position_of_emitDecoded (h : s.emitDecoded kind gap piece rest position = .done next) :
    next.position = position := by
  obtain ⟨text, hemit⟩ := emit_of_emitDecoded h
  exact position_of_emit hemit

theorem emitDecoded_within (h : s.emitDecoded kind gap piece rest position = .done next)
    (hg : s.tree.GrowsAlike next.tree tree tree') (source : String) (rest₀ rest' : List Char) :
    next.rest = rest ∧ (s.within source rest₀ tree).emitDecoded kind gap piece rest' position =
      .done (next.within source rest' tree') := by
  have ho : (s.within source rest₀ tree).offset = s.offset := rfl
  simp only [emitDecoded, ho] at h ⊢
  cases hd : decodeFrom none (s.offset + Text.width gap) piece with
  | error e =>
    rw [hd] at h
    cases h
  | ok text =>
    rw [hd] at h
    exact ⟨rest_of_emit h, emit_within h hg source rest₀ rest'⟩

-- Reading does the same with another text behind what is read, and with another tree.
def Rereads (cs : List Char) (next : Scanner) (source : String) (rest' : List Char) (tree' : Tree)
    (read : List Char → Step) : Prop :=
  ∃ taken, cs = taken ++ next.rest ∧ read (taken ++ rest') = .done (next.within source rest' tree')

theorem readCommand_within (hc : endsWord c = false) (h : s.readCommand c cs = .done next)
    (hr : EndsAlike (c :: cs) next.rest rest') (hg : s.tree.GrowsAlike next.tree tree tree')
    (source : String) (rest₀ : List Char) :
    Rereads cs next source rest' tree' ((s.within source rest₀ tree).readCommand c) := by
  simp only [readCommand] at h
  cases hw : word (c :: cs) with
  | none =>
    simp only [hw] at h
    exact absurd h unfinished_ne_done
  | some p =>
    obtain ⟨piece, rest⟩ := p
    simp only [hw] at h
    obtain ⟨rfl, hwithin⟩ := emitDecoded_within h hg source rest₀ rest'
    have hword := word_before hw hr
    obtain ⟨more, rfl, hcs⟩ := exists_of_word hc hw
    refine ⟨more, hcs, ?_⟩
    rw [List.cons_append] at hword
    simp only [readCommand, hword]
    exact hwithin

-- Whether a dash starts an option shows in front of another text, too.
theorem startsOption_before {more : List Char}
    (hb : bare (c :: (more ++ rest)) = some (c :: more, rest)) (hr : EndsAlike cs rest rest')
    (hq : rest' = [] → ∀ d ∈ rest.head?, isQuote d = false) :
    startsOption (more ++ rest') = startsOption (more ++ rest) := by
  cases more with
  | cons d more => rfl
  | nil =>
    rcases hr.eq_nil_or_cons with rfl | ⟨d, tail, tail', rfl, rfl⟩
    · cases rest with
      | nil => rfl
      | cons d tail =>
        have hquote := hq rfl d rfl
        have hends : endsBare d = true := endsBare_of_bare hb d rfl
        rw [endsBare, hquote, Bool.or_false] at hends
        simp [startsOption, hends]
    · rfl

theorem readArgument_within {options : Bool} (hc : endsWord c = false)
    (hp : s.position = .argument options) (h : s.readArgument options c cs = .done next)
    (hr : Stops (c :: cs) next rest') (hg : s.tree.GrowsAlike next.tree tree tree')
    (source : String) (rest₀ : List Char) :
    Rereads cs next source rest' tree' ((s.within source rest₀ tree).readArgument options c) := by
  have hglued : (s.within source rest₀ tree).isGlued = s.isGlued := rfl
  have hp' : (s.within source rest₀ tree).position = s.position := rfl
  simp only [readArgument] at h
  by_cases hq : isQuote c = true
  · rw [if_pos hq] at h
    cases hquoted : quoted c cs with
    | none =>
      simp only [hquoted] at h
      cases h
    | some p =>
      obtain ⟨piece, rest⟩ := p
      simp only [hquoted] at h
      obtain ⟨rfl, hwithin⟩ := emitDecoded_within h hg source rest₀ rest'
      refine ⟨piece, (append_of_quoted hquoted).symm, ?_⟩
      simp only [readArgument, if_pos hq, quoted_before hquoted rest', hp']
      exact hwithin
  · rw [if_neg hq] at h
    cases hbare : bare (c :: cs) with
    | none =>
      simp only [hbare] at h
      cases h
    | some p =>
      obtain ⟨piece, rest⟩ := p
      simp only [hbare] at h
      obtain ⟨more, rfl, rfl⟩ := exists_of_bare (by simp [endsBare, hc, hq]) hbare
      -- Whatever the piece is, it is read up to `rest`.
      have hread (hrest : next.rest = rest) (hposition : next.position ≠ .command)
          (hdone : (if c = '-' ∧ options ∧ !s.isGlued ∧ startsOption (more ++ rest) then
              if c :: more = ['-', '-'] then
                .done { (s.within source rest₀ tree).advance (c :: more) rest' with
                  position := .argument false }
              else (s.within source rest₀ tree).emitDecoded .option [] (c :: more) rest' s.position
            else (s.within source rest₀ tree).emitDecoded .bareArgument [] (c :: more) rest'
              s.position) = .done (next.within source rest' tree')) :
          Rereads (more ++ rest) next source rest' tree'
            ((s.within source rest₀ tree).readArgument options c) := by
        have hends : EndsAlike (c :: (more ++ rest)) rest rest' := hrest ▸ hr.ends
        have hbare' := bare_before hbare hends
        have ho := startsOption_before hbare hends (hrest ▸ hr.quote hposition)
        rw [List.cons_append] at hbare'
        refine ⟨more, by rw [hrest], ?_⟩
        simp only [readArgument, if_neg hq, hbare', ho, hglued, hp']
        exact hdone
      split at h
      · next ho =>
        split at h
        · next hm =>
          cases h
          have htree : tree' = tree := hg.same rfl
          refine hread rfl (by simp) ?_
          rw [if_pos ho, if_pos hm, htree]
          rfl
        · next hm =>
          obtain ⟨hrest, hwithin⟩ := emitDecoded_within h hg source rest₀ rest'
          have hposition := position_of_emitDecoded h
          refine hread hrest (by simp [hposition, hp]) ?_
          rw [if_pos ho, if_neg hm]
          exact hwithin
      · next ho =>
        obtain ⟨hrest, hwithin⟩ := emitDecoded_within h hg source rest₀ rest'
        have hposition := position_of_emitDecoded h
        refine hread hrest (by simp [hposition, hp]) ?_
        rw [if_neg ho]
        exact hwithin

theorem readWord_within (hc : endsWord c = false) (h : s.readWord c cs = .done next)
    (hr : Stops (c :: cs) next rest') (hg : s.tree.GrowsAlike next.tree tree tree')
    (source : String) (rest₀ : List Char) :
    Rereads cs next source rest' tree' ((s.within source rest₀ tree).readWord c) := by
  have hp : (s.within source rest₀ tree).position = s.position := rfl
  simp only [readWord] at h
  unfold readWord
  rw [hp]
  cases heq : s.position with
  | command =>
    simp only [heq] at h
    exact readCommand_within hc h hr.ends hg source rest₀
  | argument options =>
    simp only [heq] at h
    exact readArgument_within hc heq h hr hg source rest₀

-- What a piece that starts with an escape has behind the escape does not start with a blank.
theorem exists_of_escape_bare {d : Char} {p : Piece} (hj : join (d :: ds) = .absent)
    (h : bare ('\\' :: d :: ds) = some p) :
    ∃ more, ds = more ++ p.2 ∧ (more = [] ∨ ∃ e ∈ more, isBlank e = false) := by
  rw [bare_of_absent hj] at h
  obtain ⟨q, hq, rfl⟩ := Option.map_eq_some_iff.1 h
  exact ⟨q.1, (append_of_bare hq).symm, eq_nil_or_mem_of_head fun e he =>
    isBlank_of_endsBare (endsBare_of_head_bare hq e he)⟩

theorem exists_of_escape_word {d : Char} {p : Piece} (hj : join (d :: ds) = .absent)
    (h : word ('\\' :: d :: ds) = some p) :
    ∃ more, ds = more ++ p.2 ∧ (more = [] ∨ ∃ e ∈ more, isBlank e = false) := by
  rw [word, dif_neg (by decide), dif_neg (by decide)] at h
  split at h
  · cases h
  · next piece rest hb =>
    obtain ⟨q, hq, rfl⟩ := Option.map_eq_some_iff.1 h
    obtain ⟨more, hds, hmore⟩ := exists_of_escape_bare hj hb
    have hrest := append_of_word hq
    refine ⟨more ++ q.1, by rw [hds, List.append_assoc, ← hrest]; rfl, ?_⟩
    rcases hmore with rfl | ⟨e, he, hn⟩
    · exact eq_nil_or_mem_of_head fun e he =>
        isBlank_of_endsWord (endsWord_of_head_word hq e he)
    · exact .inr ⟨e, List.mem_append_left _ he, hn⟩

theorem exists_of_escape {d : Char} (hj : join (d :: ds) = .absent)
    (h : s.readWord '\\' (d :: ds) = .done next) :
    ∃ more, ds = more ++ next.rest ∧ (more = [] ∨ ∃ e ∈ more, isBlank e = false) := by
  simp only [readWord] at h
  split at h
  · simp only [readCommand] at h
    split at h
    · exact absurd h unfinished_ne_done
    · next hw =>
      rw [rest_of_emitDecoded h]
      exact exists_of_escape_word hj hw
  · simp only [readArgument] at h
    rw [if_neg (by decide)] at h
    split at h
    · cases h
    · next hb =>
      rw [if_neg (by simp)] at h
      rw [rest_of_emitDecoded h]
      exact exists_of_escape_bare hj hb

-- Lines that are not joined in front of a word are not joined in front of another text either.
theorem join_absent_of_readWord {taken : List Char} (hj : join cs = .absent)
    (h : s.readWord '\\' cs = .done next) (hr : EndsAlike ('\\' :: cs) next.rest rest')
    (hcs : cs = taken ++ next.rest) : join (taken ++ rest') = .absent := by
  cases cs with
  | nil => cases hj
  | cons d ds =>
    obtain ⟨more, hds, hmore⟩ := exists_of_escape hj h
    have hall : taken ++ next.rest = d :: more ++ next.rest := by
      rw [← hcs, hds, List.cons_append]
    rw [List.append_cancel_right hall]
    refine (hr.append hmore).escape d ?_ ?_
    · exact hds ▸ List.suffix_rfl
    · rwa [← hds]

theorem readShell_within (h : s.readShell before cs = .done next)
    (ht : ∀ t ∈ next.tree.tokens.toList, t.span.stop = next.offset → t.EndsAlike next.rest rest')
    (hg : s.tree.GrowsAlike next.tree tree tree') (source : String) (rest₀ : List Char) :
    Rereads cs next source rest' tree' ((s.within source rest₀ tree).readShell before) := by
  have hd := shellText_append_drop (fun c => c ≠ ';' && c ≠ '\n') (cs.dropWhile isBlank)
  have hcs := List.takeWhile_append_dropWhile (p := isBlank) (l := cs)
  have hhead := not_of_head_dropWhile isBlank cs
  have hblank := forall_mem_takeWhile isBlank cs
  have hwithin := forall_mem_takeWhile (fun c => c ≠ ';' && c ≠ '\n') (cs.dropWhile isBlank)
  obtain ⟨spaces, hspaces⟩ := trimEnd_append_spaces
    ((cs.dropWhile isBlank).takeWhile fun c => c ≠ ';' && c ≠ '\n')
  simp only [readShell] at h
  split at h
  · cases h
  next hne =>
  obtain ⟨t, htokens, hk, hstop⟩ := exists_of_emit h
  have hbehind := (ht t (by simp [htokens]) hstop).shell hk
  have hrest := rest_of_emit h
  rw [← hrest] at hd
  have hemit := emit_within h hg source rest₀ rest'
  generalize htext : Text.trimEnd
    ((cs.dropWhile isBlank).takeWhile fun c => c ≠ ';' && c ≠ '\n') = text at *
  have htextWithin : ∀ c ∈ text, (c ≠ ';' && c ≠ '\n') = true := fun c hc =>
    hwithin c (hspaces ▸ List.mem_append_left _ hc)
  have hall : text ++ spaces = text ++ next.rest.takeWhile fun c => c ≠ ';' && c ≠ '\n' := by
    rw [hspaces, ← hd, List.takeWhile_append_of_pos htextWithin]
  have hspacesRest := List.append_cancel_left hall
  have hbody : Text.trimEnd ((text ++ rest').takeWhile fun c => c ≠ ';' && c ≠ '\n') = text := by
    rw [List.takeWhile_append_of_pos htextWithin]
    exact trimEnd_append_of_spaces htext hspaces (hspacesRest ▸ hbehind)
  have hstart : ∀ c ∈ (text ++ rest').head?, isBlank c = false := by
    intro c hc
    cases text with
    | nil => simp at hne
    | cons d more => exact hhead c (by rw [← hd]; exact hc)
  have htake := takeWhile_of_head hblank hstart
  have hdrop := dropWhile_of_head hblank hstart
  refine ⟨cs.takeWhile isBlank ++ text, ?_, ?_⟩
  · rw [List.append_assoc, hd, hcs]
  · have ho : (s.within source rest₀ tree).offset = s.offset := rfl
    simp only [readShell, ho, List.append_assoc, htake, hdrop, hbody, if_neg hne, List.drop_left]
    exact hemit

-- A shell command is not blank.
theorem exists_of_readShell (h : s.readShell before cs = .done next) :
    ∃ taken, cs = taken ++ next.rest ∧ ∃ c ∈ taken, isBlank c = false := by
  have hd := shellText_append_drop (fun c => c ≠ ';' && c ≠ '\n') (cs.dropWhile isBlank)
  have hcs := List.takeWhile_append_dropWhile (p := isBlank) (l := cs)
  have hhead := not_of_head_dropWhile isBlank cs
  simp only [readShell] at h
  split at h
  · cases h
  next hne =>
  rw [rest_of_emit h]
  generalize Text.trimEnd
    ((cs.dropWhile isBlank).takeWhile fun c => c ≠ ';' && c ≠ '\n') = text at *
  refine ⟨cs.takeWhile isBlank ++ text, by rw [List.append_assoc, hd, hcs], ?_⟩
  cases text with
  | nil => simp at hne
  | cons c more => exact ⟨c, by simp, hhead c (by rw [← hd]; rfl)⟩

-- What is read behind a gap of blanks, or of blanks and newlines.
theorem exists_of_dropWhile {test : Char → Bool} (hd : cs.dropWhile test = c :: ds) :
    cs = cs.takeWhile test ++ c :: ds ∧
      ∀ rest, (cs.takeWhile test ++ c :: rest).takeWhile test = cs.takeWhile test ∧
        (cs.takeWhile test ++ c :: rest).dropWhile test = c :: rest := by
  have hcs := List.takeWhile_append_dropWhile (p := test) (l := cs)
  have hhead := not_of_head_dropWhile test cs
  have hgap := forall_mem_takeWhile test cs
  rw [hd] at hcs hhead
  refine ⟨hcs.symm, fun rest => ?_⟩
  have hstart : ∀ d ∈ (c :: rest).head?, test d = false := hhead
  exact ⟨takeWhile_of_head hgap hstart, dropWhile_of_head hgap hstart⟩

theorem readRedirection_within (h : s.readRedirection cs = .done next)
    (hr : Stops cs next rest') (hg : s.tree.GrowsAlike next.tree tree tree')
    (source : String) (rest₀ : List Char) :
    Rereads cs next source rest' tree' (s.within source rest₀ tree).readRedirection := by
  have ho : (s.within source rest₀ tree).offset = s.offset := rfl
  simp only [readRedirection] at h
  cases hd : cs.dropWhile fun c => isBlank c || c = '\n' with
  | nil =>
    simp only [hd] at h
    cases h
  | cons c rest =>
    obtain ⟨hcs, hgap⟩ := exists_of_dropWhile hd
    have hsuffix : c :: rest <:+ cs := hd ▸ List.dropWhile_suffix _
    simp only [hd] at h
    generalize cs.takeWhile (fun c => isBlank c || c = '\n') = gap at *
    by_cases hc : c = '!'
    · rw [if_pos hc] at h
      obtain ⟨taken, hrest, hwithin⟩ := readShell_within h hr.tokens hg source rest₀
      refine ⟨gap ++ c :: taken, by simp [hcs, hrest], ?_⟩
      obtain ⟨htake, hdrop⟩ := hgap (taken ++ rest')
      simp only [readRedirection, List.append_assoc, List.cons_append, htake, hdrop, if_pos hc]
      exact hwithin
    rw [if_neg hc] at h
    by_cases he : endsWord c = true
    · rw [if_pos he] at h
      cases h
    rw [if_neg he] at h
    cases hw : word (c :: rest) with
    | none =>
      simp only [hw] at h
      exact absurd h unfinished_ne_done
    | some p =>
      obtain ⟨piece, rest₁⟩ := p
      have hends := hr.ends.of_suffix hsuffix
      obtain ⟨more, rfl, rfl⟩ := exists_of_word (by simpa using he) hw
      simp only [hw] at h
      cases hname : decodeFrom none (s.offset + 1 + Text.width gap) (c :: more) with
      | error e =>
        simp only [hname] at h
        cases h
      | ok name =>
        simp only [hname] at h
        by_cases hshell : name = [] ∨ name = ['s', 'h']
        · rw [if_pos hshell] at h
          obtain ⟨taken, hrest, hwithin⟩ := readShell_within h hr.tokens hg source rest₀
          obtain ⟨taken', hrest', hmem⟩ := exists_of_readShell h
          obtain rfl : taken' = taken := List.append_cancel_right (hrest'.symm.trans hrest)
          have hlook : EndsAlike (c :: (more ++ rest₁)) rest₁ (taken' ++ rest') := by
            have happend := hends.append (.inr hmem)
            rwa [← hrest] at happend
          have hword := word_before hw hlook
          obtain ⟨htake, hdrop⟩ := hgap (more ++ (taken' ++ rest'))
          refine ⟨gap ++ c :: (more ++ taken'), by simp [hcs, hrest], ?_⟩
          rw [List.cons_append] at hword
          simp only [readRedirection, ho, List.append_assoc, List.cons_append, htake, hdrop,
            if_neg hc, if_neg he, hword, hname, if_pos hshell]
          exact hwithin
        · rw [if_neg hshell] at h
          obtain rfl := rest_of_emit h
          have hword := word_before hw hends
          obtain ⟨htake, hdrop⟩ := hgap (more ++ rest')
          refine ⟨gap ++ c :: more, by simp [hcs], ?_⟩
          rw [List.cons_append] at hword
          simp only [readRedirection, ho, List.append_assoc, List.cons_append, htake, hdrop,
            if_neg hc, if_neg he, hword, hname, if_neg hshell]
          exact emit_within h hg source rest₀ rest'

theorem readFile_within (h : s.readFile cs = .done next) (hr : Stops cs next rest')
    (hg : s.tree.GrowsAlike next.tree tree tree') (source : String) (rest₀ : List Char) :
    Rereads cs next source rest' tree' (s.within source rest₀ tree).readFile := by
  have ho : (s.within source rest₀ tree).offset = s.offset := rfl
  simp only [readFile] at h
  cases hd : cs.dropWhile isBlank with
  | nil =>
    simp only [hd] at h
    cases h
  | cons c rest =>
    obtain ⟨hcs, hgap⟩ := exists_of_dropWhile hd
    have hsuffix : c :: rest <:+ cs := hd ▸ List.dropWhile_suffix _
    simp only [hd] at h
    generalize cs.takeWhile isBlank = gap at *
    by_cases he : endsWord c = true
    · rw [if_pos he] at h
      cases h
    rw [if_neg he] at h
    cases hw : word (c :: rest) with
    | none =>
      simp only [hw] at h
      exact absurd h unfinished_ne_done
    | some p =>
      obtain ⟨piece, rest₁⟩ := p
      have hends := hr.ends.of_suffix hsuffix
      obtain ⟨more, rfl, rfl⟩ := exists_of_word (by simpa using he) hw
      simp only [hw] at h
      have hfile (hpath : s.emitDecoded .fileRedirection ('>' :: gap) (c :: more) rest₁
            (.argument false) = .done next)
          (hend : ∀ d ∈ (rest₁.dropWhile isBlank).head?,
            d = ';' ∨ d = '\n' ∨ d = '\x7d' ∨ d = '#') :
          Rereads (gap ++ c :: (more ++ rest₁)) next source rest' tree'
            (s.within source rest₀ tree).readFile := by
        obtain ⟨rfl, hwithin⟩ := emitDecoded_within hpath hg source rest₀ rest'
        obtain ⟨text, hemit⟩ := emit_of_emitDecoded hpath
        obtain ⟨t, htokens, hk, hstop⟩ := exists_of_emit hemit
        have hbehind := (hr.tokens t (by simp [htokens]) hstop).file hk
        have hword := word_before hw hends
        obtain ⟨htake, hdrop⟩ := hgap (more ++ rest')
        refine ⟨gap ++ c :: more, by simp, ?_⟩
        rw [List.cons_append] at hword
        simp only [readFile, List.append_assoc, List.cons_append, htake, hdrop, if_neg he, hword]
        cases htail : rest'.dropWhile isBlank with
        | nil => exact hwithin
        | cons d tail =>
          have hd' := hend d (hbehind d (by rw [htail]; rfl))
          simp only [if_pos hd']
          exact hwithin
      rw [hcs]
      cases htail : rest₁.dropWhile isBlank with
      | nil =>
        simp only [htail] at h
        exact hfile h (by simp [htail])
      | cons d tail =>
        simp only [htail] at h
        split at h
        · next hends => exact hfile h (by simpa [htail] using hends)
        · cases h

-- A comment ends with its line.
theorem exists_of_comment (hr : EndsAlike ds (cs.dropWhile (· ≠ '\n')) rest') :
    ∃ text, cs = text ++ cs.dropWhile (· ≠ '\n') ∧
      (text ++ rest').takeWhile (· ≠ '\n') = cs.takeWhile (· ≠ '\n') ∧
      (text ++ rest').dropWhile (· ≠ '\n') = rest' := by
  have hwithin := forall_mem_takeWhile (· ≠ '\n') cs
  have hend : ∀ c ∈ rest'.head?, (decide (c ≠ '\n')) = false := fun c hc =>
    not_of_head_dropWhile (· ≠ '\n') cs c (hr.head c hc)
  exact ⟨_, List.takeWhile_append_dropWhile.symm, takeWhile_of_head hwithin hend,
    dropWhile_of_head hwithin hend⟩

-- The end of a construct is found again in front of another text, and it does the same to a tree
-- that takes its token in.
theorem step_within (h : s.step c cs = .done next) (hr : Stops (c :: cs) next rest')
    (hg : s.tree.GrowsAlike next.tree tree tree') (source : String) (rest₀ : List Char) :
    Rereads cs next source rest' tree' ((s.within source rest₀ tree).step c) := by
  have hglued : (s.within source rest₀ tree).isGlued = s.isGlued := rfl
  have hcs : cs <:+ c :: cs := List.suffix_cons c cs
  have hafter : Stops cs next rest' := ⟨hr.ends.of_suffix hcs, hr.quote, hr.tokens⟩
  have hsign {kind : TokenKind} (hemit : s.emit kind [] [c] cs [c] .command = .done next) :
      Rereads cs next source rest' tree' fun cs =>
        (s.within source rest₀ tree).emit kind [] [c] cs [c] .command :=
    ⟨[], (rest_of_emit hemit).symm, emit_within hemit hg source rest₀ rest'⟩
  unfold Rereads
  simp only [step] at h ⊢
  rw [hglued]
  by_cases hblank : isBlank c = true
  · simp only [if_pos hblank] at h ⊢
    cases h
    have htree : tree' = tree := hg.same rfl
    exact ⟨[], rfl, htree ▸ rfl⟩
  simp only [if_neg hblank] at h ⊢
  by_cases hsep : c = '\n' ∨ c = ';'
  · simp only [if_pos hsep] at h ⊢
    exact hsign h
  simp only [if_neg hsep] at h ⊢
  by_cases hcomment : c = '#' ∧ !s.isGlued
  · simp only [if_pos hcomment] at h ⊢
    cases h
    have htree : tree' = tree := hg.same rfl
    obtain ⟨text, hcs, htake, hdrop⟩ := exists_of_comment hr.ends
    exact ⟨text, hcs, by rw [htake, hdrop, htree]; rfl⟩
  simp only [if_neg hcomment] at h ⊢
  by_cases hopen : c = '\x7b'
  · simp only [if_pos hopen] at h ⊢
    exact hsign h
  simp only [if_neg hopen] at h ⊢
  by_cases hclose : c = '\x7d'
  · simp only [if_pos hclose] at h ⊢
    exact hsign h
  simp only [if_neg hclose] at h ⊢
  have hword (hpipe : c ≠ '|') (hfile : c ≠ '>') : endsWord c = false := by
    rw [not_or] at hsep
    simp [endsWord, isDelimiter, hblank, hsep, hopen, hclose, hpipe, hfile]
  by_cases hback : c = '\\' ∧ !s.isGlued
  · simp only [if_pos hback] at h ⊢
    cases hj : join cs with
    | joined gap rest =>
      simp only [hj] at h
      cases h
      have htree : tree' = tree := hg.same rfl
      refine ⟨gap, (append_of_join_joined hj).symm, ?_⟩
      rw [join_of_joined hj, htree]
      rfl
    | unfinished =>
      simp only [hj] at h
      cases h
    | absent =>
      simp only [hj] at h
      obtain ⟨rfl, -⟩ := hback
      obtain ⟨taken, hcs, hread⟩ := readWord_within rfl h hr hg source rest₀
      refine ⟨taken, hcs, ?_⟩
      rw [join_absent_of_readWord hj h hr.ends hcs]
      exact hread
  simp only [if_neg hback] at h ⊢
  by_cases hpipe : c = '|'
  · simp only [if_pos hpipe] at h ⊢
    exact readRedirection_within h hafter hg source rest₀
  simp only [if_neg hpipe] at h ⊢
  by_cases hbang : c = '!' ∧ !s.isGlued ∧ (cs.head? = some ' ' ∨ cs.head? = some '\t')
  · rw [if_pos hbang] at h
    obtain ⟨taken, hcs, hread⟩ := readShell_within h hr.tokens hg source rest₀
    obtain ⟨taken', hcs', d, hd, -⟩ := exists_of_readShell h
    obtain rfl : taken' = taken := List.append_cancel_right (hcs'.symm.trans hcs)
    have hhead : (taken' ++ rest').head? = cs.head? := by
      rw [hcs, List.head?_append_of_ne_nil _ (List.ne_nil_of_mem hd),
        List.head?_append_of_ne_nil _ (List.ne_nil_of_mem hd)]
    refine ⟨taken', hcs, ?_⟩
    rw [hhead, if_pos hbang]
    exact hread
  rw [if_neg hbang] at h
  -- A mark that is no shell redirection does not become one at the end of the text.
  have hmark {taken : List Char} (hcs : cs = taken ++ next.rest) :
      ¬(c = '!' ∧ !s.isGlued ∧
        ((taken ++ rest').head? = some ' ' ∨ (taken ++ rest').head? = some '\t')) := by
    have hhead : ∀ d ∈ (taken ++ rest').head?, cs.head? = some d := by
      intro d hd
      rw [hcs]
      cases taken with
      | nil => exact hr.ends.head d hd
      | cons e more => exact hd
    rintro ⟨hc, hg, hspace | htab⟩
    · exact hbang ⟨hc, hg, .inl (hhead ' ' hspace)⟩
    · exact hbang ⟨hc, hg, .inr (hhead '\t' htab)⟩
  by_cases hfile : c = '>'
  · rw [if_pos hfile] at h
    obtain ⟨taken, hcs, hread⟩ := readFile_within h hafter hg source rest₀
    refine ⟨taken, hcs, ?_⟩
    rw [if_neg (hmark hcs), if_pos hfile]
    exact hread
  · rw [if_neg hfile] at h
    obtain ⟨taken, hcs, hread⟩ := readWord_within (hword hpipe hfile) h hr hg source rest₀
    refine ⟨taken, hcs, ?_⟩
    rw [if_neg (hmark hcs), if_neg hfile]
    exact hread

-- The end of a construct is found again where what follows it looks the same.
theorem step_inside (h : s.step c cs = .done next) (hr : Resembles next.rest rest')
    (ht : ∀ t ∈ next.tree.tokens.toList, t.span.stop = next.offset → t.SameBehind next.rest rest')
    (source : String) (rest₀ : List Char) :
    ∃ taken, cs = taken ++ next.rest ∧
      (s.inside source rest₀).step c (taken ++ rest') = .done (next.inside source rest') := by
  have hstops : Stops (c :: cs) next rest' := by
    refine ⟨hr.endsAlike _, fun _ hn d hd => ?_, fun t hm hstop => (ht t hm hstop).endsAlike⟩
    have hhead := hr.head
    rw [hn, Option.mem_def.1 hd] at hhead
    cases hhead
  exact step_within h hstops (.refl s.tree next.tree) source rest₀

end Scanner

end CommandShell.Script
