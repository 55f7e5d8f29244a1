import CommandShell.Proofs.Grammar.Redirections
import CommandShell.Proofs.Scanner.Redirected

namespace CommandShell.Script

open Text (isWhiteSpace)

variable {c : Char} {cs : List Char}

-- Text up to the next separator.
def trail (cs : List Char) : List Char := cs.takeWhile fun c => c ≠ ';' && c ≠ '\n'

theorem trail_of_separator (hc : c = '\n' ∨ c = ';') (cs : List Char) : trail (c :: cs) = [] := by
  rcases hc with rfl | rfl <;> rfl

theorem trail_cons (hc : ¬(c = '\n' ∨ c = ';')) (cs : List Char) :
    trail (c :: cs) = c :: trail cs := by
  rw [not_or] at hc
  rw [trail, List.takeWhile_cons_of_pos (by simp [hc])]
  rfl

-- Characters that are read as something else than the beginning of a bare piece.
def signs : List Char := ['|', '>', '\x7b', '\x7d', '\'', '"', '-', '#', '!', '\\']

theorem isWhiteSpace_of_mem_signs : ∀ c ∈ signs, isWhiteSpace c = false := by
  have hall : signs.all (fun c => !isWhiteSpace c) = true := by decide +kernel
  simpa using hall

-- White space that is no blank is read like a letter.
theorem plain_of_isWhiteSpace (hc : isWhiteSpace c = true) (hb : isBlank c = false)
    (hn : ¬(c = '\n' ∨ c = ';')) : endsWord c = false ∧ isQuote c = false ∧
      c ≠ '-' ∧ c ≠ '#' ∧ c ≠ '!' ∧ c ≠ '\\' := by
  have hne {d : Char} (hd : d ∈ signs) : c ≠ d := by
    rintro rfl
    rw [isWhiteSpace_of_mem_signs c hd] at hc
    cases hc
  have hpipe : c ≠ '|' := hne (by decide)
  have hfile : c ≠ '>' := hne (by decide)
  have hopen : c ≠ '\x7b' := hne (by decide)
  have hclose : c ≠ '\x7d' := hne (by decide)
  have hsingle : c ≠ '\'' := hne (by decide)
  have hdouble : c ≠ '"' := hne (by decide)
  rw [not_or] at hn
  refine ⟨?_, ?_, hne (by decide), hne (by decide), hne (by decide), hne (by decide)⟩
  · simp [endsWord, isDelimiter, hb, hpipe, hfile, hopen, hclose, hn]
  · simp [isQuote, hsingle, hdouble]

-- A piece that starts in front of white space ends in it.
theorem trail_of_bare {p : Piece} (h : bare cs = some p)
    (hs : ∀ c ∈ trail cs, isWhiteSpace c = true) : trail cs = p.1 ++ trail p.2 := by
  fun_induction bare cs generalizing p with
  | case1 =>
    cases h
    rfl
  | case2 cs =>
    have hspace : isWhiteSpace '\\' = true := hs '\\' (by simp [trail_cons])
    rw [isWhiteSpace_of_mem_signs '\\' (by decide)] at hspace
    cases hspace
  | case3 => cases h
  | case4 => cases h
  | case5 d ds =>
    have hspace : isWhiteSpace '\\' = true := hs '\\' (by simp [trail_cons])
    rw [isWhiteSpace_of_mem_signs '\\' (by decide)] at hspace
    cases hspace
  | case6 =>
    cases h
    rfl
  | case7 c cs hb hc ih =>
    obtain ⟨q, hq, rfl⟩ := Option.map_eq_some_iff.1 h
    have hn : ¬(c = '\n' ∨ c = ';') := by
      rintro (rfl | rfl) <;> exact hc rfl
    rw [trail_cons hn] at hs ⊢
    rw [ih hq fun d hd => hs d (List.mem_cons_of_mem _ hd)]
    rfl

-- A comment ends in front of the end of its line.
theorem head_of_comment (cs : List Char) :
    ∀ c ∈ ((cs.dropWhile (· ≠ '\n')).dropWhile isBlank).head?, c = '\n' := by
  have hhead := not_of_head_dropWhile (· ≠ '\n') cs
  cases hrest : cs.dropWhile (· ≠ '\n') with
  | nil => simp
  | cons d rest =>
    rw [hrest] at hhead
    obtain rfl : d = '\n' := by simpa using hhead d rfl
    simp [isBlank]

namespace Scanner

variable {s w next : Scanner} {t : Token} {first later : List Token}

theorem step_of_separator (hc : c = '\n' ∨ c = ';') (s : Scanner) (cs : List Char) :
    s.step c cs = s.emit .separator [] [c] cs [c] .command := by
  have hb : isBlank c = false := by rcases hc with rfl | rfl <;> rfl
  rw [step, if_neg (by simp [hb]), if_pos hc]

theorem step_of_closing (s : Scanner) (cs : List Char) :
    s.step '\x7d' cs = s.emit .blockEnd [] ['\x7d'] cs ['\x7d'] .command := by
  simp [step, isBlank]

theorem step_of_comment (hg : s.isGlued = false) (cs : List Char) :
    s.step '#' cs =
      .done (s.advance ('#' :: cs.takeWhile (· ≠ '\n')) (cs.dropWhile (· ≠ '\n'))) := by
  simp [step, isBlank, hg]

theorem isGlued_of_pieceEnd (h : s.pieceEnd = none) : s.isGlued = false := by
  simp [isGlued, h]

-- What was read behind a scanner starts with the token that it read first.
theorem exists_later_of_emit {kind : TokenKind} {gap piece rest text : List Char}
    {position : Position} (hs : s.emit kind gap piece rest text position = .done next)
    (h : next.scan = (w, none)) :
    ∃ t later, w.tree.tokens.toList = s.tree.tokens.toList ++ t :: later ∧ t.kind = kind := by
  obtain ⟨t, ht, hk, -⟩ := exists_of_emit hs
  obtain ⟨later, hl⟩ := tokens_of_scan h
  exact ⟨t, later, by rw [← hl, ht, List.append_assoc]; rfl, hk⟩

-- Where the operand of a redirection into a file or to the shell ends.
theorem Delimited.of_operand {kind : TokenKind} {piece rest : List Char}
    (h : Delimited kind piece rest) (hk : kind = .fileRedirection ∨ kind = .shellRedirection) :
    (kind = .fileRedirection ∧
      ∀ c ∈ (rest.dropWhile isBlank).head?, c = ';' ∨ c = '\n' ∨ c = '\x7d' ∨ c = '#') ∨
    (kind = .shellRedirection ∧ ∀ c ∈ trail rest, isWhiteSpace c = true) := by
  cases h with
  | file operand _ closes => exact .inl ⟨operand, closes⟩
  | shell operand _ spaces => exact .inr ⟨operand, spaces⟩
  | sign structural => rcases hk with rfl | rfl <;> cases structural
  | name names => rcases hk with rfl | rfl <;> simp at names
  | bare plain => rcases hk with rfl | rfl <;> simp at plain
  | quote c body _ _ kinds =>
    rw [kinds] at hk
    split at hk <;> simp at hk

-- White space behind a shell command that is no blank makes arguments.
theorem exists_of_space (hp : s.position = .argument false) (hc : isWhiteSpace c = true)
    (hb : isBlank c = false) (hn : ¬(c = '\n' ∨ c = ';')) (hs : s.step c cs = .done next) :
    ∃ t piece, next.tree.tokens.toList = s.tree.tokens.toList ++ [t] ∧ t.kind = .bareArgument ∧
      bare (c :: cs) = some (piece, next.rest) ∧ next.position = .argument false := by
  obtain ⟨hends, hquote, hdash, hcomment, hmark, hescape⟩ := plain_of_isWhiteSpace hc hb hn
  have hstarts : Starts (c :: cs) := by
    refine ⟨by simpa using ⟨hdash, hcomment, hmark⟩, fun ds hds => ?_⟩
    exact absurd (List.cons.inj hds).1 hescape
  rw [step_of_word hp hends (.inr hstarts), readArgument, if_neg (by simp [hquote])] at hs
  split at hs
  · cases hs
  next piece rest hbare =>
  rw [if_neg (by simp)] at hs
  obtain ⟨text, hemit⟩ := emit_of_emitDecoded hs
  obtain ⟨t, ht, hk, -⟩ := exists_of_emit hemit
  refine ⟨t, piece, ht, hk, ?_, ?_⟩
  · rw [rest_of_emit hemit, hbare]
  · rw [position_of_emit hemit, hp]

-- What is read behind a shell command: arguments that are white space, and then a separator.
theorem exists_strays (h : s.scan = (w, none)) (hw : w.pending = none)
    (hp : s.position = .argument false) (hs : ∀ c ∈ trail s.rest, isWhiteSpace c = true) :
    ∃ strays later, w.tree.tokens.toList = s.tree.tokens.toList ++ (strays ++ later) ∧
      (∀ t ∈ strays, t.kind = .bareArgument) ∧ (∀ t ∈ later.head?, t.kind = .separator) ∧
      (strays = [] ↔ ∀ c ∈ trail s.rest, isBlank c = true) := by
  fun_induction scan s with
  | case1 s hr =>
    cases h
    exact ⟨[], [], by simp, by simp, by simp, by simp [hr, trail]⟩
  | case2 s c cs hr next hstep _ ih =>
    rw [hr] at hs ⊢
    by_cases hn : c = '\n' ∨ c = ';'
    · rw [step_of_separator hn] at hstep
      obtain ⟨t, later, ht, hk⟩ := exists_later_of_emit hstep h
      exact ⟨[], t :: later, ht, by simp, by simpa using hk, by simp [trail_of_separator hn]⟩
    rw [trail_cons hn] at hs ⊢
    by_cases hb : isBlank c = true
    · rw [step_of_blank hb] at hstep
      cases hstep
      obtain ⟨strays, later, ht, hk, hl, hi⟩ :=
        ih h hp fun d hd => hs d (List.mem_cons_of_mem _ hd)
      refine ⟨strays, later, ht, hk, hl, hi.trans ?_⟩
      rw [List.forall_mem_cons]
      exact (and_iff_right hb).symm
    · have hblank : isBlank c = false := by simpa using hb
      obtain ⟨t, piece, ht, hk, hbare, hnext⟩ :=
        exists_of_space hp (hs c (List.mem_cons_self ..)) hblank hn hstep
      have htrail := trail_of_bare hbare (by rwa [trail_cons hn])
      rw [trail_cons hn] at htrail
      rw [htrail] at hs
      obtain ⟨strays, later, hread, hall, hl, -⟩ :=
        ih h hnext fun d hd => hs d (List.mem_append_right _ hd)
      refine ⟨t :: strays, later, by rw [hread, ht]; simp, ?_, hl, ?_⟩
      · exact List.forall_mem_cons.2 ⟨hk, hall⟩
      · simp [hblank]
  | case3 =>
    cases h
    cases hw
  | case4 => cases h

-- Behind a file's name there may be a comment, and then its command or its block ends.
theorem exists_closing (h : s.scan = (w, none)) (hw : w.pending = none) (hp : s.pieceEnd = none)
    (hc : ∀ c ∈ (s.rest.dropWhile isBlank).head?, c = ';' ∨ c = '\n' ∨ c = '\x7d' ∨ c = '#') :
    ∃ later, w.tree.tokens.toList = s.tree.tokens.toList ++ later ∧
      ∀ t ∈ later.head?, t.kind = .separator ∨ t.kind = .blockEnd := by
  fun_induction scan s with
  | case1 =>
    cases h
    exact ⟨[], by simp, by simp⟩
  | case2 s c cs hr next hstep _ ih =>
    rw [hr] at hc
    by_cases hb : isBlank c = true
    · rw [step_of_blank hb] at hstep
      cases hstep
      rw [List.dropWhile_cons_of_pos hb] at hc
      exact ih h hp hc
    rw [List.dropWhile_cons_of_neg hb] at hc
    have hclose := hc c rfl
    by_cases hn : c = '\n' ∨ c = ';'
    · rw [step_of_separator hn] at hstep
      obtain ⟨t, later, ht, hk⟩ := exists_later_of_emit hstep h
      exact ⟨t :: later, ht, by simp [hk]⟩
    by_cases hbrace : c = '\x7d'
    · subst hbrace
      rw [step_of_closing] at hstep
      obtain ⟨t, later, ht, hk⟩ := exists_later_of_emit hstep h
      exact ⟨t :: later, ht, by simp [hk]⟩
    · obtain rfl : c = '#' := by tauto
      rw [step_of_comment (isGlued_of_pieceEnd hp)] at hstep
      cases hstep
      exact ih h hp fun d hd => .inr (.inl (head_of_comment cs d hd))
  | case3 =>
    cases h
    cases hw
  | case4 => cases h

end Scanner

variable {text : String} {script : Script} {t : Token} {i : Nat}

-- Behind a shell command nothing but blanks stands up to the next separator.
def Token.Clear (t : Token) (text : String) : Prop :=
  ∀ c ∈ trail (Text.dropBytes t.span.stop text.toList), isBlank c = true

instance (t : Token) (text : String) : Decidable (t.Clear text) :=
  decidable_of_iff ((trail (Text.dropBytes t.span.stop text.toList)).all isBlank = true)
    List.all_eq_true

-- The tokens behind the operand of a redirection: arguments if white space was left there, and
-- then the end of the command.
theorem exists_behind_operand {first behind : List Token} (h : tokenize text = .ok script)
    (ht : script.tokens.toList = first ++ t :: behind)
    (hk : t.kind = .fileRedirection ∨ t.kind = .shellRedirection) :
    ∃ strays later, behind = strays ++ later ∧ (∀ u ∈ strays, u.kind = .bareArgument) ∧
      (∀ u ∈ later.head?,
        u.kind = .separator ∨ (t.kind = .fileRedirection ∧ u.kind = .blockEnd)) ∧
      (strays = [] ↔ (t.kind = .shellRedirection → t.Clear text)) := by
  obtain ⟨w, hw, hpending, rfl⟩ := scan_of_tokenize h
  obtain ⟨s, next, gap, piece, hpiece, hnext, hread, -, hrest⟩ := Scanner.exists_taken hw ht
  have hbehind {later : List Token}
      (hl : w.tree.tokens.toList = next.tree.tokens.toList ++ later) : behind = later := by
    have hall : w.tree.tokens.toList = first ++ t :: behind := ht
    rw [hall, hread, List.append_assoc, List.append_cancel_left_eq] at hl
    exact (List.cons.inj hl).2
  have hposition := hpiece.position
  have hpieceEnd := hpiece.pieceEnd
  rcases hpiece.ended.of_operand hk with ⟨hk, hcloses⟩ | ⟨hk, hspaces⟩
  · rw [hk] at hpieceEnd
    obtain ⟨later, hl, hends⟩ := Scanner.exists_closing hnext hpending hpieceEnd hcloses
    refine ⟨[], later, hbehind hl, by simp, fun u hu => ?_, by simp [hk]⟩
    exact (hends u hu).imp_right fun hu => ⟨hk, hu⟩
  · rw [hk] at hposition
    obtain ⟨strays, later, hl, hall, hends, hi⟩ :=
      Scanner.exists_strays hnext hpending hposition hspaces
    refine ⟨strays, later, hbehind hl, hall, fun u hu => .inl (hends u hu), ?_⟩
    rw [hi, forall_prop_of_true hk, Token.Clear, hrest]

namespace Derivation

variable {args : List Arg} {blocks : List Block} {list : List Redirected}
  {after strays rest : List Token}

-- The arguments behind a name are those that the tokens start with, and neither a block nor a
-- redirection follows them if the command ends there.
theorem eq_nil_of_ends
    (h : argTokens args ++ (blocksTokens blocks ++ (redirectedTokens list ++ after)) = strays ++ rest)
    (hs : ∀ t ∈ strays, t.kind.isPiece = true) (ha : ∀ t ∈ after.head?, t.kind.isPiece = false)
    (hr : ∀ t ∈ rest.head?, t.kind = .separator ∨ t.kind = .blockEnd) :
    argTokens args = strays ∧ blocks = [] ∧ list = [] := by
  have hplain : ∀ t ∈ rest.head?, t.kind.isPiece = false := by
    intro t ht
    rcases hr t ht with hk | hk <;> rw [hk] <;> rfl
  have htail : ∀ t ∈ (blocksTokens blocks ++ (redirectedTokens list ++ after)).head?,
      t.kind.isPiece = false := by
    intro t ht
    rw [List.head?_append, List.head?_append, Option.mem_def, Option.or_eq_some_iff,
      Option.or_eq_some_iff] at ht
    rcases ht with ht | ⟨-, ht | ⟨-, ht⟩⟩
    · exact head_blocksTokens blocks t ht
    · exact head_redirectedTokens list t ht
    · exact ha t ht
  have hargs : argTokens args = strays := by
    have htake := congrArg (List.takeWhile fun t : Token => t.kind.isPiece) h
    rwa [takeWhile_of_head isPiece_of_mem_argTokens htail, takeWhile_of_head hs hplain] at htake
  rw [hargs] at h
  obtain rfl := List.append_cancel_left h
  have hblocks : blocks = [] := by
    cases blocks with
    | nil => rfl
    | cons block more =>
      obtain ⟨opening, opens, body, closing, closes⟩ := block
      have hk := hr opening rfl
      simp [opens] at hk
  subst hblocks
  have hlist : list = [] := by
    cases list with
    | nil => rfl
    | cons redirected more =>
      obtain ⟨name, kind, operands, inner⟩ := redirected
      rcases hr name rfl with hk | hk <;> rw [hk] at kind <;> cases kind
  exact ⟨hargs, rfl, hlist⟩

end Derivation

-- A redirection is nothing but its operand, and with it its command ends.
structure Redirection.Alone (r : Redirection) (script : Script) (t : Token) : Prop where
  args : r.node.args = none
  next : ∀ u ∈ script.tokens[r.head + 1]?,
    u.kind = .separator ∨ (t.kind = .fileRedirection ∧ u.kind = .blockEnd)

-- Redirections into files and to shell commands are the last ones of their commands and have no
-- blocks.  They are nothing but their operands if and only if, behind a shell command, no white
-- space other than blanks is left.
theorem alone_of_tokenize (h : tokenize text = .ok script) (ht : script.tokens[i]? = some t)
    (hk : t.kind = .fileRedirection ∨ t.kind = .shellRedirection) :
    ∃ depth c r id, Visit.command depth c ∈ script.visits ∧ c.redirections.getLast? = some r ∧
      r.head = i ∧ t.node = some id ∧ script.nodes[id]? = some r.node ∧ r.node.blocks = [] ∧
      (r.Alone script t ↔ (t.kind = .shellRedirection → t.Clear text)) := by
  have hbuilt := built_of_tokenize h
  have hredirects : t.kind.isRedirection = true := by
    rcases hk with hk | hk <;> rw [hk] <;> rfl
  obtain ⟨depth, c, r, hc, hr, rfl⟩ := hbuilt.exists_owned ht hredirects
  obtain ⟨front, u, args, blocks, later, after, hs⟩ := hbuilt.exists_stands hc hr
  obtain rfl : u = t := by
    rw [← Array.getElem?_toList, hs.tokens, hs.head] at ht
    simpa using ht
  obtain ⟨strays, rest, hbehind, hall, hends, hi⟩ := exists_behind_operand h hs.tokens hk
  have hpieces : ∀ v ∈ strays, v.kind.isPiece = true := fun v hv => by rw [hall v hv]; rfl
  obtain ⟨hargs, rfl, rfl⟩ := Derivation.eq_nil_of_ends hbehind hpieces hs.ends fun v hv =>
    (hends v hv).imp_right And.right
  have hnone : r.node.args = none ↔ strays = [] := by
    rw [← hargs, hs.node, Derivation.argTokens, List.map_eq_nil_iff]
    simp [Derivation.redirectedNode, Derivation.commandNode, Derivation.rangeOf]
  obtain ⟨id, hid, hnode⟩ := hs.opens
  refine ⟨depth, c, r, id, hc, hs.last rfl, rfl, hid, hnode, ?_, ?_⟩
  · rw [hs.node]
    rfl
  · rw [← hi, ← hnone]
    refine ⟨Redirection.Alone.args, fun hn => ⟨hn, fun v hv => hends v ?_⟩⟩
    obtain rfl := hnone.1 hn
    rw [← Array.getElem?_toList, hs.tokens, hbehind, hs.head] at hv
    simpa [List.getElem?_append_right, List.head?_eq_getElem?] using hv

-- A file in front of a comment, another one in front of a closing brace, and a shell command with
-- blanks behind it.
theorem alone_of_tokenize_block :
    let text := "a > 'f' # x\nb { c > g } ! d \t"
    ∃ script, tokenize text = .ok script ∧
      (script.tokens.toList.map fun t => (t.kind, t.text, t.span.stop)) =
        [(.command, "a", 1), (.fileRedirection, "f", 7), (.separator, "\n", 12),
          (.command, "b", 13), (.blockBegin, "\x7b", 15), (.command, "c", 17),
          (.fileRedirection, "g", 21), (.blockEnd, "\x7d", 23), (.shellRedirection, "d", 27)] ∧
      ∀ i ∈ [1, 6, 8], ∃ t depth c r id, script.tokens[i]? = some t ∧
        Visit.command depth c ∈ script.visits ∧ c.redirections.getLast? = some r ∧ r.head = i ∧
        t.node = some id ∧ script.nodes[id]? = some r.node ∧ r.node.blocks = [] ∧
        r.Alone script t := by
  intro text
  obtain ⟨script, hscript, htokens⟩ := exists_of_tokenize
    (show (tokenize text).toOption.map
      (fun s => s.tokens.toList.map fun t => (t.kind, t.text, t.span.stop)) =
        some [(.command, "a", 1), (.fileRedirection, "f", 7), (.separator, "\n", 12),
          (.command, "b", 13), (.blockBegin, "\x7b", 15), (.command, "c", 17),
          (.fileRedirection, "g", 21), (.blockEnd, "\x7d", 23), (.shellRedirection, "d", 27)] by
      decide +kernel)
  refine ⟨script, hscript, htokens, fun i hi => ?_⟩
  have hfields := congrArg (·[i]?) htokens
  simp only [List.getElem?_map, Array.getElem?_toList] at hfields
  obtain ⟨t, ht, hoperand, hclear⟩ : ∃ t, script.tokens[i]? = some t ∧
      (t.kind = .fileRedirection ∨ t.kind = .shellRedirection) ∧
      (t.kind = .shellRedirection → t.Clear text) := by
    simp only [List.mem_cons, List.not_mem_nil, or_false] at hi
    rcases hi with rfl | rfl | rfl <;> obtain ⟨t, ht, hf⟩ := Option.map_eq_some_iff.1 hfields <;>
      simp only [Prod.mk.injEq] at hf
    · exact ⟨t, ht, .inl hf.1, by simp [hf.1]⟩
    · exact ⟨t, ht, .inl hf.1, by simp [hf.1]⟩
    · refine ⟨t, ht, .inr hf.1, fun _ => ?_⟩
      rw [Token.Clear, hf.2.2]
      exact List.all_eq_true.1 (by decide +kernel)
  obtain ⟨depth, c, r, id, hc, hlast, hhead, hid, hnode, hblocks, halone⟩ :=
    alone_of_tokenize hscript ht hoperand
  exact ⟨t, depth, c, r, id, ht, hc, hlast, hhead, hid, hnode, hblocks, halone.2 hclear⟩

-- A shell command is trimmed of all white space, but what is left of it behind the command is read
-- on, and white space other than blanks becomes an argument that the redirection has no use for.
theorem shell_redirection_leaves_argument :
    ∃ script t u node, tokenize "a ! b\u00a0" = .ok script ∧ script.tokens[1]? = some t ∧
      t.kind = .shellRedirection ∧ t.node = some 1 ∧ script.nodes[1]? = some node ∧
      node.args = some ⟨2, 2⟩ ∧ script.tokens[2]? = some u ∧ u.kind = .bareArgument ∧
      u.text = "\u00a0" := by
  obtain ⟨script, hscript, hread⟩ := exists_of_tokenize
    (show (tokenize "a ! b\u00a0").toOption.map (fun s => (s.tokens.toList, s.nodes.toList)) =
      some ([⟨.command, "a", ⟨0, 1⟩, 1, 1, some 0⟩, ⟨.shellRedirection, "b", ⟨4, 5⟩, 1, 2, some 1⟩,
          ⟨.bareArgument, "\u00a0", ⟨5, 7⟩, 1, 3, none⟩],
        [⟨⟨0, 2⟩, none, [⟨1, 2⟩], []⟩, ⟨⟨1, 2⟩, some ⟨2, 2⟩, [], []⟩]) by decide +kernel)
  obtain ⟨htokens, hnodes⟩ := Prod.mk.inj hread
  refine ⟨script, ⟨.shellRedirection, "b", ⟨4, 5⟩, 1, 2, some 1⟩,
    ⟨.bareArgument, "\u00a0", ⟨5, 7⟩, 1, 3, none⟩, ⟨⟨1, 2⟩, some ⟨2, 2⟩, [], []⟩, hscript, ?_, rfl,
    rfl, ?_, rfl, ?_, rfl, rfl⟩
  · rw [← Array.getElem?_toList, htokens]
    rfl
  · rw [← Array.getElem?_toList, hnodes]
    rfl
  · rw [← Array.getElem?_toList, htokens]
    rfl

end CommandShell.Script
