import CommandShell.Proofs.Scanner.Joining
import CommandShell.Proofs.Scanner.Operands
import CommandShell.Proofs.Scanner.Pieces
import CommandShell.Proofs.Scanner.Replaying

namespace CommandShell.Script

open Scanner (loaded)
open Text (width)

-- A script of one command with one redirection, which has this kind, name and arguments.
structure Directs (script : Script) (c : Command) (r : Redirection) (kind : TokenKind)
    (name : String) (args : List Token) : Prop where
  commands : script.commands = [c]
  redirections : c.redirections = [r]
  blocks : r.node.blocks = []
  args : script.argsOf r.node = args
  kind : (script.token r.head).kind = kind
  name : (script.token r.head).text = name

namespace Derivation

variable {name redirection : Token} {args pieces : List Token}

-- A command with arguments and with one redirection that has arguments, too.
theorem exists_redirected (hn : name.kind = .command) (ha : ∀ t ∈ args, t.kind.isPiece = true)
    (hr : redirection.kind.isRedirection = true) (hp : ∀ t ∈ pieces, t.kind.isPiece = true) :
    ∃ list operands, argTokens list = args ∧ argTokens operands = pieces ∧
      itemsTokens [.command name hn list [] [.mk redirection hr operands []]] =
        name :: (args ++ redirection :: pieces) := by
  obtain ⟨list, rfl⟩ := exists_argTokens ha
  obtain ⟨operands, rfl⟩ := exists_argTokens hp
  exact ⟨list, operands, rfl, rfl,
    by simp [itemsTokens, Item.tokens, blocksTokens, redirectedTokens, Redirected.tokens]⟩

theorem directs_of_insertAll {t : Tree} (source : String) (hn : name.kind = .command)
    (ha : ∀ t ∈ args, t.kind.isPiece = true) (hr : redirection.kind.isRedirection = true)
    (hp : ∀ t ∈ pieces, t.kind.isPiece = true)
    (h : Tree.insertAll {} (name :: (args ++ redirection :: pieces)) = .ok t) :
    t.depth = 0 ∧
      ∃ c r, (t.toScript source).Directs c r redirection.kind redirection.text pieces := by
  obtain ⟨list, operands, rfl, rfl, hitems⟩ := exists_redirected hn ha hr hp
  let items : List Item := [.command name hn list [] [.mk redirection hr operands []]]
  obtain ⟨head, hi⟩ := insertAll_of_items items
  obtain rfl := Except.ok.inj ((hitems ▸ h).symm.trans hi)
  have hcommands :=
    commands_eq_itemsOutline (by simp [Tree.toScript]) (holds_treeOf items head source)
  generalize hscript : (treeOf (numbered 0 (itemsTokens items))
    (itemsNodes 0 items) head []).toScript source = script at hcommands ⊢
  have hopens : name.kind.opensNode = true := by rw [hn]; rfl
  let before := { name with node := some 0 } :: argTokens list
  have htokens : script.tokens.toList =
      before ++ { redirection with node := some 1 } :: argTokens operands := by
    rw [← hscript]
    show numbered 0 (itemsTokens items) = _
    rw [hitems, numbered, if_pos hopens, numbered_append, numbered_argTokens, countP_argTokens,
      numbered, if_pos (opensNode_of_isRedirection hr), numbered_argTokens]
    rfl
  have hlength : before.length = 0 + 1 + list.length + (blocksTokens []).length := by
    simp [before, blocksTokens, Nat.add_comm]
  have htoken : script.token (0 + 1 + list.length + (blocksTokens []).length) =
      { redirection with node := some 1 } := by
    rw [token, ← Array.getElem?_toList, htokens, ← hlength]
    simp
  refine ⟨rfl, _, _, hcommands, rfl, rfl, argsOf_commandNode ?_, ?_, ?_⟩
  · rw [htokens, ← hlength]
    simp
  · show (script.token (0 + 1 + list.length + (blocksTokens []).length)).kind = _
    rw [htoken]
  · show (script.token (0 + 1 + list.length + (blocksTokens []).length)).text = _
    rw [htoken]

end Derivation

namespace Tree

variable {t u : Tree} {token : Token} {tokens : List Token}

-- A tree that takes in any number of arguments.
def Takes (t : Tree) : Prop :=
  ∀ pieces : List Token, (∀ p ∈ pieces, p.kind.isPiece = true) → ∃ u, t.insertAll pieces = .ok u

-- A tree whose last command takes in a redirection, and this its arguments.
def Redirects (t : Tree) : Prop :=
  ∀ token : Token, token.kind.isRedirection = true → ∃ u, t.insert token = .ok u ∧ u.Takes

theorem Takes.exists_insert (h : t.Takes) (hk : token.kind.isPiece = true) :
    ∃ u, t.insert token = .ok u ∧ u.Takes := by
  obtain ⟨v, hv⟩ := h [token] (by simpa using hk)
  obtain ⟨u, hu, -⟩ := exists_of_insertAll_cons hv
  refine ⟨u, hu, fun pieces hp => ?_⟩
  rw [← insertAll_cons hu]
  exact h (token :: pieces) (List.forall_mem_cons.2 ⟨hk, hp⟩)

theorem redirects_of_insertAll {name : Token} {args : List Token} (hn : name.kind = .command)
    (ha : ∀ t ∈ args, t.kind.isPiece = true) (h : Tree.insertAll {} (name :: args) = .ok t) :
    t.Redirects := by
  intro token hk
  have htaken (pieces : List Token) (hp : ∀ p ∈ pieces, p.kind.isPiece = true) :
      ∃ v, t.insertAll (token :: pieces) = .ok v := by
    obtain ⟨list, operands, -, -, hitems⟩ := Derivation.exists_redirected hn ha hk hp
    obtain ⟨head, hall⟩ := Derivation.insertAll_of_items
      [.command name hn list [] [.mk token hk operands []]]
    rw [hitems, ← List.cons_append, insertAll_append h] at hall
    exact ⟨_, hall⟩
  obtain ⟨v, hv⟩ := htaken [] (by simp)
  obtain ⟨u, hu, -⟩ := exists_of_insertAll_cons hv
  refine ⟨u, hu, fun pieces hp => ?_⟩
  rw [← insertAll_cons hu]
  exact htaken pieces hp

end Tree

namespace Scanner

variable {s s' next : Scanner} {c : Char} {cs gap piece rest W : List Char} {n : Nat}
  {kind : TokenKind} {pieces : List (TokenKind × List Char)} {options : Bool}

-- The tokens that were read are taken in again as they were kept.
theorem exists_kept_of_behind (h : behind n s = some s') :
    ∃ kept, s'.tree.tokens.toList = s.tree.tokens.toList ++ kept ∧
      s.tree.insertAll kept = .ok s'.tree := by
  induction n generalizing s with
  | zero =>
    cases h
    exact ⟨[], (List.append_nil _).symm, rfl⟩
  | succ n ih =>
    obtain ⟨c, cs, next, -, hs, hn⟩ := exists_of_behind h
    obtain ⟨later, hlater, hall⟩ := ih hn
    cases reads_of_step hs with
    | skip => exact ⟨later, hlater, hall⟩
    | token kind gap piece text rest tree split taken introduced spelled inserted =>
      obtain ⟨id, hid⟩ := Tree.tokens_of_insert inserted
      have hkept := (Tree.insert_kept inserted hid s.tree).trans inserted
      refine ⟨_ :: later, ?_, (Tree.insertAll_cons hkept).trans hall⟩
      rw [hlater]
      show tree.tokens.toList ++ later = _
      rw [hid, Array.toList_push, List.append_assoc]
      rfl

theorem behind_concat (h : behind n s = some s') (hr : s'.rest = c :: cs)
    (hs : s'.step c cs = .done next) : behind (n + 1) s = some next := by
  induction n generalizing s with
  | zero =>
    cases h
    exact behind_of_step hr hs
  | succ n ih =>
    obtain ⟨d, ds, first, hrest, hstep, hn⟩ := exists_of_behind h
    rw [behind_of_step hrest hstep]
    exact ih hn

-- A word may start here: it is neither an option nor a comment nor the mark of a shell redirection,
-- and lines are not joined in front of it.
structure Starts (cs : List Char) : Prop where
  plain : ∀ c ∈ cs.head?, c ≠ '-' ∧ c ≠ '#' ∧ c ≠ '!'
  joins : ∀ ds, cs = '\\' :: ds → join ds = .absent

theorem step_of_word (hp : s.position = .argument options) (he : endsWord c = false)
    (hs : s.isGlued = true ∨ Starts (c :: cs)) : s.step c cs = s.readArgument options c cs := by
  have hword : s.readWord c cs = s.readArgument options c cs := by rw [readWord, hp]
  simp only [endsWord, isDelimiter, Bool.or_eq_false_iff, decide_eq_false_iff_not] at he
  obtain ⟨⟨⟨⟨⟨⟨hblank, hsemicolon⟩, hpipe⟩, hfile⟩, hopen⟩, hclose⟩, hnewline⟩ := he
  rcases hs with hg | hs
  · simp [step, hblank, hsemicolon, hpipe, hfile, hopen, hclose, hnewline, hg, hword]
  · obtain ⟨-, hcomment, hmark⟩ := hs.plain c rfl
    by_cases hb : c = '\\'
    · subst hb
      simp [step, hblank, hs.joins cs rfl, hword]
    · simp [step, hblank, hsemicolon, hpipe, hfile, hopen, hclose, hnewline, hcomment, hmark, hb,
        hword]

-- The next piece of a word is read as an argument.
theorem step_of_cut (h : Cut cs ((kind, piece) :: pieces)) (hp : s.position = .argument options)
    (hs : s.isGlued = true ∨ Starts cs) :
    ∃ c ds rest, cs = c :: ds ∧ Cut rest pieces ∧ kind.isArgument = true ∧
      s.step c ds = s.emitDecoded kind [] piece rest s.position := by
  cases h with
  | @quote c body rest pieces opens closed more =>
    have hread : s.step c (body ++ rest) = s.readArgument options c (body ++ rest) := by
      rw [step_of_isQuote opens, readWord, hp]
    refine ⟨c, body ++ rest, rest, rfl, more, ?_, ?_⟩
    · split <;> rfl
    · rw [hread, readArgument, if_pos opens, closed]
  | @bare c body rest pieces plain ended more =>
    have hq : isQuote c = false := by
      simp only [endsBare, Bool.or_eq_false_iff] at plain
      exact plain.2
    have he : endsWord c = false := by
      simp only [endsBare, Bool.or_eq_false_iff] at plain
      exact plain.1
    have hoption : ¬(c = '-' ∧ options = true ∧ (!s.isGlued) = true ∧
        startsOption (body ++ rest) = true) := by
      rintro ⟨hd, -, hg, -⟩
      rcases hs with hg' | hs
      · simp [hg'] at hg
      · exact (hs.plain c rfl).1 hd
    refine ⟨c, body ++ rest, rest, rfl, more, rfl, ?_⟩
    rw [step_of_word hp he hs, readArgument, if_neg (by simp [hq]), ended]
    simp only [if_neg hoption]

theorem emitDecoded_of_some {gap text : List Char} {position : Position}
    (h : decoded none piece = some text) :
    s.emitDecoded kind gap piece rest position = s.emit kind gap piece rest text position := by
  rw [emitDecoded, decodeFrom_eq_ok h]

theorem emitDecoded_of_none {gap : List Char} {position : Position}
    (h : decoded none piece = none) :
    ∃ e, s.emitDecoded kind gap piece rest position = .reject s e := by
  rw [← toOption_decodeFrom none (s.offset + width gap)] at h
  rw [emitDecoded]
  cases hd : decodeFrom none (s.offset + width gap) piece with
  | error e => exact ⟨e, rfl⟩
  | ok text =>
    rw [hd] at h
    cases h

theorem scan_of_reject {e : LexError} (hr : s.rest = c :: cs) (h : s.step c cs = .reject next e) :
    s.scan = (next, some e) := by
  rw [scan_of_cons hr, h]

-- A scanner in front of a word that goes on the last argument or is one of its own.
structure Before (s : Scanner) (cs : List Char) : Prop where
  rest : s.rest = cs
  position : ∃ options, s.position = .argument options
  pending : s.pending = none
  takes : s.tree.Takes
  starts : s.isGlued = true ∨ Starts cs

namespace Before

-- The next piece is taken in as an argument, and what is left of the word goes on it.
theorem read_piece (h : Before s cs) (hc : Cut cs ((kind, piece) :: pieces)) {text : List Char}
    (hd : decoded none piece = some text) :
    ∃ next token rest, s.scan = next.scan ∧ s.tree.insert token = .ok next.tree ∧
      token.kind = kind ∧ token.text = String.ofList text ∧ kind.isArgument = true ∧
      token.group = (if s.isGlued then s.group else s.group + 1) ∧
      next.isGlued = true ∧ next.group = token.group ∧ Cut rest pieces ∧ Before next rest := by
  obtain ⟨options, hp⟩ := h.position
  obtain ⟨c, ds, rest, rfl, hmore, hk, hstep⟩ := step_of_cut hc hp h.starts
  have hstructural : kind.isStructural = false := isStructural_of_isPiece (isPiece_of_isArgument hk)
  obtain ⟨tree, hinsert, htakes⟩ :
      ∃ tree, s.tree.insert (s.tokenAt kind [] piece text) = .ok tree ∧ tree.Takes :=
    h.takes.exists_insert (isPiece_of_isArgument hk)
  rw [emitDecoded_of_some hd, emit_of_insert hinsert] at hstep
  have hglued : ({ (s.marked kind [] piece rest).advance piece rest with
      tree, position := s.position } : Scanner).isGlued = true := by
    simp [isGlued, advance, marked, hk]
  refine ⟨_, s.tokenAt kind [] piece text, rest, scan_of_done h.rest hstep, hinsert, rfl, rfl, hk,
    ?_, hglued, ?_, hmore, rfl, h.position, h.pending, htakes, .inl hglued⟩
  · simp [tokenAt, nextGroup, hstructural, hk, isGlued]
  · simp [tokenAt, advance, marked, hstructural]

-- The pieces of a word become arguments of one group, unless there is an escape in one of them that
-- stands for nothing.
theorem read_cut (h : Before s cs) (hc : Cut cs pieces) :
    (spelled? pieces = none ∧ ∃ next e, s.scan = (next, some e)) ∨
      ∃ next kept, s.scan = (next, none) ∧ next.pending = none ∧
        s.tree.insertAll kept = .ok next.tree ∧
        spelled? pieces = some (kept.map fun t => (t.kind, t.text)) ∧
        ∀ t ∈ kept, t.kind.isArgument = true ∧
          t.group = if s.isGlued then s.group else s.group + 1 := by
  induction pieces generalizing cs s with
  | nil =>
    cases hc
    exact .inr ⟨s, [], scan_of_rest_nil h.rest, h.pending, rfl, rfl, by simp⟩
  | cons p pieces ih =>
    obtain ⟨kind, piece⟩ := p
    cases hd : decoded none piece with
    | none =>
      obtain ⟨options, hp⟩ := h.position
      obtain ⟨c, ds, rest, rfl, -, -, hstep⟩ := step_of_cut hc hp h.starts
      obtain ⟨e, he⟩ := emitDecoded_of_none hd
      exact .inl ⟨by simp [spelled?, hd], _, e, scan_of_reject h.rest (hstep.trans he)⟩
    | some text =>
      obtain ⟨next, token, rest, hscan, hinsert, rfl, htext, hk, hgroup, hglued, hnext, hmore,
        hbefore⟩ := h.read_piece hc hd
      rw [hscan]
      rcases ih hbefore hmore with
        ⟨hnone, herror⟩ | ⟨last, kept, hlast, hpending, hkept, hspelled, hall⟩
      · exact .inl ⟨by simp [spelled?, hd, hnone], herror⟩
      · refine .inr ⟨last, token :: kept, hlast, hpending,
          (Tree.insertAll_cons hinsert).trans hkept, by simp [spelled?, hd, hspelled, htext], ?_⟩
        rintro t (_ | ⟨_, ht⟩)
        · exact ⟨hk, hgroup⟩
        · obtain ⟨hargument, htgroup⟩ := hall t ht
          exact ⟨hargument, by rw [htgroup, if_pos hglued, hnext, hgroup]⟩

end Before

theorem endsWord_of_word (h : word (c :: cs) = some (c :: cs, [])) : endsWord c = false := by
  cases he : endsWord c with
  | false => rfl
  | true =>
    rw [word_of_endsWord he] at h
    cases h

-- The scanner takes the word behind a `>`, all of it at once.
theorem step_of_file (hc : Cut cs pieces) (hn : cs ≠ []) :
    s.step '>' (' ' :: cs) =
      s.emitDecoded .fileRedirection ['>', ' '] cs [] (.argument false) := by
  have hword := word_of_cut hc
  obtain ⟨c, ds, rfl⟩ := List.exists_cons_of_ne_nil hn
  have he := endsWord_of_word hword
  have hspace : isBlank ' ' = true := rfl
  have hstep : s.step '>' (' ' :: c :: ds) = s.readFile (' ' :: c :: ds) := by simp [step, isBlank]
  rw [hstep]
  simp [readFile, hspace, isBlank_of_endsWord he, he, hword]

theorem read_file (hr : s.rest = '>' :: ' ' :: cs) (hc : Cut cs pieces) (hn : cs ≠ [])
    (hp : s.pending = none) (ht : s.tree.Redirects) :
    (decoded none cs = none ∧ ∃ next e, s.scan = (next, some e)) ∨
      ∃ next token text, s.scan = (next, none) ∧ next.pending = none ∧
        s.tree.insert token = .ok next.tree ∧ decoded none cs = some text ∧
        token.kind = .fileRedirection ∧ token.text = String.ofList text := by
  have hstep := step_of_file (s := s) hc hn
  cases hd : decoded none cs with
  | none =>
    obtain ⟨e, hreject⟩ := emitDecoded_of_none hd
    exact .inl ⟨rfl, s, e, scan_of_reject hr (hstep.trans hreject)⟩
  | some text =>
    obtain ⟨tree, hinsert, -⟩ := ht (s.tokenAt .fileRedirection ['>', ' '] cs text) rfl
    rw [emitDecoded_of_some hd, emit_of_insert hinsert] at hstep
    have hscan := (scan_of_done hr hstep).trans (scan_of_rest_nil rfl)
    exact .inr ⟨_, _, text, hscan, hp, hinsert, rfl, rfl, rfl⟩

-- A word that a redirection goes by: the empty name and `sh` stand for the shell, as the mark does.
structure Names (word name : List Char) : Prop where
  mark : ∀ c ∈ word.head?, c ≠ '!'
  whole : Script.word word = some (word, [])
  text : decoded none word = some name
  special : name ≠ [] ∧ name ≠ ['s', 'h']

theorem step_of_named {name : List Char} (h : Names W name) (cs : List Char) :
    s.step '|' (' ' :: (W ++ ' ' :: cs)) =
      s.emit .redirection ['|', ' '] W (' ' :: cs) name (.argument true) := by
  obtain ⟨hempty, hshell⟩ := h.special
  have hword : word (W ++ ' ' :: cs) = some (W, ' ' :: cs) :=
    word_append (by simp [endsWord, isDelimiter, isBlank]) h.whole
  have htext (offset : Nat) : decodeFrom none offset W = .ok name := decodeFrom_eq_ok h.text offset
  have hstep (cs : List Char) : s.step '|' cs = s.readRedirection cs := by simp [step, isBlank]
  cases W with
  | nil =>
    have htext := h.text
    rw [decoded_nil] at htext
    exact absurd (Option.some.inj htext).symm hempty
  | cons c ds =>
    have he := endsWord_of_word h.whole
    have hc : c ≠ '!' := h.mark c rfl
    have hb : isBlank c = false := isBlank_of_endsWord he
    have hline : c ≠ '\n' := by
      rintro rfl
      cases he
    have hspace : isBlank ' ' = true := rfl
    rw [List.cons_append] at hword
    simp [hstep, readRedirection, hspace, hb, hline, hc, he, hword, htext, hempty, hshell]

-- Behind the name the scanner stands in front of arguments.
theorem read_named {name : List Char} (hr : s.rest = '|' :: ' ' :: (W ++ ' ' :: cs))
    (hname : Names W name) (hc : Cut cs pieces) (hs : Starts cs) (hp : s.pending = none)
    (ht : s.tree.Redirects) :
    (spelled? pieces = none ∧ ∃ next e, s.scan = (next, some e)) ∨
      ∃ next token kept, s.scan = (next, none) ∧ next.pending = none ∧
        s.tree.insertAll (token :: kept) = .ok next.tree ∧
        spelled? pieces = some (kept.map fun t => (t.kind, t.text)) ∧
        token.kind = .redirection ∧ token.text = String.ofList name ∧
        ∃ group, 0 < group ∧ ∀ t ∈ kept, t.kind.isArgument = true ∧ t.group = group := by
  obtain ⟨tree, hinsert, htakes⟩ := ht (s.tokenAt .redirection ['|', ' '] W name) rfl
  have hstep := step_of_named (s := s) hname cs
  rw [emit_of_insert hinsert] at hstep
  have hscan := scan_of_done hr hstep
  generalize hbehind : ({ (s.marked .redirection ['|', ' '] W (' ' :: cs)).advance W (' ' :: cs) with
    tree, position := .argument true } : Scanner) = behind at hscan
  have hloose := scan_of_done (by rw [← hbehind]; rfl) (step_of_blank rfl behind cs)
  have hglued : (behind.advance [' '] cs).isGlued = false := by
    simp [← hbehind, isGlued, advance, marked, TokenKind.isArgument]
  have htree : (behind.advance [' '] cs).tree = tree := by rw [← hbehind]; rfl
  have hbefore : Before (behind.advance [' '] cs) cs := by
    refine ⟨rfl, ⟨true, by rw [← hbehind]; rfl⟩, ?_, htree ▸ htakes, .inr hs⟩
    rw [← hbehind, ← hp]
    rfl
  rw [hscan, hloose]
  rcases hbefore.read_cut hc with hnone | ⟨next, kept, hnext, hpending, hkept, hspelled, hall⟩
  · exact .inl hnone
  · rw [hglued] at hall
    rw [htree] at hkept
    exact .inr ⟨next, _, kept, hnext, hpending, (Tree.insertAll_cons hinsert).trans hkept, hspelled,
      rfl, rfl, _, Nat.succ_pos _, hall⟩

end Scanner

-- A text that is one command with arguments, up to its end.  More may stand behind a blank: the
-- text is read in front of a comment.
structure Invokes (front : List Char) (script : Script) : Prop where
  read : tokenize (String.ofList (front ++ [' ', '#'])) = .ok script
  command : ∃ name args, script.tokens.toList = name :: args ∧ name.kind = .command ∧
    ∀ t ∈ args, t.kind.isPiece = true
  ends : ∀ t ∈ script.tokens.toList.getLast?, t.span.stop = width front

variable {front rest : List Char} {script : Script}

-- The scanner comes to the end of the command, and there nothing else was read.
theorem Invokes.exists_behind (h : Invokes front script) :
    ∃ n s, (loaded .command (String.ofList (front ++ [' ', '#']))).behind n = some s ∧
      s.rest = [' ', '#'] ∧ s.pending = none ∧ s.tree.tokens.toList = script.tokens.toList ∧
      Tree.insertAll {} script.tokens.toList = .ok s.tree := by
  obtain ⟨name, args, htokens, -⟩ := h.command
  obtain ⟨w, hw, hm, rfl⟩ := scan_complete_of_tokenize h.read
  obtain ⟨hp, -⟩ := Scanner.complete_of_expectMore hm
  have hne : name :: args ≠ [] := List.cons_ne_nil _ _
  have hsplit : w.tree.tokens.toList =
      [] ++ ((name :: args).dropLast ++ [(name :: args).getLast hne]) := by
    rw [List.dropLast_append_getLast]
    exact htokens
  obtain ⟨n, s, next, hn, htakes, hbefore⟩ := Scanner.exists_takesIn hw hsplit
  obtain ⟨gap, piece, hpiece⟩ := htakes.exists_piece
  obtain ⟨⟨c, cs, hr, hs⟩, hpush⟩ := htakes
  have hnext := Scanner.behind_concat hn hr hs
  have hall : next.tree.tokens.toList = name :: args := by
    rw [hpush, Array.toList_push, hbefore, List.append_assoc, List.dropLast_append_getLast]
    rfl
  -- The last token ends where the blank stands, so that this is what is left.
  obtain ⟨taken, htaken, hoffset⟩ := Scanner.split_of_behind hnext
  have hrest : taken ++ next.rest = front ++ [' ', '#'] := by
    rw [← htaken]
    simp [loaded]
  have hwidth : width taken = width front := by
    have hlast : w.snapshot.tokens.toList.getLast? = some ((name :: args).getLast hne) := by
      rw [htokens]
      exact List.getLast?_eq_some_getLast hne
    rw [hpiece.offset, h.ends _ hlast] at hoffset
    simpa [loaded, Scanner.starting] using hoffset.symm
  obtain rfl : taken = front := by
    have htake := congrArg (Text.takeBytes (width taken)) hrest
    rwa [hwidth, Text.takeBytes_width_append, ← hwidth, Text.takeBytes_width_append] at htake
  obtain ⟨kept, hkept, hbuilt⟩ := Scanner.exists_kept_of_behind hnext
  obtain rfl : kept = name :: args := hkept.symm.trans hall
  refine ⟨n + 1, next, hnext, List.append_cancel_left hrest,
    ((Scanner.settled_loaded _ _).of_behind hnext).pending, ?_, ?_⟩
  · rw [hall, htokens]
  · rw [htokens]
    exact hbuilt

-- In front of other text behind a blank the command is read alike.
theorem Invokes.exists_inside (h : Invokes front script) (hj : join (' ' :: rest) = .absent) :
    ∃ s : Scanner, (loaded .command (String.ofList (front ++ ' ' :: rest))).scan = s.scan ∧
      s.rest = rest ∧ s.pending = none ∧
      Tree.insertAll {} script.tokens.toList = .ok s.tree := by
  obtain ⟨name, args, htokens, hname, hargs⟩ := h.command
  obtain ⟨n, s, hn, hr, hp, hs, hbuilt⟩ := h.exists_behind
  have hlook : Resembles s.rest (' ' :: rest) := ⟨by rw [hr]; rfl, fun _ => hj⟩
  have hended : ∀ t ∈ s.tree.tokens.toList,
      t.Ended (Text.slice (front ++ [' ', '#']) t.span.stop s.offset) := by
    rw [hs, htokens]
    rintro t (_ | ⟨_, ht⟩)
    · constructor <;> intro hk <;> rw [hname] at hk <;> cases hk
    · have hpiece := hargs t ht
      constructor <;> intro hk <;> rw [hk] at hpiece <;> cases hpiece
  have hinside := Scanner.behind_inside [] front hn hlook (by simp [loaded]) rfl hended
    (by simp [loaded, hr]) (String.ofList (front ++ ' ' :: rest))
  have hloaded : (loaded .command (String.ofList (front ++ [' ', '#']))).inside
      (String.ofList (front ++ ' ' :: rest)) (front ++ ' ' :: rest) =
        loaded .command (String.ofList (front ++ ' ' :: rest)) := by
    simp [Scanner.inside, loaded]
  rw [hloaded] at hinside
  have hspace : isBlank ' ' = true := rfl
  refine ⟨_, (Scanner.scan_of_behind hinside).trans (Scanner.scan_of_done ?_
    (Scanner.step_of_blank hspace _ rest)), rfl, hp, hbuilt⟩
  rfl

section Texts

variable {text : String} {cs : List Char} {pieces : List (TokenKind × List Char)} {u : Scanner}

theorem tokenize_of_error {e : LexError} (h : (loaded .command text).scan = (u, some e)) :
    tokenize text = .error e := by
  rw [tokenize, read, Scanner.feed_starting, h]

theorem Invokes.exists_directs {redirection : Token} {args : List Token}
    (h : Invokes front script) (hs : (loaded .command text).scan = (u, none))
    (hp : u.pending = none) (hr : redirection.kind.isRedirection = true)
    (ha : ∀ t ∈ args, t.kind.isPiece = true)
    (ht : Tree.insertAll {} (script.tokens.toList ++ redirection :: args) = .ok u.tree) :
    ∃ whole c r, tokenize text = .ok whole ∧
      whole.Directs c r redirection.kind redirection.text args := by
  obtain ⟨name, before, htokens, hname, hbefore⟩ := h.command
  rw [htokens] at ht
  obtain ⟨hd, c, r, hdirects⟩ := Derivation.directs_of_insertAll u.source hname hbefore hr ha ht
  exact ⟨u.snapshot, c, r, tokenize_of_scan hs (by simp [Scanner.expectMore, hp, hd]), hdirects⟩

theorem Invokes.redirects (h : Invokes front script) {t : Tree}
    (ht : Tree.insertAll {} script.tokens.toList = .ok t) : t.Redirects := by
  obtain ⟨name, args, htokens, hname, hargs⟩ := h.command
  rw [htokens] at ht
  exact Tree.redirects_of_insertAll hname hargs ht

-- A word behind a `>` is decoded as a whole and names the file.
theorem Invokes.tokenize_file (h : Invokes front script) (hc : Cut cs pieces) (hn : cs ≠ []) :
    (decoded none cs = none ∧
        ∃ e, tokenize (String.ofList (front ++ ' ' :: '>' :: ' ' :: cs)) = .error e) ∨
      ∃ whole c r path, tokenize (String.ofList (front ++ ' ' :: '>' :: ' ' :: cs)) = .ok whole ∧
        decoded none cs = some path ∧
        whole.Directs c r .fileRedirection (String.ofList path) [] := by
  have hj : join (' ' :: '>' :: ' ' :: cs) = .absent := rfl
  obtain ⟨s, hscan, hrest, hpending, hbuilt⟩ := h.exists_inside hj
  rcases Scanner.read_file hrest hc hn hpending (h.redirects hbuilt) with
    ⟨hnone, next, e, herror⟩ | ⟨next, token, path, hread, hnext, hinsert, hpath, hkind, htext⟩
  · exact .inl ⟨hnone, e, tokenize_of_error (hscan.trans herror)⟩
  · have hr : token.kind.isRedirection = true := by rw [hkind]; rfl
    have htree := (Tree.insertAll_concat hbuilt token).trans hinsert
    obtain ⟨whole, c, r, hwhole, hdirects⟩ :=
      h.exists_directs (hscan.trans hread) hnext hr (by simp) htree
    rw [hkind, htext] at hdirects
    exact .inr ⟨whole, c, r, path, hwhole, hpath, hdirects⟩

-- A word behind a named redirection is its argument, piece by piece.
theorem Invokes.tokenize_named {word name : List Char} (h : Invokes front script)
    (hname : Scanner.Names word name) (hc : Cut cs pieces) (hs : Scanner.Starts cs) :
    (spelled? pieces = none ∧
        ∃ e, tokenize (String.ofList (front ++ ' ' :: '|' :: ' ' :: (word ++ ' ' :: cs))) = .error e) ∨
      ∃ whole c r args,
        tokenize (String.ofList (front ++ ' ' :: '|' :: ' ' :: (word ++ ' ' :: cs))) = .ok whole ∧
        spelled? pieces = some (args.map fun t => (t.kind, t.text)) ∧
        (∃ group, 0 < group ∧ ∀ t ∈ args, t.kind.isArgument = true ∧ t.group = group) ∧
        whole.Directs c r .redirection (String.ofList name) args := by
  have hj : join (' ' :: '|' :: ' ' :: (word ++ ' ' :: cs)) = .absent := rfl
  obtain ⟨s, hscan, hrest, hpending, hbuilt⟩ := h.exists_inside hj
  rcases Scanner.read_named hrest hname hc hs hpending (h.redirects hbuilt) with
    ⟨hnone, next, e, herror⟩ |
      ⟨next, token, args, hread, hnext, hinsert, hspelled, hkind, htext, hgroup⟩
  · exact .inl ⟨hnone, e, tokenize_of_error (hscan.trans herror)⟩
  · have hr : token.kind.isRedirection = true := by rw [hkind]; rfl
    have ha : ∀ t ∈ args, t.kind.isPiece = true := by
      obtain ⟨group, -, hall⟩ := hgroup
      exact fun t ht => isPiece_of_isArgument (hall t ht).1
    have htree := (Tree.insertAll_append hbuilt).trans hinsert
    obtain ⟨whole, c, r, hwhole, hdirects⟩ :=
      h.exists_directs (hscan.trans hread) hnext hr ha htree
    rw [hkind, htext] at hdirects
    exact .inr ⟨whole, c, r, args, hwhole, hspelled, hgroup, hdirects⟩

end Texts

end CommandShell.Script
