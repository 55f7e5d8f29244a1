import CommandShell.Proofs.Scanner.Grouping
import CommandShell.Proofs.Scanner.Quoting

namespace CommandShell.Script

-- A scanner behind the name of a command and some of its arguments, with what is left to read, the
-- last group and whether the rest touches the last argument.
structure Collecting (s : Scanner) (name : Token) (args : List Token) (rest : List Char)
    (group : Nat) (glued : Bool) : Prop where
  rest : s.rest = rest
  group : s.group = group
  glued : s.isGlued = glued
  behind : ∀ stop ∈ s.pieceEnd, stop ≤ s.offset
  position : s.position = .argument true
  pending : s.pending = none
  named : name.kind = .command
  pieces : ∀ t ∈ args, t.kind.isPiece = true
  built : Tree.insertAll {} (name :: args) = .ok s.tree

namespace Scanner

theorem emit_of_insert {s : Scanner} {kind : TokenKind} {gap piece rest text : List Char}
    {position : Position} {tree : Tree}
    (h : s.tree.insert (s.tokenAt kind gap piece text) = .ok tree) :
    s.emit kind gap piece rest text position =
      .done { (s.marked kind gap piece rest).advance piece rest with tree, position } := by
  rw [emit_eq, h]

end Scanner

namespace Derivation

theorem exists_argTokens {args : List Token} (ha : ∀ t ∈ args, t.kind.isPiece = true) :
    ∃ list, argTokens list = args :=
  ⟨args.attach.map fun t => ⟨t.1, ha t.1 t.2⟩, by simp [argTokens, Function.comp_def]⟩

-- A command with nothing but arguments.
theorem exists_plain {name : Token} {args : List Token} (hn : name.kind = .command)
    (ha : ∀ t ∈ args, t.kind.isPiece = true) :
    ∃ list, argTokens list = args ∧
      itemsTokens [.command name hn list [] []] = name :: args := by
  obtain ⟨list, rfl⟩ := exists_argTokens ha
  exact ⟨list, rfl, by simp [itemsTokens, Item.tokens, blocksTokens, redirectedTokens]⟩

theorem exists_insertAll_plain {name : Token} {args : List Token} (hn : name.kind = .command)
    (ha : ∀ t ∈ args, t.kind.isPiece = true) :
    ∃ t, Tree.insertAll {} (name :: args) = .ok t := by
  obtain ⟨list, -, hitems⟩ := exists_plain hn ha
  obtain ⟨head, h⟩ := insertAll_of_items [.command name hn list [] []]
  rw [hitems] at h
  exact ⟨_, h⟩

-- The script of such a command.
theorem toScript_plain {name : Token} {args : List Token} {t : Tree} (source : String)
    (hn : name.kind = .command) (ha : ∀ t ∈ args, t.kind.isPiece = true)
    (h : Tree.insertAll {} (name :: args) = .ok t) :
    t.innermostOpen? = none ∧ ∃ node, (t.toScript source).commands = [.mk node [] []] ∧
      (t.toScript source).nodes = #[node] ∧ (t.toScript source).argsOf node = args ∧
      ((t.toScript source).token node.extent.first).text = name.text := by
  obtain ⟨list, rfl, hitems⟩ := exists_plain hn ha
  obtain ⟨head, hi⟩ := insertAll_of_items [.command name hn list [] []]
  obtain rfl := Except.ok.inj ((hitems ▸ h).symm.trans hi)
  have hh := holds_treeOf [.command name hn list [] []] head source
  have hopens : name.kind.opensNode = true := by rw [hn]; rfl
  have htokens : numbered 0 (itemsTokens [.command name hn list [] []]) =
      { name with node := some 0 } :: argTokens list := by
    rw [hitems, numbered, if_pos hopens, numbered_argTokens]
  refine ⟨rfl, commandNode 0 list [] [], ?_, ?_, ?_, ?_⟩
  · rw [commands_eq_itemsOutline (by simp [Tree.toScript]) hh]
    simp [itemsOutline, Item.outline, blocksOutline, redirectedOutline]
  · simp [Tree.toScript, itemsNodes, itemsParts, Item.parts, blocksParts, redirectedParts]
  · refine argsOf_commandNode ?_
    simp [Tree.toScript, htokens]
  · simp [Tree.toScript, htokens, token, commandNode]

end Derivation

namespace Collecting

variable {s : Scanner} {name : Token} {args : List Token} {rest body text gap : List Char}
  {group : Nat} {glued : Bool} {c : Char}

theorem exists_insert (h : Collecting s name args rest group glued) (token : Token)
    (hk : token.kind.isPiece = true) :
    ∃ tree, s.tree.insert token = .ok tree ∧
      Tree.insertAll {} (name :: (args ++ [token])) = .ok tree := by
  have hpieces : ∀ t ∈ args ++ [token], t.kind.isPiece = true := by
    intro t ht
    rcases List.mem_append.1 ht with ht | ht
    · exact h.pieces t ht
    · exact List.mem_singleton.1 ht ▸ hk
  obtain ⟨tree, ht⟩ := Derivation.exists_insertAll_plain h.named hpieces
  refine ⟨tree, ?_, ht⟩
  rw [← Tree.insertAll_concat h.built token]
  exact ht

-- A quoted piece is the next argument, or it goes on the last one.
theorem read_piece (h : Collecting s name args (c :: (body ++ rest)) group glued)
    (hc : isQuote c = true) (hq : quoted c (body ++ rest) = some (body, rest))
    (hd : ∀ offset, decodeFrom none offset (c :: body) = .ok text) :
    ∃ next t, s.scan = next.scan ∧ Collecting next name (args ++ [t]) rest t.group true ∧
      t.kind = (if c = '\'' then .singleQuoted else .doubleQuoted) ∧
      t.text = String.ofList text ∧ t.group = if glued then group else group + 1 := by
  let kind : TokenKind := if c = '\'' then .singleQuoted else .doubleQuoted
  have hk : kind.isArgument = true := by
    dsimp only [kind]
    split <;> rfl
  have hstructural : kind.isStructural = false := isStructural_of_isPiece (isPiece_of_isArgument hk)
  obtain ⟨tree, hinsert, hbuilt⟩ :=
    h.exists_insert (s.tokenAt kind [] (c :: body) text) (isPiece_of_isArgument hk)
  have hread : s.step c (body ++ rest) = s.readArgument true c (body ++ rest) := by
    rw [Scanner.step_of_isQuote hc, Scanner.readWord, h.position]
  have hstep : s.step c (body ++ rest) = .done
      { (s.marked kind [] (c :: body) rest).advance (c :: body) rest with
        tree, position := s.position } := by
    rw [hread]
    simp only [Scanner.readArgument, hc, if_true, hq, Scanner.emitDecoded, hd]
    exact Scanner.emit_of_insert hinsert
  have hgroup : s.nextGroup kind s.offset = if glued then group else group + 1 := by
    simp [Scanner.nextGroup, hstructural, hk, ← h.glued, ← h.group, Scanner.isGlued]
  refine ⟨_, _, Scanner.scan_of_done h.rest hstep,
    ⟨rfl, ?_, ?_, ?_, h.position, h.pending, h.named, ?_, hbuilt⟩, rfl, rfl, ?_⟩
  · simp [Scanner.advance, Scanner.marked, Scanner.tokenAt, hstructural]
  · simp [Scanner.isGlued, Scanner.advance, Scanner.marked, hk]
  · simp [Scanner.advance, Scanner.marked, hk]
  · intro t ht
    rcases List.mem_append.1 ht with ht | ht
    · exact h.pieces t ht
    · exact List.mem_singleton.1 ht ▸ isPiece_of_isArgument hk
  · simpa [Scanner.tokenAt, hstructural] using hgroup

theorem read_blank (h : Collecting s name args (c :: rest) group glued) (hc : isBlank c = true) :
    ∃ next, s.scan = next.scan ∧ Collecting next name args rest group false := by
  have hstep : s.step c rest = .done (s.advance [c] rest) := by simp [Scanner.step, hc]
  have hpos := c.utf8Size_pos
  refine ⟨_, Scanner.scan_of_done h.rest hstep,
    ⟨rfl, h.group, ?_, ?_, h.position, h.pending, h.named, h.pieces, h.built⟩⟩
  · rw [Scanner.isGlued, decide_eq_false_iff_not]
    intro he
    have hle := h.behind _ he
    simp [Scanner.advance] at hle
    omega
  · intro stop hs
    have hle := h.behind stop hs
    simp [Scanner.advance]
    omega

theorem read_blanks (h : Collecting s name args (gap ++ rest) group glued) (hn : gap ≠ [])
    (hb : ∀ c ∈ gap, isBlank c = true) :
    ∃ next, s.scan = next.scan ∧ Collecting next name args rest group false := by
  induction gap generalizing s glued with
  | nil => exact absurd rfl hn
  | cons c gap ih =>
    obtain ⟨next, hscan, hnext⟩ := h.read_blank (hb c (List.mem_cons_self ..))
    by_cases hg : gap = []
    · subst hg
      exact ⟨next, hscan, hnext⟩
    · obtain ⟨last, hmore, hlast⟩ := ih hnext hg fun c hc => hb c (List.mem_cons_of_mem _ hc)
      exact ⟨last, hscan.trans hmore, hlast⟩

theorem read_single_piece {content : List Char} (hs : '\'' ∉ content)
    (h : Collecting s name args ('\'' :: ((content ++ ['\'']) ++ rest)) group glued) :
    ∃ next t, s.scan = next.scan ∧ Collecting next name (args ++ [t]) rest t.group true ∧
      t.kind = .singleQuoted ∧ t.text = String.ofList content ∧
      t.group = if glued then group else group + 1 := by
  have hq : quoted '\'' ((content ++ ['\'']) ++ rest) = some (content ++ ['\''], rest) := by
    rw [List.append_assoc]
    exact quoted_single hs rest
  have hd (offset : Nat) : decodeFrom none offset ('\'' :: (content ++ ['\''])) =
      .ok content := by
    rw [decodeFrom_open rfl]
    exact decodeFrom_single hs _
  exact h.read_piece rfl hq hd

theorem read_double_piece {content : List Char}
    (h : Collecting s name args (doubleQuote content ++ rest) group glued) :
    ∃ next t, s.scan = next.scan ∧ Collecting next name (args ++ [t]) rest t.group true ∧
      t.kind = .doubleQuoted ∧ t.text = String.ofList content ∧
      t.group = if glued then group else group + 1 := by
  have hq : quoted '"' ((escaped content ++ ['"']) ++ rest) =
      some (escaped content ++ ['"'], rest) := by
    rw [List.append_assoc]
    exact quoted_escaped content rest
  have hd (offset : Nat) : decodeFrom none offset ('"' :: (escaped content ++ ['"'])) =
      .ok content := by
    rw [decodeFrom_open rfl]
    exact decodeFrom_escaped content _
  exact h.read_piece rfl hq hd

theorem read_double {content : List Char}
    (h : Collecting s name args (doubleQuote content ++ rest) group glued) :
    ∃ next tokens, s.scan = next.scan ∧
      Collecting next name (args ++ tokens) rest (if glued then group else group + 1) true ∧
      Written .double content (if glued then group else group + 1) tokens := by
  obtain ⟨next, t, hscan, hnext, hk, ht, hg⟩ := h.read_double_piece
  exact ⟨next, [t], hscan, hg ▸ hnext, .of_piece (.inr ⟨hk, rfl⟩) ht hg⟩

theorem read_single {content : List Char}
    (h : Collecting s name args (singleQuote content ++ rest) group glued) :
    ∃ next tokens, s.scan = next.scan ∧
      Collecting next name (args ++ tokens) rest (if glued then group else group + 1) true ∧
      Written .single content (if glued then group else group + 1) tokens := by
  induction hlength : content.length using Nat.strong_induction_on
    generalizing s args group glued content with
  | _ length ih =>
  by_cases hm : '\'' ∈ content
  · obtain ⟨front, back, rfl, hfront⟩ := List.eq_append_cons_of_mem hm
    rw [singleQuote_append hfront, List.cons_append, List.append_assoc (front ++ ['\'']),
      List.cons_append, List.append_assoc ['\'', '"']] at h
    obtain ⟨opened, t, hscan, hopened, hk, ht, hg⟩ := h.read_single_piece hfront
    have hquote : Collecting opened name (args ++ [t])
        (doubleQuote ['\''] ++ (singleQuote back ++ rest)) t.group true := hopened
    obtain ⟨between, u, hscan', hbetween, hk', ht', hg'⟩ := hquote.read_double_piece
    rw [if_pos rfl, hg] at hg'
    rw [hg'] at hbetween
    obtain ⟨next, tokens, hscan'', hnext, hw⟩ :=
      ih back.length (by simp at hlength; omega) hbetween rfl
    rw [if_pos rfl] at hnext hw
    refine ⟨next, t :: u :: tokens, (hscan.trans hscan').trans hscan'', ?_,
      hw.cons_quote hk ht hg hk' ht' hg'⟩
    simpa using hnext
  · rw [singleQuote, requoted_of_plain hm] at h
    obtain ⟨next, t, hscan, hnext, hk, ht, hg⟩ := h.read_single_piece hm
    exact ⟨next, [t], hscan, hg ▸ hnext, .of_piece (.inl hk) ht hg⟩

theorem read_quote {style : Style} {content : List Char}
    (h : Collecting s name args (style.quote content ++ rest) group false) :
    ∃ next tokens, s.scan = next.scan ∧
      Collecting next name (args ++ tokens) rest (group + 1) true ∧
      Written style content (group + 1) tokens := by
  cases style with
  | single => exact h.read_single
  | double => exact h.read_double

end Collecting

-- A text that is passed to a command, with the blanks before it.
structure Operand where
  gap : List Char
  style : Style
  content : String
  spaced : gap ≠ [] ∧ ∀ c ∈ gap, isBlank c = true

def Operand.source (operand : Operand) : List Char :=
  operand.gap ++ operand.style.quote operand.content.toList

-- Every operand has a group of its own, in their order.
inductive Groups : Nat → List Operand → List Token → Prop where
  | nil {group : Nat} : Groups group [] []
  | cons {group : Nat} {operand : Operand} {operands : List Operand} {tokens more : List Token}
      (first : Written operand.style operand.content.toList group tokens)
      (rest : Groups (group + 1) operands more) :
      Groups group (operand :: operands) (tokens ++ more)

theorem Collecting.read_operands {s : Scanner} {name : Token} {args : List Token} {group : Nat}
    {glued : Bool} {operands : List Operand}
    (h : Collecting s name args (operands.flatMap (·.source)) group glued) :
    ∃ next tokens, s.scan = (next, none) ∧ next.pending = none ∧
      (∀ t ∈ args ++ tokens, t.kind.isPiece = true) ∧
      Tree.insertAll {} (name :: (args ++ tokens)) = .ok next.tree ∧
      Groups (group + 1) operands tokens := by
  induction operands generalizing s args group glued with
  | nil =>
    refine ⟨s, [], Scanner.scan_of_rest_nil h.rest, h.pending, ?_, ?_, .nil⟩
    · simpa using h.pieces
    · simpa using h.built
  | cons operand operands ih =>
    rw [List.flatMap_cons, Operand.source, List.append_assoc] at h
    obtain ⟨loose, hblanks, hloose⟩ := h.read_blanks operand.spaced.1 operand.spaced.2
    obtain ⟨behind, tokens, hquote, hbehind, hw⟩ := hloose.read_quote
    obtain ⟨next, more, hscan, hpending, hpieces, hbuilt, hgroups⟩ := ih hbehind
    rw [List.append_assoc] at hpieces hbuilt
    exact ⟨next, tokens ++ more, (hblanks.trans hquote).trans hscan, hpending, hpieces, hbuilt,
      .cons hw hgroups⟩

-- A word that names a command in front of blanks.  It does not begin a comment or joined lines, and
-- it is not the mark of a shell redirection.
structure Names (name text : List Char) : Prop where
  taken : name ≠ []
  whole : word name = some (name, [])
  decoded : decodeFrom none 0 name = .ok text
  comment : name.head? ≠ some '#'
  joins : ∀ cs, name = '\\' :: cs → join cs = .absent
  mark : name ≠ ['!']

namespace Names

variable {c : Char} {cs text after : List Char}

theorem endsWord_eq_false (h : Names (c :: cs) text) : endsWord c = false := by
  cases hc : endsWord c with
  | false => rfl
  | true =>
    have hw := h.whole
    rw [word_of_endsWord hc] at hw
    cases hw

-- No blank follows an exclamation mark.
theorem head?_of_mark (h : Names ('!' :: cs) text) (after : List Char) :
    ∀ d ∈ (cs ++ after).head?, isBlank d = false := by
  cases cs with
  | nil => exact absurd rfl h.mark
  | cons d ds =>
    intro e he
    obtain rfl : d = e := Option.some.inj he
    cases hd : isBlank d with
    | false => rfl
    | true =>
      have hends : endsWord d = true := by simp [endsWord, isDelimiter, hd]
      have hbare : bare ('!' :: d :: ds) = some (['!'], d :: ds) := by
        rw [bare_of_plain (by decide) rfl, bare_of_endsBare (by simp [endsBare, hends])]
        rfl
      have hw := h.whole
      rw [word_of_bare rfl rfl hbare, word_of_endsWord hends] at hw
      cases hw

-- What follows is not read as a part of the name.
theorem step_eq (h : Names (c :: cs) text) (after : List Char) {s : Scanner}
    (hp : s.position = .command) :
    s.step c (cs ++ after) = s.readCommand c (cs ++ after) := by
  have he := h.endsWord_eq_false
  simp only [endsWord, isDelimiter, Bool.or_eq_false_iff, decide_eq_false_iff_not] at he
  obtain ⟨⟨⟨⟨⟨⟨hblank, hsemicolon⟩, hpipe⟩, hfile⟩, hopen⟩, hclose⟩, hnewline⟩ := he
  have hcomment : c ≠ '#' := by
    rintro rfl
    exact h.comment rfl
  have hread : s.readWord c (cs ++ after) = s.readCommand c (cs ++ after) := by
    rw [Scanner.readWord, hp]
  have hmark : ¬(c = '!' ∧ !s.isGlued ∧
      ((cs ++ after).head? = some ' ' ∨ (cs ++ after).head? = some '\t')) := by
    rintro ⟨rfl, -, hd | hd⟩
    · cases h.head?_of_mark after _ hd
    · cases h.head?_of_mark after _ hd
  simp only [Scanner.step, hblank, hsemicolon, hpipe, hfile, hopen, hclose, hnewline, hcomment,
    hmark, or_self, false_and, if_false, Bool.false_eq_true]
  split
  · next hback =>
    rw [join_append_of_absent after (h.joins cs (by rw [hback.1]))]
    exact hread
  · exact hread

end Names

theorem isBlank_of_head?_operands {operands : List Operand} :
    ∀ c ∈ (operands.flatMap (·.source)).head?, isBlank c = true := by
  cases operands with
  | nil => simp
  | cons operand operands =>
    obtain ⟨hne, hblank⟩ := operand.spaced
    cases hg : operand.gap with
    | nil => exact absurd hg hne
    | cons d ds =>
      intro c hc
      rw [List.flatMap_cons, Operand.source, hg] at hc
      obtain rfl : d = c := Option.some.inj hc
      exact hblank d (by simp [hg])

theorem Names.read {name text after : List Char} (h : Names name text)
    (ha : ∀ c ∈ after.head?, isBlank c = true) :
    ∃ next token, (Scanner.loaded .command (String.ofList (name ++ after))).scan = next.scan ∧
      token.text = String.ofList text ∧ Collecting next token [] after 1 false := by
  cases name with
  | nil => exact absurd rfl h.taken
  | cons c cs =>
    let s := Scanner.loaded .command (String.ofList (c :: cs ++ after))
    have hrest : s.rest = c :: (cs ++ after) := String.toList_ofList
    have hends : ∀ d ∈ after.head?, endsWord d = true := fun d hd => by
      simp [endsWord, isDelimiter, ha d hd]
    have hword : word (c :: (cs ++ after)) = some (c :: cs, after) := word_append hends h.whole
    have hkind : (s.tokenAt .command [] (c :: cs) text).kind = .command := rfl
    have hnone : ∀ t ∈ ([] : List Token), t.kind.isPiece = true := by simp
    obtain ⟨tree, hbuilt⟩ := Derivation.exists_insertAll_plain hkind hnone
    have hempty : Tree.insertAll {} [] = .ok s.tree := rfl
    have hinsert : s.tree.insert (s.tokenAt .command [] (c :: cs) text) = .ok tree := by
      rw [← Tree.insertAll_concat hempty]
      exact hbuilt
    have hdecoded : decodeFrom none (s.offset + Text.width []) (c :: cs) = .ok text := h.decoded
    have hstep : s.step c (cs ++ after) = .done
        { (s.marked .command [] (c :: cs) after).advance (c :: cs) after with
          tree, position := .argument true } := by
      rw [h.step_eq after rfl]
      simp only [Scanner.readCommand, hword, Scanner.emitDecoded, hdecoded]
      exact Scanner.emit_of_insert hinsert
    refine ⟨_, _, Scanner.scan_of_done hrest hstep, rfl,
      ⟨rfl, rfl, rfl, ?_, rfl, rfl, rfl, hnone, hbuilt⟩⟩
    intro stop hs
    cases hs

-- A command's name and operands are read as one command with a group of arguments for each operand.
theorem exists_tokenize {name text : List Char} (hn : Names name text) (operands : List Operand) :
    ∃ script node, tokenize (String.ofList (name ++ operands.flatMap (·.source))) = .ok script ∧
      script.commands = [.mk node [] []] ∧ script.nodes = #[node] ∧
      (script.token node.extent.first).text = String.ofList text ∧
      Groups 2 operands (script.argsOf node) := by
  obtain ⟨first, token, hname, htext, hfirst⟩ := hn.read (isBlank_of_head?_operands)
  obtain ⟨last, args, hscan, hpending, hpieces, hbuilt, hgroups⟩ := hfirst.read_operands
  rw [List.nil_append] at hpieces hbuilt
  obtain ⟨hopen, node, hcommands, hnodes, hargs, hfirstToken⟩ :=
    Derivation.toScript_plain last.source hfirst.named hpieces hbuilt
  refine ⟨last.snapshot, node, ?_, hcommands, hnodes, ?_, ?_⟩
  · have hfeed : (Scanner.starting .command).feed
        (String.ofList (name ++ operands.flatMap (·.source))) = (last, none) := by
      rw [Scanner.feed_starting, hname, hscan]
    rw [tokenize, read, hfeed]
    simp [Scanner.finish, hpending, hopen]
  · rw [← htext, ← hfirstToken]
    rfl
  · rw [Scanner.snapshot, hargs]
    exact hgroups

end CommandShell.Script
