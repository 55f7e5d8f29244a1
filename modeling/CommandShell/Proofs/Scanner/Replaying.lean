import CommandShell.Proofs.Grammar.Nesting
import CommandShell.Proofs.Scanner.Cutting

namespace CommandShell.Script

open Text (width slice)
open Scanner (loaded)

namespace Scanner

variable {s s' s₁ next : Scanner} {c : Char} {cs : List Char} {n : Nat}

-- What holds wherever a construct starts.  Where a command may start, nothing is glued to an
-- argument.
structure Settled (s : Scanner) : Prop where
  pending : s.pending = none
  line : 1 ≤ s.line
  apart : s.position = .command → s.pieceEnd = none

theorem settled_loaded (mode : Mode) (text : String) : (loaded mode text).Settled :=
  ⟨rfl, Nat.le_refl 1, fun _ => rfl⟩

theorem isArgument_of_positionAfter {position : Position} {kind : TokenKind}
    (hf : position.Takes kind) (hp : positionAfter position kind = .command) :
    kind.isArgument = false := by
  cases position with
  | command => exact hf.2
  | argument options => cases kind <;> first | rfl | cases hp

theorem Settled.of_step (h : s.Settled) (hs : s.step c cs = .done next) : next.Settled := by
  cases reads_of_step hs with
  | skip front rest split passed =>
    refine ⟨h.pending, Nat.le_trans h.line (Nat.le_add_right _ _), fun hp => h.apart ?_⟩
    dsimp only at hp
    split at hp
    · cases hp
    · exact hp
  | token kind gap piece text rest tree split taken introduced spelled inserted starts fits =>
    refine ⟨h.pending, ?_, fun hp => ?_⟩
    · have hline := h.line
      simp only [advance, marked]
      omega
    · have hk := isArgument_of_positionAfter fits hp
      simp [advance, marked, hk]

theorem Settled.of_behind (h : s.Settled) (hs : behind n s = some s') : s'.Settled := by
  induction n generalizing s with
  | zero =>
    cases hs
    exact h
  | succ n ih =>
    obtain ⟨c, cs, next, -, hstep, hn⟩ := exists_of_behind hs
    exact ih (h.of_step hstep) hn

theorem position_of_takes {position : Position} (h : position.Takes .command) :
    position = .command := by
  cases position with
  | command => rfl
  | argument options => exact absurd rfl h

-- Separators and braces are in no group.
theorem group_of_scan (h : ∀ t ∈ s.tree.tokens.toList, t.kind.isStructural = true → t.group = 0)
    (hs : s.scan = (s', none)) :
    ∀ t ∈ s'.tree.tokens.toList, t.kind.isStructural = true → t.group = 0 := by
  fun_induction scan s with
  | case1 =>
    cases hs
    exact h
  | case2 s c cs _ next hstep _ ih =>
    refine ih ?_ hs
    cases reads_of_step hstep with
    | skip => exact h
    | token kind gap piece text rest tree split taken introduced spelled inserted =>
      obtain ⟨id, hid⟩ := Tree.tokens_of_insert inserted
      intro t ht hk
      have hm : t ∈ s.tree.tokens.toList ++
          [{ s.tokenAt kind gap piece text with node := id }] := by
        simpa [hid] using ht
      rcases List.mem_append.1 hm with hm | hm
      · exact h t hm hk
      · obtain rfl := List.mem_singleton.1 hm
        exact if_pos hk
  | case3 =>
    cases hs
    exact h
  | case4 => cases hs

-- How a text that stands in front of a scanner goes over to there from the start of a text of its
-- own, with the tokens and nodes that there are before.
def fromStart (s : Scanner) (front : List Token) (nodes : List Node) : Motion where
  bytes := s.offset
  lines := s.line - 1
  groups := s.group
  front := front
  nodes := nodes
  related t u := u = t.shift ⟨s.offset, s.line - 1, s.group, front.length, nodes.length⟩
  shifted _ := rfl
  kind h := h ▸ rfl
  numbered _ h := h ▸ rfl

-- Where a command may start, reading starts as it does with a text.
theorem follows_fromStart (h : s.Settled) (hp : s.position = .command) (kept : List Char)
    (front : List Token) (nodes : List Node) :
    Follows (s.fromStart front nodes) (loaded .command (String.ofList kept))
      (s.within (String.ofList kept) kept (Derivation.treeOf front nodes .none [])) := by
  have hline := h.line
  refine ⟨by simp [loaded, within], hp, ?_, ?_, ?_, fun n => ?_, ?_, ?_⟩
  · simp [loaded, starting, fromStart, within]
  · simp only [loaded, starting, fromStart, within]
    omega
  · simp [loaded, starting, fromStart, within]
  · simp [loaded, starting, within, h.apart hp]
  · simp [loaded, starting, within, h.pending]
  · refine ⟨⟨[], by simp [fromStart, within], .nil⟩, ?_, rfl, rfl⟩
    simp [loaded, starting, fromStart, within]

end Scanner

-- Where the tokens of a command stand in a text: the scanners in front of them and behind them, and
-- the text between, which is read alike when it is cut off behind them.
structure Passage (text : String) (tokens : List Token) (kept : List Char) (s s₁ : Scanner) :
    Prop where
  settled : s.Settled
  position : s.position = .command
  pending : s₁.pending = none
  source : ∃ front back, text.toList = front ++ (kept ++ back) ∧ s.offset = width front
  start : ∀ t ∈ tokens.head?, t.span.start = s.offset
  stop : ∀ t ∈ tokens.getLast?, t.span.stop = s.offset + width kept
  reads : ∀ tree final source, tree.insertAll tokens = .ok final →
    (s.within source kept tree).scan = (s₁.within source [] final, none)

-- The scanner in front of a command's name.
theorem exists_front {text : String} {w : Scanner} {name : Token} {before later : List Token}
    (hw : (loaded .command text).scan = (w, none))
    (ht : w.tree.tokens.toList = before ++ name :: later) (hk : name.kind = .command) :
    ∃ (s : Scanner) (front : List Char), s.Settled ∧ s.position = .command ∧
      s.scan = (w, none) ∧ s.tree.tokens.toList = before ∧ text.toList = front ++ s.rest ∧
      s.offset = width front ∧ name.span.start = s.offset := by
  obtain ⟨n, s, next, hn, htakes, hbefore⟩ := Scanner.exists_takesIn hw ht
  obtain ⟨front, hfront, hoffset⟩ := Scanner.split_of_behind hn
  obtain ⟨gap, piece, hpiece⟩ := htakes.exists_piece
  have hintroduced := hpiece.introduced
  have htaken := hpiece.fits
  rw [hk] at hintroduced htaken
  obtain rfl : gap = [] := by
    cases hintroduced
    rfl
  refine ⟨s, front, (Scanner.settled_loaded .command text).of_behind hn,
    Scanner.position_of_takes htaken, ?_, hbefore, hfront, ?_, hpiece.start⟩
  · rw [← Scanner.scan_of_behind hn, hw]
  · rw [hoffset]
    exact Nat.zero_add _

theorem exists_passage {text : String} {w : Scanner} {name : Token}
    {before rest after : List Token} (hw : (loaded .command text).scan = (w, none))
    (hp : w.pending = none)
    (ht : w.tree.tokens.toList = before ++ (name :: rest ++ after)) (hk : name.kind = .command)
    (ha : ∀ t ∈ after.head?, t.kind.isPiece = false)
    (hb : ∀ t ∈ (name :: rest).getLast?, ∀ b,
      ['\\', b] <:+ slice text.toList t.span.start t.span.stop → isBlank b = false) :
    ∃ kept s s₁, Passage text (name :: rest) kept s s₁ := by
  obtain ⟨s, front, hsettled, hposition, hscan, hbefore, hsplit, hoffset, hstart⟩ :=
    exists_front hw ht hk
  obtain ⟨init, last, htokens⟩ :=
    (List.eq_nil_or_concat (name :: rest)).resolve_left (List.cons_ne_nil name rest)
  rw [List.concat_eq_append] at htokens
  have hall : w.tree.tokens.toList = s.tree.tokens.toList ++ (init ++ last :: after) := by
    rw [ht, hbefore, htokens, List.append_assoc]
    rfl
  -- The last token is read between `s₂` and `s₁`.
  obtain ⟨m, s₂, s₁, hm, hlast, hinit⟩ := Scanner.exists_takesIn hscan hall
  obtain ⟨more, hmore, hoffset₂⟩ := Scanner.split_of_behind hm
  obtain ⟨gap, piece, hpiece⟩ := hlast.exists_piece
  have hrest := hpiece.rest
  obtain ⟨c, cs, hr, hs⟩ := hlast.step
  have hread : s₁.tree.tokens.toList = s.tree.tokens.toList ++ name :: rest := by
    rw [hlast.tokens, Array.toList_push, hinit, htokens, List.append_assoc]
  have hsource : text.toList = front ++ more ++ s₂.rest := by
    rw [hsplit, hmore, List.append_assoc]
  have hwidth : s₂.offset = width (front ++ more) := by
    rw [hoffset₂, hoffset, Text.width_append]
  have hunescaped := hlast.unescaped hsource hwidth (hb last (by simp [htokens]))
  have hbehind : s₁.scan = (w, none) := by
    rw [← Scanner.scan_of_done hr hs, ← Scanner.scan_of_behind hm, hscan]
  have hafter : w.tree.tokens.toList = s₁.tree.tokens.toList ++ after := by
    rw [hread, ht, hbefore, List.append_assoc]
  have hquote := Scanner.quote_of_scan hbehind hp hafter ha
  refine ⟨more ++ (gap ++ piece), s, s₁, hsettled, hposition, ?_, ?_, ?_, ?_, ?_⟩
  · exact ((hsettled.of_behind hm).of_step hs).pending
  · exact ⟨front, s₁.rest, by rw [hsource, hrest]; simp, hoffset⟩
  · intro t ht
    obtain rfl := Option.some.inj ht
    exact hstart
  · intro t ht
    obtain rfl : last = t := by simpa [htokens] using ht
    rw [hpiece.stop, hoffset₂, Text.width_append, Text.width_append]
    omega
  · intro tree final source hi
    refine Scanner.scan_within hm hlast hunescaped hquote ?_ hread hi source
    rw [hmore, hrest]
    simp

-- The text of a passage, read on its own, has its tokens and nodes where they would stand in front
-- of everything else.
theorem Passage.tokenize_kept {text : String} {item : Derivation.Item} {kept : List Char}
    {s s₁ : Scanner} (h : Passage text item.tokens kept s s₁) (before : List Token)
    (earlier : List Node) :
    let d := (s.fromStart before earlier).shift
    ∃ replay, tokenize (String.ofList kept) = .ok replay ∧
      Derivation.numbered earlier.length item.tokens = replay.tokens.toList.map (·.shift d) ∧
      (item.parts before.length).map (·.1) = replay.nodes.toList.map (·.shift d) := by
  intro d
  obtain ⟨head, hi⟩ := item.insertAll_tokens before earlier .none []
  have hscan := h.reads _ _ (String.ofList kept) hi
  have hscanned := (Scanner.follows_fromStart h.settled h.position kept before earlier).scan
  rw [hscan] at hscanned
  generalize hl : (loaded .command (String.ofList kept)).scan = x at hscanned
  cases hscanned with
  | @ok r _ hf =>
    have hclosed : r.expectMore = false := by
      rw [← hf.expectMore]
      simp [Scanner.expectMore, Scanner.within, h.pending, Tree.depth]
    refine ⟨r.snapshot, tokenize_of_scan hl hclosed, ?_, ?_⟩
    · obtain ⟨later, htokens, hrelated⟩ := hf.tree.tokens
      have hlater : Derivation.numbered earlier.length item.tokens = later :=
        List.append_cancel_left htokens
      rw [hlater]
      exact eq_map_of_forall₂ hrelated
    · exact List.append_cancel_left hf.tree.nodes

-- A run of tokens of a script starts and stops with the tokens at its ends.
theorem Covers.spanOf {text : String} {script : Script} (h : Covers text script) {i j : Nat}
    (hij : i ≤ j) (hj : j < script.tokens.size) :
    script.spanOf ⟨i, j⟩ = ⟨(script.token i).span.start, (script.token j).span.stop⟩ := by
  rcases Nat.eq_or_lt_of_le hij with rfl | hlt
  · simp [Script.spanOf, Span.join]
  · have hi : i < script.tokens.size := Nat.lt_trans hlt hj
    have hordered := List.pairwise_iff_getElem.1 h.ordered i j (by simpa using hi)
      (by simpa using hj) hlt
    have hplaced := (h.placed _ (List.getElem_mem (by simpa using hj : j < _))).taken
    have hpi := (h.placed _ (List.getElem_mem (by simpa using hi : i < _))).taken
    simp only [Array.getElem_toList] at hordered hplaced hpi
    simp only [Script.spanOf, Script.token, Span.join, hi, hj, getElem?_pos, Option.getD_some,
      Span.mk.injEq]
    omega

theorem Covers.textOf {text : String} {script : Script} (h : Covers text script) {i j : Nat}
    (hij : i ≤ j) (hj : j < script.tokens.size) :
    script.textOf ⟨i, j⟩ = String.ofList
      (slice text.toList (script.token i).span.start (script.token j).span.stop) := by
  rw [Script.textOf, h.source, h.spanOf hij hj]

-- A script that is a command of another one, further on there: the same tokens, but that
-- separators and braces stay outside of the groups, and the same nodes.
structure Replays (script : Script) (c : Command) (replay : Script) (d : Shift) : Prop where
  index : d.tokens = c.head
  command : ∃ c', replay.commands = [c'] ∧ c.node = c'.node.shift d
  tokens : (script.tokens.extract c.node.extent.first (c.node.extent.last + 1)).toList =
    replay.tokens.toList.map (·.shift d)
  structural : ∀ t ∈ replay.tokens.toList, t.kind.isStructural = true → t.group = 0
  nodes : (script.nodes.toList.zipIdx.filter fun p => c.node.extent.contains p.1.extent.first) =
    (replay.nodes.toList.map (·.shift d)).zipIdx d.nodes

section Replay

variable {text : String} {script replay : Script} {c : Command} {before after : List Token}
  {earlier later : List Node} {item : Derivation.Item} {d : Shift}

theorem group_of_tokenize (h : tokenize text = .ok script) :
    ∀ t ∈ script.tokens.toList, t.kind.isStructural = true → t.group = 0 := by
  obtain ⟨w, hw, -, rfl⟩ := scan_complete_of_tokenize h
  refine Scanner.group_of_scan ?_ hw
  simp [loaded, Scanner.starting]

theorem Occurrence.token (ho : Occurrence script c before after earlier later item) {i : Nat}
    (hi : i < item.tokens.length) : item.tokens[i]? = some (script.token (before.length + i)) := by
  have hget : script.tokens.toList[before.length + i]? = item.tokens[i]? := by
    rw [ho.tokens, List.getElem?_append_right (Nat.le_add_right _ _), Nat.add_sub_cancel_left,
      List.getElem?_append_left hi]
  rw [Array.getElem?_toList] at hget
  rw [Script.token, hget, List.getElem?_eq_getElem hi]
  rfl

theorem Occurrence.length_pos (ho : Occurrence script c before after earlier later item) :
    0 < item.tokens.length := by
  obtain ⟨⟨name, rest, hname, -⟩, -, -⟩ := Derivation.Item.exists_of_outline ho.outline
  simp [hname]

-- The range of a command is that of its tokens.
theorem Occurrence.extent (ho : Occurrence script c before after earlier later item) :
    c.node.extent = ⟨before.length, before.length + item.tokens.length - 1⟩ :=
  (Derivation.Item.exists_of_outline ho.outline).2.2

theorem Occurrence.range (ho : Occurrence script c before after earlier later item) :
    c.node.extent.first ≤ c.node.extent.last ∧ c.node.extent.last < script.tokens.size := by
  have hpos := ho.length_pos
  have hlength := congrArg List.length ho.tokens
  simp only [Array.length_toList, List.length_append] at hlength
  rw [ho.extent]
  dsimp only
  omega

theorem Occurrence.head? (ho : Occurrence script c before after earlier later item) :
    item.tokens.head? = some (script.token c.node.extent.first) := by
  rw [ho.extent, List.head?_eq_getElem?]
  exact ho.token ho.length_pos

theorem Occurrence.getLast? (ho : Occurrence script c before after earlier later item) :
    item.tokens.getLast? = some (script.token c.node.extent.last) := by
  have hpos := ho.length_pos
  have hindex : before.length + item.tokens.length - 1 =
      before.length + (item.tokens.length - 1) := by omega
  rw [ho.extent, hindex, List.getLast?_eq_getElem?]
  exact ho.token (by omega)

theorem Occurrence.replays (ho : Occurrence script c before after earlier later item)
    (h : tokenize text = .ok replay) (hi : d.tokens = before.length)
    (hn : d.nodes = earlier.length)
    (ht : item.tokens = replay.tokens.toList.map (·.shift d))
    (hp : (item.parts before.length).map (·.1) = replay.nodes.toList.map (·.shift d)) :
    Replays script c replay d := by
  obtain ⟨⟨name, rest, hname, hk⟩, ⟨more, hnodes⟩, hextent⟩ :=
    Derivation.Item.exists_of_outline ho.outline
  have hsize : item.tokens.length = replay.tokens.size := by simp [ht]
  have hpos := ho.length_pos
  have hhead : ∀ t ∈ replay.tokens.toList.head?, t.kind = .command := by
    intro t hm
    rw [ht] at hname
    obtain ⟨u, tail, hu, rfl, -⟩ := List.map_eq_cons_iff.1 hname
    rw [hu] at hm
    obtain rfl := Option.some.inj hm
    exact hk
  rw [hp] at hnodes
  obtain ⟨n, tail, hreplay, hnode, -⟩ := List.map_eq_cons_iff.1 hnodes
  have hreach : n.extent = ⟨0, replay.tokens.size - 1⟩ := by
    have hshift : n.extent.shift d = ⟨before.length, before.length + item.tokens.length - 1⟩ := by
      rw [← hextent, ← hnode]
      rfl
    obtain ⟨⟨first, last⟩, args, redirections, blocks⟩ := n
    simp only [Range.shift, Range.mk.injEq, hi] at hshift ⊢
    omega
  obtain ⟨c', hcommands, rfl⟩ := (built_of_tokenize h).commands_eq_singleton hreplay hreach hhead
  refine ⟨?_, ⟨c', hcommands, hnode.symm⟩, ?_, group_of_tokenize h, ?_⟩
  · rw [Command.head, hextent, hi]
  · have hlength : before.length + item.tokens.length - 1 + 1 - before.length =
        item.tokens.length := by omega
    rw [Array.toList_extract, hextent, List.extract_eq_take_drop, hlength, ho.tokens,
      List.drop_left, List.take_left, ht]
  · rw [ho.within, hp, hn]

end Replay

-- A command that does not end in an escaped blank is read from its own text as it was read in the
-- whole script, wherever it stands there.
theorem exists_replay {text : String} {script : Script} {depth : Nat} {c : Command}
    (h : tokenize text = .ok script) (hc : Visit.command depth c ∈ script.visits)
    (hb : ∀ front b, (script.textOf (.single c.node.extent.last)).toList = front ++ ['\\', b] →
      isBlank b = false) :
    ∃ replay d, tokenize (script.textOf c.node.extent) = .ok replay ∧
      Replays script c replay d := by
  have hcovers := covers_of_tokenize h
  obtain ⟨before, after, earlier, later, item, ho⟩ := (built_of_tokenize h).exists_occurrence hc
  obtain ⟨⟨name, rest, hname, hk⟩, -, -⟩ := Derivation.Item.exists_of_outline ho.outline
  obtain ⟨hle, hsize⟩ := ho.range
  have hunescaped : ∀ t ∈ (name :: rest).getLast?, ∀ b,
      ['\\', b] <:+ slice text.toList t.span.start t.span.stop → isBlank b = false := by
    rintro t ht b ⟨front, hfront⟩
    rw [← hname, ho.getLast?] at ht
    obtain rfl := Option.some.inj ht
    refine hb front b ?_
    rw [Range.single, hcovers.textOf (Nat.le_refl _) hsize, String.toList_ofList, hfront]
  obtain ⟨w, hw, hm, rfl⟩ := scan_complete_of_tokenize h
  obtain ⟨hp, -⟩ := Scanner.complete_of_expectMore hm
  have htokens : w.tree.tokens.toList = before ++ (name :: rest ++ after) := hname ▸ ho.tokens
  obtain ⟨kept, s, s₁, hpassage⟩ := exists_passage hw hp htokens hk ho.ends hunescaped
  rw [← hname] at hpassage
  have htext : w.snapshot.textOf c.node.extent = String.ofList kept := by
    obtain ⟨front, back, hsource, hoffset⟩ := hpassage.source
    have hstart := hpassage.start _ ho.head?
    have hstop := hpassage.stop _ ho.getLast?
    have hslice := hcovers.textOf hle hsize
    rw [hstart, hstop, hoffset, hsource, Text.slice_append] at hslice
    exact hslice
  obtain ⟨replay, hreplay, hnumbered, hparts⟩ := hpassage.tokenize_kept before earlier
  rw [ho.numbered] at hnumbered
  rw [htext]
  exact ⟨replay, _, hreplay, ho.replays hreplay rfl rfl hnumbered hparts⟩

-- A command on a line of its own in a block, with an option behind a pipe at its end.
theorem exists_replay_of_block :
    let text := "ü \x7b\n b 'x y' | c -d\n\x7d; e"
    ∃ script c replay d, tokenize text = .ok script ∧ Visit.command 1 c ∈ script.visits ∧
      tokenize "b 'x y' | c -d" = .ok replay ∧ Replays script c replay d ∧ d.tokens = 3 := by
  intro text
  have hk : (tokenize text).toOption.map (fun s => s.visits.filterMap fun
      | .command depth c => some (depth, c.head, s.textOf c.node.extent,
          s.textOf (.single c.node.extent.last))
      | _ => none) =
      some [(0, 0, "ü \x7b\n b 'x y' | c -d\n\x7d", "\x7d"), (1, 3, "b 'x y' | c -d", "-d"),
        (0, 10, "e", "e")] := by decide +kernel
  cases h : tokenize text with
  | error e =>
    rw [h] at hk
    cases hk
  | ok script =>
    rw [h] at hk
    have hsecond := congrArg (·[1]?) (Option.some.inj hk)
    obtain ⟨v, hv, hf⟩ := List.mem_filterMap.1 (List.mem_of_getElem? hsecond)
    cases v with
    | block depth => cases hf
    | redirection depth r => cases hf
    | command depth c =>
      simp only [Option.some.injEq, Prod.mk.injEq] at hf
      obtain ⟨rfl, hhead, htext, hlast⟩ := hf
      obtain ⟨replay, d, hreplay, hreplays⟩ := exists_replay h hv fun front b he => by
        rw [hlast] at he
        obtain rfl : 'd' = b := by simpa using congrArg List.getLast? he
        decide
      rw [htext] at hreplay
      exact ⟨script, c, replay, d, rfl, hv, hreplay, hreplays, hreplays.index.trans hhead⟩

end CommandShell.Script
