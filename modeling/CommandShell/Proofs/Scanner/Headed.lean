import CommandShell.Proofs.Binding.Shifting
import CommandShell.Proofs.Scanner.Faults
import CommandShell.Proofs.Scanner.Joining
import CommandShell.Proofs.Scanner.Numbering
import CommandShell.Proofs.Scanner.Operands

namespace CommandShell.Script

open Binding (bindOnto)
open Motion (Both)
open Scanner (Follows Scanned loaded)

-- A token of arguments without a name, where they stand behind a letter and a blank.
def Token.behindName (t : Token) : Token :=
  { t with
    span := ⟨t.span.start + 2, t.span.stop + 2⟩
    group := if t.group = 0 then 0 else t.group + 1 }

-- What was read of arguments without a name, and of the same arguments behind the letter `name` and
-- a blank.  Without a name there is an empty one in its place, which does not count.
structure Headed (name : Char) (bare named : Script) : Prop where
  tokens : ∃ more, bare.tokens.toList = ⟨.command, "", ⟨0, 0⟩, 1, 0, some 0⟩ :: more ∧
    named.tokens.toList =
      ⟨.command, String.singleton name, ⟨0, 1⟩, 1, 1, some 0⟩ :: more.map Token.behindName
  nodes : named.nodes = bare.nodes
  first : ∃ c rest, bare.commands = c :: rest ∧ named.commands = c :: rest ∧
    ∀ slots table command interpolate,
      bindOnto slots table command ⟨named.argsOf c.node, c.node.firstArg⟩ interpolate =
        bindOnto slots table command ⟨bare.argsOf c.node, c.node.firstArg⟩ interpolate

section Letters

variable {c b : Char}

theorem plain_of_isAlpha (h : c.isAlpha = true) :
    endsBare c = false ∧ c ≠ '\\' ∧ c ≠ '#' ∧ c ≠ '!' := by
  refine ⟨?_, ?_, ?_, ?_⟩
  · cases he : endsBare c with
    | false => rfl
    | true =>
      simp only [endsBare, endsWord, isDelimiter, isBlank, isQuote, Bool.or_eq_true,
        decide_eq_true_eq, or_assoc] at he
      rcases he with rfl | rfl | rfl | rfl | rfl | rfl | rfl | rfl | rfl | rfl | rfl <;>
        exact absurd h (by decide)
  all_goals
    rintro rfl
    exact absurd h (by decide)

theorem utf8Size_of_isAlpha (h : c.isAlpha = true) : c.utf8Size = 1 := by
  have hle : c.val ≤ 0x7F := by
    rcases Bool.or_eq_true_iff.1 h with hupper | hlower
    · have hz : c.val ≤ 'Z'.val := (of_decide_eq_true hupper).2
      exact UInt32.le_trans hz (by decide)
    · have hz : c.val ≤ 'z'.val := of_decide_eq_true (Bool.and_eq_true_iff.1 hlower).2
      exact UInt32.le_trans hz (by decide)
  rw [Char.utf8Size]
  exact if_pos hle

theorem countLines_of_isAlpha (h : c.isAlpha = true) : Text.countLines [c] = 0 := by
  have hnewline : c ≠ '\n' := by
    rintro rfl
    exact absurd h (by decide)
  simp [Text.countLines, hnewline]

theorem names_of_isAlpha (h : c.isAlpha = true) : Names [c] [c] := by
  obtain ⟨hends, hback, hcomment, hmark⟩ := plain_of_isAlpha h
  obtain ⟨hword, hquote⟩ := Bool.or_eq_false_iff.1 hends
  have hbare : bare [c] = some ([c], []) := by
    rw [bare_of_plain hback hends, bare.eq_1]
    rfl
  refine ⟨List.cons_ne_nil _ _, ?_, ?_, ?_, ?_, ?_⟩
  · rw [word_of_bare hquote hword hbare, word.eq_1]
    rfl
  · simp [decodeFrom, hquote, hback, bind, Except.bind, pure, Except.pure]
  · simpa using hcomment
  · intro cs hcs
    exact absurd (List.cons.inj hcs).1 hback
  · simpa using hmark

end Letters

namespace Scanner

-- How arguments without a name go over to behind a letter and a blank.  The empty name is no part
-- of the text, so that it goes over to the letter as it stands.
def behindLetter : Motion where
  bytes := 2
  groups := 1
  related t u := u.role = t.role ∧
    (t.span.start < t.span.stop → u = t.shift { bytes := 2, groups := 1 })
  shifted t := ⟨by simp [Token.role, Token.shift], fun _ => rfl⟩
  kind h := congrArg (·.1) h.1
  numbered id h := by
    refine ⟨?_, fun hs => ?_⟩
    · have hk := congrArg (·.1) h.1
      simpa [Token.role] using hk
    · rw [h.2 hs]
      rfl

-- Behind the letter and the blank, the scanner is where it is in front of arguments without a name,
-- but for the letter itself.
theorem exists_follows {c b : Char} (hc : c.isAlpha = true) (hb : isBlank b = true)
    (text : String) :
    ∃ s, (loaded .command (String.ofList [c, b] ++ text)).scan = s.scan ∧
      s.source = String.ofList [c, b] ++ text ∧
      s.tree.tokens = #[⟨.command, String.singleton c, ⟨0, 1⟩, 1, 1, some 0⟩] ∧
      Follows behindLetter (loaded .arguments text) s := by
  let start := loaded .command (String.ofList [c, b] ++ text)
  let letter := start.tokenAt .command [] [c] [c]
  let named : Scanner := { (start.marked .command [] [c] (b :: text.toList)).advance [c]
      (b :: text.toList) with
    tree := ⟨#[{ letter with node := some 0 }], #[.opened 0], .command 0, []⟩
    position := .argument true }
  have hrest : start.rest = c :: b :: text.toList := by simp [start, loaded]
  have hnames := names_of_isAlpha hc
  have hends : ∀ d ∈ (b :: text.toList).head?, endsWord d = true := by
    rintro d ⟨⟩
    simp [endsWord, isDelimiter, hb]
  have hword : word (c :: b :: text.toList) = some ([c], b :: text.toList) :=
    word_append hends hnames.whole
  have hdecoded : decodeFrom none (start.offset + Text.width []) [c] = .ok [c] := hnames.decoded
  have hinsert : start.tree.insert letter = .ok named.tree := Tree.insert_of_command rfl
  have hstep : start.step c (b :: text.toList) = .done named := by
    have hread := hnames.step_eq (b :: text.toList) (s := start) rfl
    rw [List.nil_append] at hread
    rw [hread]
    simp only [Scanner.readCommand, hword, Scanner.emitDecoded, hdecoded]
    exact emit_of_insert hinsert
  have hscan : start.scan = (named.advance [b] text.toList).scan := by
    rw [scan_of_done hrest hstep, scan_of_done rfl (step_of_blank hb named text.toList)]
  have hwidth : Text.width [c] = 1 := utf8Size_of_isAlpha hc
  have hletter : { letter with node := some 0 } =
      (⟨.command, String.singleton c, ⟨0, 1⟩, 1, 1, some 0⟩ : Token) := by
    show (⟨.command, String.ofList [c], ⟨0, 0 + Text.width [c]⟩, 1, 1, some 0⟩ : Token) = _
    rw [hwidth]
    rfl
  refine ⟨named.advance [b] text.toList, hscan, rfl, ?_, ?_⟩
  · rw [← hletter]
    rfl
  · refine ⟨rfl, rfl, ?_, ?_, rfl, ?_, rfl, ?_⟩
    · show 0 + Text.width [c] + Text.width [b] = 2
      rw [hwidth, width_of_isBlank hb]
    · show 1 + Text.countLines [c] + Text.countLines [b] = 1
      rw [countLines_of_isAlpha hc, countLines_of_isBlank hb]
    · exact fun n => iff_of_false (fun h => by cases h) fun h => by cases h
    · exact .of_unmoved rfl rfl (.cons ⟨rfl, fun h => absurd h (by decide)⟩ .nil) rfl rfl rfl

-- A brace that is open is a part of the text, so that it goes over to where it stands there.
theorem Aligned.span_of_innermostOpen? {s : Scanner} {t u : Token} (h : Aligned s)
    (ht : s.tree.innermostOpen? = some t) (hr : behindLetter.related t u) :
    u.span = t.span.shift behindLetter.shift := by
  obtain ⟨frame, hf, hframe⟩ := Option.bind_eq_some_iff.1 ht
  obtain ⟨t', ht', before, inside, after, -, hn, -, hstop⟩ :=
    h.opened frame (List.mem_of_mem_head? hf)
  obtain rfl : t = t' := Option.some.inj (hframe.symm.trans ht')
  have hpos := Text.width_pos hn
  rw [hr.2 (by omega)]
  rfl

end Scanner

section Scripts

variable {bare named : Script} {empty name : Token} {more : List Token} {d : Shift}

-- Arguments are pieces, so that the head is none of them.
theorem argsOf_shift {node : Node} (hb : bare.tokens.toList = empty :: more)
    (hn : named.tokens.toList = name :: more.map (·.shift d)) (hk : empty.kind = .command)
    (hp : ∀ t ∈ bare.argsOf node, t.kind.isPiece = true) :
    named.argsOf node = (bare.argsOf node).map (·.shift d) := by
  have htoken (i : Nat) (hi : (bare.token i).kind.isPiece = true) :
      named.token i = (bare.token i).shift d := by
    simp only [Script.token, ← Array.getElem?_toList, hb, hn] at hi ⊢
    cases i with
    | zero =>
      have hempty : empty.kind.isPiece = true := hi
      rw [hk] at hempty
      cases hempty
    | succ i =>
      simp only [List.getElem?_cons_succ, List.getElem?_map] at hi ⊢
      cases hm : more[i]? with
      | some t => rfl
      | none =>
        rw [hm] at hi
        cases hi
  unfold argsOf at hp ⊢
  cases hargs : node.args with
  | none => rfl
  | some range =>
    simp only [hargs, List.map_map] at hp ⊢
    refine List.map_congr_left fun i hi => htoken i (hp _ (List.mem_map_of_mem hi))

-- A node that there is not has no arguments.
theorem argued_node {s : Scanner} {script : Script} (h : Grouped s)
    (hf : s.finish.2 = .ok script) (id : Nat) : Argued (script.argsOf (script.node id)) := by
  rw [Script.node]
  cases hn : script.nodes[id]? with
  | none => exact ⟨by rintro t ⟨⟩, by rintro t ⟨⟩, .nil⟩
  | some node => exact argued_of_finish h hf node (Array.mem_of_getElem? hn)

-- Behind a name, everything that is numbered comes after the name.
theorem lt_group_of_counts {t : Token} (h : (counted (name :: more)).IsChain Token.Counts)
    (hn : name.kind = .command) (ht : t ∈ more) (hs : t.kind.isStructural = false) :
    name.group < t.group := by
  have hcounted : counted (name :: more) = name :: counted more := by
    simp [counted, hn, TokenKind.isStructural]
  have hplain : ∀ t ∈ counted (name :: more), t.kind.isStructural = false :=
    fun t ht => (mem_counted.1 ht).2
  have hpairwise : (counted (name :: more)).Pairwise fun t u =>
      t.group ≤ u.group ∧ (t.kind.isArgument = false → t.group < u.group) := by
    refine pairwise_of_counts ?_ h hplain fun t _ u _ hg => ?_
    · rintro t u v ⟨htu, hlt⟩ ⟨huv, -⟩
      exact ⟨htu.trans huv, fun ha => Nat.lt_of_lt_of_le (hlt ha) huv⟩
    · by_cases htouch : t.touches u = true
      · rw [if_pos htouch] at hg
        refine ⟨hg.ge, fun ha => ?_⟩
        rw [(isArgument_of_touches htouch).1] at ha
        cases ha
      · rw [if_neg htouch] at hg
        exact ⟨by omega, fun _ => by omega⟩
  rw [hcounted] at hpairwise
  refine ((List.pairwise_cons.1 hpairwise).1 t (mem_counted.2 ⟨ht, hs⟩)).2 ?_
  rw [hn]
  rfl

theorem shift_eq_behindName {t : Token} (h : t.group = 0 ↔ t.kind.isStructural = true) :
    t.shift Scanner.behindLetter.shift = t.behindName := by
  have hnode : t.node.map (· + Scanner.behindLetter.shift.nodes) = t.node := by
    simp [Scanner.behindLetter, Motion.shift]
  have hgroup : (if t.kind.isStructural then t.group else t.group + 1) =
      if t.group = 0 then 0 else t.group + 1 := by
    by_cases hs : t.kind.isStructural = true
    · rw [if_pos hs, if_pos (h.2 hs), h.2 hs]
    · rw [if_neg hs, if_neg fun hg => hs (h.1 hg)]
  simp only [Token.shift, Token.behindName, hnode, ← hgroup]
  rfl

-- The tokens behind the empty name go over to those behind the letter.
theorem tokens_of_follows {text : String} {s s' w : Scanner} {letter : Token}
    (hs : (loaded .arguments text).scan = (s, none)) (hp : s.pending = none)
    (hs' : s'.scan = (w, none)) (hl : s'.tree.tokens = #[letter])
    (hf : Follows Scanner.behindLetter s w) :
    ∃ more, s.tree.tokens.toList = ⟨.command, "", ⟨0, 0⟩, 1, 0, some 0⟩ :: more ∧
      w.tree.tokens.toList = letter :: more.map (·.shift Scanner.behindLetter.shift) := by
  obtain ⟨more, hread, hlaid⟩ := laid_of_scan hs rfl hp
  have htaken : ∀ t ∈ more, t.span.start < t.span.stop :=
    fun t ht => (hlaid.placed [] rfl rfl t ht).taken
  obtain ⟨later, hlater, hrelated⟩ := hf.tree.tokens
  have hall : w.tree.tokens.toList = later := hlater
  obtain ⟨rest, hrest⟩ := Scanner.tokens_of_scan hs'
  have hwhole : w.tree.tokens.toList = letter :: rest := by rw [← hrest, hl]; rfl
  rw [hread, ← hall, hwhole] at hrelated
  refine ⟨more, hread, ?_⟩
  cases hrelated with
  | cons _ hmore =>
    have hboth := (List.forall₂_and_left _ _).2 ⟨htaken, hmore⟩
    have hmap : rest = more.map (·.shift Scanner.behindLetter.shift) :=
      eq_map_of_forall₂ (hboth.imp fun t u h => h.2.2 h.1)
    rw [hwhole, hmap]

-- Behind the letter, the tokens that are numbered have one number more.
theorem map_shift_eq_behindName {whole : String} {w : Scanner} {letter : Token}
    (hw : (loaded .command whole).scan = (w, none)) (hk : letter.kind = .command)
    (hg : letter.group = 1)
    (ht : w.tree.tokens.toList = letter :: more.map (·.shift Scanner.behindLetter.shift)) :
    more.map (·.shift Scanner.behindLetter.shift) = more.map Token.behindName := by
  have hcounts := ((Scanner.numbers_loaded whole).of_scan hw).next
  have hstructural := Scanner.group_of_scan (by simp [loaded, Scanner.starting]) hw
  rw [ht] at hcounts hstructural
  refine List.map_congr_left fun t hm => shift_eq_behindName ⟨fun hzero => ?_, fun hs => ?_⟩
  · by_contra hs
    rw [Bool.not_eq_true] at hs
    have hlt := lt_group_of_counts (t := t.shift Scanner.behindLetter.shift) hcounts hk
      (List.mem_map_of_mem hm) hs
    have hone : (t.shift Scanner.behindLetter.shift).group = 1 := by
      simp [Token.shift, hs, hzero, Scanner.behindLetter, Motion.shift]
    omega
  · have hgroup := hstructural _ (List.mem_cons_of_mem _ (List.mem_map_of_mem hm)) hs
    simpa [Token.shift, hs] using hgroup

-- What goes over from arguments without a name to behind a letter is bound alike.
theorem headed_of_follows {c : Char} {text whole : String} {s s' w : Scanner}
    (hs : (loaded .arguments text).scan = (s, none)) (hp : s.pending = none)
    (ho : s.tree.innermostOpen? = none) (hs' : s'.scan = (w, none))
    (hl : s'.tree.tokens = #[⟨.command, String.singleton c, ⟨0, 1⟩, 1, 1, some 0⟩])
    (hw : (loaded .command whole).scan = (w, none))
    (hf : Follows Scanner.behindLetter s w) : Headed c s.snapshot w.snapshot := by
  obtain ⟨more, hbare, hnamed⟩ := tokens_of_follows hs hp hs' hl hf
  have hmap := map_shift_eq_behindName hw rfl rfl hnamed
  have hnodes : w.snapshot.nodes = s.snapshot.nodes := hf.tree.nodes_eq rfl rfl
  have houtline : SameOutline s.snapshot w.snapshot := by
    refine ⟨?_, hnodes⟩
    obtain ⟨later, hlater, hrelated⟩ := hf.tree.tokens
    have hall : w.tree.tokens.toList = later := hlater
    show w.tree.tokens.toList.map _ = s.tree.tokens.toList.map _
    rw [hall]
    exact map_eq_of_forall₂ (hrelated.imp fun t u h => h.1)
  have hgrouped : Grouped s := (grouped_starting .arguments).of_feed
    ((Scanner.feed_starting .arguments text).trans hs)
  have hfinish : s.finish.2 = .ok s.snapshot := by simp [Scanner.finish, hp, ho]
  have hhead : s.snapshot.tokens[0]? = some ⟨.command, "", ⟨0, 0⟩, 1, 0, some 0⟩ := by
    rw [← Array.getElem?_toList]
    show s.tree.tokens.toList[0]? = _
    rw [hbare]
    rfl
  obtain ⟨first, rest, hcommands, hfirst⟩ := commands_of_head hhead rfl rfl
  refine ⟨⟨more, hbare, hmap ▸ hnamed⟩, hnodes, first, rest, hcommands,
    houtline.commands.trans hcommands, fun slots table command interpolate => ?_⟩
  have hargued : Argued (s.snapshot.argsOf first.node) := hfirst ▸ argued_node hgrouped hfinish 0
  have hargs : w.snapshot.argsOf first.node =
      (s.snapshot.argsOf first.node).map (·.shift Scanner.behindLetter.shift) :=
    argsOf_shift hbare hnamed rfl hargued.pieces
  have hself (e : Binding.BindError) : e.shift Scanner.behindLetter.shift = e := by
    simp [Binding.BindError.shift, Scanner.behindLetter, Motion.shift]
  have hbound : bindOnto slots table command ⟨w.snapshot.argsOf first.node, first.node.firstArg⟩
        interpolate =
      ((bindOnto slots table command ⟨s.snapshot.argsOf first.node, first.node.firstArg⟩
          interpolate).1,
        (bindOnto slots table command ⟨s.snapshot.argsOf first.node, first.node.firstArg⟩
          interpolate).2.map (·.shift Scanner.behindLetter.shift)) :=
    Binding.bindOnto_shift slots hargued hargs fun _ => rfl
  simp only [hbound, hself, Option.map_id']

end Scripts

-- Arguments without a name are read as they are behind a letter and a blank: with the same tokens
-- and nodes, so that the same is bound to the fields of a table, or with the same error.
theorem read_arguments_behind_name {c b : Char} (hc : c.isAlpha = true) (hb : isBlank b = true)
    (text : String) :
    Both { bytes := 2, groups := 1 } (Headed c) (read .arguments text)
      (tokenize (String.ofList [c, b] ++ text)) := by
  obtain ⟨s', hs', hsource, hl, hfollows⟩ := Scanner.exists_follows hc hb text
  have hscanned := hfollows.scan
  rw [tokenize, read, read, Scanner.feed_starting, Scanner.feed_starting, hs']
  generalize hs : (loaded .arguments text).scan = x at hscanned
  generalize hw : s'.scan = y at hscanned
  cases hscanned with
  | error _ _ e => exact .error e
  | @ok s w hf =>
    refine hf.finish ?_ ?_ ?_
    · rw [Scanner.source_of_scan hw, Scanner.source_of_scan hs, hsource, String.utf8ByteSize_append]
      have htwo : (String.ofList [c, b]).utf8ByteSize = 2 := by
        rw [Text.utf8ByteSize_ofList, Text.width_cons, utf8Size_of_isAlpha hc,
          Scanner.width_of_isBlank hb]
      rw [htwo]
      exact Nat.add_comm 2 text.utf8ByteSize
    · have haligned := (Scanner.Aligned.starting .arguments).feed text
      rw [Scanner.feed_starting, hs] at haligned
      exact fun t u ht hr => haligned.1.span_of_innermostOpen? ht hr
    · exact fun hp ho => headed_of_follows hs hp ho hw hl (hs'.trans hw) hf

-- Pieces that touch, a redirection with a block and a second command, and a file that is missing.
theorem read_arguments_behind_name_pieces :
    let text := "-v 'a'b | h \x7b i\n\x7d; j"
    'x'.isAlpha = true ∧ isBlank '\t' = true ∧
      (∃ bare named, read .arguments text = .ok bare ∧ tokenize ("x\t" ++ text) = .ok named ∧
        bare.tokens.toList.map (fun t => (t.text, t.span.start, t.group)) =
          [("", 0, 0), ("-v", 0, 1), ("a", 3, 2), ("b", 6, 2), ("h", 10, 3), ("\x7b", 12, 0),
            ("i", 14, 4), ("\n", 15, 0), ("\x7d", 16, 0), (";", 17, 0), ("j", 19, 5)] ∧
        Headed 'x' bare named) ∧
      read .arguments "a >" = .error ⟨.missingFileName, ⟨2, 3⟩⟩ ∧
      tokenize ("x\t" ++ "a >") = .error ⟨.missingFileName, ⟨4, 5⟩⟩ := by
  intro text
  have hk : (read .arguments text).toOption.map
      (fun s => s.tokens.toList.map fun t => (t.text, t.span.start, t.group)) =
        some [("", 0, 0), ("-v", 0, 1), ("a", 3, 2), ("b", 6, 2), ("h", 10, 3), ("\x7b", 12, 0),
          ("i", 14, 4), ("\n", 15, 0), ("\x7d", 16, 0), (";", 17, 0), ("j", 19, 5)] := by
    decide +kernel
  have he : read .arguments "a >" = .error ⟨.missingFileName, ⟨2, 3⟩⟩ := by decide +kernel
  refine ⟨by decide, rfl, ?_, he, ?_⟩
  · have h := read_arguments_behind_name (c := 'x') (b := '\t') (by decide) rfl text
    have hletter : String.ofList ['x', '\t'] = "x\t" := rfl
    rw [hletter] at h
    generalize read .arguments text = x at h hk ⊢
    generalize tokenize ("x\t" ++ text) = y at h ⊢
    cases h with
    | ok h => exact ⟨_, _, rfl, rfl, Option.some.inj hk, h⟩
    | error => cases hk
  · have h := read_arguments_behind_name (c := 'x') (b := '\t') (by decide) rfl "a >"
    have hletter : String.ofList ['x', '\t'] = "x\t" := rfl
    rw [hletter, he] at h
    generalize tokenize ("x\t" ++ "a >") = y at h ⊢
    cases h
    rfl

end CommandShell.Script
