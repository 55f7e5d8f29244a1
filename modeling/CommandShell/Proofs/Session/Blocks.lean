import CommandShell.Proofs.Grammar.Extents
import CommandShell.Proofs.Scanner.LogicalLine
import CommandShell.Proofs.Session.Embedding

namespace CommandShell

namespace Script

namespace Derivation

variable {d : Shift} {part : Script} {first size : Nat}

theorem ranges_shift (hf : 0 < first) (counts : List Nat) :
    ranges (first + d.tokens) counts = (ranges first counts).map (·.shift d) := by
  induction counts generalizing first with
  | nil => rfl
  | cons count rest ih =>
    have hrest := @ih (first + count) (by omega)
    have hnext : first + d.tokens + count = first + count + d.tokens := by omega
    have hlast : first + count + d.tokens - 1 = first + count - 1 + d.tokens := by omega
    simp only [ranges, List.map_cons, Range.shift, hnext, hrest, hlast]

theorem commandNode_shift (args : List Arg) (blocks : List Block) (list : List Redirected) :
    commandNode (first + d.tokens) args blocks list =
      (commandNode first args blocks list).shift d := by
  have hargs : first + d.tokens + 1 = first + 1 + d.tokens := by omega
  have hblocks : first + 1 + d.tokens + args.length = first + 1 + args.length + d.tokens := by
    omega
  have hlist : first + 1 + args.length + d.tokens + (blocksTokens blocks).length =
      first + 1 + args.length + (blocksTokens blocks).length + d.tokens := by omega
  have hrange : rangeOf (first + 1 + d.tokens) args.length =
      (rangeOf (first + 1) args.length).map (·.shift d) := by
    simp only [rangeOf]
    split
    · rfl
    · simp only [Option.map_some, Range.shift]
      congr 2
      omega
  simp only [commandNode, hargs, hblocks, hlist, hrange, Node.shift]
  rw [ranges_shift (by omega), ranges_shift (by omega)]
  simp only [Range.shift, Node.mk.injEq, Range.mk.injEq, and_true, true_and]
  omega

theorem within_commandNode {args : List Arg} {blocks : List Block} {list : List Redirected}
    (h : first + 1 + args.length + (blocksTokens blocks).length + (redirectedTokens list).length ≤
      size) : (commandNode first args blocks list).Within size := by
  refine ⟨?_, ?_, ?_, ?_⟩
  · show first < size
    omega
  · simp only [commandNode]
    omega
  · intro range hr
    simp only [commandNode, rangeOf, Option.mem_def] at hr
    split at hr
    · cases hr
    · cases hr
      dsimp only
      omega
  · intro range hr
    have hfirst := first_of_mem_ranges hr
    omega

theorem moved_commandNode {args : List Arg} {blocks : List Block} {list : List Redirected}
    (ha : Argued (part.argsOf (commandNode first args blocks list)))
    (h : first + 1 + args.length + (blocksTokens blocks).length + (redirectedTokens list).length ≤
      part.tokens.size) :
    (commandNode first args blocks list).Moved d part
      (commandNode (first + d.tokens) args blocks list) :=
  ⟨within_commandNode h, ha, commandNode_shift args blocks list⟩

theorem moved_redirectedOutline (list : List Redirected)
    (ha : ∀ node ∈ redirectedNodes first list, Argued (part.argsOf node))
    (h : first + (redirectedTokens list).length ≤ part.tokens.size) :
    List.Forall₂ (fun r r' : Redirection => r.node.Moved d part r'.node)
      (redirectedOutline first list) (redirectedOutline (first + d.tokens) list) := by
  induction list generalizing first with
  | nil => exact .nil
  | cons redirected rest ih =>
    obtain ⟨name, kind, args, blocks⟩ := redirected
    rw [redirectedTokens, List.length_append] at h
    have hlen : (Redirected.mk name kind args blocks).tokens.length =
        1 + args.length + (blocksTokens blocks).length := by
      simp [Redirected.tokens]
      omega
    have hnext : first + d.tokens + (Redirected.mk name kind args blocks).tokens.length =
        first + (Redirected.mk name kind args blocks).tokens.length + d.tokens := by omega
    have hnodes : redirectedNodes first (.mk name kind args blocks :: rest) =
        redirectedNode first args blocks ::
          (blocksNodes (first + 1 + args.length) blocks ++ redirectedNodes
            (first + (Redirected.mk name kind args blocks).tokens.length) rest) := by
      simp [redirectedNodes, redirectedParts, Redirected.parts, blocksNodes]
    rw [hnodes] at ha
    rw [redirectedOutline, redirectedOutline, hnext]
    refine .cons ?_ (ih (fun node hn => ha node ?_) (by omega))
    · refine moved_commandNode (ha _ (List.mem_cons_self ..)) ?_
      simp only [redirectedTokens, List.length_nil]
      omega
    · exact List.mem_cons_of_mem _ (List.mem_append_right _ hn)

end Derivation

end Script

namespace Session

open Script (Argued Part Shift)
open Script.Derivation

variable {d : Shift} {part whole : Script} {inner : TextRun}

-- Commands that follow each other.  A failure of any of them is that of the block.
theorem runBlock_append (inner : TextRun) (script : Script) (xs ys : List Script.Command)
    (s : Session) :
    runBlock inner script (xs ++ ys) s =
      let (s', failure) := runBlock inner script xs s
      let (s'', failure') := runBlock inner script ys s'
      (s'', failure.or failure') := by
  induction xs generalizing s with
  | nil => rfl
  | cons c rest ih =>
    rw [List.cons_append, runBlock, runBlock]
    by_cases he : s.exiting = true
    · simp only [he, if_true]
      cases ys with
      | nil => rfl
      | cons c' rest' => simp only [runBlock, he, if_true, Option.none_or]
    · simp only [he, if_false, ih, Bool.false_eq_true]
      cases (runCommand inner script c s).2 with
      | true => rfl
      | false => rfl

theorem runCommand_moved (hp : Part d part whole) {c c' : Script.Command} {s : Session}
    (hc : Moved d part c c')
    (hb : Block.Twin s (firstBlock inner part c.blocks) (firstBlock inner whole c'.blocks))
    (hl : Unplaced s.library) : runCommand inner whole c' s = runCommand inner part c s := by
  obtain ⟨node, blocks, redirections⟩ := c
  obtain ⟨node', blocks', redirections'⟩ := c'
  have hmatch := matches_dispatch hp hc hb hl inner
  rw [runCommand, runCommand]
  dsimp only [Script.Command.blocks] at hmatch
  generalize dispatch s inner part _ _ = x at hmatch ⊢
  generalize dispatch s inner whole _ _ = y at hmatch ⊢
  obtain ⟨s', error⟩ := x
  obtain ⟨t, error'⟩ := y
  obtain ⟨hs, he, hw⟩ := hmatch
  dsimp only at hs he hw
  subst hs he
  cases error with
  | none => rfl
  | some e => exact congrArg (·, false) (report_shift hp hc.node (hw e rfl) t)

mutual

-- Commands do in a larger script what they do in the part.
theorem runBlock_item (hp : Part d part whole) (hi : TextKeeps inner) (first : Nat) :
    (item : Item) →
    (∀ part' ∈ item.parts first, Argued (part.argsOf part'.1)) →
    first + item.tokens.length ≤ part.tokens.size →
    ∀ s : Session, Unplaced s.library →
      runBlock inner whole (item.outline (first + d.tokens)) s =
        runBlock inner part (item.outline first) s
  | .separator _ _, _, _, _, _ => rfl
  | .command name kind args blocks list, ha, hb, s, hl => by
    have hlen : (Item.command name kind args blocks list).tokens.length =
        1 + args.length + (blocksTokens blocks).length + (redirectedTokens list).length := by
      simp [Item.tokens]
      omega
    rw [hlen] at hb
    have hblocks : first + d.tokens + 1 + args.length = first + 1 + args.length + d.tokens := by
      omega
    have hlist : first + 1 + args.length + d.tokens + (blocksTokens blocks).length =
        first + 1 + args.length + (blocksTokens blocks).length + d.tokens := by omega
    have hnode : (commandNode first args blocks list).Moved d part
        (commandNode (first + d.tokens) args blocks list) :=
      moved_commandNode (ha _ (List.mem_cons_self ..)) (by omega)
    have hargued : ∀ node ∈ redirectedNodes
        (first + 1 + args.length + (blocksTokens blocks).length) list,
          Argued (part.argsOf node) := by
      intro node hn
      obtain ⟨part', hm, rfl⟩ := List.mem_map.1 hn
      exact ha part' (List.mem_cons_of_mem _ (List.mem_append_right _ hm))
    have hredirected := moved_redirectedOutline (d := d) list hargued (by omega)
    have hfirst := twin_firstBlock hp hi (first + 1 + args.length) blocks (fun part' hm =>
      ha part' (List.mem_cons_of_mem _ (List.mem_append_left _ hm))) (by omega) s hl
    have hcommand : runCommand inner whole (.mk (commandNode (first + d.tokens) args blocks list)
          (blocksOutline (first + 1 + args.length + d.tokens) blocks)
          (redirectedOutline
            (first + 1 + args.length + (blocksTokens blocks).length + d.tokens) list)) s =
        runCommand inner part (.mk (commandNode first args blocks list)
          (blocksOutline (first + 1 + args.length) blocks)
          (redirectedOutline (first + 1 + args.length + (blocksTokens blocks).length) list)) s :=
      runCommand_moved hp ⟨hnode, hredirected⟩ hfirst hl
    simp only [Item.outline, hblocks, hlist, runBlock, hcommand]

theorem runBlock_items (hp : Part d part whole) (hi : TextKeeps inner) (first : Nat) :
    (items : List Item) →
    (∀ part' ∈ itemsParts first items, Argued (part.argsOf part'.1)) →
    first + (itemsTokens items).length ≤ part.tokens.size →
    ∀ s : Session, Unplaced s.library →
      runBlock inner whole (itemsOutline (first + d.tokens) items) s =
        runBlock inner part (itemsOutline first items) s
  | [], _, _, _, _ => rfl
  | item :: rest, ha, hb, s, hl => by
    rw [itemsTokens, List.length_append] at hb
    have hnext : first + d.tokens + item.tokens.length = first + item.tokens.length + d.tokens := by
      omega
    have hitem := runBlock_item hp hi first item (fun part' hm => ha part' (List.mem_append_left _ hm))
      (by omega) s hl
    have hkept := keeps_runBlock hi part (item.outline first) s
    have hrest := runBlock_items hp hi (first + item.tokens.length) rest
      (fun part' hm => ha part' (List.mem_append_right _ hm)) (by omega)
      (runBlock inner part (item.outline first) s).1 (hkept.library ▸ hl)
    simp only [itemsOutline, runBlock_append, hnext, hitem, hrest]

theorem twin_firstBlock (hp : Part d part whole) (hi : TextKeeps inner) (first : Nat) :
    (blocks : List Block) →
    (∀ part' ∈ blocksParts first blocks, Argued (part.argsOf part'.1)) →
    first + (blocksTokens blocks).length ≤ part.tokens.size →
    ∀ s : Session, Unplaced s.library →
      Block.Twin s (firstBlock inner part (blocksOutline first blocks))
        (firstBlock inner whole (blocksOutline (first + d.tokens) blocks))
  | [], _, _, _, _ => .none
  | .mk opening opens body closing closes :: rest, ha, hb, s, hl => by
    simp only [blocksTokens, Block.tokens, List.length_append, List.length_cons,
      List.length_nil] at hb
    refine .some fun s' hk => ?_
    have hbody := runBlock_items hp hi (first + 1) body
      (fun part' hm => ha part' (List.mem_append_left _ hm)) (by omega) s' (hk.library ▸ hl)
    have hnext : first + d.tokens + 1 = first + 1 + d.tokens := by omega
    rw [Block.outline, Block.outline, hnext]
    exact ⟨hbody, hk.trans (keeps_runBlock hi part _ s')⟩

end

-- What reading guarantees of a script.
structure Sound (script : Script) : Prop where
  built : Script.Built script
  argued : ∀ node ∈ script.nodes, Argued (script.argsOf node)
  placed : ∀ t ∈ script.tokens.toList, Script.Placed script.source.toList t

theorem sound_of_tokenize {text : String} {script : Script}
    (h : Script.tokenize text = .ok script) : Sound script := by
  obtain ⟨s, hs, hm, rfl⟩ := Script.scan_complete_of_tokenize h
  obtain ⟨hp, -⟩ := Script.Scanner.complete_of_expectMore hm
  have hg := Script.grouped_of_scan hs
  obtain ⟨read, hread, hl⟩ := Script.laid_of_scan hs rfl hp
  have hsource := Script.Scanner.source_of_scan hs
  refine ⟨Script.built_of_tokenize h, ?_, ?_⟩
  · exact Script.argued_of_finish hg (by rw [Script.Scanner.finish_of_expectMore hm])
  · show ∀ t ∈ s.tree.tokens.toList, Script.Placed s.source.toList t
    rw [hread, hsource]
    exact hl.placed [] rfl rfl

namespace Sound

variable {script : Script}

theorem spans (h : Sound script) : ∀ i < script.tokens.size,
    (script.token i).span.start ≤ Text.width script.source.toList ∧
      (script.token i).span.stop ≤ Text.width script.source.toList := by
  intro i hi
  have hm : script.token i ∈ script.tokens.toList := by simp [Script.token, hi]
  have hplaced := h.placed _ hm
  have hle (n : Nat) : Text.floorBoundary script.source.toList n ≤
      Text.width script.source.toList := by
    have ha := congrArg Text.width
      (Text.takeBytes_append_dropBytes n script.source.toList)
    rw [Text.width_append] at ha
    simp only [Text.floorBoundary]
    omega
  exact ⟨hplaced.start ▸ hle _, hplaced.stop ▸ hle _⟩

-- A sound script runs alike where it stands in a larger one.
theorem runBlock (h : Sound script) (hp : Part d script whole) (hi : TextKeeps inner)
    {items : List Item} (ht : itemsTokens items = script.tokens.toList) {s : Session}
    (hl : Unplaced s.library) :
    runBlock inner whole (itemsOutline d.tokens items) s =
      Session.runBlock inner script script.commands s := by
  obtain ⟨hc, hn⟩ := h.built.commands_eq ht
  have hargued : ∀ part' ∈ itemsParts 0 items, Argued (script.argsOf part'.1) := by
    intro part' hm
    refine h.argued _ ?_
    rw [← Array.mem_toList_iff, hn]
    exact List.mem_map_of_mem hm
  have hlen : 0 + (itemsTokens items).length ≤ script.tokens.size := by simp [ht]
  have hitems := runBlock_items hp hi 0 items hargued hlen s hl
  rwa [Nat.zero_add, ← hc] at hitems

end Sound

section Joined

variable {first later : Script}

theorem part_first (hj : Script.Joined d first later whole) (h : Sound first) :
    Part {} first whole := by
  obtain ⟨newline, -, ht⟩ := hj.tokens
  refine ⟨⟨[], '\n' :: later.source.toList, rfl, ?_⟩, ?_, fun i hi => ?_, h.spans⟩
  · simp [hj.source]
  · have hlen := congrArg List.length ht
    simp only [Array.length_toList, List.length_append, List.length_cons] at hlen
    show first.tokens.size + 0 ≤ whole.tokens.size
    omega
  · have hi' : i < first.tokens.toList.length := by simpa using hi
    have hget : whole.tokens[i]? = first.tokens[i]? := by
      rw [← Array.getElem?_toList, ht, List.getElem?_append_left hi', Array.getElem?_toList]
    show whole.token (i + 0) = _
    rw [Nat.add_zero, Script.token, hget]
    exact (Script.Token.shift_zero _).symm

theorem part_later (hj : Script.Joined d first later whole) (h : Sound later) :
    Part d later whole := by
  obtain ⟨newline, -, ht⟩ := hj.tokens
  have hd := hj.index
  refine ⟨⟨first.source.toList ++ ['\n'], [], ?_, ?_⟩, ?_, fun i hi => ?_, h.spans⟩
  · rw [hj.bytes, Text.width_append]
    rfl
  · simp [hj.source]
  · have hlen := congrArg List.length ht
    simp only [Array.length_toList, List.length_append, List.length_cons, List.length_map] at hlen
    omega
  · have hget : whole.tokens[i + d.tokens]? = later.tokens[i]?.map (·.shift d) := by
      have hindex : i + (first.tokens.size + 1) - first.tokens.toList.length = i + 1 := by
        simp only [Array.length_toList]
        omega
      rw [← Array.getElem?_toList, ht, hd, List.getElem?_append_right (by simp; omega), hindex,
        List.getElem?_cons_succ, List.getElem?_map, Array.getElem?_toList]
    rw [Script.token, hget, Script.token, Array.getElem?_eq_getElem hi]
    rfl

-- A script that is made up of two others runs as the first one and then the second one.
theorem runScript_joined (hj : Script.Joined d first later whole) (h₁ : Sound first)
    (h₂ : Sound later) (hw : Sound whole) (hi : TextKeeps inner) {s : Session}
    (hl : Unplaced s.library) :
    (runScript inner s whole).1 = (runScript inner (runScript inner s first).1 later).1 := by
  obtain ⟨newline, hk, ht⟩ := hj.tokens
  obtain ⟨a, b, ha, hb, hc⟩ := Script.exists_items_of_concat (f := (·.shift d)) (fun _ => rfl) hk
    h₁.built h₂.built hw.built ht
  have hfirst := h₁.runBlock (part_first hj h₁) hi ha hl
  have hkept := keeps_runBlock hi first first.commands s
  have hlater := h₂.runBlock (part_later hj h₂) hi hb
    (s := (runBlock inner first first.commands s).1) (hkept.library ▸ hl)
  rw [hj.index] at hlater
  simp only [runScript, hc, runBlock_append, hfirst, hlater]

end Joined

end Session

end CommandShell
