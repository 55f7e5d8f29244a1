import CommandShell.Proofs.Grammar.Arguments

namespace CommandShell.Script

namespace Derivation

theorem commandNode_congr {first : Nat} {args args' : List Arg} {blocks blocks' : List Block}
    {list list' : List Redirected} (ha : args'.length = args.length)
    (hb : blocks'.map (·.tokens.length) = blocks.map (·.tokens.length))
    (hbt : (blocksTokens blocks').length = (blocksTokens blocks).length)
    (hr : list'.map (·.tokens.length) = list.map (·.tokens.length))
    (hrt : (redirectedTokens list').length = (redirectedTokens list).length) :
    commandNode first args' blocks' list' = commandNode first args blocks list := by
  simp only [commandNode, ha, hb, hbt, hr, hrt]

section Map

variable {f : Token → Token}

theorem exists_map_args (hf : ∀ t, (f t).kind = t.kind) (args : List Arg) :
    ∃ args', argTokens args' = (argTokens args).map f ∧ args'.length = args.length := by
  refine ⟨args.map fun arg => ⟨f arg.1, (hf arg.1).symm ▸ arg.2⟩, ?_, by simp⟩
  simp [argTokens]

mutual

-- What is met on the way through a part depends only on the kinds of its tokens.
theorem Item.exists_map (hf : ∀ t, (f t).kind = t.kind) : (item : Item) →
    ∃ item' : Item, item'.tokens = item.tokens.map f ∧
      ∀ first, item'.outline first = item.outline first
  | .separator token kind =>
    ⟨.separator (f token) ((hf token).trans kind), by simp [Item.tokens], fun _ => rfl⟩
  | .command name kind args blocks redirections => by
    obtain ⟨args', ha, hl⟩ := exists_map_args hf args
    obtain ⟨blocks', hb, hbl, hbo⟩ := exists_map_blocks hf blocks
    obtain ⟨list', hr, hrl, hro⟩ := exists_map_redirected hf redirections
    have hbt := congrArg List.length hb
    have hrt := congrArg List.length hr
    rw [List.length_map] at hbt hrt
    refine ⟨.command (f name) ((hf name).trans kind) args' blocks' list', ?_, fun first => ?_⟩
    · simp [Item.tokens, ha, hb, hr]
    · simp only [Item.outline, commandNode_congr hl hbl hbt hrl hrt, hl, hbt, hbo, hro]

theorem Redirected.exists_map (hf : ∀ t, (f t).kind = t.kind) : (redirected : Redirected) →
    ∃ redirected' : Redirected, redirected'.tokens = redirected.tokens.map f ∧
      ∀ first, redirected'.outline first = redirected.outline first
  | .mk name kind args blocks => by
    obtain ⟨args', ha, hl⟩ := exists_map_args hf args
    obtain ⟨blocks', hb, hbl, hbo⟩ := exists_map_blocks hf blocks
    have hbt := congrArg List.length hb
    rw [List.length_map] at hbt
    refine ⟨.mk (f name) ((hf name).symm ▸ kind) args' blocks', ?_, fun first => ?_⟩
    · simp [Redirected.tokens, ha, hb]
    · simp only [Redirected.outline, redirectedNode, commandNode_congr hl hbl hbt rfl rfl, hl, hbo]

theorem Block.exists_map (hf : ∀ t, (f t).kind = t.kind) : (block : Block) →
    ∃ block' : Block, block'.tokens = block.tokens.map f ∧
      ∀ first, block'.outline first = block.outline first
  | .mk opening opens body closing closes => by
    obtain ⟨body', hb, ho⟩ := exists_map_items hf body
    refine ⟨.mk (f opening) ((hf opening).trans opens) body' (f closing)
      ((hf closing).trans closes), ?_, fun first => ho (first + 1)⟩
    simp [Block.tokens, hb]

theorem exists_map_items (hf : ∀ t, (f t).kind = t.kind) : (items : List Item) →
    ∃ items', itemsTokens items' = (itemsTokens items).map f ∧
      ∀ first, itemsOutline first items' = itemsOutline first items
  | [] => ⟨[], rfl, fun _ => rfl⟩
  | item :: rest => by
    obtain ⟨item', hi, hio⟩ := item.exists_map hf
    obtain ⟨rest', hr, hro⟩ := exists_map_items hf rest
    refine ⟨item' :: rest', by simp [itemsTokens, hi, hr], fun first => ?_⟩
    simp only [itemsOutline, hio, hro, hi, List.length_map]

theorem exists_map_blocks (hf : ∀ t, (f t).kind = t.kind) : (blocks : List Block) →
    ∃ blocks', blocksTokens blocks' = (blocksTokens blocks).map f ∧
      blocks'.map (·.tokens.length) = blocks.map (·.tokens.length) ∧
      ∀ first, blocksOutline first blocks' = blocksOutline first blocks
  | [] => ⟨[], rfl, rfl, fun _ => rfl⟩
  | block :: rest => by
    obtain ⟨block', hb, hbo⟩ := block.exists_map hf
    obtain ⟨rest', hr, hl, hro⟩ := exists_map_blocks hf rest
    refine ⟨block' :: rest', by simp [blocksTokens, hb, hr], by simp [hb, hl], fun first => ?_⟩
    simp only [blocksOutline, hbo, hro, hb, List.length_map]

theorem exists_map_redirected (hf : ∀ t, (f t).kind = t.kind) : (list : List Redirected) →
    ∃ list', redirectedTokens list' = (redirectedTokens list).map f ∧
      list'.map (·.tokens.length) = list.map (·.tokens.length) ∧
      ∀ first, redirectedOutline first list' = redirectedOutline first list
  | [] => ⟨[], rfl, rfl, fun _ => rfl⟩
  | redirected :: rest => by
    obtain ⟨redirected', hd, hdo⟩ := redirected.exists_map hf
    obtain ⟨rest', hr, hl, hro⟩ := exists_map_redirected hf rest
    refine ⟨redirected' :: rest', by simp [redirectedTokens, hd, hr], by simp [hd, hl],
      fun first => ?_⟩
    simp only [redirectedOutline, hdo, hro, hd, List.length_map]

end

end Map

theorem itemsOutline_append (first : Nat) (a b : List Item) :
    itemsOutline first (a ++ b) =
      itemsOutline first a ++ itemsOutline (first + (itemsTokens a).length) b := by
  induction a generalizing first with
  | nil => rfl
  | cons item rest ih =>
    rw [List.cons_append, itemsOutline, ih, itemsOutline, itemsTokens, List.length_append,
      List.append_assoc, Nat.add_assoc]

-- A token that opens a node is told its number anew.
theorem insert_numbered {t : Tree} {token : Token} (id : Option Nat)
    (h : token.kind.opensNode = true) :
    t.insert { token with node := id } = t.insert token := by
  unfold Tree.insert
  cases hk : token.kind <;> first | rfl | simp [hk, TokenKind.opensNode, TokenKind.isRedirection] at h

theorem insertAll_numbered (t : Tree) (id : Nat) (tokens : List Token) :
    t.insertAll (numbered id tokens) = t.insertAll tokens := by
  induction tokens generalizing t id with
  | nil => rfl
  | cons token rest ih =>
    have hrest (id : Nat) : (fun u : Tree => u.insertAll (numbered id rest)) =
        fun u => u.insertAll rest := funext fun u => ih u id
    rw [numbered]
    split
    · next h =>
      rw [Tree.insertAll, List.foldlM_cons, insert_numbered (some id) h]
      exact congrArg (t.insert token >>= ·) (hrest (id + 1))
    · rw [Tree.insertAll, List.foldlM_cons]
      exact congrArg (t.insert token >>= ·) (hrest id)

end Derivation

open Script.Derivation

-- The tokens of a script, taken in once more, make it up.
def Built (s : Script) : Prop :=
  ∃ t, Tree.insertAll {} s.tokens.toList = .ok t ∧ t.depth = 0 ∧ t.toScript s.source = s

variable {s first later whole : Script}

theorem built_of_insertAll {t : Tree} {tokens : List Token}
    (h : Tree.insertAll {} tokens = .ok t) (hd : t.depth = 0) (source : String) :
    Built (t.toScript source) := by
  obtain ⟨items, rfl⟩ := exists_items_of_insertAll h hd
  obtain ⟨head, hi⟩ := insertAll_of_items items
  have ht : t.tokens.toList = numbered 0 (itemsTokens items) := by
    rw [Except.ok.inj (h.symm.trans hi)]
  refine ⟨t, ?_, hd, rfl⟩
  rw [Tree.toScript, ht, insertAll_numbered, h]

theorem Built.exists_items (h : Built s) : ∃ items, itemsTokens items = s.tokens.toList := by
  obtain ⟨t, ht, hd, -⟩ := h
  exact exists_items_of_insertAll ht hd

-- Whatever derivation the tokens have, the way through the script follows it.
theorem Built.commands_eq {items : List Item} (h : Built s)
    (hi : itemsTokens items = s.tokens.toList) :
    s.commands = itemsOutline 0 items ∧ s.nodes.toList = itemsNodes 0 items := by
  obtain ⟨t, ht, -, hs⟩ := h
  obtain ⟨head, hitems⟩ := insertAll_of_items items
  rw [hi] at hitems
  have htree := Except.ok.inj (ht.symm.trans hitems)
  have hn : s.nodes.toList = itemsNodes 0 items := by
    rw [← hs, htree]
    simp [Tree.toScript]
  have hh := holds_treeOf items head s.source
  rw [hi, ← htree, hs] at hh
  have hsize : s.tokens.size = (itemsTokens items).length := by simp [hi]
  refine ⟨commands_eq_itemsOutline hsize ?_, hn⟩
  rwa [hi]

-- The commands of a script that is made up of two others are those of the first one and, with
-- their places further on, those of the second one.
theorem exists_items_of_concat {f : Token → Token} {newline : Token}
    (hf : ∀ t, (f t).kind = t.kind) (hk : newline.kind = .separator) (h₁ : Built first)
    (h₂ : Built later) (hw : Built whole)
    (ht : whole.tokens.toList = first.tokens.toList ++ newline :: later.tokens.toList.map f) :
    ∃ a b, itemsTokens a = first.tokens.toList ∧ itemsTokens b = later.tokens.toList ∧
      whole.commands = itemsOutline 0 a ++ itemsOutline (first.tokens.size + 1) b := by
  obtain ⟨a, ha⟩ := h₁.exists_items
  obtain ⟨b, hb⟩ := h₂.exists_items
  obtain ⟨b', hb', ho⟩ := exists_map_items hf b
  have hitems : itemsTokens (a ++ .separator newline hk :: b') = whole.tokens.toList := by
    simp [itemsTokens_append, itemsTokens, Item.tokens, ha, hb', hb, ht]
  refine ⟨a, b, ha, hb, ?_⟩
  rw [(hw.commands_eq hitems).1, itemsOutline_append, itemsOutline, ho]
  simp [Item.outline, Item.tokens, ha]

end CommandShell.Script
