import CommandShell.Proofs.Grammar.Derivation

namespace CommandShell.Script

variable {s : Script} {first id next : Nat} {a b tokens : List Token} {m n nodes : List Node}

namespace Visit

def node? : Visit → Option Node
  | command _ c => some c.node
  | block _ => none
  | redirection _ r => some r.node

end Visit

namespace Derivation

-- The script holds these tokens from the index `first` on, and the nodes that they open from
-- `id` on.
structure Holds (s : Script) (first id : Nat) (tokens : List Token) (nodes : List Node) : Prop where
  tokens : numbered id tokens <+: s.tokens.toList.drop first
  nodes : nodes <+: s.nodes.toList.drop id

theorem prefix_drop_of_append {α : Type} (xs : List α) {ys zs : List α} {i : Nat}
    (h : xs ++ ys <+: zs.drop i) : ys <+: zs.drop (i + xs.length) := by
  obtain ⟨rest, hr⟩ := h
  refine ⟨rest, ?_⟩
  have hd := congrArg (List.drop xs.length) hr
  rw [List.append_assoc, List.drop_left, List.drop_drop] at hd
  exact hd

theorem getElem?_of_cons_prefix_drop {α : Type} {x : α} {xs zs : List α} {i : Nat}
    (h : x :: xs <+: zs.drop i) : zs[i]? = some x := by
  obtain ⟨rest, hr⟩ := h
  have hg := congrArg (·[0]?) hr
  simpa using hg.symm

namespace Holds

theorem left (h : Holds s first id (a ++ b) (m ++ n)) : Holds s first id a m := by
  refine ⟨?_, (List.prefix_append m n).trans h.nodes⟩
  have ht := h.tokens
  rw [numbered_append] at ht
  exact (List.prefix_append _ _).trans ht

theorem right (h : Holds s first id (a ++ b) (m ++ n))
    (hc : a.countP (·.kind.opensNode) = m.length) :
    Holds s (first + a.length) (id + m.length) b n := by
  have ht := h.tokens
  rw [numbered_append, hc] at ht
  have hd := prefix_drop_of_append _ ht
  rw [length_numbered] at hd
  exact ⟨hd, prefix_drop_of_append _ h.nodes⟩

-- Past a token that opens no node.
theorem skip {t : Token} (h : Holds s first id (t :: tokens) nodes)
    (ht : t.kind.opensNode = false) : Holds s (first + 1) id tokens nodes := by
  have hr := right (a := [t]) (m := []) h (by simp [ht])
  simpa using hr

theorem token {t : Token} (h : Holds s first id (t :: tokens) nodes)
    (ht : t.kind.opensNode = false) : s.tokens[first]? = some t := by
  have hx := h.tokens
  rw [numbered, if_neg (by simp [ht])] at hx
  simpa using getElem?_of_cons_prefix_drop hx

-- Past a token that opens a node.
theorem pass {t : Token} {n : Node} (h : Holds s first id (t :: tokens) (n :: nodes))
    (ht : t.kind.opensNode = true) : Holds s (first + 1) (id + 1) tokens nodes := by
  have hr := right (a := [t]) (m := [n]) h (by simp [ht])
  simpa using hr

theorem opening {t : Token} {n : Node} (h : Holds s first id (t :: tokens) (n :: nodes))
    (ht : t.kind.opensNode = true) :
    s.tokens[first]? = some { t with node := some id } ∧ s.node id = n := by
  have hx := h.tokens
  rw [numbered, if_pos ht] at hx
  have hn := getElem?_of_cons_prefix_drop h.nodes
  refine ⟨by simpa using getElem?_of_cons_prefix_drop hx, ?_⟩
  simp only [Array.getElem?_toList] at hn
  simp [node, hn]

-- A token that opens a node, the arguments of the node, and what follows them.
theorem headed {t : Token} {n : Node} {args : List Arg}
    (h : Holds s first id (t :: (argTokens args ++ tokens)) (n :: nodes))
    (ht : t.kind.opensNode = true) :
    s.tokens[first]? = some { t with node := some id } ∧ s.node id = n ∧
      argTokens args <+: s.tokens.toList.drop (first + 1) ∧
      Holds s (first + 1 + args.length) (id + 1) tokens nodes := by
  obtain ⟨htoken, hnode⟩ := h.opening ht
  have hrest := h.pass ht
  have hargs := (hrest.left (m := [])).tokens
  have hinner := hrest.right (a := argTokens args) (m := []) (by simp)
  exact ⟨htoken, hnode, by simpa using hargs, by simpa using hinner⟩

-- The items between two braces.
theorem inside {opening closing : Token} {body : List Item}
    (h : Holds s first id (opening :: (itemsTokens body ++ [closing]))
      (itemsNodes (first + 1) body))
    (opens : opening.kind = .blockBegin) (closes : closing.kind = .blockEnd) :
    Holds s (first + 1) id (itemsTokens body) (itemsNodes (first + 1) body) ∧
      s.tokens[first + 1 + (itemsTokens body).length]? = some closing := by
  have ho : opening.kind.opensNode = false := by rw [opens]; rfl
  have hc : closing.kind.opensNode = false := by rw [closes]; rfl
  have hi := h.skip ho
  rw [← List.append_nil (itemsNodes (first + 1) body)] at hi
  have hcount : (itemsTokens body).countP (·.kind.opensNode) =
      (itemsNodes (first + 1) body).length := by
    rw [countP_itemsTokens (first + 1), itemsNodes, List.length_map]
  exact ⟨hi.left, (hi.right hcount).token hc⟩

end Holds

theorem opened_of_le {count : Nat} (h : first + count ≤ next) (more : List Nat) :
    s.opened next (List.range' first count ++ more) = s.opened next more := by
  induction count generalizing first with
  | zero => rfl
  | succ count ih =>
    rw [List.range'_succ, List.cons_append, opened, if_pos (by omega)]
    exact ih (by omega)

theorem map_token_range' (h : tokens <+: s.tokens.toList.drop first) :
    (List.range' first tokens.length).map s.token = tokens := by
  induction tokens generalizing first with
  | nil => rfl
  | cons t rest ih =>
    have ht : s.tokens[first]? = some t := by simpa using getElem?_of_cons_prefix_drop h
    have hr : rest <+: s.tokens.toList.drop (first + 1) := prefix_drop_of_append [t] h
    rw [List.length_cons, List.range'_succ, List.map_cons, ih hr]
    simp [token, ht]

theorem argsOf_commandNode {args : List Arg} {blocks : List Block}
    {redirections : List Redirected} (h : argTokens args <+: s.tokens.toList.drop (first + 1)) :
    s.argsOf (commandNode first args blocks redirections) = argTokens args := by
  cases args with
  | nil => rfl
  | cons arg rest =>
    have hm := map_token_range' h
    have hl : first + 1 + rest.length - first = rest.length + 1 := by omega
    simpa [argsOf, commandNode, rangeOf, hl] using hm

theorem blockStop_of_closed {block : Range} {closing : Token}
    (hc : s.tokens[block.last]? = some closing) (hk : closing.kind = .blockEnd)
    (hl : block.first < block.last) : s.blockStop block = block.last := by
  rw [blockStop, if_pos ⟨by simp [token, hc, hk], hl⟩]

-- `inside` walks the blocks that have at most `bound` tokens together as they were derived.
def Walks (s : Script) (inside : Range → List Command) (bound : Nat) : Prop :=
  ∀ (blocks : List Block) (first id : Nat), (blocksTokens blocks).length ≤ bound →
    Holds s first id (blocksTokens blocks) (blocksNodes first blocks) →
    (ranges first (blocks.map (·.tokens.length))).map inside = blocksOutline first blocks

-- The walk is right for blocks with two tokens more than what it is right for inside of braces.
theorem walks_between {levels : Nat}
    (ih : ∀ (items : List Item) (first id : Nat), (itemsTokens items).length ≤ levels →
      Holds s first id (itemsTokens items) (itemsNodes first items) →
      s.between levels first (first + (itemsTokens items).length) = itemsOutline first items) :
    Walks s (fun block => s.between levels (block.first + 1) (s.blockStop block))
      (levels + 2) := by
  intro blocks
  induction blocks with
  | nil => intro first id _ _; rfl
  | cons block rest ihb =>
    intro first id hl h
    obtain ⟨opening, opens, body, closing, closes⟩ := block
    rw [blocksTokens, blocksNodes, blocksParts, List.map_append] at h
    rw [blocksTokens, List.length_append] at hl
    have hrest := h.right (by rw [Block.countP_tokens first, List.length_map])
    obtain ⟨hinside, hclosing⟩ := h.left.inside opens closes
    have hlen : first + (Block.mk opening opens body closing closes).tokens.length - 1 =
        first + 1 + (itemsTokens body).length := by
      simp [Block.tokens]
      omega
    simp only [Block.tokens, List.length_cons, List.length_append, List.length_nil] at hl
    rw [List.map_cons, ranges, List.map_cons, blocksOutline, hlen,
      blockStop_of_closed hclosing closes (by simp; omega), Block.outline,
      ih body (first + 1) id (by omega) hinside, ihb _ _ (by omega) hrest]

theorem filterMap_ranges {inside : Range → List Command} {bound : Nat}
    (hw : Walks s inside bound) (list : List Redirected)
    (hl : (redirectedTokens list).length ≤ bound)
    (h : Holds s first id (redirectedTokens list) (redirectedNodes first list)) :
    ((ranges first (list.map (·.tokens.length))).filterMap fun range => do
      let node := s.node (← (s.token range.first).node)
      return Redirection.mk node (node.blocks.map inside)) = redirectedOutline first list := by
  induction list generalizing first id with
  | nil => rfl
  | cons redirected rest ih =>
    obtain ⟨name, kind, args, blocks⟩ := redirected
    have hn := opensNode_of_isRedirection kind
    rw [redirectedTokens, redirectedNodes, redirectedParts, List.map_append] at h
    rw [redirectedTokens, List.length_append] at hl
    have hrest := h.right (by rw [Redirected.countP_tokens first, List.length_map])
    obtain ⟨htoken, hnode, -, hblocks⟩ := h.left.headed hn
    simp only [Redirected.tokens, List.length_cons, List.length_append, length_argTokens] at hl
    have hb := hw blocks (first + 1 + args.length) (id + 1) (by omega) hblocks
    have ht : (s.token first).node = some id := by simp [token, htoken]
    rw [List.map_cons, ranges, List.filterMap_cons, ih (by omega) hrest, redirectedOutline]
    simp [ht, hnode, Redirected.outline, redirectedNode, commandNode, hb]

theorem attached_eq_outline {inside : Range → List Command} {bound : Nat}
    (hw : Walks s inside bound) {name : Token} {kind : name.kind = .command} {args : List Arg}
    {blocks : List Block} {redirections : List Redirected}
    (hl : (blocksTokens blocks).length + (redirectedTokens redirections).length ≤ bound)
    (h : Holds s first id (Item.command name kind args blocks redirections).tokens
      (((Item.command name kind args blocks redirections).parts first).map (·.1))) :
    s.opens? first = some id ∧
      (s.node id).extent.last + 1 =
        first + (Item.command name kind args blocks redirections).tokens.length ∧
      [s.attached inside id] =
        (Item.command name kind args blocks redirections).outline first := by
  have hname : name.kind.opensNode = true := by rw [kind]; rfl
  rw [Item.tokens, List.append_assoc, Item.parts, List.map_cons, List.map_append] at h
  obtain ⟨htoken, hnode, -, hinner⟩ := h.headed hname
  have ho : s.opens? first = some id := by
    obtain ⟨k, text, span, line, group, node⟩ := name
    cases kind
    simp [opens?, htoken]
  have hblocks := hw blocks (first + 1 + args.length) (id + 1) (by omega) hinner.left
  have hredirected := filterMap_ranges hw redirections (by omega)
    (hinner.right (by rw [countP_blocksTokens (first + 1 + args.length), List.length_map]))
  refine ⟨ho, ?_, ?_⟩
  · rw [hnode]
    simp [commandNode, Item.tokens]
    omega
  · simp only [attached, hnode, Item.outline]
    simp only [commandNode, hblocks]
    rw [← hredirected]

-- The commands that are opened among the tokens of a script part, with what is attached to them.
theorem map_attached_opened {inside : Range → List Command} {bound : Nat}
    (hw : Walks s inside bound) (items : List Item) (hl : (itemsTokens items).length ≤ bound + 1)
    (h : Holds s first id (itemsTokens items) (itemsNodes first items)) (hn : next ≤ first) :
    (s.opened next (List.range' first (itemsTokens items).length)).map (s.attached inside) =
      itemsOutline first items := by
  induction items generalizing first id next with
  | nil => rfl
  | cons item rest ih =>
    rw [itemsTokens, itemsNodes, itemsParts, List.map_append] at h
    rw [itemsTokens, List.length_append] at hl
    have hrest := h.right (by rw [Item.countP_tokens first, List.length_map])
    rw [itemsTokens, List.length_append, ← List.range'_append_1, itemsOutline]
    cases item with
    | separator token kind =>
      have ht : token.kind.opensNode = false := by rw [kind]; rfl
      have htoken := h.left.token ht
      have ho : s.opens? first = none := by
        obtain ⟨k, text, span, line, group, node⟩ := token
        cases kind
        simp [opens?, htoken]
      simp only [Item.tokens, List.length_cons, List.length_nil] at hl hrest ⊢
      rw [List.range'_one, List.singleton_append, opened, if_neg (by omega), ho]
      exact ih (by omega) hrest (by omega)
    | command name kind args blocks redirections =>
      have hlen : (Item.command name kind args blocks redirections).tokens.length =
          args.length + (blocksTokens blocks).length + (redirectedTokens redirections).length +
            1 := by
        simp [Item.tokens]
        omega
      obtain ⟨ho, hlast, hattached⟩ := attached_eq_outline hw (by omega) h.left
      have hfirst :
          List.range' first (Item.command name kind args blocks redirections).tokens.length =
            first :: List.range' (first + 1) (args.length + (blocksTokens blocks).length +
            (redirectedTokens redirections).length) := by
        rw [hlen, List.range'_succ]
      rw [hfirst, List.cons_append, opened, if_neg (by omega), ho]
      dsimp only
      rw [hlast, opened_of_le (by omega), List.map_cons, ih (by omega) hrest (Nat.le_refl _),
        ← hattached]
      rfl

theorem between_eq_itemsOutline (levels : Nat) (items : List Item) (first id : Nat)
    (hl : (itemsTokens items).length ≤ levels)
    (h : Holds s first id (itemsTokens items) (itemsNodes first items)) :
    s.between levels first (first + (itemsTokens items).length) = itemsOutline first items := by
  induction levels generalizing items first id with
  | zero =>
    cases items with
    | nil => rfl
    | cons item rest =>
      rw [itemsTokens, List.length_append] at hl
      cases item <;> simp [Item.tokens] at hl
  | succ levels ih =>
    rw [between, Nat.add_sub_cancel_left]
    exact map_attached_opened (walks_between ih) items (by omega) h (Nat.zero_le _)

theorem commandVisits_append (depth : Nat) (xs ys : List Command) :
    commandVisits depth (xs ++ ys) = commandVisits depth xs ++ commandVisits depth ys := by
  induction xs with
  | nil => rfl
  | cons x xs ih => rw [List.cons_append, commandVisits, ih, commandVisits, List.append_assoc]

mutual

-- The way through a part meets its nodes in the order of their first tokens, each once.
theorem Item.visits_outline (depth first : Nat) : (item : Item) →
    (commandVisits depth (item.outline first)).filterMap Visit.node? =
      (item.parts first).map (·.1)
  | .separator _ _ => rfl
  | .command name kind args blocks redirections => by
    have hb := blockVisits_outline depth (first + 1 + args.length) blocks
    have hr := redirectionVisits_outline (depth + 1)
      (first + 1 + args.length + (blocksTokens blocks).length) redirections
    rw [Item.outline, commandVisits, commandVisits, List.append_nil, Command.visits,
      List.filterMap_cons, List.filterMap_append, hb, hr]
    simp [Visit.node?, Command.node, Item.parts]

theorem Redirected.visits_outline (depth first : Nat) : (redirected : Redirected) →
    ((redirected.outline first).visits depth).filterMap Visit.node? =
      (redirected.parts first).map (·.1)
  | .mk name kind args blocks => by
    have hb := blockVisits_outline depth (first + 1 + args.length) blocks
    rw [Redirected.outline, Redirection.visits, List.filterMap_cons, hb]
    simp [Visit.node?, Redirection.node, Redirected.parts]

theorem Block.visits_outline (depth first : Nat) : (block : Block) →
    (commandVisits depth (block.outline first)).filterMap Visit.node? =
      (block.parts first).map (·.1)
  | .mk _ _ body _ _ => commandVisits_outline depth (first + 1) body

theorem commandVisits_outline (depth first : Nat) : (items : List Item) →
    (commandVisits depth (itemsOutline first items)).filterMap Visit.node? =
      itemsNodes first items
  | [] => rfl
  | item :: rest => by
    have hi := item.visits_outline depth first
    have hr := commandVisits_outline depth (first + item.tokens.length) rest
    rw [itemsOutline, commandVisits_append, List.filterMap_append, hi, hr, itemsNodes,
      itemsNodes, itemsParts, List.map_append]

theorem blockVisits_outline (depth first : Nat) : (blocks : List Block) →
    (blockVisits depth (blocksOutline first blocks)).filterMap Visit.node? =
      (blocksParts first blocks).map (·.1)
  | [] => rfl
  | block :: rest => by
    have hb := block.visits_outline (depth + 1) first
    have hr := blockVisits_outline depth (first + block.tokens.length) rest
    rw [blocksOutline, blockVisits, List.filterMap_cons, Visit.node?, List.filterMap_append, hb,
      hr, blocksParts, List.map_append]

theorem redirectionVisits_outline (depth first : Nat) : (list : List Redirected) →
    (redirectionVisits depth (redirectedOutline first list)).filterMap Visit.node? =
      (redirectedParts first list).map (·.1)
  | [] => rfl
  | redirected :: rest => by
    have hd := redirected.visits_outline depth first
    have hr := redirectionVisits_outline depth (first + redirected.tokens.length) rest
    rw [redirectedOutline, redirectionVisits, List.filterMap_append, hd, hr, redirectedParts,
      List.map_append]

end

mutual

-- Every node has the arguments that were derived for it.
theorem Item.argsOf_parts (s : Script) (first id : Nat) : (item : Item) →
    Holds s first id item.tokens ((item.parts first).map (·.1)) →
    ∀ part ∈ item.parts first, s.argsOf part.1 = part.2
  | .separator _ _, _ => by simp [Item.parts]
  | .command name kind args blocks redirections, h => by
    have hname : name.kind.opensNode = true := by rw [kind]; rfl
    rw [Item.tokens, List.append_assoc, Item.parts, List.map_cons, List.map_append] at h
    obtain ⟨-, -, hargs, hinner⟩ := h.headed hname
    have hb := argsOf_blocksParts s _ _ blocks hinner.left
    have hr := argsOf_redirectedParts s _ _ redirections
      (hinner.right (by rw [countP_blocksTokens (first + 1 + args.length), List.length_map]))
    intro part hp
    rw [Item.parts, List.mem_cons, List.mem_append] at hp
    rcases hp with rfl | hp | hp
    · exact argsOf_commandNode hargs
    · exact hb part hp
    · exact hr part hp

theorem Redirected.argsOf_parts (s : Script) (first id : Nat) : (redirected : Redirected) →
    Holds s first id redirected.tokens ((redirected.parts first).map (·.1)) →
    ∀ part ∈ redirected.parts first, s.argsOf part.1 = part.2
  | .mk name kind args blocks, h => by
    have hname := opensNode_of_isRedirection kind
    rw [Redirected.tokens, Redirected.parts, List.map_cons] at h
    obtain ⟨-, -, hargs, hinner⟩ := h.headed hname
    have hb := argsOf_blocksParts s _ _ blocks hinner
    intro part hp
    rw [Redirected.parts, List.mem_cons] at hp
    rcases hp with rfl | hp
    · exact argsOf_commandNode hargs
    · exact hb part hp

theorem Block.argsOf_parts (s : Script) (first id : Nat) : (block : Block) →
    Holds s first id block.tokens ((block.parts first).map (·.1)) →
    ∀ part ∈ block.parts first, s.argsOf part.1 = part.2
  | .mk _ opens body _ closes, h => argsOf_itemsParts s _ _ body (h.inside opens closes).1

theorem argsOf_itemsParts (s : Script) (first id : Nat) : (items : List Item) →
    Holds s first id (itemsTokens items) (itemsNodes first items) →
    ∀ part ∈ itemsParts first items, s.argsOf part.1 = part.2
  | [], _ => by simp [itemsParts]
  | item :: rest, h => by
    rw [itemsTokens, itemsNodes, itemsParts, List.map_append] at h
    have hi := item.argsOf_parts s first id h.left
    have hr := argsOf_itemsParts s _ _ rest
      (h.right (by rw [item.countP_tokens first, List.length_map]))
    intro part hp
    rw [itemsParts, List.mem_append] at hp
    exact hp.elim (hi part) (hr part)

theorem argsOf_blocksParts (s : Script) (first id : Nat) : (blocks : List Block) →
    Holds s first id (blocksTokens blocks) ((blocksParts first blocks).map (·.1)) →
    ∀ part ∈ blocksParts first blocks, s.argsOf part.1 = part.2
  | [], _ => by simp [blocksParts]
  | block :: rest, h => by
    rw [blocksTokens, blocksParts, List.map_append] at h
    have hb := block.argsOf_parts s first id h.left
    have hr := argsOf_blocksParts s _ _ rest
      (h.right (by rw [block.countP_tokens first, List.length_map]))
    intro part hp
    rw [blocksParts, List.mem_append] at hp
    exact hp.elim (hb part) (hr part)

theorem argsOf_redirectedParts (s : Script) (first id : Nat) : (list : List Redirected) →
    Holds s first id (redirectedTokens list) ((redirectedParts first list).map (·.1)) →
    ∀ part ∈ redirectedParts first list, s.argsOf part.1 = part.2
  | [], _ => by simp [redirectedParts]
  | redirected :: rest, h => by
    rw [redirectedTokens, redirectedParts, List.map_append] at h
    have hd := redirected.argsOf_parts s first id h.left
    have hr := argsOf_redirectedParts s _ _ rest
      (h.right (by rw [redirected.countP_tokens first, List.length_map]))
    intro part hp
    rw [redirectedParts, List.mem_append] at hp
    exact hp.elim (hd part) (hr part)

end

theorem map_argsOf_itemsNodes {items : List Item}
    (h : Holds s first id (itemsTokens items) (itemsNodes first items)) :
    (itemsNodes first items).map (fun n => (n, s.argsOf n)) = itemsParts first items := by
  rw [itemsNodes, List.map_map]
  refine (List.map_congr_left fun part hp => ?_).trans (List.map_id _)
  exact Prod.ext rfl (argsOf_itemsParts s first id items h part hp)

end Derivation

end CommandShell.Script
