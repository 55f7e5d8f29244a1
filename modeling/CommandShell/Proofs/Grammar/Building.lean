import CommandShell.Proofs.Grammar.Derivation

namespace CommandShell.Script

theorem mapLast_append_singleton {α : Type} (f : α → α) (xs : List α) (x : α) :
    mapLast f (xs ++ [x]) = xs ++ [f x] := by
  induction xs with
  | nil => rfl
  | cons y ys ih =>
    cases ys with
    | nil => rfl
    | cons z zs => exact congrArg (y :: ·) ih

theorem mapLast_mapLast {α : Type} (f g : α → α) (xs : List α) :
    mapLast f (mapLast g xs) = mapLast (f ∘ g) xs := by
  cases List.eq_nil_or_concat xs with
  | inl h => simp [h, mapLast]
  | inr h =>
    obtain ⟨ys, y, rfl⟩ := h
    simp [mapLast_append_singleton]

@[simp] theorem modify_append_cons {α : Type} (xs ys : List α) (x : α) (f : α → α) :
    (xs ++ x :: ys).modify xs.length f = xs ++ f x :: ys := by
  induction xs with
  | nil => rfl
  | cons y xs ih => simpa using ih

theorem modify_append_cons_append_cons {α : Type} (xs ys zs : List α) (x y : α) (f : α → α) :
    (xs ++ x :: (ys ++ y :: zs)).modify (xs.length + 1 + ys.length) f =
      xs ++ x :: (ys ++ f y :: zs) := by
  have hl : xs.length + 1 + ys.length = (xs ++ x :: ys).length := by simp; omega
  have hs := modify_append_cons (xs ++ x :: ys) zs y f
  rw [hl]
  simpa using hs

@[simp] theorem Node.reach_reach (n : Node) (i j : Nat) : (n.reach i).reach j = n.reach j := rfl

theorem Node.reachRedirection_reach (n : Node) (i j : Nat) :
    (((n.reach i).reachRedirection i).reach j).reachRedirection j =
      (n.reach j).reachRedirection j := by
  simp [reach, reachRedirection, Range.extendTo, mapLast_mapLast, Function.comp_def]

theorem Node.closeBlock_openBlock (n : Node) (i j : Nat) :
    (n.openBlock i).closeBlock j = { n with blocks := n.blocks ++ [⟨i, j⟩] } := by
  simp [openBlock, closeBlock, mapLast_append_singleton, Range.single, Range.extendTo]

namespace Tree

-- Take tokens in one after the other, up to the first that is refused.
def insertAll (t : Tree) (tokens : List Token) : Except LexError Tree :=
  tokens.foldlM insert t

theorem insertAll_cons {t u : Tree} {token : Token} {tokens : List Token}
    (h : t.insert token = .ok u) : t.insertAll (token :: tokens) = u.insertAll tokens := by
  rw [insertAll, List.foldlM_cons, h]
  rfl

theorem insertAll_append {t u : Tree} {a b : List Token} (h : t.insertAll a = .ok u) :
    t.insertAll (a ++ b) = u.insertAll b := by
  rw [insertAll] at h
  rw [insertAll, List.foldlM_append, h]
  rfl

variable {t : Tree} {token : Token}

theorem insert_of_isPiece (h : token.kind.isPiece = true) :
    t.insert token =
      match t.head.target? with
      | none => .error ⟨.emptyCommandHead, token.span⟩
      | some target =>
        if (t.nodes[target]?.map (·.blocks.isEmpty)).getD true then
          .ok (((t.update target (·.addArg t.tokens.size)).reach t.tokens.size).push token)
        else .error ⟨.argumentAfterBlock, token.span⟩ := by
  unfold insert
  cases hk : token.kind <;> first | rfl | simp [hk, TokenKind.isPiece, TokenKind.isArgument] at h

theorem insert_of_isRedirection (h : token.kind.isRedirection = true) :
    t.insert token =
      match t.head.owner? with
      | none => .error ⟨.emptyCommandHead, token.span⟩
      | some owner =>
        let opened := { t with nodes := t.nodes.push (.opened t.tokens.size) }
        let owned := opened.update owner fun n =>
          (n.reach t.tokens.size).addRedirection t.tokens.size
        .ok { owned.push { token with node := some t.nodes.size } with
          head := .redirection owner t.nodes.size } := by
  unfold insert
  cases hk : token.kind <;> first | rfl | simp [hk, TokenKind.isRedirection] at h

end Tree

namespace Derivation

-- Where arguments and blocks go while a tree is built: into the node between the nodes before
-- it and those after.  If it is a redirection, its command stands further ahead.
structure Spot where
  before : List Node
  owner : Option (Node × List Node) := none

namespace Spot

-- All nodes, when the open ones reach up to the token `last`.
def nodes (s : Spot) (n : Node) (last : Nat) (after : List Node) : List Node :=
  match s.owner with
  | none => s.before ++ n.reach last :: after
  | some (o, between) =>
    s.before ++ (o.reach last).reachRedirection last :: (between ++ n.reach last :: after)

def head (s : Spot) : Head :=
  match s.owner with
  | none => .command s.before.length
  | some (_, between) => .redirection s.before.length (s.before.length + 1 + between.length)

def size (s : Spot) (after : List Node) : Nat :=
  match s.owner with
  | none => s.before.length + 1 + after.length
  | some (_, between) => s.before.length + 1 + (between.length + 1 + after.length)

def tree (s : Spot) (tokens : List Token) (n : Node) (after : List Node)
    (enclosing : List Enclosing) : Tree :=
  ⟨tokens.toArray, (s.nodes n (tokens.length - 1) after).toArray, s.head, enclosing⟩

variable {s : Spot} {n : Node} {last next : Nat} {after : List Node} {tokens : List Token}
  {enclosing : List Enclosing} {token : Token}

theorem length_nodes : (s.nodes n last after).length = s.size after := by
  unfold nodes size
  cases s.owner with
  | none => simp; omega
  | some o => simp; omega

-- What a token that belongs to the node does: it changes the node, and all that is open reaches
-- up to the token.
theorem reach_update (s : Spot) (n : Node) (last next : Nat) (after : List Node)
    (enclosing : List Enclosing) (f : Node → Node) (hf : ∀ n i, f (Node.reach n i) = (f n).reach i)
    (kept : Array Token) :
    ∃ id, s.head.target? = some id ∧ (s.nodes n last after)[id]? = some (n.reach last) ∧
      ((⟨kept, (s.nodes n last after).toArray, s.head, enclosing⟩ : Tree).update id f).reach next =
        ⟨kept, (s.nodes (f n) next after).toArray, s.head, enclosing⟩ := by
  unfold nodes head
  cases s.owner with
  | none =>
    refine ⟨s.before.length, rfl, by simp, ?_⟩
    simp [Tree.update, Tree.reach, hf]
  | some o =>
    obtain ⟨o, between⟩ := o
    refine ⟨s.before.length + 1 + between.length, rfl, ?_, ?_⟩
    · have hl : s.before.length + 1 + between.length - s.before.length = between.length + 1 := by
        omega
      dsimp only
      rw [List.getElem?_append_right (by omega), hl]
      simp
    · simp [Tree.update, Tree.reach, hf, modify_append_cons_append_cons,
        Node.reachRedirection_reach]

theorem insert_arg (hk : token.kind.isPiece = true) (hn : n.blocks = []) :
    (s.tree tokens n after enclosing).insert token =
      .ok (s.tree (tokens ++ [token]) (n.addArg tokens.length) after enclosing) := by
  have hf : ∀ m i, Node.addArg (Node.reach m i) tokens.length =
      (m.addArg tokens.length).reach i := by
    intro m i
    cases hm : m.args <;> simp [Node.addArg, Node.reach, hm]
  obtain ⟨id, ht, hid, hu⟩ := s.reach_update n (tokens.length - 1) tokens.length
    after enclosing (·.addArg tokens.length) hf tokens.toArray
  have hb : ((s.nodes n (tokens.length - 1) after).toArray[id]?.map (·.blocks.isEmpty)).getD true =
      true := by
    simp [hid, Node.reach, hn]
  rw [Tree.insert_of_isPiece hk]
  simp only [tree, ht, hb, if_true, List.size_toArray, hu]
  simp [Tree.push]

theorem insert_blockBegin (hk : token.kind = .blockBegin) :
    (s.tree tokens n after enclosing).insert token =
      .ok ⟨(tokens ++ [token]).toArray,
        (s.nodes (n.openBlock tokens.length) tokens.length after).toArray, .none,
        ⟨tokens.length, s.head⟩ :: enclosing⟩ := by
  obtain ⟨id, ht, hid, hu⟩ := s.reach_update n (tokens.length - 1) tokens.length
    after enclosing (·.openBlock tokens.length) (fun _ _ => rfl) tokens.toArray
  simp only [Tree.insert, hk, tree, ht, List.size_toArray, hu]
  simp [Tree.push]

theorem insert_blockEnd {opened : Nat} {head : Head} (hk : token.kind = .blockEnd) :
    (⟨tokens.toArray, (s.nodes n last after).toArray, head, ⟨opened, s.head⟩ :: enclosing⟩ :
      Tree).insert token =
      .ok (s.tree (tokens ++ [token]) (n.closeBlock tokens.length) after enclosing) := by
  obtain ⟨id, ht, hid, hu⟩ := s.reach_update n last tokens.length after enclosing
    (·.closeBlock tokens.length) (fun _ _ => rfl) tokens.toArray
  simp only [Tree.insert, hk, ht, List.size_toArray, hu]
  simp [Tree.push, tree]

end Spot

theorem insert_separator {t : Tree} {token : Token} (hk : token.kind = .separator) :
    t.insert token = .ok { t with tokens := t.tokens.push token, head := .none } := by
  simp [Tree.insert, hk, Tree.push]

-- A command starts behind all nodes there are.
theorem insert_command {tokens : List Token} {nodes : List Node} {head : Head}
    {enclosing : List Enclosing} {token : Token} (hk : token.kind = .command) :
    (⟨tokens.toArray, nodes.toArray, head, enclosing⟩ : Tree).insert token =
      .ok ((Spot.mk nodes none).tree (tokens ++ [{ token with node := some nodes.length }])
        (.opened tokens.length) [] enclosing) := by
  simp [Tree.insert, hk, Spot.tree, Spot.nodes, Spot.head, Node.opened, Node.reach, Range.single,
    Range.extendTo]

-- A redirection starts behind all nodes there are, and its command is the one at the head.
theorem insert_redirection {tokens : List Token} {before rest : List Node} {o : Node} {head : Head}
    {enclosing : List Enclosing} {token : Token} (hk : token.kind.isRedirection = true)
    (ho : head.owner? = some before.length) :
    (⟨tokens.toArray, (before ++ o :: rest).toArray, head, enclosing⟩ : Tree).insert token =
      .ok ((Spot.mk before (some (o.addRedirection tokens.length, rest))).tree
        (tokens ++ [{ token with node := some (before.length + 1 + rest.length) }])
        (.opened tokens.length) [] enclosing) := by
  rw [Tree.insert_of_isRedirection hk]
  simp [ho, Spot.tree, Spot.nodes, Spot.head, Node.opened, Node.reach, Range.single,
    Range.extendTo, Tree.update, Tree.push, Node.addRedirection, Node.reachRedirection,
    mapLast_append_singleton]
  omega

theorem insertAll_args_of_some (s : Spot) (n : Node) (first : Nat) (after : List Node)
    (tokens : List Token) (enclosing : List Enclosing) (args : List Arg) (hb : n.blocks = [])
    (ha : n.args = some ⟨first, tokens.length - 1⟩) :
    (s.tree tokens n after enclosing).insertAll (argTokens args) =
      .ok (s.tree (tokens ++ argTokens args)
        { n with args := some ⟨first, tokens.length + args.length - 1⟩ } after enclosing) := by
  induction args generalizing tokens n with
  | nil =>
    have hn : { n with args := some ⟨first, tokens.length - 1⟩ } = n := by rw [← ha]
    simp [argTokens, Tree.insertAll, hn, pure, Except.pure]
  | cons arg rest ih =>
    have hn : n.addArg tokens.length = { n with args := some ⟨first, tokens.length⟩ } := by
      simp [Node.addArg, ha, Range.extendTo]
    have hl : tokens.length + 1 + rest.length - 1 = tokens.length + (rest.length + 1) - 1 := by
      omega
    have hr := ih { n with args := some ⟨first, tokens.length⟩ } (tokens ++ [arg.1]) hb (by simp)
    rw [argTokens] at hr
    rw [argTokens, List.map_cons, Tree.insertAll_cons (Spot.insert_arg arg.2 hb), hn]
    simpa [hl] using hr

theorem insertAll_args (s : Spot) (n : Node) (after : List Node) (tokens : List Token)
    (enclosing : List Enclosing) (args : List Arg) (hb : n.blocks = []) (ha : n.args = none) :
    (s.tree tokens n after enclosing).insertAll (argTokens args) =
      .ok (s.tree (tokens ++ argTokens args)
        { n with args := rangeOf tokens.length args.length } after enclosing) := by
  cases args with
  | nil =>
    have hn : { n with args := none } = n := by rw [← ha]
    simp [argTokens, Tree.insertAll, rangeOf, hn, pure, Except.pure]
  | cons arg rest =>
    have hn : n.addArg tokens.length = { n with args := some ⟨tokens.length, tokens.length⟩ } := by
      simp [Node.addArg, ha, Range.single]
    have hl : tokens.length + 1 + rest.length - 1 = tokens.length + (rest.length + 1) - 1 := by
      omega
    have hr := insertAll_args_of_some s { n with args := some ⟨tokens.length, tokens.length⟩ }
      tokens.length after (tokens ++ [arg.1]) enclosing rest hb (by simp)
    rw [argTokens] at hr
    rw [argTokens, List.map_cons, Tree.insertAll_cons (Spot.insert_arg arg.2 hb), hn]
    simpa [hl, rangeOf] using hr

theorem Spot.nodes_append (s : Spot) (n : Node) (last : Nat) (after more : List Node) :
    s.nodes n last after ++ more = s.nodes n last (after ++ more) := by
  unfold nodes
  cases s.owner with
  | none => simp
  | some o => simp

theorem Spot.size_append (s : Spot) (after more : List Node) :
    s.size (after ++ more) = s.size after + more.length := by
  unfold size
  cases s.owner with
  | none => simp; omega
  | some o => simp; omega

theorem numbered_block (id : Nat) {opening closing : Token} (opens : opening.kind = .blockBegin)
    (closes : closing.kind = .blockEnd) (tokens : List Token) :
    numbered id (opening :: (tokens ++ [closing])) =
      opening :: (numbered id tokens ++ [closing]) := by
  have ho : opening.kind.opensNode = false := by rw [opens]; rfl
  have hc : closing.kind.opensNode = false := by rw [closes]; rfl
  rw [numbered, if_neg (by simp [ho]), numbered_append, numbered, if_neg (by simp [hc])]
  rfl

-- A tree by the lists of its tokens and nodes.
abbrev treeOf (tokens : List Token) (nodes : List Node) (head : Head)
    (enclosing : List Enclosing) : Tree :=
  ⟨tokens.toArray, nodes.toArray, head, enclosing⟩

mutual

-- Taking in the tokens of a part appends its nodes and leaves everything else as it was, except
-- for the node that the part belongs to.
theorem Item.insertAll_tokens (item : Item) (tokens : List Token) (nodes : List Node)
    (head : Head) (enclosing : List Enclosing) :
    ∃ head', (treeOf tokens nodes head enclosing).insertAll item.tokens =
      .ok (treeOf (tokens ++ numbered nodes.length item.tokens)
        (nodes ++ (item.parts tokens.length).map (·.1)) head' enclosing) := by
  match item with
  | .separator token kind =>
    have ht : token.kind.opensNode = false := by rw [kind]; rfl
    refine ⟨.none, ?_⟩
    rw [Item.tokens, Tree.insertAll_cons (insert_separator kind)]
    simp [numbered, ht, Item.parts, Tree.insertAll, pure, Except.pure]
  | .command name kind args blocks redirections =>
    let s : Spot := ⟨nodes, none⟩
    let named := tokens ++ [{ name with node := some nodes.length }]
    have ha := insertAll_args s (.opened tokens.length) [] named enclosing args rfl rfl
    have hb := insertAll_blocksTokens blocks s
      { Node.opened tokens.length with args := rangeOf named.length args.length } []
      (named ++ argTokens args) enclosing
    obtain ⟨head', hr⟩ := insertAll_redirectedTokens redirections
      (named ++ argTokens args ++ numbered (s.size []) (blocksTokens blocks)) nodes
      (blocksNodes (named ++ argTokens args).length blocks)
      (Node.reach
        { Node.opened tokens.length with
          args := rangeOf named.length args.length
          blocks := ranges (named ++ argTokens args).length (blocks.map (·.tokens.length)) }
        ((named ++ argTokens args ++ numbered (s.size []) (blocksTokens blocks)).length - 1))
      s.head enclosing rfl rfl
    refine ⟨head', ?_⟩
    rw [Item.tokens, Tree.insertAll_cons (insert_command kind),
      Tree.insertAll_append ((Tree.insertAll_append ha).trans hb)]
    refine Eq.trans hr ?_
    have hn : name.kind.opensNode = true := by rw [kind]; rfl
    have hargs : tokens.length + (args.length + 1) = tokens.length + 1 + args.length := by omega
    have hblocks : tokens.length + (args.length + (blocksTokens blocks).length + 1) =
        tokens.length + 1 + args.length + (blocksTokens blocks).length := by omega
    have hcount := countP_blocksTokens (tokens.length + 1 + args.length) blocks
    simp [s, named, numbered, hn, numbered_append, Item.parts, commandNode, Node.opened,
      Node.reach, Range.extendTo, Range.single, Spot.size, blocksNodes, redirectedNodes, hargs,
      hblocks, hcount]

theorem insertAll_itemsTokens (items : List Item) (tokens : List Token) (nodes : List Node)
    (head : Head) (enclosing : List Enclosing) :
    ∃ head', (treeOf tokens nodes head enclosing).insertAll (itemsTokens items) =
      .ok (treeOf (tokens ++ numbered nodes.length (itemsTokens items))
        (nodes ++ itemsNodes tokens.length items) head' enclosing) := by
  match items with
  | [] => exact ⟨head, by simp [itemsTokens, numbered, itemsNodes, itemsParts, Tree.insertAll,
      pure, Except.pure]⟩
  | item :: rest =>
    obtain ⟨head', hi⟩ := item.insertAll_tokens tokens nodes head enclosing
    obtain ⟨head'', hr⟩ := insertAll_itemsTokens rest
      (tokens ++ numbered nodes.length item.tokens)
      (nodes ++ (item.parts tokens.length).map (·.1)) head' enclosing
    refine ⟨head'', ?_⟩
    rw [itemsTokens, Tree.insertAll_append hi, hr, numbered_append,
      item.countP_tokens tokens.length]
    simp [itemsNodes, itemsParts]

theorem Block.insertAll_tokens (block : Block) (s : Spot) (n : Node) (after : List Node)
    (tokens : List Token) (enclosing : List Enclosing) :
    (s.tree tokens n after enclosing).insertAll block.tokens =
      .ok (s.tree (tokens ++ numbered (s.size after) block.tokens)
        { n with blocks := n.blocks ++ [⟨tokens.length, tokens.length + block.tokens.length - 1⟩] }
        (after ++ (block.parts tokens.length).map (·.1)) enclosing) := by
  match block with
  | .mk opening opens body closing closes =>
    obtain ⟨head, hb⟩ := insertAll_itemsTokens body (tokens ++ [opening])
      (s.nodes (n.openBlock tokens.length) tokens.length after) .none
      (⟨tokens.length, s.head⟩ :: enclosing)
    rw [Block.tokens, Tree.insertAll_cons (Spot.insert_blockBegin opens), Tree.insertAll_append hb,
      Spot.nodes_append, Tree.insertAll_cons (Spot.insert_blockEnd closes),
      Node.closeBlock_openBlock, numbered_block _ opens closes]
    simp [Block.parts, itemsNodes, Spot.length_nodes, Tree.insertAll, pure, Except.pure]

theorem insertAll_blocksTokens (blocks : List Block) (s : Spot) (n : Node) (after : List Node)
    (tokens : List Token) (enclosing : List Enclosing) :
    (s.tree tokens n after enclosing).insertAll (blocksTokens blocks) =
      .ok (s.tree (tokens ++ numbered (s.size after) (blocksTokens blocks))
        { n with blocks := n.blocks ++ ranges tokens.length (blocks.map (·.tokens.length)) }
        (after ++ blocksNodes tokens.length blocks) enclosing) := by
  match blocks with
  | [] => simp [blocksTokens, numbered, blocksNodes, blocksParts, ranges, Tree.insertAll, pure,
      Except.pure]
  | block :: rest =>
    have hb := block.insertAll_tokens s n after tokens enclosing
    have hr := insertAll_blocksTokens rest s
      { n with blocks := n.blocks ++ [⟨tokens.length, tokens.length + block.tokens.length - 1⟩] }
      (after ++ (block.parts tokens.length).map (·.1))
      (tokens ++ numbered (s.size after) block.tokens) enclosing
    rw [blocksTokens, Tree.insertAll_append hb, hr, numbered_append,
      block.countP_tokens tokens.length, Spot.size_append]
    simp [blocksNodes, blocksParts, ranges]

theorem Redirected.insertAll_tokens (redirected : Redirected) (tokens : List Token)
    (before rest : List Node) (o : Node) (head : Head) (enclosing : List Enclosing)
    (ho : head.owner? = some before.length) :
    ∃ head', head'.owner? = some before.length ∧
      (treeOf tokens (before ++ o :: rest) head enclosing).insertAll redirected.tokens =
        .ok (treeOf
          (tokens ++ numbered (before.length + 1 + rest.length) redirected.tokens)
          (before ++
            { o with
              extent := ⟨o.extent.first, tokens.length + redirected.tokens.length - 1⟩
              redirections := o.redirections ++
                [⟨tokens.length, tokens.length + redirected.tokens.length - 1⟩] } ::
            (rest ++ (redirected.parts tokens.length).map (·.1)))
          head' enclosing) := by
  match redirected with
  | .mk name kind args blocks =>
    let s : Spot := ⟨before, some (o.addRedirection tokens.length, rest)⟩
    let named := tokens ++ [{ name with node := some (before.length + 1 + rest.length) }]
    have ha := insertAll_args s (.opened tokens.length) [] named enclosing args rfl rfl
    have hb := insertAll_blocksTokens blocks s
      { Node.opened tokens.length with args := rangeOf named.length args.length } []
      (named ++ argTokens args) enclosing
    refine ⟨s.head, rfl, ?_⟩
    rw [Redirected.tokens, Tree.insertAll_cons (insert_redirection kind ho)]
    refine ((Tree.insertAll_append ha).trans hb).trans ?_
    have hn := opensNode_of_isRedirection kind
    have hid : before.length + 1 + (rest.length + 1) = before.length + 1 + rest.length + 1 := rfl
    have hargs : tokens.length + (args.length + 1) = tokens.length + 1 + args.length := by omega
    have hlast : tokens.length + (args.length + (blocksTokens blocks).length) =
        tokens.length + 1 + args.length + (blocksTokens blocks).length - 1 := by omega
    simp [s, named, numbered, hn, numbered_append, Redirected.parts, redirectedNode, commandNode,
      Node.opened, Node.reach, Range.extendTo, Range.single, Spot.size, Spot.tree, Spot.nodes,
      blocksNodes, Node.addRedirection, Node.reachRedirection, mapLast_append_singleton,
      redirectedTokens, ranges, hid, hargs, hlast]

theorem insertAll_redirectedTokens (list : List Redirected) (tokens : List Token)
    (before rest : List Node) (o : Node) (head : Head) (enclosing : List Enclosing)
    (ho : head.owner? = some before.length) (hl : o.extent.last = tokens.length - 1) :
    ∃ head', (treeOf tokens (before ++ o :: rest) head enclosing).insertAll
        (redirectedTokens list) =
      .ok (treeOf (tokens ++ numbered (before.length + 1 + rest.length) (redirectedTokens list))
        (before ++
          { o with
            extent := ⟨o.extent.first, tokens.length + (redirectedTokens list).length - 1⟩
            redirections := o.redirections ++
              ranges tokens.length (list.map (·.tokens.length)) } ::
          (rest ++ redirectedNodes tokens.length list))
        head' enclosing) := by
  match list with
  | [] =>
    refine ⟨head, ?_⟩
    simp [redirectedTokens, numbered, redirectedNodes, redirectedParts, ranges, Tree.insertAll,
      pure, Except.pure, ← hl]
  | redirected :: list =>
    obtain ⟨head', ho', hi⟩ := redirected.insertAll_tokens tokens before rest o head enclosing ho
    obtain ⟨head'', hr⟩ := insertAll_redirectedTokens list
      (tokens ++ numbered (before.length + 1 + rest.length) redirected.tokens) before
      (rest ++ (redirected.parts tokens.length).map (·.1))
      { o with
        extent := ⟨o.extent.first, tokens.length + redirected.tokens.length - 1⟩
        redirections := o.redirections ++
          [⟨tokens.length, tokens.length + redirected.tokens.length - 1⟩] }
      head' enclosing ho' (by simp)
    refine ⟨head'', ?_⟩
    rw [redirectedTokens, Tree.insertAll_append hi, hr, numbered_append,
      redirected.countP_tokens tokens.length]
    simp [redirectedNodes, redirectedParts, ranges, Nat.add_assoc]

end

end Derivation

end CommandShell.Script
