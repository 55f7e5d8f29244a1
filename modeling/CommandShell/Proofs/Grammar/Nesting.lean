import CommandShell.Proofs.Grammar.Extents

namespace CommandShell.Script

namespace Derivation

variable {c : Command} {first index : Nat} {tokens : List Token} {parts : List (Node × List Token)}

-- A command as it stands in a part of a script whose first token has the index `first`: its own
-- tokens and nodes are in one piece, and behind its tokens there is no argument.
inductive Occurs (c : Command) (first : Nat) (tokens : List Token)
    (parts : List (Node × List Token)) : Prop where
  | intro (before after : List Token) (earlier later : List (Node × List Token)) (item : Item)
      (outline : item.outline (first + before.length) = [c])
      (tokens : tokens = before ++ (item.tokens ++ after))
      (parts : parts = earlier ++ (item.parts (first + before.length) ++ later))
      (counted : before.countP (·.kind.opensNode) = earlier.length)
      (ends : ∀ t ∈ after.head?, t.kind.isPiece = false)

theorem Occurs.append_left (h : Occurs c index tokens parts) (first : Nat) (front : List Token)
    (more : List (Node × List Token)) (hi : index = first + front.length)
    (hc : front.countP (·.kind.opensNode) = more.length) :
    Occurs c first (front ++ tokens) (more ++ parts) := by
  obtain ⟨before, after, earlier, later, item, outline, rfl, rfl, counted, ends⟩ := h
  have hindex : first + (front ++ before).length = index + before.length := by
    rw [List.length_append]
    omega
  refine .intro (front ++ before) after (more ++ earlier) later item ?_ ?_ ?_ ?_ ends
  · rw [hindex, outline]
  · rw [List.append_assoc]
  · rw [hindex, List.append_assoc]
  · rw [List.countP_append, List.length_append, hc, counted]

theorem Occurs.append_right (h : Occurs c first tokens parts) (back : List Token)
    (more : List (Node × List Token)) (hb : ∀ t ∈ back.head?, t.kind.isPiece = false) :
    Occurs c first (tokens ++ back) (parts ++ more) := by
  obtain ⟨before, after, earlier, later, item, outline, rfl, rfl, counted, ends⟩ := h
  refine .intro before (after ++ back) earlier (later ++ more) item outline (by simp) (by simp)
    counted ?_
  intro t ht
  cases after with
  | nil => exact hb t ht
  | cons u rest => exact ends t ht

theorem Item.head_tokens (item : Item) : ∃ t rest, item.tokens = t :: rest ∧
    t.kind.isPiece = false := by
  cases item with
  | separator token kind => exact ⟨token, [], rfl, by rw [kind]; rfl⟩
  | command name kind args blocks list => exact ⟨name, _, rfl, by rw [kind]; rfl⟩

-- What follows an item, the arguments of a node, a block and a redirection is no argument.
theorem head_itemsTokens (items : List Item) :
    ∀ t ∈ (itemsTokens items).head?, t.kind.isPiece = false := by
  cases items with
  | nil => exact nofun
  | cons item rest =>
    obtain ⟨t, more, ht, hk⟩ := item.head_tokens
    intro u hu
    rw [itemsTokens, ht] at hu
    obtain rfl := Option.some.inj hu
    exact hk

theorem head_blocksTokens (blocks : List Block) :
    ∀ t ∈ (blocksTokens blocks).head?, t.kind.isPiece = false := by
  cases blocks with
  | nil => exact nofun
  | cons block rest =>
    obtain ⟨opening, opens, body, closing, closes⟩ := block
    intro u hu
    obtain rfl := Option.some.inj hu
    rw [opens]
    rfl

theorem head_redirectedTokens (list : List Redirected) :
    ∀ t ∈ (redirectedTokens list).head?, t.kind.isPiece = false := by
  cases list with
  | nil => exact nofun
  | cons redirected rest =>
    obtain ⟨name, kind, args, blocks⟩ := redirected
    intro u hu
    obtain rfl := Option.some.inj hu
    cases hk : name.kind <;> rw [hk] at kind <;> first | rfl | cases kind

mutual

-- Every command on the way through a part occurs in it.
theorem Item.occurs_of_visited (depth first : Nat) {d : Nat} {c : Command} : (item : Item) →
    Visit.command d c ∈ commandVisits depth (item.outline first) →
    Occurs c first item.tokens (item.parts first)
  | .separator _ _, h => nomatch h
  | .command name kind args blocks list, h => by
    have hn : name.kind.opensNode = true := by rw [kind]; rfl
    rw [Item.outline, commandVisits, commandVisits, List.append_nil, Command.visits, List.mem_cons,
      List.mem_append] at h
    rcases h with h | h | h
    · cases h
      exact .intro [] [] [] [] (.command name kind args blocks list) rfl (by simp) (by simp) rfl
        nofun
    · have hb := (occurs_of_blockVisits depth _ blocks h).append_right (redirectedTokens list)
        (redirectedParts (first + 1 + args.length + (blocksTokens blocks).length) list)
        (head_redirectedTokens list)
      have hc := hb.append_left first (name :: argTokens args)
        [(commandNode first args blocks list, argTokens args)] (by simp; omega) (by simp [hn])
      simpa [Item.tokens, Item.parts] using hc
    · have hr := occurs_of_redirectionVisits (depth + 1) _ list h
      have hc := hr.append_left first (name :: (argTokens args ++ blocksTokens blocks))
        ((commandNode first args blocks list, argTokens args) ::
          blocksParts (first + 1 + args.length) blocks) (by simp; omega)
        (by simp [hn, countP_blocksTokens (first + 1 + args.length)])
      simpa [Item.tokens, Item.parts] using hc

theorem Redirected.occurs_of_visited (depth first : Nat) {d : Nat} {c : Command} :
    (redirected : Redirected) →
    Visit.command d c ∈ (redirected.outline first).visits depth →
    Occurs c first redirected.tokens (redirected.parts first)
  | .mk name kind args blocks, h => by
    have hn := opensNode_of_isRedirection kind
    rw [Redirected.outline, Redirection.visits, List.mem_cons] at h
    rcases h with h | h
    · cases h
    · have hb := occurs_of_blockVisits depth _ blocks h
      have hc := hb.append_left first (name :: argTokens args)
        [(redirectedNode first args blocks, argTokens args)] (by simp; omega) (by simp [hn])
      simpa [Redirected.tokens, Redirected.parts] using hc

theorem Block.occurs_of_visited (depth first : Nat) {d : Nat} {c : Command} :
    (block : Block) →
    Visit.command d c ∈ commandVisits depth (block.outline first) →
    Occurs c first block.tokens (block.parts first)
  | .mk opening opens body closing closes, h => by
    have ho : opening.kind.opensNode = false := by rw [opens]; rfl
    have hclosing : ∀ t ∈ [closing].head?, t.kind.isPiece = false := by
      intro t ht
      obtain rfl := Option.some.inj ht
      rw [closes]
      rfl
    have hb := (occurs_of_commandVisits depth (first + 1) body h).append_right [closing] [] hclosing
    have hc := hb.append_left first [opening] [] rfl (by simp [ho])
    simpa [Block.tokens, Block.parts] using hc

theorem occurs_of_commandVisits (depth first : Nat) {d : Nat} {c : Command} :
    (items : List Item) →
    Visit.command d c ∈ commandVisits depth (itemsOutline first items) →
    Occurs c first (itemsTokens items) (itemsParts first items)
  | [], h => nomatch h
  | item :: rest, h => by
    rw [itemsOutline, commandVisits_append, List.mem_append] at h
    rcases h with h | h
    · exact (item.occurs_of_visited depth first h).append_right _ _ (head_itemsTokens rest)
    · exact (occurs_of_commandVisits depth _ rest h).append_left first _ _ rfl
        (item.countP_tokens first)

theorem occurs_of_blockVisits (depth first : Nat) {d : Nat} {c : Command} :
    (blocks : List Block) →
    Visit.command d c ∈ blockVisits depth (blocksOutline first blocks) →
    Occurs c first (blocksTokens blocks) (blocksParts first blocks)
  | [], h => nomatch h
  | block :: rest, h => by
    rw [blocksOutline, blockVisits, List.mem_cons, List.mem_append] at h
    rcases h with h | h | h
    · cases h
    · exact (block.occurs_of_visited (depth + 1) first h).append_right _ _ (head_blocksTokens rest)
    · exact (occurs_of_blockVisits depth _ rest h).append_left first _ _ rfl
        (block.countP_tokens first)

theorem occurs_of_redirectionVisits (depth first : Nat) {d : Nat} {c : Command} :
    (list : List Redirected) →
    Visit.command d c ∈ redirectionVisits depth (redirectedOutline first list) →
    Occurs c first (redirectedTokens list) (redirectedParts first list)
  | [], h => nomatch h
  | redirected :: rest, h => by
    rw [redirectedOutline, redirectionVisits, List.mem_append] at h
    rcases h with h | h
    · exact (redirected.occurs_of_visited depth first h).append_right _ _
        (head_redirectedTokens rest)
    · exact (occurs_of_redirectionVisits depth _ rest h).append_left first _ _ rfl
        (redirected.countP_tokens first)

end

theorem mem_openings {i : Nat} (h : i ∈ openings first tokens) :
    first ≤ i ∧ i < first + tokens.length := by
  induction tokens generalizing first with
  | nil => cases h
  | cons t rest ih =>
    have hrest (hi : i ∈ openings (first + 1) rest) :
        first ≤ i ∧ i < first + (rest.length + 1) := by
      have hbounds := ih hi
      omega
    rw [openings_cons] at h
    split at h
    · rcases List.mem_cons.1 h with rfl | h
      · exact ⟨Nat.le_refl _, by simp⟩
      · exact hrest h
    · exact hrest h

-- The command of an item has the first of its nodes, which reaches from its name up to its last
-- token.
theorem Item.exists_of_outline {item : Item} (h : item.outline first = [c]) :
    (∃ name rest, item.tokens = name :: rest ∧ name.kind = .command) ∧
      (∃ more, (item.parts first).map (·.1) = c.node :: more) ∧
      c.node.extent = ⟨first, first + item.tokens.length - 1⟩ := by
  cases item with
  | separator => cases h
  | command name kind args blocks list =>
    obtain rfl := (List.cons.inj h).1
    refine ⟨⟨name, _, rfl, kind⟩, ⟨_, rfl⟩, ?_⟩
    simp only [Command.node, commandNode, Item.tokens, Range.mk.injEq, true_and,
      List.length_cons, List.length_append, length_argTokens]
    omega

-- A node with the index of its first token among some openings.
theorem mem_openings_of_map {i : Nat} {node : Node}
    (h : openings i tokens = parts.map (·.1.extent.first)) (hn : node ∈ parts.map (·.1)) :
    i ≤ node.extent.first ∧ node.extent.first < i + tokens.length := by
  obtain ⟨part, hp, rfl⟩ := List.mem_map.1 hn
  refine mem_openings ?_
  rw [h]
  exact List.mem_map_of_mem hp

end Derivation

theorem filter_zipIdx_between {α : Type} {xs ys zs : List α} (test : α → Bool)
    (hx : ∀ x ∈ xs, test x = false) (hy : ∀ y ∈ ys, test y = true)
    (hz : ∀ z ∈ zs, test z = false) :
    ((xs ++ (ys ++ zs)).zipIdx.filter fun p => test p.1) = ys.zipIdx xs.length := by
  have hbefore : (xs.zipIdx.filter fun p => test p.1) = [] := by
    refine List.filter_eq_nil_iff.2 fun p hp => ?_
    simp [hx p.1 (List.fst_mem_of_mem_zipIdx hp)]
  have hbetween : ((ys.zipIdx xs.length).filter fun p => test p.1) = ys.zipIdx xs.length :=
    List.filter_eq_self.2 fun p hp => hy p.1 (List.fst_mem_of_mem_zipIdx hp)
  have hafter : ((zs.zipIdx (xs.length + ys.length)).filter fun p => test p.1) = [] := by
    refine List.filter_eq_nil_iff.2 fun p hp => ?_
    simp [hz p.1 (List.fst_mem_of_mem_zipIdx hp)]
  rw [List.zipIdx_append, List.zipIdx_append, List.filter_append, List.filter_append, hbefore,
    Nat.zero_add, hbetween, hafter, List.nil_append, List.append_nil]

open Script.Derivation

variable {s : Script} {c : Command} {depth : Nat}

-- How a command stands in a script as a whole: the nodes of its range are numbered one after the
-- other, and so are they on its tokens.
structure Occurrence (s : Script) (c : Command) (before after : List Token)
    (earlier later : List Node) (item : Item) : Prop where
  outline : item.outline before.length = [c]
  tokens : s.tokens.toList = before ++ (item.tokens ++ after)
  nodes : s.nodes.toList = earlier ++ ((item.parts before.length).map (·.1) ++ later)
  numbered : numbered earlier.length item.tokens = item.tokens
  within : (s.nodes.toList.zipIdx.filter fun p => c.node.extent.contains p.1.extent.first) =
    ((item.parts before.length).map (·.1)).zipIdx earlier.length
  ends : ∀ t ∈ after.head?, t.kind.isPiece = false

-- The tokens of a script that was read are numbered as they are.
theorem Built.numbered_eq (hs : s.Built) : numbered 0 s.tokens.toList = s.tokens.toList := by
  obtain ⟨items, hi⟩ := hs.exists_items
  obtain ⟨t, ht, -, hts⟩ := hs
  obtain ⟨head, hitems⟩ := insertAll_of_items items
  rw [hi] at hitems
  have htree := Except.ok.inj (ht.symm.trans hitems)
  have htokens := congrArg (fun s : Script => s.tokens.toList) hts
  rw [htree] at htokens
  exact htokens

theorem Built.exists_occurrence (hs : s.Built) (hc : Visit.command depth c ∈ s.visits) :
    ∃ before after earlier later item, Occurrence s c before after earlier later item := by
  obtain ⟨items, hi⟩ := hs.exists_items
  obtain ⟨hcommands, hnodes⟩ := hs.commands_eq hi
  rw [visits, hcommands] at hc
  obtain ⟨before, after, earlier, later, item, outline, tokens, parts, counted, ends⟩ :=
    occurs_of_commandVisits 0 0 items hc
  rw [Nat.zero_add] at outline parts
  have hbefore : (earlier.map (·.1)).length = before.countP (·.kind.opensNode) := by
    rw [List.length_map, counted]
  have hall : s.nodes.toList = earlier.map (·.1) ++
      ((item.parts before.length).map (·.1) ++ later.map (·.1)) := by
    rw [hnodes, itemsNodes, parts, List.map_append, List.map_append]
  -- In front of the item there are as many nodes as its own are numbered from.
  have hnumbered := hs.numbered_eq
  rw [← hi, tokens, numbered_append, numbered_append, Nat.zero_add, ← hbefore] at hnumbered
  have hitem := List.append_inj_right hnumbered (length_numbered 0 before)
  -- Each node starts at a token of its own, so those of the item start within its tokens.
  have hopenings := openings_itemsTokens 0 items
  rw [tokens, parts, openings_append, openings_append, List.map_append, List.map_append,
    Nat.zero_add, ← item.openings_tokens] at hopenings
  have hlength : (openings 0 before).length = (earlier.map (·.1.extent.first)).length := by
    rw [length_openings, List.length_map, counted]
  have hearlier := List.append_inj_left hopenings hlength
  have hlater := List.append_cancel_left (List.append_inj_right hopenings hlength)
  obtain ⟨⟨name, rest, hname, -⟩, -, hextent⟩ := Item.exists_of_outline outline
  have hpos : 0 < item.tokens.length := by simp [hname]
  refine ⟨before, after, earlier.map (·.1), later.map (·.1), item, outline, ?_, hall, ?_, ?_, ends⟩
  · rw [← hi, tokens]
  · exact List.append_inj_left hitem (length_numbered _ _)
  · rw [hall]
    refine filter_zipIdx_between (fun n : Node => c.node.extent.contains n.extent.first)
      (fun n hn => ?_) (fun n hn => ?_) (fun n hn => ?_)
    · have hbounds := mem_openings_of_map hearlier hn
      simp [Range.contains, hextent]
      omega
    · have hbounds := mem_openings_of_map (item.openings_tokens before.length) hn
      simp [Range.contains, hextent]
      omega
    · have hbounds := mem_openings_of_map hlater hn
      simp [Range.contains, hextent]
      omega

-- A script whose first node reaches over all its tokens has one command at the top.
theorem Built.commands_eq_singleton {n : Node} {more : List Node} (hs : s.Built)
    (hn : s.nodes.toList = n :: more) (hf : n.extent = ⟨0, s.tokens.size - 1⟩)
    (hk : ∀ t ∈ s.tokens.toList.head?, t.kind = .command) :
    ∃ c, s.commands = [c] ∧ c.node = n := by
  obtain ⟨items, hi⟩ := hs.exists_items
  obtain ⟨hcommands, hnodes⟩ := hs.commands_eq hi
  have hsize : s.tokens.size = (itemsTokens items).length := by simp [hi]
  cases items with
  | nil =>
    rw [hn] at hnodes
    cases hnodes
  | cons item rest =>
    cases item with
    | separator token kind =>
      have htoken := hk token (by rw [← hi]; rfl)
      rw [kind] at htoken
      cases htoken
    | command name kind args blocks list =>
      obtain rfl : n = commandNode 0 args blocks list := by
        rw [hn] at hnodes
        exact (List.cons.inj hnodes).1
      have hlast := congrArg Range.last hf
      have hrest : (itemsTokens rest).length = 0 := by
        simp only [commandNode, itemsTokens, Item.tokens, List.length_append, List.length_cons,
          length_argTokens] at hlast hsize
        omega
      cases rest with
      | nil =>
        rw [itemsOutline, itemsOutline, List.append_nil] at hcommands
        exact ⟨_, hcommands, rfl⟩
      | cons next rest =>
        obtain ⟨t, tail, ht, -⟩ := next.head_tokens
        simp [itemsTokens, ht] at hrest

end CommandShell.Script
