import CommandShell.Proofs.Grammar.Recognition

namespace CommandShell.Script

namespace Tree

variable {t u : Tree} {token : Token} {tokens : List Token}

@[simp] theorem reach_tokens (t : Tree) (index : Nat) : (t.reach index).tokens = t.tokens := by
  unfold reach
  split <;> rfl

-- A token that is taken in is kept behind those there are; only its node may be noted on it.
theorem tokens_of_insert (h : t.insert token = .ok u) :
    ∃ id, u.tokens = t.tokens.push { token with node := id } := by
  rcases token.kind.insert_cases with hk | hk | hk | hk | hk | hk
  · rw [Derivation.insert_separator hk] at h
    cases h
    exact ⟨token.node, rfl⟩
  · simp only [insert, hk, Except.ok.injEq] at h
    subst h
    exact ⟨some t.nodes.size, by rw [← hk]⟩
  · rw [insert_of_isRedirection hk] at h
    split at h
    · cases h
    · cases h
      exact ⟨some t.nodes.size, rfl⟩
  · rw [insert_of_isPiece hk] at h
    split at h
    · cases h
    · split at h
      · cases h
        exact ⟨token.node, by simp [push, update]⟩
      · cases h
  · simp only [insert, hk] at h
    split at h
    · cases h
    · cases h
      exact ⟨token.node, by simp [push, update]⟩
  · simp only [insert, hk] at h
    split at h
    · cases h
    · cases h
      refine ⟨token.node, ?_⟩
      split <;> simp [push, update]

-- Only a brace opens a block, and with its own index.
theorem enclosing_of_insert (h : t.insert token = .ok u) :
    u.enclosing ⊆ ⟨t.tokens.size, t.head⟩ :: t.enclosing := by
  rcases token.kind.insert_cases with hk | hk | hk | hk | hk | hk
  · rw [Derivation.insert_separator hk] at h
    cases h
    exact List.subset_cons_self _ _
  · simp only [insert, hk, Except.ok.injEq] at h
    subst h
    exact List.subset_cons_self _ _
  · rw [insert_of_isRedirection hk] at h
    split at h
    · cases h
    · cases h
      exact List.subset_cons_self _ _
  · rw [insert_of_isPiece hk] at h
    split at h
    · cases h
    · split at h
      · cases h
        simp [push, update]
      · cases h
  · simp only [insert, hk] at h
    split at h
    · cases h
    · cases h
      exact List.Subset.refl _
  · simp only [insert, hk] at h
    split at h
    · cases h
    · next frame outer he =>
      cases h
      rw [he]
      split <;> simp [push, update]

-- Every open block was opened by a token there is.
def Rooted (t : Tree) : Prop := ∀ frame ∈ t.enclosing, frame.opened < t.tokens.size

theorem Rooted.insert (hr : t.Rooted) (h : t.insert token = .ok u) : u.Rooted := by
  intro frame hf
  obtain ⟨id, ht⟩ := tokens_of_insert h
  rw [ht, Array.size_push]
  rcases List.mem_cons.1 (enclosing_of_insert h hf) with rfl | hm
  · exact Nat.lt_succ_self _
  · exact Nat.lt_succ_of_lt (hr frame hm)

theorem depth_of_innermostOpen? (hr : t.Rooted) (h : t.innermostOpen? = none) : t.depth = 0 := by
  cases he : t.enclosing with
  | nil => simp [depth, he]
  | cons frame outer =>
    have hlt := hr frame (by simp [he])
    simp [innermostOpen?, he, hlt] at h

theorem insertAll_concat (h : t.insertAll tokens = .ok u) (token : Token) :
    t.insertAll (tokens ++ [token]) = u.insert token := by
  rw [insertAll_append h]
  cases hi : u.insert token <;> simp [insertAll, hi, bind, Except.bind, pure, Except.pure]

end Tree

namespace Derivation

theorem isPiece_of_mem_argTokens {args : List Arg} :
    ∀ t ∈ argTokens args, t.kind.isPiece = true := by
  intro t ht
  obtain ⟨arg, -, rfl⟩ := List.mem_map.1 ht
  exact arg.2

mutual

-- The arguments of a node are options and pieces of arguments.
theorem Item.isPiece_of_parts (first : Nat) : (item : Item) →
    ∀ part ∈ item.parts first, ∀ t ∈ part.2, t.kind.isPiece = true
  | .separator _ _ => by simp [Item.parts]
  | .command name kind args blocks redirections => by
    have hb := isPiece_of_blocksParts (first + 1 + args.length) blocks
    have hr := isPiece_of_redirectedParts
      (first + 1 + args.length + (blocksTokens blocks).length) redirections
    intro part hp
    rw [Item.parts, List.mem_cons, List.mem_append] at hp
    rcases hp with rfl | hp | hp
    · exact isPiece_of_mem_argTokens
    · exact hb part hp
    · exact hr part hp

theorem Redirected.isPiece_of_parts (first : Nat) : (redirected : Redirected) →
    ∀ part ∈ redirected.parts first, ∀ t ∈ part.2, t.kind.isPiece = true
  | .mk name kind args blocks => by
    have hb := isPiece_of_blocksParts (first + 1 + args.length) blocks
    intro part hp
    rw [Redirected.parts, List.mem_cons] at hp
    rcases hp with rfl | hp
    · exact isPiece_of_mem_argTokens
    · exact hb part hp

theorem Block.isPiece_of_parts (first : Nat) : (block : Block) →
    ∀ part ∈ block.parts first, ∀ t ∈ part.2, t.kind.isPiece = true
  | .mk _ _ body _ _ => isPiece_of_itemsParts (first + 1) body

theorem isPiece_of_itemsParts (first : Nat) : (items : List Item) →
    ∀ part ∈ itemsParts first items, ∀ t ∈ part.2, t.kind.isPiece = true
  | [] => by simp [itemsParts]
  | item :: rest => by
    have hi := item.isPiece_of_parts first
    have hr := isPiece_of_itemsParts (first + item.tokens.length) rest
    intro part hp
    rw [itemsParts, List.mem_append] at hp
    exact hp.elim (hi part) (hr part)

theorem isPiece_of_blocksParts (first : Nat) : (blocks : List Block) →
    ∀ part ∈ blocksParts first blocks, ∀ t ∈ part.2, t.kind.isPiece = true
  | [] => by simp [blocksParts]
  | block :: rest => by
    have hb := block.isPiece_of_parts first
    have hr := isPiece_of_blocksParts (first + block.tokens.length) rest
    intro part hp
    rw [blocksParts, List.mem_append] at hp
    exact hp.elim (hb part) (hr part)

theorem isPiece_of_redirectedParts (first : Nat) : (list : List Redirected) →
    ∀ part ∈ redirectedParts first list, ∀ t ∈ part.2, t.kind.isPiece = true
  | [] => by simp [redirectedParts]
  | redirected :: rest => by
    have hd := redirected.isPiece_of_parts first
    have hr := isPiece_of_redirectedParts (first + redirected.tokens.length) rest
    intro part hp
    rw [redirectedParts, List.mem_append] at hp
    exact hp.elim (hd part) (hr part)

end

variable {t : Tree} {tokens : List Token} {source : String}

theorem isPiece_of_argsOf (h : Tree.insertAll {} tokens = .ok t) (hd : t.depth = 0) :
    ∀ node ∈ (t.toScript source).nodes, ∀ u ∈ (t.toScript source).argsOf node,
      u.kind.isPiece = true := by
  obtain ⟨items, rfl⟩ := exists_items_of_insertAll h hd
  obtain ⟨head, hi⟩ := insertAll_of_items items
  obtain rfl := Except.ok.inj (h.symm.trans hi)
  have hh := holds_treeOf items head source
  intro node hn
  have hn' : node ∈ itemsNodes 0 items := by simpa [Tree.toScript] using hn
  obtain ⟨part, hp, rfl⟩ := List.mem_map.1 hn'
  rw [argsOf_itemsParts _ 0 0 items hh part hp]
  exact isPiece_of_itemsParts 0 items part hp

-- Tokens at indices one after the other, all of a kind that stands in for no missing token.
theorem range'_contiguous {s : Script} {first count : Nat}
    (h : ∀ t ∈ (List.range' first count).map s.token, t.kind.isPiece = true) :
    (List.range' first count).map s.token <+: s.tokens.toList.drop first := by
  induction count generalizing first with
  | zero => exact List.nil_prefix
  | succ count ih =>
    rw [List.range'_succ, List.map_cons] at h ⊢
    have hlt : first < s.tokens.size := by
      rcases Nat.lt_or_ge first s.tokens.size with hlt | hge
      · exact hlt
      · have hk := h _ (List.mem_cons_self ..)
        rw [token, Array.getElem?_eq_none hge] at hk
        cases hk
    have hcons : s.tokens.toList.drop first =
        s.token first :: s.tokens.toList.drop (first + 1) := by
      rw [List.drop_eq_getElem_cons (by simpa using hlt)]
      simp [token, hlt]
    rw [hcons]
    exact (List.prefix_cons_inj _).2 (ih fun t ht => h t (List.mem_cons_of_mem _ ht))

theorem argsOf_contiguous {s : Script} {node : Node}
    (h : ∀ t ∈ s.argsOf node, t.kind.isPiece = true) : s.argsOf node <:+: s.tokens.toList := by
  unfold argsOf at h ⊢
  split
  · next range hr =>
    rw [hr] at h
    exact (range'_contiguous h).isInfix.trans (List.drop_suffix _ _).isInfix
  · exact List.nil_infix

end Derivation

end CommandShell.Script
