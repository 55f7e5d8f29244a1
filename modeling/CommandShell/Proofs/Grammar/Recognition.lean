import CommandShell.Proofs.Grammar.Building
import CommandShell.Proofs.Grammar.Walking

namespace CommandShell.Script

namespace TokenKind

theorem insert_cases (kind : TokenKind) :
    kind = .separator ∨ kind = .command ∨ kind.isRedirection = true ∨ kind.isPiece = true ∨
      kind = .blockBegin ∨ kind = .blockEnd := by
  cases kind <;> simp [isRedirection, isPiece, isArgument]

end TokenKind

-- No node goes away, and a node that has a block keeps one.
def Grows (a b : Array Node) : Prop :=
  ∀ (id : Nat) (n : Node), a[id]? = some n →
    ∃ m, b[id]? = some m ∧ (m.blocks = [] → n.blocks = [])

namespace Grows

variable {a b c : Array Node}

theorem refl (a : Array Node) : Grows a a :=
  fun _ n hn => ⟨n, hn, fun he => he⟩

theorem trans (h : Grows a b) (h' : Grows b c) : Grows a c := by
  intro id n hn
  obtain ⟨m, hm, hb⟩ := h id n hn
  obtain ⟨k, hk, hc⟩ := h' id m hm
  exact ⟨k, hk, fun he => hb (hc he)⟩

theorem modify (a : Array Node) (id : Nat) {f : Node → Node}
    (hf : ∀ n, (f n).blocks = [] → n.blocks = []) : Grows a (a.modify id f) := by
  intro i n hn
  rw [Array.getElem?_modify, hn, Option.map_some]
  split
  · exact ⟨f n, rfl, hf n⟩
  · exact ⟨n, rfl, fun he => he⟩

theorem push (a : Array Node) (node : Node) : Grows a (a.push node) := by
  intro id n hn
  obtain ⟨hlt, rfl⟩ := Array.getElem?_eq_some_iff.1 hn
  exact ⟨a[id], Array.getElem?_push_lt hlt, fun he => he⟩

theorem reach (t : Tree) (index : Nat) : Grows t.nodes (t.reach index).nodes := by
  unfold Tree.reach
  cases t.head with
  | none => exact refl _
  | command id => exact modify _ _ fun _ he => he
  | redirection owner id =>
    exact (modify t.nodes owner (f := fun n => (n.reach index).reachRedirection index)
      fun _ he => he).trans (modify _ _ fun _ he => he)

end Grows

namespace Tree

@[simp] theorem reach_head (t : Tree) (index : Nat) : (t.reach index).head = t.head := by
  unfold reach
  split <;> rfl

@[simp] theorem reach_enclosing (t : Tree) (index : Nat) :
    (t.reach index).enclosing = t.enclosing := by
  unfold reach
  split <;> rfl

end Tree

namespace Node

theorem openBlock_blocks (n : Node) (index : Nat) : (n.openBlock index).blocks ≠ [] := by
  simp [openBlock]

theorem addArg_blocks (n : Node) (index : Nat) : (n.addArg index).blocks = n.blocks := by
  unfold addArg
  split <;> rfl

theorem closeBlock_blocks (n : Node) {index : Nat} (h : (n.closeBlock index).blocks = []) :
    n.blocks = [] := by
  cases List.eq_nil_or_concat n.blocks with
  | inl hn => exact hn
  | inr hn =>
    obtain ⟨xs, x, hx⟩ := hn
    simp [closeBlock, hx, mapLast_append_singleton] at h

end Node

namespace Derivation

theorem itemsTokens_append (a b : List Item) :
    itemsTokens (a ++ b) = itemsTokens a ++ itemsTokens b := by
  induction a with
  | nil => rfl
  | cons item rest ih => simp [itemsTokens, ih]

theorem blocksTokens_append (a b : List Block) :
    blocksTokens (a ++ b) = blocksTokens a ++ blocksTokens b := by
  induction a with
  | nil => rfl
  | cons block rest ih => simp [blocksTokens, ih]

theorem redirectedTokens_append (a b : List Redirected) :
    redirectedTokens (a ++ b) = redirectedTokens a ++ redirectedTokens b := by
  induction a with
  | nil => rfl
  | cons redirected rest ih => simp [redirectedTokens, ih]

-- How the items of a level end that has this head.  A node that has no blocks was derived
-- without blocks.
inductive Ends (nodes : Array Node) : Head → List Item → Prop where
  | none (items : List Item) : Ends nodes .none items
  | command {id : Nat} {n : Node} (done : List Item) (name : Token) (kind : name.kind = .command)
      (args : List Arg) (blocks : List Block) (node : nodes[id]? = some n)
      (free : n.blocks = [] → blocks = []) :
      Ends nodes (.command id) (done ++ [.command name kind args blocks []])
  | redirection {owner id : Nat} {n : Node} (done : List Item) (name : Token)
      (kind : name.kind = .command) (args : List Arg) (blocks : List Block)
      (list : List Redirected) (name' : Token) (kind' : name'.kind.isRedirection = true)
      (args' : List Arg) (blocks' : List Block) (node : nodes[id]? = some n)
      (free : n.blocks = [] → blocks' = []) :
      Ends nodes (.redirection owner id)
        (done ++ [.command name kind args blocks (list ++ [.mk name' kind' args' blocks'])])

namespace Ends

variable {nodes grown : Array Node} {head : Head} {items : List Item} {id : Nat} {n : Node}

theorem mono (hg : Grows nodes grown) (h : Ends nodes head items) : Ends grown head items := by
  cases h with
  | none => exact .none items
  | command done name kind args blocks node free =>
    obtain ⟨m, hm, hb⟩ := hg _ _ node
    exact .command done name kind args blocks hm fun he => free (hb he)
  | redirection done name kind args blocks list name' kind' args' blocks' node free =>
    obtain ⟨m, hm, hb⟩ := hg _ _ node
    exact .redirection done name kind args blocks list name' kind' args' blocks' hm
      fun he => free (hb he)

theorem separator {token : Token} (items : List Item) (kind : token.kind = .separator) :
    ∃ more, itemsTokens more = itemsTokens items ++ [token] ∧ Ends nodes .none more :=
  ⟨items ++ [.separator token kind], by simp [itemsTokens_append, itemsTokens, Item.tokens],
    .none _⟩

theorem name {token : Token} (items : List Item) (kind : token.kind = .command)
    (node : nodes[id]? = some n) :
    ∃ more, itemsTokens more = itemsTokens items ++ [token] ∧ Ends nodes (.command id) more := by
  refine ⟨_, ?_, .command items token kind [] [] node fun _ => rfl⟩
  simp [itemsTokens_append, itemsTokens, Item.tokens, argTokens, blocksTokens, redirectedTokens]

-- A redirection belongs to the command at the head, behind what it had before.
theorem redirect {token : Token} {owner : Nat} (h : Ends nodes head items)
    (kind : token.kind.isRedirection = true) (ho : head.owner? = some owner)
    (node : nodes[id]? = some n) :
    ∃ more, itemsTokens more = itemsTokens items ++ [token] ∧
      Ends nodes (.redirection owner id) more := by
  cases h with
  | none => cases ho
  | command done name kind₀ args blocks =>
    refine ⟨_, ?_, .redirection done name kind₀ args blocks [] token kind [] [] node fun _ => rfl⟩
    simp [itemsTokens_append, itemsTokens, Item.tokens, argTokens, blocksTokens, redirectedTokens,
      Redirected.tokens]
  | redirection done name kind₀ args blocks list name' kind' args' blocks' =>
    refine ⟨_, ?_, .redirection done name kind₀ args blocks
      (list ++ [.mk name' kind' args' blocks']) token kind [] [] node fun _ => rfl⟩
    simp [itemsTokens_append, redirectedTokens_append, itemsTokens, Item.tokens, argTokens,
      blocksTokens, redirectedTokens, Redirected.tokens]

-- An argument goes to the node at the head, which has no block yet.
theorem piece {token : Token} (h : Ends nodes head items) (kind : token.kind.isPiece = true)
    (ht : head.target? = some id)
    (hb : (nodes[id]?.map (·.blocks.isEmpty)).getD true = true) :
    ∃ more, itemsTokens more = itemsTokens items ++ [token] ∧ Ends nodes head more := by
  cases h with
  | none => cases ht
  | command done name kind₀ args blocks node free =>
    cases ht
    have hn : blocks = [] := free (by simpa [node] using hb)
    refine ⟨_, ?_, .command done name kind₀ (args ++ [⟨token, kind⟩]) blocks node free⟩
    simp [itemsTokens_append, itemsTokens, Item.tokens, argTokens, blocksTokens, redirectedTokens,
      hn]
  | redirection done name kind₀ args blocks list name' kind' args' blocks' node free =>
    cases ht
    have hn : blocks' = [] := free (by simpa [node] using hb)
    refine ⟨_, ?_, .redirection done name kind₀ args blocks list name' kind'
      (args' ++ [⟨token, kind⟩]) blocks' node free⟩
    simp [itemsTokens_append, redirectedTokens_append, itemsTokens, Item.tokens, argTokens,
      blocksTokens, redirectedTokens, Redirected.tokens, hn]

-- A block goes to the node at the head, which has been told of it.
theorem block (h : Ends nodes head items) (ht : head.target? = some id)
    (node : nodes[id]? = some n) (hb : n.blocks ≠ []) (block : Block) :
    ∃ more, itemsTokens more = itemsTokens items ++ block.tokens ∧ Ends nodes head more := by
  cases h with
  | none => cases ht
  | command done name kind args blocks =>
    cases ht
    refine ⟨_, ?_, .command done name kind args (blocks ++ [block]) node (absurd · hb)⟩
    simp [itemsTokens_append, blocksTokens_append, itemsTokens, Item.tokens, blocksTokens,
      redirectedTokens]
  | redirection done name kind args blocks list name' kind' args' blocks' =>
    cases ht
    refine ⟨_, ?_, .redirection done name kind args blocks list name' kind' args'
      (blocks' ++ [block]) node (absurd · hb)⟩
    simp [itemsTokens_append, blocksTokens_append, redirectedTokens_append, itemsTokens,
      Item.tokens, blocksTokens, redirectedTokens, Redirected.tokens]

theorem exists_node (h : Ends nodes head items) (ht : head.target? = some id) :
    ∃ n, nodes[id]? = some n := by
  cases h with
  | none => cases ht
  | command _ _ _ _ _ node _ => cases ht; exact ⟨_, node⟩
  | redirection _ _ _ _ _ _ _ _ _ _ node _ => cases ht; exact ⟨_, node⟩

end Ends

-- The tokens read so far, level by level: items of a script, and between two levels the brace
-- that opens the inner one for a node that knows of it.
inductive Reading (nodes : Array Node) : List Enclosing → Head → List Token → Prop where
  | outermost {head : Head} {items : List Item} (ends : Ends nodes head items) :
      Reading nodes [] head (itemsTokens items)
  | nested {frame : Enclosing} {enclosing : List Enclosing} {head : Head} {items : List Item}
      {tokens : List Token} {id : Nat} {n : Node} {opening : Token}
      (outer : Reading nodes enclosing frame.head tokens) (target : frame.head.target? = some id)
      (node : nodes[id]? = some n) (taken : n.blocks ≠ []) (opens : opening.kind = .blockBegin)
      (ends : Ends nodes head items) :
      Reading nodes (frame :: enclosing) head (tokens ++ opening :: itemsTokens items)

namespace Reading

variable {nodes grown : Array Node} {enclosing : List Enclosing} {head head' : Head}
  {tokens : List Token}

theorem mono (hg : Grows nodes grown) (h : Reading nodes enclosing head tokens) :
    Reading grown enclosing head tokens := by
  induction h with
  | outermost ends => exact .outermost (ends.mono hg)
  | nested outer target node taken opens ends ih =>
    obtain ⟨m, hm, hb⟩ := hg _ _ node
    exact .nested ih target hm (fun he => taken (hb he)) opens (ends.mono hg)

-- What the items of the innermost level can take in, the whole reading can.
theorem advance {new : List Token} (h : Reading nodes enclosing head tokens)
    (hnew : ∀ items, Ends nodes head items →
      ∃ more, itemsTokens more = itemsTokens items ++ new ∧ Ends nodes head' more) :
    Reading nodes enclosing head' (tokens ++ new) := by
  cases h with
  | outermost ends =>
    obtain ⟨more, hm, hends⟩ := hnew _ ends
    exact hm ▸ .outermost hends
  | nested outer target node taken opens ends =>
    obtain ⟨more, hm, hends⟩ := hnew _ ends
    rw [List.append_assoc, List.cons_append, ← hm]
    exact .nested outer target node taken opens hends

theorem exists_node {id : Nat} (h : Reading nodes enclosing head tokens)
    (ht : head.target? = some id) : ∃ n, nodes[id]? = some n := by
  cases h with
  | outermost ends => exact ends.exists_node ht
  | nested _ _ _ _ _ ends => exact ends.exists_node ht

end Reading

variable {t u : Tree} {token : Token} {tokens : List Token}

theorem reading_of_separator (hk : token.kind = .separator) (h : t.insert token = .ok u)
    (hr : Reading t.nodes t.enclosing t.head tokens) :
    Reading u.nodes u.enclosing u.head (tokens ++ [token]) := by
  rw [insert_separator hk] at h
  cases h
  exact hr.advance fun items _ => Ends.separator items hk

theorem reading_of_command (hk : token.kind = .command) (h : t.insert token = .ok u)
    (hr : Reading t.nodes t.enclosing t.head tokens) :
    Reading u.nodes u.enclosing u.head (tokens ++ [token]) := by
  simp only [Tree.insert, hk, Except.ok.injEq] at h
  subst h
  refine (hr.mono (Grows.push _ _)).advance fun items _ => ?_
  exact Ends.name items hk (Array.getElem?_push_size ..)

theorem reading_of_redirection (hk : token.kind.isRedirection = true) (h : t.insert token = .ok u)
    (hr : Reading t.nodes t.enclosing t.head tokens) :
    Reading u.nodes u.enclosing u.head (tokens ++ [token]) := by
  rw [Tree.insert_of_isRedirection hk] at h
  cases ho : t.head.owner? with
  | none => simp [ho] at h
  | some owner =>
    simp only [ho, Except.ok.injEq] at h
    subst h
    have hadd : Grows (t.nodes.push (.opened t.tokens.size))
        ((t.nodes.push (.opened t.tokens.size)).modify owner
          fun n => (n.reach t.tokens.size).addRedirection t.tokens.size) :=
      Grows.modify _ owner fun _ he => he
    have hg := (Grows.push t.nodes (.opened t.tokens.size)).trans hadd
    obtain ⟨n, hn, -⟩ := hadd _ _ Array.getElem?_push_size
    exact (hr.mono hg).advance fun items hends => hends.redirect hk ho hn

theorem reading_of_piece (hk : token.kind.isPiece = true) (h : t.insert token = .ok u)
    (hr : Reading t.nodes t.enclosing t.head tokens) :
    Reading u.nodes u.enclosing u.head (tokens ++ [token]) := by
  rw [Tree.insert_of_isPiece hk] at h
  cases ht : t.head.target? with
  | none => simp [ht] at h
  | some target =>
    simp only [ht] at h
    split at h
    · rename_i hb
      cases h
      have hadd : Grows t.nodes (t.update target (·.addArg t.tokens.size)).nodes :=
        Grows.modify _ target fun n he => (n.addArg_blocks _).symm.trans he
      have hg := hadd.trans (Grows.reach _ t.tokens.size)
      have hp := (hr.advance fun items hends => hends.piece hk ht hb).mono hg
      rw [Tree.push, Tree.reach_head, Tree.reach_enclosing]
      exact hp
    · cases h

theorem reading_of_blockBegin (hk : token.kind = .blockBegin) (h : t.insert token = .ok u)
    (hr : Reading t.nodes t.enclosing t.head tokens) :
    Reading u.nodes u.enclosing u.head (tokens ++ [token]) := by
  simp only [Tree.insert, hk] at h
  cases ht : t.head.target? with
  | none => simp [ht] at h
  | some target =>
    simp only [ht, Except.ok.injEq] at h
    subst h
    obtain ⟨n, hn⟩ := hr.exists_node ht
    have hopened : (t.update target (·.openBlock t.tokens.size)).nodes[target]? =
        some (n.openBlock t.tokens.size) := by
      simp [Tree.update, Array.getElem?_modify, hn]
    have hopen : Grows t.nodes (t.update target (·.openBlock t.tokens.size)).nodes :=
      Grows.modify _ target fun n he => absurd he (n.openBlock_blocks _)
    have hreach := Grows.reach (t.update target (·.openBlock t.tokens.size)) t.tokens.size
    obtain ⟨m, hm, hb⟩ := hreach _ _ hopened
    have hnew : Reading _ (⟨t.tokens.size, t.head⟩ :: t.enclosing) .none (tokens ++ [token]) :=
      .nested (hr.mono (hopen.trans hreach)) ht hm (fun he => n.openBlock_blocks _ (hb he)) hk
        (.none [])
    rw [Tree.push, Tree.reach_enclosing]
    exact hnew

-- The innermost level becomes a block of the node that it was opened for.
theorem reading_of_blockEnd (hk : token.kind = .blockEnd) (h : t.insert token = .ok u)
    (hr : Reading t.nodes t.enclosing t.head tokens) :
    Reading u.nodes u.enclosing u.head (tokens ++ [token]) := by
  simp only [Tree.insert, hk] at h
  cases he : t.enclosing with
  | nil => simp [he] at h
  | cons frame outer =>
    rw [he] at hr
    cases hr with
    | nested hr ht hn taken opens ends =>
      rename_i items tokens target n opening
      simp only [he, ht, Except.ok.injEq] at h
      subst h
      have hclose : Grows t.nodes ({ t with head := frame.head, enclosing := outer }.update target
          (·.closeBlock t.tokens.size)).nodes :=
        Grows.modify _ target fun n he => n.closeBlock_blocks he
      have hg := hclose.trans (Grows.reach _ t.tokens.size)
      have hp := (hr.advance fun done hends =>
        hends.block ht hn taken (.mk opening opens items token hk)).mono hg
      rw [Block.tokens, ← List.cons_append, ← List.append_assoc] at hp
      rw [Tree.push, Tree.reach_head, Tree.reach_enclosing]
      exact hp

-- One more token keeps the reading.
theorem reading_of_insert (h : t.insert token = .ok u)
    (hr : Reading t.nodes t.enclosing t.head tokens) :
    Reading u.nodes u.enclosing u.head (tokens ++ [token]) := by
  rcases token.kind.insert_cases with hk | hk | hk | hk | hk | hk
  · exact reading_of_separator hk h hr
  · exact reading_of_command hk h hr
  · exact reading_of_redirection hk h hr
  · exact reading_of_piece hk h hr
  · exact reading_of_blockBegin hk h hr
  · exact reading_of_blockEnd hk h hr

-- Any run of tokens keeps the reading.
theorem reading_of_insertAll {read : List Token} (h : t.insertAll tokens = .ok u)
    (hr : Reading t.nodes t.enclosing t.head read) :
    Reading u.nodes u.enclosing u.head (read ++ tokens) := by
  induction tokens generalizing t read with
  | nil =>
    cases h
    rwa [List.append_nil]
  | cons token rest ih =>
    cases hi : t.insert token with
    | error e =>
      rw [Tree.insertAll, List.foldlM_cons, hi] at h
      cases h
    | ok v =>
      rw [Tree.insertAll_cons hi] at h
      simpa using ih h (reading_of_insert hi hr)

theorem exists_items_of_insertAll (h : Tree.insertAll {} tokens = .ok t) (hd : t.depth = 0) :
    ∃ items, itemsTokens items = tokens := by
  have hr := reading_of_insertAll h (.outermost (.none []))
  have he : t.enclosing = [] := List.length_eq_zero_iff.1 hd
  rw [he, itemsTokens, List.nil_append] at hr
  cases hr with
  | outermost => exact ⟨_, rfl⟩

-- The script of a derivation.
theorem insertAll_of_items (items : List Item) :
    ∃ head, Tree.insertAll {} (itemsTokens items) =
      .ok (treeOf (numbered 0 (itemsTokens items)) (itemsNodes 0 items) head []) := by
  obtain ⟨head, h⟩ := insertAll_itemsTokens items [] [] .none []
  exact ⟨head, by simpa using h⟩

theorem holds_treeOf (items : List Item) (head : Head) (source : String) :
    Holds ((treeOf (numbered 0 (itemsTokens items)) (itemsNodes 0 items) head []).toScript source)
      0 0 (itemsTokens items) (itemsNodes 0 items) :=
  ⟨by simp [Tree.toScript], by simp [Tree.toScript]⟩

theorem commands_eq_itemsOutline {s : Script} {items : List Item}
    (hs : s.tokens.size = (itemsTokens items).length)
    (h : Holds s 0 0 (itemsTokens items) (itemsNodes 0 items)) :
    s.commands = itemsOutline 0 items := by
  have hb := between_eq_itemsOutline s.tokens.size items 0 0 (by omega) h
  rwa [Nat.zero_add, ← hs] at hb

-- Exactly the derivable token lists are taken in with all blocks closed, and the way through the
-- script then follows the derivation: it meets the node of every command and redirection once,
-- in token order, with the arguments, blocks and ranges that were derived for it.
theorem insertAll_iff_and_walk (tokens : List Token) :
    ((∃ t, Tree.insertAll {} tokens = .ok t ∧ t.depth = 0) ↔
      ∃ items, itemsTokens items = tokens) ∧
    ∀ t items source, Tree.insertAll {} tokens = .ok t → itemsTokens items = tokens →
      let s := t.toScript source
      let visited := s.visits.filterMap Visit.node?
      s.tokens.toList = numbered 0 tokens ∧
      s.commands = itemsOutline 0 items ∧
      visited = s.nodes.toList ∧
      visited.map (·.extent.first) = openings 0 tokens ∧
      visited.map (fun n => (n, s.argsOf n)) = itemsParts 0 items := by
  constructor
  · constructor
    · rintro ⟨t, h, hd⟩
      exact exists_items_of_insertAll h hd
    · rintro ⟨items, rfl⟩
      obtain ⟨head, h⟩ := insertAll_of_items items
      exact ⟨_, h, rfl⟩
  · rintro t items source h rfl
    obtain ⟨head, hi⟩ := insertAll_of_items items
    obtain rfl := Except.ok.inj (h.symm.trans hi)
    have hh := holds_treeOf items head source
    have hc := commands_eq_itemsOutline (by simp [Tree.toScript]) hh
    have hv : (((treeOf (numbered 0 (itemsTokens items)) (itemsNodes 0 items) head []).toScript
        source).visits.filterMap Visit.node?) = itemsNodes 0 items := by
      rw [visits, hc, commandVisits_outline]
    refine ⟨by simp [Tree.toScript], hc, ?_, ?_, ?_⟩
    · rw [hv]
      rfl
    · rw [hv, openings_itemsTokens, itemsNodes, List.map_map]
      rfl
    · rw [hv]
      exact map_argsOf_itemsNodes hh

end Derivation

end CommandShell.Script
