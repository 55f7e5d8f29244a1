import CommandShell.Proofs.Grammar.Nesting

namespace CommandShell.Script

-- A redirection of a command that is met.
def Redirection.Owned (r : Redirection) (visits : List Visit) : Prop :=
  ∃ depth c, Visit.command depth c ∈ visits ∧ r ∈ c.redirections

theorem Redirection.Owned.mono {r : Redirection} {visits more : List Visit} (h : r.Owned visits)
    (hs : visits ⊆ more) : r.Owned more := by
  obtain ⟨depth, c, hc, hr⟩ := h
  exact ⟨depth, c, hs hc, hr⟩

mutual

-- Every redirection that is met belongs to a command that is met in front of it.
theorem Command.owned_of_visited (depth : Nat) {d : Nat} {r : Redirection} : (c : Command) →
    Visit.redirection d r ∈ c.visits depth → r.Owned (c.visits depth)
  | .mk node blocks redirections, h => by
    have hvisits : (Command.mk node blocks redirections).visits depth =
        .command depth (.mk node blocks redirections) ::
          (blockVisits depth blocks ++ redirectionVisits (depth + 1) redirections) := rfl
    rw [hvisits, List.mem_cons, List.mem_append] at h
    rw [hvisits]
    rcases h with h | h | h
    · cases h
    · have hb := owned_of_blockVisits depth blocks h
      exact hb.mono fun v hv => List.mem_cons_of_mem _ (List.mem_append_left _ hv)
    · rcases owned_of_redirectionVisits (depth + 1) redirections h with hr | hr
      · exact ⟨depth, _, List.mem_cons_self .., hr⟩
      · exact hr.mono fun v hv => List.mem_cons_of_mem _ (List.mem_append_right _ hv)

theorem Redirection.owned_of_visited (depth : Nat) {d : Nat} {r : Redirection} :
    (redirection : Redirection) → Visit.redirection d r ∈ redirection.visits depth →
    r = redirection ∨ r.Owned (redirection.visits depth)
  | .mk node blocks, h => by
    rw [Redirection.visits, List.mem_cons] at h
    rcases h with h | h
    · cases h
      exact .inl rfl
    · have hb := owned_of_blockVisits depth blocks h
      exact .inr (hb.mono (List.subset_cons_self ..))

theorem owned_of_blockVisits (depth : Nat) {d : Nat} {r : Redirection} :
    (blocks : List (List Command)) → Visit.redirection d r ∈ blockVisits depth blocks →
    r.Owned (blockVisits depth blocks)
  | [], h => nomatch h
  | block :: rest, h => by
    have hvisits : blockVisits depth (block :: rest) =
        .block depth :: (commandVisits (depth + 1) block ++ blockVisits depth rest) := rfl
    rw [hvisits, List.mem_cons, List.mem_append] at h
    rw [hvisits]
    rcases h with h | h | h
    · cases h
    · have hb := owned_of_commandVisits (depth + 1) block h
      exact hb.mono fun v hv => List.mem_cons_of_mem _ (List.mem_append_left _ hv)
    · have hr := owned_of_blockVisits depth rest h
      exact hr.mono fun v hv => List.mem_cons_of_mem _ (List.mem_append_right _ hv)

theorem owned_of_commandVisits (depth : Nat) {d : Nat} {r : Redirection} :
    (commands : List Command) → Visit.redirection d r ∈ commandVisits depth commands →
    r.Owned (commandVisits depth commands)
  | [], h => nomatch h
  | command :: rest, h => by
    rw [commandVisits, List.mem_append] at h
    rw [commandVisits]
    rcases h with h | h
    · exact (command.owned_of_visited depth h).mono (List.subset_append_left ..)
    · exact (owned_of_commandVisits depth rest h).mono (List.subset_append_right ..)

theorem owned_of_redirectionVisits (depth : Nat) {d : Nat} {r : Redirection} :
    (list : List Redirection) → Visit.redirection d r ∈ redirectionVisits depth list →
    r ∈ list ∨ r.Owned (redirectionVisits depth list)
  | [], h => nomatch h
  | redirection :: rest, h => by
    rw [redirectionVisits, List.mem_append] at h
    rw [redirectionVisits]
    rcases h with h | h
    · rcases Redirection.owned_of_visited depth redirection h with rfl | hr
      · exact .inl (List.mem_cons_self ..)
      · exact .inr (hr.mono (List.subset_append_left ..))
    · rcases owned_of_redirectionVisits depth rest h with hr | hr
      · exact .inl (List.mem_cons_of_mem _ hr)
      · exact .inr (hr.mono (List.subset_append_right ..))

end

namespace Derivation

variable {first id : Nat} {r : Redirection} {t : Token} {front back : List Token}

theorem redirectedOutline_append (first : Nat) (a b : List Redirected) :
    redirectedOutline first (a ++ b) =
      redirectedOutline first a ++ redirectedOutline (first + (redirectedTokens a).length) b := by
  induction a generalizing first with
  | nil => rfl
  | cons redirected rest ih =>
    simp [redirectedOutline, redirectedTokens, ih, Nat.add_assoc]

theorem redirectedParts_append (first : Nat) (a b : List Redirected) :
    redirectedParts first (a ++ b) =
      redirectedParts first a ++ redirectedParts (first + (redirectedTokens a).length) b := by
  induction a generalizing first with
  | nil => rfl
  | cons redirected rest ih =>
    simp [redirectedParts, redirectedTokens, ih, Nat.add_assoc]

theorem countP_redirectedTokens (first : Nat) (list : List Redirected) :
    (redirectedTokens list).countP (·.kind.opensNode) = (redirectedParts first list).length := by
  rw [← length_openings first, openings_redirectedTokens, List.length_map]

-- The redirections of a command stand one behind the other.
theorem exists_of_mem_redirectedOutline {list : List Redirected}
    (h : r ∈ redirectedOutline first list) :
    ∃ earlier redirected later, list = earlier ++ redirected :: later ∧
      r = redirected.outline (first + (redirectedTokens earlier).length) := by
  induction list generalizing first with
  | nil => cases h
  | cons redirected rest ih =>
    rw [redirectedOutline, List.mem_cons] at h
    rcases h with rfl | h
    · exact ⟨[], redirected, rest, rfl, rfl⟩
    · obtain ⟨earlier, next, later, rfl, rfl⟩ := ih h
      exact ⟨redirected :: earlier, next, later, rfl, by simp [redirectedTokens, Nat.add_assoc]⟩

theorem mem_openings_of_getElem? {tokens : List Token} {i : Nat} (ht : tokens[i]? = some t)
    (hk : t.kind.opensNode = true) : first + i ∈ openings first tokens := by
  rw [openings, List.mem_map]
  refine ⟨(t, first + i), List.mem_filter.2 ⟨?_, hk⟩, rfl⟩
  exact List.mk_add_mem_zipIdx_iff_getElem?.2 ht

-- A token that opens a node has the number of those that are opened in front of it.
theorem node_of_numbered (h : numbered id (front ++ t :: back) = front ++ t :: back)
    (hk : t.kind.opensNode = true) : t.node = some (id + front.countP (·.kind.opensNode)) := by
  rw [numbered_append] at h
  have ht := List.append_inj_right h (length_numbered id front)
  rw [numbered, if_pos hk] at ht
  exact (congrArg Token.node (List.cons.inj ht).1).symm

end Derivation

open Script.Derivation

variable {s : Script} {c : Command} {r : Redirection} {depth i : Nat} {t : Token}

-- How a redirection of a command stands in a script: behind its token come its arguments, its
-- blocks and the later redirections of the command, and then no argument.
structure Redirection.Stands (s : Script) (c : Command) (r : Redirection) (front : List Token)
    (t : Token) (args : List Arg) (blocks : List Block) (later : List Redirected)
    (after : List Token) : Prop where
  tokens : s.tokens.toList = front ++ t :: (argTokens args ++
    (blocksTokens blocks ++ (redirectedTokens later ++ after)))
  head : r.head = front.length
  kind : t.kind.isRedirection = true
  node : r.node = redirectedNode front.length args blocks
  opens : ∃ id, t.node = some id ∧ s.nodes[id]? = some r.node
  last : later = [] → c.redirections.getLast? = some r
  ends : ∀ u ∈ after.head?, u.kind.isPiece = false

theorem Built.exists_stands (hs : s.Built) (hc : Visit.command depth c ∈ s.visits)
    (hr : r ∈ c.redirections) :
    ∃ front t args blocks later after, r.Stands s c front t args blocks later after := by
  obtain ⟨before, after, earlier, nodes, item, ho⟩ := hs.exists_occurrence hc
  cases item with
  | separator => cases ho.outline
  | command name kind args blocks list =>
    obtain rfl := (List.cons.inj ho.outline).1
    obtain ⟨sooner, ⟨operand, redirects, operands, inner⟩, later, rfl, hout⟩ :=
      exists_of_mem_redirectedOutline hr
    have hname : name.kind.opensNode = true := by rw [kind]; rfl
    let own := name :: (argTokens args ++ (blocksTokens blocks ++ redirectedTokens sooner))
    have hitem : (Item.command name kind args blocks
          (sooner ++ .mk operand redirects operands inner :: later)).tokens =
        own ++ operand :: (argTokens operands ++ (blocksTokens inner ++ redirectedTokens later)) := by
      simp [own, Item.tokens, redirectedTokens_append, redirectedTokens, Redirected.tokens]
    have hlength : before.length + 1 + args.length + (blocksTokens blocks).length +
        (redirectedTokens sooner).length = (before ++ own).length := by
      simp only [own, List.length_append, List.length_cons, length_argTokens]
      omega
    have hnode : r.node = redirectedNode (before ++ own).length operands inner := by
      rw [hout, ← hlength]
      rfl
    refine ⟨before ++ own, operand, operands, inner, later, after, ?_, ?_, redirects, hnode, ?_, ?_,
      ho.ends⟩
    · rw [ho.tokens, hitem]
      simp
    · rw [Redirection.head, hnode]
      rfl
    · -- In front of its node there are the nodes of the tokens in front of its token.
      have hnumbered := ho.numbered
      rw [hitem] at hnumbered
      refine ⟨_, node_of_numbered hnumbered (opensNode_of_isRedirection redirects), ?_⟩
      have hcount : own.countP (·.kind.opensNode) =
          (blocksParts (before.length + 1 + args.length) blocks).length + (redirectedParts
            (before.length + 1 + args.length + (blocksTokens blocks).length) sooner).length + 1 := by
        simp [own, hname, countP_blocksTokens (before.length + 1 + args.length),
          countP_redirectedTokens
            (before.length + 1 + args.length + (blocksTokens blocks).length)]
      rw [← Array.getElem?_toList, ho.nodes, hcount, hnode, ← hlength]
      simp [Item.parts, redirectedParts_append, redirectedParts, Redirected.parts]
    · rintro rfl
      simp only [Command.redirections, redirectedOutline_append, redirectedOutline,
        List.getLast?_concat, hout]

-- Every token of a redirection stands for one of a command.
theorem Built.exists_owned (hs : s.Built) (ht : s.tokens[i]? = some t)
    (hk : t.kind.isRedirection = true) :
    ∃ depth c r, Visit.command depth c ∈ s.visits ∧ r ∈ c.redirections ∧ r.head = i := by
  obtain ⟨items, hi⟩ := hs.exists_items
  have hvisits : s.visits.filterMap Visit.node? = itemsNodes 0 items := by
    rw [visits, (hs.commands_eq hi).1, commandVisits_outline]
  have htoken : (itemsTokens items)[i]? = some t := by rw [hi, Array.getElem?_toList, ht]
  have hopens : 0 + i ∈ openings 0 (itemsTokens items) :=
    mem_openings_of_getElem? htoken (opensNode_of_isRedirection hk)
  rw [Nat.zero_add, openings_itemsTokens] at hopens
  obtain ⟨part, hpart, hfirst⟩ := List.mem_map.1 hopens
  obtain ⟨visit, hvisit, hnode⟩ : ∃ visit ∈ s.visits, visit.node? = some part.1 := by
    rw [← List.mem_filterMap, hvisits]
    exact List.mem_map_of_mem hpart
  cases visit with
  | block => cases hnode
  | command depth c =>
    -- The token is no command's name.
    obtain ⟨before, after, earlier, later, item, ho⟩ := hs.exists_occurrence hvisit
    obtain ⟨⟨name, rest, hitem, hname⟩, -, hextent⟩ := Item.exists_of_outline ho.outline
    have hc : c.node = part.1 := Option.some.inj hnode
    rw [← hc, hextent] at hfirst
    rw [← Array.getElem?_toList, ho.tokens, hitem, ← hfirst] at ht
    obtain rfl : name = t := by simpa using ht
    rw [hname] at hk
    cases hk
  | redirection depth r =>
    have hr : r.node = part.1 := Option.some.inj hnode
    obtain ⟨d, c, hvisited, hmem⟩ := owned_of_commandVisits 0 s.commands hvisit
    exact ⟨d, c, r, hvisited, hmem, by rw [Redirection.head, hr, hfirst]⟩

end CommandShell.Script
