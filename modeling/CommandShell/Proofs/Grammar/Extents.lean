import CommandShell.Proofs.Grammar.Concatenation

namespace CommandShell.Script

-- A node whose extent has the node's arguments and the start of every block in it.
structure Node.Encloses (n : Node) : Prop where
  extent : n.extent.first ≤ n.extent.last
  args : ∀ range ∈ n.args, n.extent.first ≤ range.first ∧ range.last ≤ n.extent.last
  blocks : ∀ range ∈ n.blocks, n.extent.first ≤ range.first ∧ range.first ≤ n.extent.last

theorem Node.Encloses.contains_of_argsOf {n : Node} (hn : n.Encloses) {s : Script} {i : Nat}
    (h : n.firstArg ≤ i ∧ i < n.firstArg + (s.argsOf n).length) : n.extent.contains i = true := by
  cases ha : n.args with
  | none => simp [argsOf, Node.firstArg, ha] at h
  | some range =>
    have hrange := hn.args range ha
    simp only [argsOf, Node.firstArg, ha, Option.map_some, Option.getD_some, List.length_map,
      List.length_range'] at h
    simp only [Range.contains, Bool.and_eq_true, decide_eq_true_eq]
    omega

namespace Derivation

variable {first : Nat}

theorem Block.length_pos (block : Block) : 0 < block.tokens.length := by
  cases block with
  | mk => simp [Block.tokens]

-- Blocks start among their tokens.
theorem first_of_mem_ranges {blocks : List Block} {range : Range}
    (hr : range ∈ ranges first (blocks.map (·.tokens.length))) :
    first ≤ range.first ∧ range.first < first + (blocksTokens blocks).length := by
  induction blocks generalizing first with
  | nil => cases hr
  | cons block rest ih =>
    have hpos := block.length_pos
    rw [blocksTokens, List.length_append]
    rw [List.map_cons, ranges, List.mem_cons] at hr
    rcases hr with rfl | hr
    · dsimp only
      omega
    · have hrest := ih hr
      omega

theorem encloses_commandNode (first : Nat) (args : List Arg) (blocks : List Block)
    (list : List Redirected) : (commandNode first args blocks list).Encloses := by
  refine ⟨?_, ?_, ?_⟩
  · simp only [commandNode]
    omega
  · intro range hr
    simp only [commandNode, rangeOf, Option.mem_def] at hr
    split at hr
    · cases hr
    · cases hr
      simp only [commandNode]
      omega
  · intro range hr
    have hfirst := first_of_mem_ranges hr
    simp only [commandNode]
    omega

-- Redirections as they were derived, whose nodes have what belongs to them.
def AllEnclose (redirections : List Redirection) : Prop :=
  ∀ r ∈ redirections, r.node.Encloses

theorem allEnclose_redirectedOutline (first : Nat) (list : List Redirected) :
    AllEnclose (redirectedOutline first list) := by
  induction list generalizing first with
  | nil => exact nofun
  | cons redirected rest ih =>
    obtain ⟨name, kind, args, blocks⟩ := redirected
    intro r hr
    rw [redirectedOutline, List.mem_cons] at hr
    rcases hr with rfl | hr
    · exact encloses_commandNode first args blocks []
    · exact ih _ r hr

mutual

-- Every command on the way through a part has redirections of that part.
theorem Item.allEnclose_of_visited (depth first : Nat) {d : Nat} {c : Command} : (item : Item) →
    Visit.command d c ∈ commandVisits depth (item.outline first) → AllEnclose c.redirections
  | .separator _ _, h => nomatch h
  | .command name kind args blocks list, h => by
    rw [Item.outline, commandVisits, commandVisits, List.append_nil, Command.visits, List.mem_cons,
      List.mem_append] at h
    rcases h with h | h | h
    · cases h
      exact allEnclose_redirectedOutline _ list
    · exact allEnclose_of_blockVisits depth _ blocks h
    · exact allEnclose_of_redirectionVisits (depth + 1) _ list h

theorem Redirected.allEnclose_of_visited (depth first : Nat) {d : Nat} {c : Command} :
    (redirected : Redirected) →
    Visit.command d c ∈ (redirected.outline first).visits depth → AllEnclose c.redirections
  | .mk name kind args blocks, h => by
    rw [Redirected.outline, Redirection.visits, List.mem_cons] at h
    rcases h with h | h
    · cases h
    · exact allEnclose_of_blockVisits depth _ blocks h

theorem Block.allEnclose_of_visited (depth first : Nat) {d : Nat} {c : Command} :
    (block : Block) →
    Visit.command d c ∈ commandVisits depth (block.outline first) → AllEnclose c.redirections
  | .mk _ _ body _ _, h => allEnclose_of_commandVisits depth (first + 1) body h

theorem allEnclose_of_commandVisits (depth first : Nat) {d : Nat} {c : Command} :
    (items : List Item) →
    Visit.command d c ∈ commandVisits depth (itemsOutline first items) → AllEnclose c.redirections
  | [], h => nomatch h
  | item :: rest, h => by
    rw [itemsOutline, commandVisits_append, List.mem_append] at h
    rcases h with h | h
    · exact item.allEnclose_of_visited depth first h
    · exact allEnclose_of_commandVisits depth _ rest h

theorem allEnclose_of_blockVisits (depth first : Nat) {d : Nat} {c : Command} :
    (blocks : List Block) →
    Visit.command d c ∈ blockVisits depth (blocksOutline first blocks) → AllEnclose c.redirections
  | [], h => nomatch h
  | block :: rest, h => by
    rw [blocksOutline, blockVisits, List.mem_cons, List.mem_append] at h
    rcases h with h | h | h
    · cases h
    · exact block.allEnclose_of_visited (depth + 1) first h
    · exact allEnclose_of_blockVisits depth _ rest h

theorem allEnclose_of_redirectionVisits (depth first : Nat) {d : Nat} {c : Command} :
    (list : List Redirected) →
    Visit.command d c ∈ redirectionVisits depth (redirectedOutline first list) →
    AllEnclose c.redirections
  | [], h => nomatch h
  | redirected :: rest, h => by
    rw [redirectedOutline, redirectionVisits, List.mem_append] at h
    rcases h with h | h
    · exact redirected.allEnclose_of_visited depth first h
    · exact allEnclose_of_redirectionVisits depth _ rest h

end

end Derivation

-- In a script that was read, the tokens of a redirection are within its extent.
theorem Built.encloses_of_visited {s : Script} (hs : s.Built) {depth : Nat} {c : Command}
    (hc : Visit.command depth c ∈ s.visits) {r : Redirection} (hr : r ∈ c.redirections) :
    r.node.Encloses := by
  obtain ⟨items, hi⟩ := hs.exists_items
  rw [visits, (hs.commands_eq hi).1] at hc
  exact Derivation.allEnclose_of_commandVisits 0 0 items hc r hr

-- A text that reads as a script of which something is known.
theorem exists_of_tokenize {α : Type} {text : String} {f : Script → α} {a : α}
    (h : (tokenize text).toOption.map f = some a) : ∃ s, tokenize text = .ok s ∧ f s = a := by
  cases ht : tokenize text with
  | error e =>
    rw [ht] at h
    cases h
  | ok s =>
    rw [ht] at h
    exact ⟨s, rfl, Option.some.inj h⟩

-- A text that reads as a single command, which is met first, with what a function gives for it.
theorem exists_command_of_tokenize {α : Type} {text : String} {f : Script → Command → α} {a : α}
    (h : (tokenize text).toOption.map (fun s => s.commands.map (f s)) = some [a]) :
    ∃ s c, tokenize text = .ok s ∧ s.commands = [c] ∧ Visit.command 0 c ∈ s.visits ∧ f s c = a := by
  obtain ⟨s, hs, hcommands⟩ := exists_of_tokenize h
  obtain ⟨c, hc, hf⟩ := List.map_eq_singleton_iff.1 hcommands
  refine ⟨s, c, hs, hc, ?_, hf⟩
  obtain ⟨node, blocks, redirections⟩ := c
  simp [visits, hc, commandVisits, Command.visits]

end CommandShell.Script
