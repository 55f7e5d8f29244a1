import CommandShell.Proofs.Grammar.Arguments
import CommandShell.Proofs.Scanner.Continuation
import Mathlib.Data.List.Chain

namespace CommandShell.Script

namespace Token

-- Two pieces of arguments with nothing between them.
def touches (t u : Token) : Bool :=
  t.kind.isArgument && u.kind.isArgument && t.span.stop = u.span.start

-- How the groups go on from a token to the next one: a piece that touches the piece before it
-- belongs to its group, everything else that is counted starts the next group.
def Counts (t u : Token) : Prop :=
  t.kind.isStructural = false → u.kind.isStructural = false →
    u.group = if t.touches u then t.group else t.group + 1

end Token

open Text (width)

-- The tokens that were read so far: they were taken in from an empty tree on, their groups are
-- counted without a gap, and the scanner knows the last one.
structure Grouped (s : Scanner) : Prop where
  built : ∃ tokens, Tree.insertAll {} tokens = .ok s.tree
  rooted : s.tree.Rooted
  counted : s.tree.tokens.toList.IsChain Token.Counts
  positive : ∀ t ∈ s.tree.tokens.toList, t.kind.isPiece = true → 0 < t.group
  group : ∀ t ∈ s.tree.tokens.toList.getLast?, t.kind.isStructural = false → s.group = t.group
  pieceEnd : s.pieceEnd = s.tree.tokens.toList.getLast?.bind fun t =>
    if t.kind.isArgument then some t.span.stop else none

theorem isStructural_of_isPiece {kind : TokenKind} (h : kind.isPiece = true) :
    kind.isStructural = false := by
  cases kind <;> first | rfl | cases h

theorem isPiece_of_isArgument {kind : TokenKind} (h : kind.isArgument = true) :
    kind.isPiece = true := by
  simp [TokenKind.isPiece, h]

theorem grouped_starting (mode : Mode) : Grouped (Scanner.starting mode) := by
  cases mode with
  | command =>
    refine ⟨⟨[], rfl⟩, ?_, ?_, ?_, ?_, rfl⟩ <;> simp [Scanner.starting, Tree.Rooted]
  | arguments =>
    refine ⟨⟨[⟨.command, "", ⟨0, 0⟩, 1, 0, none⟩], rfl⟩, ?_, ?_, ?_, ?_, rfl⟩ <;>
      simp [Scanner.starting, Tree.headed, Tree.Rooted, TokenKind.isPiece, TokenKind.isArgument]

namespace Grouped

variable {s s' : Scanner} {kind : TokenKind} {gap piece cs : List Char} {t : Token}

theorem pieceEnd_of_getLast? (h : Grouped s) (ht : t ∈ s.tree.tokens.toList.getLast?) :
    s.pieceEnd = if t.kind.isArgument then some t.span.stop else none := by
  rw [h.pieceEnd, Option.mem_def.1 ht, Option.bind_some]

theorem exists_of_pieceEnd {stop : Nat} (h : Grouped s) (hp : s.pieceEnd = some stop) :
    ∃ t ∈ s.tree.tokens.toList.getLast?, t.kind.isArgument = true := by
  rw [h.pieceEnd] at hp
  obtain ⟨t, ht, hs⟩ := Option.bind_eq_some_iff.1 hp
  refine ⟨t, ht, ?_⟩
  by_cases ha : t.kind.isArgument = true
  · exact ha
  · rw [if_neg ha] at hs
    cases hs

-- The next token goes on from the last one.
theorem counts_tokenAt (h : Grouped s) (text : List Char)
    (ht : t ∈ s.tree.tokens.toList.getLast?) : t.Counts (s.tokenAt kind gap piece text) := by
  intro hs hk
  have hk' : kind.isStructural = false := hk
  simp only [Scanner.tokenAt, Scanner.nextGroup, hk', Token.touches, h.group t ht hs,
    h.pieceEnd_of_getLast? ht]
  cases t.kind.isArgument <;> simp

theorem nextGroup_pos {start : Nat} (h : Grouped s) (hk : kind.isPiece = true) :
    0 < s.nextGroup kind start := by
  simp only [Scanner.nextGroup, isStructural_of_isPiece hk]
  by_cases hg : kind.isArgument = true ∧ s.pieceEnd = some start
  · obtain ⟨t, ht, ha⟩ := h.exists_of_pieceEnd hg.2
    have hp := isPiece_of_isArgument ha
    have hpos := h.positive t (List.mem_of_getLast? ht) hp
    simpa [hg, h.group t ht (isStructural_of_isPiece hp)] using hpos
  · simp [hg]

-- Reading a construct to its end keeps the groups.
theorem of_reads (h : Grouped s) (hr : s.Reads cs s') : Grouped s' := by
  cases hr with
  | skip => exact ⟨h.built, h.rooted, h.counted, h.positive, h.group, h.pieceEnd⟩
  | token kind gap piece text rest tree split taken introduced spelled inserted =>
    obtain ⟨tokens, built⟩ := h.built
    obtain ⟨id, htokens⟩ := Tree.tokens_of_insert inserted
    have hall : tree.tokens.toList =
        s.tree.tokens.toList ++ [{ s.tokenAt kind gap piece text with node := id }] := by
      simp [htokens]
    have hbuilt : Tree.insertAll {} (tokens ++ [s.tokenAt kind gap piece text]) = .ok tree := by
      rw [Tree.insertAll_concat built, inserted]
    refine ⟨⟨_, hbuilt⟩, h.rooted.insert inserted, ?_, ?_, ?_, ?_⟩
    · dsimp only
      rw [hall, List.isChain_append]
      refine ⟨h.counted, .singleton _, fun t ht u hu => ?_⟩
      obtain rfl : _ = u := by simpa using hu
      exact h.counts_tokenAt text ht
    · intro t ht hk
      dsimp only at ht
      rw [hall, List.mem_append, List.mem_singleton] at ht
      rcases ht with ht | rfl
      · exact h.positive t ht hk
      · have hk' : kind.isPiece = true := hk
        simpa [Scanner.tokenAt, isStructural_of_isPiece hk'] using h.nextGroup_pos hk'
    · intro t ht hk
      dsimp only at ht
      rw [hall, List.getLast?_concat, Option.mem_some] at ht
      subst ht
      have hk' : kind.isStructural = false := hk
      simp [Scanner.advance, Scanner.marked, Scanner.tokenAt, hk']
    · dsimp only
      rw [hall, List.getLast?_concat]
      simp [Scanner.advance, Scanner.marked, Scanner.tokenAt]

theorem of_scan (h : Grouped s) (hs : s.scan = (s', none)) : Grouped s' := by
  fun_induction Scanner.scan s with
  | case1 =>
    cases hs
    exact h
  | case2 s c cs _ next hstep _ ih => exact ih (h.of_reads (Scanner.reads_of_step hstep)) hs
  | case3 =>
    cases hs
    exact ⟨h.built, h.rooted, h.counted, h.positive, h.group, h.pieceEnd⟩
  | case4 => cases hs

theorem of_feed {line : String} (h : Grouped s) (hf : s.feed line = (s', none)) : Grouped s' := by
  refine of_scan ?_ hf
  exact ⟨h.built, h.rooted, h.counted, h.positive, h.group, h.pieceEnd⟩

theorem of_feedLines {lines : List String} (h : Grouped s)
    (hf : s.feedLines lines = (s', none)) : Grouped s' := by
  induction lines generalizing s with
  | nil =>
    cases hf
    exact h
  | cons line lines ih =>
    rw [Scanner.feedLines] at hf
    split at hf
    · next next hn => exact ih (h.of_feed hn) hf
    · cases hf

end Grouped

-- The arguments of a node: options and pieces whose groups are counted without a gap.
structure Argued (tokens : List Token) : Prop where
  pieces : ∀ t ∈ tokens, t.kind.isPiece = true
  positive : ∀ t ∈ tokens, 0 < t.group
  counted : tokens.IsChain Token.Counts

theorem argued_of_finish {s : Scanner} {script : Script} (h : Grouped s)
    (hf : s.finish.2 = .ok script) :
    ∀ node ∈ script.nodes, Argued (script.argsOf node) := by
  obtain ⟨tokens, built⟩ := h.built
  obtain ⟨-, hopen, rfl⟩ := Scanner.of_finish_ok hf
  intro node hn
  have hp := Derivation.isPiece_of_argsOf built (Tree.depth_of_innermostOpen? h.rooted hopen)
    node hn
  have hi := Derivation.argsOf_contiguous hp
  exact ⟨hp, fun t ht => h.positive t (hi.subset ht) (hp t ht), h.counted.infix hi⟩

end CommandShell.Script
