import CommandShell.Proofs.Scanner.Decoding
import CommandShell.Proofs.Scanner.Faults

namespace CommandShell.Script

open Text (width)

namespace Tree

variable {t u : Tree} {token : Token} {e : LexError} {f : Node → Node}

-- The innermost block has a head, and arguments may follow it: its node has no blocks yet.
def Receives (t : Tree) : Prop :=
  ∃ id node, t.head.target? = some id ∧ t.nodes[id]? = some node ∧ node.blocks = []

theorem blocks_update (hf : ∀ n, (f n).blocks = n.blocks) (t : Tree) (target id : Nat) :
    (t.update target f).nodes[id]?.map (·.blocks) = t.nodes[id]?.map (·.blocks) := by
  rw [update, Array.getElem?_modify]
  split
  · cases t.nodes[id]? with
    | none => rfl
    | some n => exact congrArg some (hf n)
  · rfl

theorem blocks_reach (t : Tree) (index id : Nat) :
    (t.reach index).nodes[id]?.map (·.blocks) = t.nodes[id]?.map (·.blocks) := by
  rw [reach]
  split
  · rfl
  · exact blocks_update (fun n => by rfl) t _ id
  · rw [blocks_update fun n => by rfl, blocks_update fun n => by rfl]

theorem receives_iff : t.Receives ↔
    ∃ id, t.head.target? = some id ∧ t.nodes[id]?.map (·.blocks) = some [] := by
  simp only [Receives, Option.map_eq_some_iff]
  exact exists_congr fun id => ⟨fun ⟨n, ht, hn⟩ => ⟨ht, n, hn⟩, fun ⟨ht, n, hn⟩ => ⟨n, ht, hn⟩⟩

theorem receives_headed : headed.Receives := ⟨0, .opened 0, rfl, rfl, rfl⟩

-- An argument is taken in, and more of them can follow it.
theorem Receives.exists_insert_piece (h : t.Receives) (hk : token.kind.isPiece = true) :
    ∃ u, t.insert token = .ok u ∧ u.Receives := by
  obtain ⟨id, node, ht, hn, hb⟩ := h
  have hempty : (t.nodes[id]?.map (·.blocks.isEmpty)).getD true = true := by simp [hn, hb]
  refine ⟨((t.update id (·.addArg t.tokens.size)).reach t.tokens.size).push token, ?_,
    receives_iff.2 ⟨id, ?_, ?_⟩⟩
  · rw [insert_of_isPiece hk, ht]
    exact if_pos hempty
  · rw [push, reach_head]
    exact ht
  · rw [push, blocks_reach, blocks_update (fun n => n.addArg_blocks _), hn, Option.map_some, hb]

theorem receives_of_command (hk : token.kind = .command) (h : t.insert token = .ok u) :
    u.Receives := by
  rw [insert_of_command hk] at h
  cases h
  exact ⟨_, _, rfl, Array.getElem?_push_size, rfl⟩

theorem receives_of_redirection (hk : token.kind.isRedirection = true)
    (h : t.insert token = .ok u) : u.Receives := by
  rw [insert_of_isRedirection hk] at h
  split at h
  · cases h
  · next owner _ =>
    cases h
    have hblocks := blocks_update (f := fun n => (n.reach t.tokens.size).addRedirection t.tokens.size)
      (fun _ => rfl) { t with nodes := t.nodes.push (.opened t.tokens.size) } owner t.nodes.size
    refine receives_iff.2 ⟨t.nodes.size, rfl, hblocks.trans ?_⟩
    rw [Array.getElem?_push_size]
    rfl

-- Tokens other than arguments are refused in front of any command, or where no block is open.
theorem of_insert_error (h : t.insert token = .error e) (hk : token.kind.isPiece = false) :
    (e.cause = .emptyCommandHead ∧ (token.kind.isRedirection = true ∨ token.kind = .blockBegin)) ∨
    (e.cause = .blockUnderflow ∧ token.kind = .blockEnd) := by
  rcases token.kind.insert_cases with hs | hs | hs | hs | hs | hs
  · rw [Derivation.insert_separator hs] at h
    cases h
  · rw [insert_of_command hs] at h
    cases h
  · rw [insert_of_isRedirection hs] at h
    split at h
    · cases h
      exact .inl ⟨rfl, .inl hs⟩
    · cases h
  · cases hk.symm.trans hs
  · simp only [insert, hs] at h
    split at h
    · cases h
      exact .inl ⟨rfl, .inr hs⟩
    · cases h
  · simp only [insert, hs] at h
    split at h
    · cases h
      exact .inr ⟨rfl, hs⟩
    · cases h

end Tree

namespace Scanner

variable {s u next : Scanner} {kind : TokenKind} {c : Char} {gap piece rest text cs : List Char}
  {e : LexError} {n : Nat}

-- A scanner in front of a line that is fed to it.
def fed (s : Scanner) (line : String) : Scanner :=
  { s with
    source := s.fedSource line
    rest := s.rest ++ (if s.source = "" then line else "\n" ++ line).toList
    pending := none }

theorem feed_eq_scan_fed (s : Scanner) (line : String) : s.feed line = (s.fed line).scan := rfl

-- Where arguments are read, the tree can take them in.
def Receptive (s : Scanner) : Prop :=
  ∀ options, s.position = .argument options → s.tree.Receives

namespace Receptive

theorem starting (mode : Mode) : (Scanner.starting mode).Receptive := by
  cases mode with
  | command => nofun
  | arguments => exact fun _ _ => Tree.receives_headed

theorem fed (h : s.Receptive) (line : String) : (s.fed line).Receptive := h

theorem receives_of_takes (h : s.Receptive) (hf : s.position.Takes kind)
    (hk : kind.isPiece = true) : s.tree.Receives := by
  cases hp : s.position with
  | command =>
    rw [hp] at hf
    simp [TokenKind.isPiece, hf.1, hf.2] at hk
  | argument options => exact h options hp

-- Every construct keeps the position and the tree in agreement.
theorem of_step (h : s.Receptive) (hs : s.step c cs = .done next) : next.Receptive := by
  have ho := outcome_step s c cs
  generalize s.step c cs = result at hs ho
  cases ho with
  | skip front rest split passed marks =>
    cases hs
    intro options hp
    by_cases hm : front = ['-', '-']
    · exact h true (marks hm)
    · rw [if_neg hm] at hp
      exact h options hp
  | @token kind gap piece rest text slice spelled =>
    rw [emit_eq] at hs
    split at hs
    · cases hs
    next tree hi =>
    cases hs
    intro options hp
    rcases kind.insert_cases with rfl | rfl | hk | hk | rfl | rfl
    · cases hp
    · exact Tree.receives_of_command rfl hi
    · exact Tree.receives_of_redirection hk hi
    · have hreceives := h.receives_of_takes slice.fits hk
      have hpiece : (s.tokenAt kind gap piece text).kind.isPiece = true := hk
      obtain ⟨u, hu, hmore⟩ := hreceives.exists_insert_piece hpiece
      cases hi.symm.trans hu
      exact hmore
    · cases hp
    · cases hp
  | undecoded => cases hs
  | malformed => cases hs
  | wait => cases hs

theorem of_behind (h : s.Receptive) (hn : behind n s = some u) : u.Receptive := by
  induction n generalizing s with
  | zero =>
    cases hn
    exact h
  | succ n ih =>
    obtain ⟨c, cs, next, -, hs, hn⟩ := exists_of_behind hn
    exact ih (h.of_step hs) hn

-- What is refused leaves both as they are.
theorem of_reject (h : s.Receptive) (hr : s.rest = c :: cs) (hs : s.step c cs = .reject next e) :
    next.Receptive := by
  rcases declines_of_step hr hs with ⟨kind, gap, piece, rest, text, -, -, -, rfl⟩ | ⟨rfl, -⟩
  · exact h
  · exact h

theorem scan (h : s.Receptive) : s.scan.1.Receptive := by
  fun_induction Scanner.scan s with
  | case1 => exact h
  | case2 s c cs _ next hs _ ih => exact ih (h.of_step hs)
  | case3 => exact h
  | case4 s c cs hr next e hs => exact h.of_reject hr hs

theorem of_met (h : s.Met) : s.Receptive := by
  induction h with
  | starting mode => exact .starting mode
  | feed _ line ih => exact (ih.fed line).scan
  | @finish s _ ih =>
    simp only [finish]
    split
    · exact ih
    · exact ih
    · exact ih
    · split
      · exact ih
      · exact .starting s.mode
  | reset => exact .starting _

end Receptive

-- A token that is an option or a piece of an argument is taken in wherever one is read.
theorem Receptive.exists_insert (h : s.Receptive) (hs : s.Slice cs kind gap piece rest)
    (hk : kind.isPiece = true) (text : List Char) :
    ∃ tree, s.tree.insert (s.tokenAt kind gap piece text) = .ok tree := by
  have hpiece : (s.tokenAt kind gap piece text).kind.isPiece = true := hk
  obtain ⟨tree, ht, -⟩ := (h.receives_of_takes hs.fits hk).exists_insert_piece hpiece
  exact ⟨tree, ht⟩

end Scanner

-- Whatever was fed before: wherever a word is read as an argument, the innermost block has a head
-- without blocks, and takes the word in.  So no argument is said to stand behind a block, and only
-- redirections and opening braces are said to have no command.
theorem receives_arguments {s : Scanner} (h : s.Met) (line : String) :
    (∀ n u, Scanner.behind n (s.fed line) = some u →
      (∀ options, u.position = .argument options → u.tree.Receives) ∧
      ∀ kind gap piece rest text, u.Slice u.rest kind gap piece rest → kind.isPiece = true →
        ∃ tree, u.tree.insert (u.tokenAt kind gap piece text) = .ok tree) ∧
    ∀ next e, s.feed line = (next, some e) → e.cause ≠ .argumentAfterBlock ∧
      (e.cause = .emptyCommandHead → ∃ n u c cs kind, Scanner.behind n (s.fed line) = some u ∧
        u.rest = c :: cs ∧ u.step c cs = .reject next e ∧ u.Declines kind next e ∧
        (kind.isRedirection = true ∨ kind = .blockBegin)) := by
  have hfed : (s.fed line).Receptive := (Scanner.Receptive.of_met h).fed line
  refine ⟨fun n u hn => ?_, fun next e he => ?_⟩
  · have hu := hfed.of_behind hn
    exact ⟨hu, fun kind gap piece rest text hs hk => hu.exists_insert hs hk text⟩
  rw [Scanner.feed_eq_scan_fed] at he
  obtain ⟨n, u, c, cs, hn, hr, hs⟩ := Scanner.exists_reject_of_scan he
  rcases Scanner.declines_of_step hr hs with ⟨kind, hdeclines⟩ | ⟨-, hc⟩
  · obtain ⟨gap, piece, rest, text, hslice, -, hi, -⟩ := id hdeclines
    have hk : kind.isPiece = false := by
      by_contra hk
      obtain ⟨tree, ht⟩ := (hfed.of_behind hn).exists_insert hslice (by simpa using hk) text
      cases hi.symm.trans ht
    rcases Tree.of_insert_error hi hk with ⟨hc, hkind⟩ | ⟨hc, -⟩
    · exact ⟨by simp [hc], fun _ => ⟨n, u, c, cs, kind, hn, hr, hs, hdeclines, hkind⟩⟩
    · simp [hc]
  · rcases hc with hc | ⟨sequence, hc⟩
    · simp only [LexCause.ofRedirections, List.mem_cons, List.not_mem_nil, or_false] at hc
      rcases hc with hc | hc | hc | hc <;> simp [hc]
    · simp [hc]

-- Behind a redirection that had no command, in a block, an argument is read, and then another
-- redirection without a command.
theorem receives_arguments_after_error :
    let s := ((Scanner.new.feed "a \x7b b \x7d \x7b").1.feed "| c").1
    let line := "d | e 'f'; > g"
    (∃ u, Scanner.behind 6 (s.fed line) = some u ∧ u.position = .argument true ∧
      u.rest = "'f'; > g".toList ∧ u.tree.Receives) ∧
    ∃ (next u : Scanner) (kind : TokenKind),
      s.feed line = (next, some ⟨.emptyCommandHead, ⟨27, 28⟩⟩) ∧
      u.Declines kind next ⟨.emptyCommandHead, ⟨27, 28⟩⟩ ∧
      (kind.isRedirection = true ∨ kind = .blockBegin) := by
  intro s line
  have hmet : s.Met := .feed (.feed (.starting .command) _) _
  have h := receives_arguments hmet line
  refine ⟨?_, ?_⟩
  · have hk : (Scanner.behind 6 (s.fed line)).map (fun u => (u.position, u.rest)) =
        some (.argument true, "'f'; > g".toList) := by decide +kernel
    obtain ⟨u, hu, hp⟩ := Option.map_eq_some_iff.1 hk
    obtain ⟨hposition, hrest⟩ := Prod.mk.inj hp
    exact ⟨u, hu, hposition, hrest, (h.1 6 u hu).1 true hposition⟩
  · have he : (s.feed line).2 = some ⟨.emptyCommandHead, ⟨27, 28⟩⟩ := by decide +kernel
    obtain ⟨n, u, c, cs, kind, -, -, -, hd, hkind⟩ := (h.2 _ _ (Prod.ext rfl he)).2 rfl
    exact ⟨_, u, kind, Prod.ext rfl he, hd, hkind⟩

end CommandShell.Script
