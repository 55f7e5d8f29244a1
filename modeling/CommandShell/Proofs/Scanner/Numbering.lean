import CommandShell.Proofs.Scanner.Replaying
import Mathlib.Data.List.Pairwise
import Mathlib.Logic.Relation

namespace CommandShell.Script

open Scanner (loaded)
open Text (width)

-- The tokens that are numbered: all but separators and braces.
def counted (tokens : List Token) : List Token := tokens.filter fun t => !t.kind.isStructural

-- Tokens of a list that a chain of touching pieces links.
def Linked (tokens : List Token) : Token → Token → Prop :=
  Relation.EqvGen fun t u => t ∈ tokens ∧ u ∈ tokens ∧ t.touches u = true

-- How the tokens of a script are numbered: from 1 on, with the next number for each token but for
-- a piece that touches the piece before it, and without a number for separators and braces.
structure Numbered (script : Script) : Prop where
  structural : ∀ t ∈ script.tokens.toList, t.kind.isStructural = true → t.group = 0
  first : ∀ t ∈ (counted script.tokens.toList).head?, t.group = 1
  next : (counted script.tokens.toList).IsChain fun t u =>
    u.group = if t.touches u then t.group else t.group + 1
  shared : ∀ t ∈ script.tokens.toList, ∀ u ∈ script.tokens.toList,
    t.kind.isArgument = true → u.kind.isArgument = true →
      (t.group = u.group ↔ Linked script.tokens.toList t u)
  gapless : ∀ node ∈ script.nodes, ∀ t ∈ script.argsOf node, ∀ u ∈ script.argsOf node, ∀ group,
    t.group ≤ group → group ≤ u.group → ∃ v ∈ script.argsOf node, v.group = group

section Lists

variable {tokens : List Token} {t u : Token}

theorem mem_counted : t ∈ counted tokens ↔ t ∈ tokens ∧ t.kind.isStructural = false := by
  simp [counted]

theorem counted_append (tokens more : List Token) :
    counted (tokens ++ more) = counted tokens ++ counted more :=
  List.filter_append ..

theorem isStructural_of_isArgument {kind : TokenKind} (h : kind.isArgument = true) :
    kind.isStructural = false :=
  isStructural_of_isPiece (isPiece_of_isArgument h)

theorem isArgument_of_touches (h : t.touches u = true) :
    t.kind.isArgument = true ∧ u.kind.isArgument = true ∧ t.span.stop = u.span.start := by
  simpa [Token.touches, and_assoc] using h

-- A relation of tokens one behind the other that can be composed holds along a list.
theorem pairwise_of_counts {R : Token → Token → Prop} (htrans : ∀ {t u v}, R t u → R u v → R t v)
    (h : tokens.IsChain Token.Counts) (hs : ∀ t ∈ tokens, t.kind.isStructural = false)
    (hr : ∀ t ∈ tokens, ∀ u ∈ tokens,
      u.group = (if t.touches u then t.group else t.group + 1) → R t u) :
    tokens.Pairwise R := by
  have : Trans R R R := ⟨htrans⟩
  refine List.isChain_iff_pairwise.1 (h.imp_of_mem_imp fun t u ht hu hc => ?_)
  exact hr t ht u hu (hc (hs t ht) (hs u hu))

-- Numbers never go down, and only along touching pieces they stay the same.
theorem pairwise_linked (h : tokens.IsChain Token.Counts)
    (hs : ∀ t ∈ tokens, t.kind.isStructural = false) :
    tokens.Pairwise fun t u => t.group ≤ u.group ∧ (t.group = u.group → Linked tokens t u) := by
  refine pairwise_of_counts ?_ h hs fun t ht u hu hg => ?_
  · rintro t u v ⟨htu, hlinked⟩ ⟨huv, hlinked'⟩
    refine ⟨htu.trans huv, fun he => .trans _ _ _ (hlinked ?_) (hlinked' ?_)⟩ <;> omega
  · by_cases htouch : t.touches u = true
    · rw [if_pos htouch] at hg
      exact ⟨hg.ge, fun _ => .rel _ _ ⟨ht, hu, htouch⟩⟩
    · rw [if_neg htouch] at hg
      exact ⟨by omega, fun he => by omega⟩

-- Of two tokens of a list one stands behind the other, unless they are the same.
theorem eq_or_rel_of_pairwise {R : Token → Token → Prop} (h : tokens.Pairwise R) (ht : t ∈ tokens)
    (hu : u ∈ tokens) : t = u ∨ R t u ∨ R u t := by
  induction h with
  | nil => cases ht
  | cons hfirst _ ih =>
    rcases List.mem_cons.1 ht with rfl | htail <;> rcases List.mem_cons.1 hu with rfl | hutail
    · exact .inl rfl
    · exact .inr (.inl (hfirst u hutail))
    · exact .inr (.inr (hfirst t htail))
    · exact ih htail hutail

theorem linked_of_group (h : tokens.IsChain Token.Counts)
    (hs : ∀ t ∈ tokens, t.kind.isStructural = false) (ht : t ∈ tokens) (hu : u ∈ tokens)
    (he : t.group = u.group) : Linked tokens t u := by
  rcases eq_or_rel_of_pairwise (pairwise_linked h hs) ht hu with rfl | hr | hr
  · exact .refl t
  · exact hr.2 he
  · exact .symm _ _ (hr.2 he.symm)

-- Between the numbers of two tokens there is no number that no token has.
theorem exists_group (h : tokens.IsChain Token.Counts)
    (hs : ∀ t ∈ tokens, t.kind.isStructural = false) (ht : t ∈ tokens) (hu : u ∈ tokens)
    {group : Nat} (hl : t.group ≤ group) (hr : group ≤ u.group) :
    ∃ v ∈ tokens, v.group = group := by
  have hpairwise : tokens.Pairwise fun t u => t.group ≤ u.group ∧
      ∀ group, t.group ≤ group → group ≤ u.group → ∃ v ∈ tokens, v.group = group := by
    refine pairwise_of_counts ?_ h hs fun t ht u hu hg => ?_
    · rintro t u v ⟨htu, hfirst⟩ ⟨huv, hlast⟩
      refine ⟨htu.trans huv, fun group hl hr => ?_⟩
      rcases Nat.le_total group u.group with hm | hm
      · exact hfirst group hl hm
      · exact hlast group hm hr
    · have hstep : u.group = t.group ∨ u.group = t.group + 1 := by
        split at hg
        · exact .inl hg
        · exact .inr hg
      refine ⟨by omega, fun group hl hr => ?_⟩
      rcases Nat.eq_or_lt_of_le hl with he | hlt
      · exact ⟨t, ht, he⟩
      · exact ⟨u, hu, by omega⟩
  rcases eq_or_rel_of_pairwise hpairwise ht hu with rfl | ⟨-, hbetween⟩ | ⟨hle, -⟩
  · exact ⟨t, ht, by omega⟩
  · exact hbetween group hl hr
  · exact ⟨t, ht, by omega⟩

-- Pieces that touch stand one behind the other, in tokens that do not overlap.
theorem group_of_touches (h : tokens.IsChain Token.Counts)
    (ho : tokens.Pairwise fun t u => t.span.start < u.span.start ∧ t.span.stop ≤ u.span.start)
    (hp : ∀ t ∈ tokens, t.span.start < t.span.stop) (ht : t ∈ tokens) (hu : u ∈ tokens)
    (htouch : t.touches u = true) : u.group = t.group := by
  obtain ⟨hta, hua, hstop⟩ := isArgument_of_touches htouch
  have htaken := hp t ht
  obtain ⟨before, after, rfl⟩ := List.append_of_mem ht
  obtain ⟨-, hafter, hbefore⟩ := List.pairwise_append.1 ho
  obtain ⟨hbehind, hafter⟩ := List.pairwise_cons.1 hafter
  rcases List.mem_append.1 hu with hu | hu
  · have hle := hbefore u hu t (List.mem_cons_self ..)
    omega
  rcases List.mem_cons.1 hu with rfl | hu
  · omega
  cases after with
  | nil => cases hu
  | cons v after =>
    rcases List.mem_cons.1 hu with rfl | hu
    · have hc := (List.isChain_cons_cons.1 (List.isChain_append.1 h).2.1).1
      simpa [htouch] using hc (isStructural_of_isArgument hta) (isStructural_of_isArgument hua)
    · -- A token between them would have to be empty.
      have hv := hbehind v (List.mem_cons_self ..)
      have hle := (List.pairwise_cons.1 hafter).1 u hu
      have htaken' := hp v (by simp)
      omega

theorem group_of_linked (hr : ∀ t ∈ tokens, ∀ u ∈ tokens, t.touches u = true → u.group = t.group)
    (h : Linked tokens t u) : t.group = u.group := by
  induction h with
  | rel t u hl => exact (hr t hl.1 u hl.2.1 hl.2.2).symm
  | refl => rfl
  | symm _ _ _ ih => exact ih.symm
  | trans _ _ _ _ _ ih ih' => exact ih.trans ih'

end Lists

namespace Scanner

variable {s s' : Scanner} {kind : TokenKind} {gap piece rest cs text : List Char} {t : Token}
  {tree : Tree} {position : Position} {id : Option Nat}

-- What the scanner knows of the tokens that are numbered: it has the number of the last one, and its
-- end as long as nothing was read behind it.
structure Numbers (s : Scanner) : Prop where
  first : ∀ t ∈ (counted s.tree.tokens.toList).head?, t.group = 1
  next : (counted s.tree.tokens.toList).IsChain Token.Counts
  group : s.group = ((counted s.tree.tokens.toList).getLast?.map (·.group)).getD 0
  behind : ∀ t ∈ (counted s.tree.tokens.toList).getLast?, t.span.stop ≤ s.offset
  pieceEnd :
    (∃ t ∈ (counted s.tree.tokens.toList).getLast?,
      t.kind.isArgument = true ∧ s.pieceEnd = some t.span.stop) ∨
    (s.pieceEnd = none ∧ ∀ t ∈ (counted s.tree.tokens.toList).getLast?,
      t.kind.isArgument = true → t.span.stop < s.offset)

theorem numbers_loaded (text : String) : (loaded .command text).Numbers := by
  refine ⟨?_, ?_, rfl, ?_, .inr ⟨rfl, ?_⟩⟩ <;> simp [loaded, starting, counted]

namespace Numbers

-- Whether a token touches the one before it can be told from the end of the last piece.
theorem touches_tokenAt (h : s.Numbers) (ht : t ∈ (counted s.tree.tokens.toList).getLast?) :
    t.touches (s.tokenAt kind gap piece text) = true ↔
      kind.isArgument = true ∧ s.pieceEnd = some (s.offset + width gap) := by
  rcases h.pieceEnd with ⟨u, hu, ha, hp⟩ | ⟨hp, hlt⟩
  · obtain rfl := Option.mem_unique ht hu
    simp only [Token.touches, ha, Bool.true_and, Bool.and_eq_true, decide_eq_true_eq]
    simp [tokenAt, hp]
  · refine iff_of_false (fun htouch => ?_) (by simp [hp])
    obtain ⟨ha, -, hs⟩ := isArgument_of_touches htouch
    have hstop := hlt t ht ha
    simp only [tokenAt] at hs
    omega

theorem counts_tokenAt (h : s.Numbers) (text : List Char)
    (ht : t ∈ (counted s.tree.tokens.toList).getLast?) :
    t.Counts (s.tokenAt kind gap piece text) := by
  intro _ hk
  have hk' : kind.isStructural = false := hk
  have hgroup : s.group = t.group := by
    rw [h.group, Option.mem_def.1 ht]
    rfl
  simp only [h.touches_tokenAt ht]
  simp [tokenAt, nextGroup, hk', hgroup]

-- The first token that is numbered begins the first group.
theorem nextGroup_of_nil (h : s.Numbers) (hn : counted s.tree.tokens.toList = [])
    (hk : kind.isStructural = false) (start : Nat) : s.nextGroup kind start = 1 := by
  have hgroup : s.group = 0 := by
    rw [h.group, hn]
    rfl
  have hpiece : s.pieceEnd = none := by
    rcases h.pieceEnd with ⟨u, hu, -⟩ | ⟨hp, -⟩
    · simp [hn] at hu
    · exact hp
  simp [nextGroup, hk, hgroup, hpiece]

-- A separator or a brace has no number, and the last piece is no longer touched.
theorem of_structural (h : s.Numbers) (hk : kind.isStructural = true) (hp : piece ≠ [])
    (hsame : counted tree.tokens.toList = counted s.tree.tokens.toList) :
    Numbers { (s.marked kind gap piece rest).advance piece rest with tree, position } := by
  have hpos := Text.width_pos hp
  have hplain : kind.isArgument = false := by
    by_contra ha
    rw [isStructural_of_isArgument (by simpa using ha)] at hk
    cases hk
  have hbehind : ∀ t ∈ (counted tree.tokens.toList).getLast?,
      t.span.stop < s.offset + width gap + width piece := by
    intro t ht
    rw [hsame] at ht
    have hle := h.behind t ht
    omega
  refine ⟨?_, ?_, ?_, fun t ht => (hbehind t ht).le, .inr ⟨?_, fun t ht _ => hbehind t ht⟩⟩
  · simpa only [hsame] using h.first
  · simpa only [hsame] using h.next
  · simpa [hsame, advance, marked, nextGroup, hk] using h.group
  · simp [advance, marked, hplain]

-- Any other token gets the number that the scanner has next.
theorem of_counted (h : s.Numbers) (hk : kind.isStructural = false)
    (hall : counted tree.tokens.toList =
      counted s.tree.tokens.toList ++ [{ s.tokenAt kind gap piece text with node := id }]) :
    Numbers { (s.marked kind gap piece rest).advance piece rest with tree, position } := by
  have hlast : (counted tree.tokens.toList).getLast? =
      some { s.tokenAt kind gap piece text with node := id } := by
    rw [hall, List.getLast?_concat]
  refine ⟨?_, ?_, ?_, ?_, ?_⟩ <;> dsimp only
  · intro t ht
    rw [hall] at ht
    cases hn : counted s.tree.tokens.toList with
    | nil =>
      rw [hn] at ht
      obtain rfl := Option.some.inj ht
      simpa [tokenAt, hk] using h.nextGroup_of_nil hn hk _
    | cons u more =>
      rw [hn] at ht
      exact h.first t (by rw [hn]; exact ht)
  · rw [hall, List.isChain_append]
    refine ⟨h.next, .singleton _, fun t ht u hu => ?_⟩
    obtain rfl : _ = u := by simpa using hu
    exact h.counts_tokenAt text ht
  · rw [hlast]
    simp [advance, marked, tokenAt, hk]
  · rw [hlast]
    rintro t ⟨⟩
    simp [advance, marked, tokenAt]
  · rw [hlast]
    by_cases ha : kind.isArgument = true
    · exact .inl ⟨_, rfl, ha, by simp [advance, marked, tokenAt, ha]⟩
    · refine .inr ⟨by simp [advance, marked, ha], ?_⟩
      rintro t ⟨⟩ ha'
      exact absurd ha' ha

theorem of_reads (h : s.Numbers) (hr : s.Reads cs s') : s'.Numbers := by
  cases hr with
  | skip front rest split passed =>
    refine ⟨h.first, h.next, h.group, fun t ht => ?_, h.pieceEnd.imp_right fun hp => ?_⟩
    · exact Nat.le_trans (h.behind t ht) (Nat.le_add_right _ _)
    · exact ⟨hp.1, fun t ht ha => Nat.lt_of_lt_of_le (hp.2 t ht ha) (Nat.le_add_right _ _)⟩
  | token kind gap piece text rest tree split taken introduced spelled inserted =>
    obtain ⟨id, hid⟩ := Tree.tokens_of_insert inserted
    have hall : counted tree.tokens.toList = counted s.tree.tokens.toList ++
        counted [{ s.tokenAt kind gap piece text with node := id }] := by
      rw [← counted_append, hid, Array.toList_push]
    cases hk : kind.isStructural with
    | true => exact h.of_structural hk taken (by simpa [counted, tokenAt, hk] using hall)
    | false =>
      have hone : counted tree.tokens.toList = counted s.tree.tokens.toList ++
          [{ s.tokenAt kind gap piece text with node := id }] := by
        simpa [counted, tokenAt, hk] using hall
      exact h.of_counted hk hone

theorem of_scan (h : s.Numbers) (hs : s.scan = (s', none)) : s'.Numbers := by
  fun_induction scan s with
  | case1 =>
    cases hs
    exact h
  | case2 s c cs _ next hstep _ ih => exact ih (h.of_reads (reads_of_step hstep)) hs
  | case3 =>
    cases hs
    exact ⟨h.first, h.next, h.group, h.behind, h.pieceEnd⟩
  | case4 => cases hs

end Numbers

end Scanner

theorem numbered_of_tokenize {text : String} {script : Script} (h : tokenize text = .ok script) :
    Numbered script := by
  have hcovers := covers_of_tokenize h
  have hstructural := group_of_tokenize h
  obtain ⟨s, hs, hm, rfl⟩ := scan_complete_of_tokenize h
  have hnumbers := (Scanner.numbers_loaded text).of_scan hs
  have hplain : ∀ t ∈ counted s.tree.tokens.toList, t.kind.isStructural = false :=
    fun t ht => (mem_counted.1 ht).2
  have hmem : ∀ t ∈ s.tree.tokens.toList, t.kind.isArgument = true →
      t ∈ counted s.tree.tokens.toList :=
    fun t ht ha => mem_counted.2 ⟨ht, isStructural_of_isArgument ha⟩
  refine ⟨hstructural, hnumbers.first, ?_, ?_, ?_⟩
  · exact hnumbers.next.imp_of_mem_imp fun t u ht hu hc => hc (hplain t ht) (hplain u hu)
  · intro t ht u hu hta hua
    refine ⟨fun he => ?_, group_of_linked fun v hv w hw htouch => ?_⟩
    · have hlinked := linked_of_group hnumbers.next hplain (hmem t ht hta) (hmem u hu hua) he
      exact hlinked.mono fun v w hr =>
        ⟨(mem_counted.1 hr.1).1, (mem_counted.1 hr.2.1).1, hr.2.2⟩
    · obtain ⟨hva, hwa, -⟩ := isArgument_of_touches htouch
      refine group_of_touches hnumbers.next (hcovers.ordered.filter _) (fun x hx => ?_)
        (hmem v hv hva) (hmem w hw hwa) htouch
      exact (hcovers.placed x (mem_counted.1 hx).1).taken
  · intro node hn t ht u hu group hl hr
    have hargued := argued_of_finish (grouped_of_scan hs)
      (by rw [Scanner.finish_of_expectMore hm]) node hn
    exact exists_group hargued.counted (fun v hv => isStructural_of_isPiece (hargued.pieces v hv))
      ht hu hl hr

-- A piece in quotes that touches, an option, a separator in front of a name in two pieces, and a
-- brace behind which the numbers go on.
theorem numbered_of_tokenize_pieces :
    let text := "a b'c' -d 'e';f'g' | h \x7b\ni \x7d"
    ∃ script, tokenize text = .ok script ∧
      script.tokens.toList.map (fun t => (t.text, t.group)) =
        [("a", 1), ("b", 2), ("c", 2), ("-d", 3), ("e", 4), (";", 0), ("fg", 5), ("h", 6),
          ("\x7b", 0), ("\n", 0), ("i", 7), ("\x7d", 0)] ∧
      Numbered script := by
  intro text
  have hk : (tokenize text).toOption.map
      (fun s => s.tokens.toList.map fun t => (t.text, t.group)) =
        some [("a", 1), ("b", 2), ("c", 2), ("-d", 3), ("e", 4), (";", 0), ("fg", 5), ("h", 6),
          ("\x7b", 0), ("\n", 0), ("i", 7), ("\x7d", 0)] := by decide +kernel
  cases h : tokenize text with
  | error e =>
    rw [h] at hk
    cases hk
  | ok script =>
    rw [h] at hk
    exact ⟨script, rfl, Option.some.inj hk, numbered_of_tokenize h⟩

end CommandShell.Script
