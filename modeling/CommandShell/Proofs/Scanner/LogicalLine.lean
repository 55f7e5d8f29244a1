import CommandShell.Proofs.Grammar.Concatenation
import CommandShell.Proofs.Scanner.Following
import CommandShell.Proofs.Scanner.Grouping
import CommandShell.Proofs.Scanner.Layout

namespace CommandShell.Script

open Text (width)

namespace Scanner

variable {s s' : Scanner} {script : Script} {text first rest : String}

theorem rest_of_scan (h : s.scan = (s', none)) (hp : s'.pending = none) : s'.rest = [] := by
  fun_induction scan s with
  | case1 s hr =>
    cases h
    exact hr
  | case2 _ _ _ _ _ _ _ ih => exact ih h
  | case3 =>
    cases h
    cases hp
  | case4 => cases h

-- What a construct takes and what it leaves make up the text.
theorem split_of_step {c : Char} {cs : List Char} (h : s.step c cs = .done s') :
    ∃ front, c :: cs = front ++ s'.rest ∧ s'.offset = s.offset + width front := by
  cases reads_of_step h with
  | skip front rest split passed => exact ⟨front, split.symm, rfl⟩
  | token kind gap piece text rest tree split taken introduced spelled inserted =>
    refine ⟨gap ++ piece, split.symm, ?_⟩
    simp only [advance, marked, Text.width_append, Nat.add_assoc]

theorem offset_of_scan (h : s.scan = (s', none)) :
    s'.offset + width s'.rest = s.offset + width s.rest := by
  fun_induction scan s with
  | case1 =>
    cases h
    rfl
  | case2 s c cs hr next hs _ ih =>
    obtain ⟨front, hf, ho⟩ := split_of_step hs
    rw [ih h, hr, hf, ho, Text.width_append, Nat.add_assoc]
  | case3 =>
    cases h
    rfl
  | case4 => cases h

theorem mode_of_scan (h : s.scan = (s', none)) : s'.mode = s.mode := by
  fun_induction scan s with
  | case1 =>
    cases h
    rfl
  | case2 s c cs _ next hs _ ih =>
    rw [ih h]
    cases reads_of_step hs <;> rfl
  | case3 =>
    cases h
    rfl
  | case4 => cases h

-- The newline behind a logical line.
def lineEnd (s : Scanner) : Token := s.tokenAt .separator [] ['\n'] ['\n']

-- How the text in the lines behind a logical line goes over to the whole.
def nextLine (s : Scanner) : Motion where
  bytes := s.offset + 1
  lines := s.line
  groups := s.group
  front := s.tree.tokens.toList ++ [s.lineEnd]
  nodes := s.tree.nodes.toList
  related t u := u = t.shift
    ⟨s.offset + 1, s.line, s.group, (s.tree.tokens.toList ++ [s.lineEnd]).length,
      s.tree.nodes.toList.length⟩
  shifted _ := rfl
  kind h := h ▸ rfl
  numbered _ h := h ▸ rfl

-- Behind a complete logical line, reading starts afresh.
theorem follows_of_lineEnd (he : s.tree.enclosing = []) (text : String) :
    ∃ next, (s.resume text).step '\n' text.toList = .done next ∧
      Follows s.nextLine (loaded .command text) next := by
  have hi : s.tree.insert s.lineEnd =
      .ok { s.tree with tokens := s.tree.tokens.push s.lineEnd, head := .none } :=
    Derivation.insert_separator rfl
  have ht : (s.resume text).tokenAt .separator [] ['\n'] ['\n'] = s.lineEnd := rfl
  have htree : (s.resume text).tree = s.tree := rfl
  have hstep : (s.resume text).step '\n' text.toList =
      (s.resume text).emit .separator [] ['\n'] text.toList ['\n'] .command := rfl
  rw [hstep, emit_eq, ht, htree, hi]
  refine ⟨_, rfl, rfl, rfl, ?_, ?_, ?_, ?_, rfl, ?_⟩
  · simp [marked, advance, loaded, starting, nextLine, resume]
    rfl
  · simp [marked, advance, loaded, starting, nextLine, resume, Text.countLines, Nat.add_comm]
  · simp [marked, advance, loaded, starting, nextLine, resume, nextGroup, TokenKind.isStructural]
  · simp [marked, advance, loaded, starting, TokenKind.isArgument]
  · refine ⟨⟨[], by simp [nextLine], .nil⟩, by simp [nextLine, loaded, starting], rfl, ?_⟩
    simp [loaded, starting, he]

theorem complete_of_expectMore (h : s.expectMore = false) :
    s.pending = none ∧ s.tree.enclosing = [] := by
  simpa [expectMore, Tree.depth] using h

-- A complete logical line can be closed.
theorem finish_of_expectMore (h : s.expectMore = false) :
    s.finish = (s.reset, .ok s.snapshot) := by
  obtain ⟨hp, he⟩ := complete_of_expectMore h
  simp [finish, hp, Tree.innermostOpen?, he]

theorem Follows.expectMore {m : Motion} (h : Follows m s s') : s'.expectMore = s.expectMore := by
  simp [Scanner.expectMore, h.waiting, h.tree.depth]

end Scanner

open Scanner (loaded)

-- A script that is made up of two others, with a newline between them.
structure Joined (d : Shift) (first later whole : Script) : Prop where
  bytes : d.bytes = width first.source.toList + 1
  index : d.tokens = first.tokens.size + 1
  source : whole.source = first.source ++ "\n" ++ later.source
  tokens : ∃ newline : Token, newline.kind = .separator ∧
    whole.tokens.toList = first.tokens.toList ++ newline :: later.tokens.toList.map (·.shift d)

theorem grouped_of_scan {s : Scanner} {text : String}
    (h : (loaded .command text).scan = (s, none)) : Grouped s := by
  rw [← Scanner.feed_starting] at h
  exact (grouped_starting .command).of_feed h

theorem eq_map_of_forall₂ {α β : Type} {f : α → β} {xs : List α} {ys : List β}
    (h : List.Forall₂ (fun x y => y = f x) xs ys) : ys = xs.map f := by
  induction h with
  | nil => rfl
  | cons hx _ ih => rw [hx, ih, List.map_cons]

section Lines

variable {s : Scanner} {first rest : String} {whole : Script}

theorem tokenize_of_scan (hs : (loaded .command first).scan = (s, none))
    (hm : s.expectMore = false) : tokenize first = .ok s.snapshot := by
  rw [tokenize, read, Scanner.feed_starting, hs]
  simp [Scanner.finish_of_expectMore hm]

-- A text that can be read is a complete logical line, or several.
theorem scan_complete_of_tokenize (h : tokenize first = .ok whole) :
    ∃ s, (loaded .command first).scan = (s, none) ∧ s.expectMore = false ∧
      whole = s.snapshot := by
  obtain ⟨s, hs, -, -⟩ := scan_of_tokenize h
  rw [tokenize, read, Scanner.feed_starting, hs] at h
  obtain ⟨hp, ho, hw⟩ := Scanner.of_finish_ok h
  have hd := Tree.depth_of_innermostOpen? (grouped_of_scan hs).rooted ho
  exact ⟨s, hs, by simp [Scanner.expectMore, hp, hd], hw⟩

theorem built_of_tokenize (h : tokenize first = .ok whole) : whole.Built := by
  obtain ⟨s, hs, hm, rfl⟩ := scan_complete_of_tokenize h
  obtain ⟨-, he⟩ := Scanner.complete_of_expectMore hm
  obtain ⟨tokens, hbuilt⟩ := (grouped_of_scan hs).built
  exact built_of_insertAll hbuilt (by simp [Tree.depth, he]) _

-- A text whose first logical line ends at a newline is read as that line and the lines behind it.
theorem tokenize_lines (hs : (loaded .command first).scan = (s, none))
    (hm : s.expectMore = false) (h : tokenize (first ++ "\n" ++ rest) = .ok whole) :
    ∃ later d, tokenize rest = .ok later ∧ Joined d s.snapshot later whole := by
  obtain ⟨hp, he⟩ := Scanner.complete_of_expectMore hm
  have hend := Scanner.rest_of_scan hs hp
  have hsource := Scanner.source_of_scan hs
  have hresume : (s.resume rest).rest = '\n' :: rest.toList := by simp [Scanner.resume, hend]
  obtain ⟨next, hnext, hfollows⟩ := Scanner.follows_of_lineEnd he rest
  obtain ⟨w, hw, hwm, rfl⟩ := scan_complete_of_tokenize h
  have hwhole : next.scan = (w, none) := by
    rw [← Scanner.resume_loaded, Scanner.scan_resume_of_scan hs, Scanner.scan_of_cons hresume,
      hnext] at hw
    exact hw
  have hscanned := hfollows.scan
  rw [hwhole] at hscanned
  generalize hl : (loaded .command rest).scan = x at hscanned
  cases hscanned with
  | @ok l _ hf =>
    have hlater := tokenize_of_scan hl (hf.expectMore.symm.trans hwm)
    refine ⟨l.snapshot, s.nextLine.shift, hlater, ?_, ?_, ?_, ?_⟩
    · have ho := Scanner.offset_of_scan hs
      rw [hend] at ho
      have hw : width (loaded .command first).source.toList = s.offset := by
        simpa [loaded, Scanner.starting] using ho.symm
      show s.offset + 1 = width s.source.toList + 1
      rw [hsource, hw]
    · simp [Motion.shift, Scanner.nextLine, Scanner.snapshot, Tree.toScript]
    · have hlast := Scanner.source_of_scan hw
      have hlsource := Scanner.source_of_scan hl
      show w.source = s.source ++ "\n" ++ l.source
      rw [hlast, hsource, hlsource]
      rfl
    · obtain ⟨later, ht, hr⟩ := hf.tree.tokens
      have hmap : later = l.tree.tokens.toList.map (·.shift s.nextLine.shift) :=
        eq_map_of_forall₂ hr
      refine ⟨s.lineEnd, rfl, ?_⟩
      show w.tree.tokens.toList =
        s.tree.tokens.toList ++ s.lineEnd :: l.tree.tokens.toList.map (·.shift s.nextLine.shift)
      rw [ht, hmap, Scanner.nextLine, List.append_assoc]
      rfl

end Lines

end CommandShell.Script
