import CommandShell.Proofs.Scanner.LogicalLine

namespace CommandShell

theorem Text.utf8ByteSize_ofList (cs : List Char) :
    (String.ofList cs).utf8ByteSize = width cs := by
  induction cs with
  | nil => rfl
  | cons c cs ih =>
    rw [String.ofList_cons, String.utf8ByteSize_append, String.utf8ByteSize_singleton, ih,
      width_cons]

namespace Script

open Text (width)

-- The characters of an escape sequence and what follows it.
theorem Escape.read_append_rest (c : Char) (cs : List Char) :
    (Escape.ofChar c cs).read ++ (Escape.ofChar c cs).rest = c :: cs := by
  have hdigits (count : Nat) (test : Char → Bool) :
      (cs.take count).takeWhile test ++ cs.drop ((cs.take count).takeWhile test).length = cs :=
    (List.prefix_iff_eq_append.1 ((List.takeWhile_prefix test).trans (List.take_prefix count cs)))
  simp only [ofChar]
  split
  · simp [hexadecimal, hdigits]
  · split
    · simp [hexadecimal, hdigits]
    · split
      · simp [octal, hdigits]
      · rfl

theorem marks_of_decodeFrom {quote : Option Char} {offset : Nat} {cs : List Char} {e : LexError}
    (h : decodeFrom quote offset cs = .error e) : Marks offset cs e.span := by
  have hback {quote : Option Char} {c : Char} (hp : ¬(quote = some '\'' ∨ c ≠ '\\')) :
      c.utf8Size = 1 := by
    obtain rfl : c = '\\' := by
      by_contra hb
      exact hp (.inr hb)
    rfl
  fun_induction decodeFrom quote offset cs with
  | case1 => cases h
  | case2 quote offset c cs hq ih => exact (ih h).cons
  | case3 offset c cs hq ih => exact (ih h).cons
  | case4 quote offset c cs hq hc hp ih =>
    cases hd : decodeFrom quote (offset + c.utf8Size) cs with
    | error e' =>
      rw [hd] at h
      cases h
      exact (ih hd).cons
    | ok text =>
      rw [hd] at h
      cases h
  | case5 quote offset c hq hc hp =>
    cases h
    have hhead : Marks offset [c] ⟨offset, offset + c.utf8Size⟩ := .head
    rwa [hback hp] at hhead
  | case6 quote offset c hq hc hp d ds gap rest hj _ ih =>
    have hc : c.utf8Size = 1 := hback hp
    rw [← append_of_join_joined hj]
    exact ((hc ▸ ih h).append_left).cons
  | case7 quote offset c hq hc hp d ds escape _ next value hv hj ih =>
    have hn : next = offset + c.utf8Size + width escape.read := by rw [hback hp]
    cases hd : decodeFrom quote next escape.rest with
    | error e' =>
      rw [hd] at h
      cases h
      rw [← Escape.read_append_rest d ds]
      exact ((hn ▸ ih hd).append_left).cons
    | ok text =>
      rw [hd] at h
      cases h
  | case8 quote offset c hq hc hp d ds escape _ next hv hj =>
    have hc : c.utf8Size = 1 := hback hp
    cases h
    refine ⟨[], c :: escape.read, escape.rest, ?_, List.cons_ne_nil _ _, rfl, ?_⟩
    · rw [List.nil_append, List.cons_append, Escape.read_append_rest d ds]
    · simp only [next, Text.width_cons, hc, Nat.add_assoc]

namespace Tree

variable {t u : Tree} {token : Token} {e : LexError}

-- A token that is refused is what is wrong.
theorem span_of_insert (h : t.insert token = .error e) : e.span = token.span := by
  simp only [insert] at h
  split at h <;> (try split at h) <;> (try split at h) <;> cases h <;> rfl

end Tree

namespace Scanner

-- A construct is refused: the error marks a part of what was to be read, and the scanner stays in
-- front of the construct, or of the token in it.
structure Refuses (s next : Scanner) (e : LexError) : Prop where
  marks : Marks s.offset s.rest e.span
  split : ∃ front, s.rest = front ++ next.rest ∧ next.offset = s.offset + width front
  mode : next.mode = s.mode
  source : next.source = s.source
  pending : next.pending = s.pending
  tree : next.tree = s.tree

-- What is told of a construct that is not read to its end lies in what was to be read.
def Step.Located (s : Scanner) : Step → Prop
  | .done _ => True
  | .wait pending => pending.Stands s.offset s.rest
  | .reject next e => Refuses s next e

variable {s : Scanner} {kind : TokenKind} {position : Position} {c : Char}
  {gap piece rest text front cs : List Char} {e : LexError}

theorem located_of_marks (h : Marks s.offset s.rest e.span) : (Step.reject s e).Located s :=
  ⟨h, ⟨[], rfl, rfl⟩, rfl, rfl, rfl, rfl⟩

theorem located_emit (hs : s.Slice s.rest kind gap piece rest) :
    (s.emit kind gap piece rest text position).Located s := by
  have hr : s.rest = gap ++ (piece ++ rest) := by rw [← hs.split, List.append_assoc]
  rw [emit_eq]
  cases hi : s.tree.insert (s.tokenAt kind gap piece text) with
  | ok tree => trivial
  | error e =>
    refine ⟨⟨gap, piece, rest, hr, hs.taken, ?_, ?_⟩, ⟨gap, hr, rfl⟩, rfl, rfl, rfl, rfl⟩
    · rw [Tree.span_of_insert hi]
      rfl
    · rw [Tree.span_of_insert hi]
      rfl

theorem located_step (hr : s.rest = c :: cs) : (s.step c cs).Located s := by
  have ho := outcome_step s c cs
  rw [← hr] at ho
  generalize s.step c cs = result at ho
  cases ho with
  | skip => trivial
  | token slice => exact located_emit slice
  | undecoded _ slice failed =>
    refine located_of_marks ?_
    rw [← slice.split, List.append_assoc]
    exact ((marks_of_decodeFrom failed).append_right _).append_left
  | malformed _ _ marks => exact located_of_marks marks
  | wait _ stands => exact stands

-- Whether a scan ends with an error or not, it is one of the same source.
theorem scan_frame (s : Scanner) : s.scan.1.source = s.source ∧ s.scan.1.mode = s.mode := by
  fun_induction Scanner.scan s with
  | case1 => exact ⟨rfl, rfl⟩
  | case2 s c cs hr next hs _ ih =>
    have hmode : next.mode = s.mode := by cases reads_of_step hs <;> rfl
    exact ⟨ih.1.trans (source_of_step_done hs), ih.2.trans hmode⟩
  | case3 => exact ⟨rfl, rfl⟩
  | case4 s c cs hr next error hs =>
    have hl := located_step hr
    rw [hs] at hl
    exact ⟨hl.source, hl.mode⟩

-- The source as it is once a line is fed.
def fedSource (s : Scanner) (line : String) : String :=
  s.source ++ if s.source = "" then line else "\n" ++ line

theorem source_feed (s : Scanner) (line : String) :
    (s.feed line).1.source = s.fedSource line :=
  (scan_frame _).1

theorem mode_feed (s : Scanner) (line : String) : (s.feed line).1.mode = s.mode :=
  (scan_frame _).2

-- Where a scanner stands in its source: the rest is the end of it, and every construct that is
-- incomplete, every brace that is open lies in it.
structure Aligned (s : Scanner) : Prop where
  split : ∃ front, s.source.toList = front ++ s.rest ∧ s.offset = width front
  pending : ∀ p ∈ s.pending, p.Stands 0 s.source.toList
  opened : ∀ frame ∈ s.tree.enclosing, ∃ t, s.tree.tokens[frame.opened]? = some t ∧
    Marks 0 s.source.toList t.span

namespace Aligned

variable {s' : Scanner}

theorem starting (mode : Mode) : Aligned (Scanner.starting mode) := by
  cases mode <;> exact ⟨⟨[], rfl, rfl⟩, by simp [Scanner.starting], by
    simp [Scanner.starting, Tree.headed]⟩

theorem of_marks (h : Aligned s) {span : Span} (hm : Marks s.offset s.rest span) :
    Marks 0 s.source.toList span := by
  obtain ⟨front, hs, ho⟩ := h.split
  rw [hs]
  refine Marks.append_left ?_
  rwa [Nat.zero_add, ← ho]

theorem of_stands (h : Aligned s) {p : Pending} (hp : p.Stands s.offset s.rest) :
    p.Stands 0 s.source.toList := by
  obtain ⟨front, hs, ho⟩ := h.split
  have hbegins {start : Nat} (hb : Begins s.offset s.rest start) :
      Begins 0 s.source.toList start := by
    rw [hs]
    refine Begins.append_left ?_
    rwa [Nat.zero_add, ← ho]
  cases p with
  | quote start => exact hbegins hp
  | escape start => exact hbegins hp
  | pipe start =>
    obtain ⟨before, after, hr, hstart⟩ := hp
    refine ⟨front ++ before, after, by rw [hs, hr, List.append_assoc], ?_⟩
    rw [hstart, ho, Text.width_append, Nat.zero_add]

theorem of_step (h : Aligned s) (hr : s.rest = c :: cs) (hs : s.step c cs = .done s') :
    Aligned s' := by
  obtain ⟨front, hsplit, ho⟩ := h.split
  have hsource := source_of_step_done hs
  obtain ⟨taken, htaken, hoffset⟩ := split_of_step hs
  have hmoved : ∃ front, s'.source.toList = front ++ s'.rest ∧ s'.offset = width front :=
    ⟨front ++ taken, by rw [hsource, hsplit, hr, htaken, List.append_assoc],
      by rw [hoffset, ho, Text.width_append]⟩
  cases reads_of_step hs with
  | skip front rest split passed => exact ⟨hmoved, h.pending, h.opened⟩
  | token kind gap piece text rest tree split taken introduced spelled inserted =>
    refine ⟨hmoved, h.pending, fun frame hf => ?_⟩
    obtain ⟨id, hid⟩ := Tree.tokens_of_insert inserted
    rw [hid]
    rcases List.mem_cons.1 (Tree.enclosing_of_insert inserted hf) with rfl | hf
    · refine ⟨_, Array.getElem?_push_size, ?_⟩
      have hcs : gap ++ (piece ++ rest) = s.rest := by rw [hr, ← split, List.append_assoc]
      exact h.of_marks ⟨gap, piece, rest, hcs.symm, taken, rfl, rfl⟩
    · obtain ⟨t, ht, hm⟩ := h.opened frame hf
      have hlt := (Array.getElem?_eq_some_iff.1 ht).1
      refine ⟨t, ?_, hm⟩
      rw [Array.getElem?_push, if_neg (Nat.ne_of_lt hlt), ht]

theorem of_refuses (h : Aligned s) (hr : Refuses s s' e) : Aligned s' := by
  obtain ⟨front, hs, ho⟩ := h.split
  obtain ⟨taken, htaken, hoffset⟩ := hr.split
  refine ⟨⟨front ++ taken, ?_, ?_⟩, ?_, ?_⟩
  · rw [hr.source, hs, htaken, List.append_assoc]
  · rw [hoffset, ho, Text.width_append]
  · rw [hr.source, hr.pending]
    exact h.pending
  · rw [hr.source, hr.tree]
    exact h.opened

-- A scan comes to a stop within its source, and an error marks a part of it.
theorem scan (h : Aligned s) :
    Aligned s.scan.1 ∧ ∀ e, s.scan.2 = some e → Marks 0 s.source.toList e.span := by
  fun_induction Scanner.scan s with
  | case1 s hr => exact ⟨h, by simp⟩
  | case2 s c cs hr next hs _ ih =>
    have hsource := source_of_step_done hs
    obtain ⟨ha, he⟩ := ih (h.of_step hr hs)
    exact ⟨ha, hsource ▸ he⟩
  | case3 s c cs hr pending hs =>
    have hl := located_step hr
    rw [hs] at hl
    refine ⟨⟨h.split, ?_, h.opened⟩, by simp⟩
    intro p hp
    cases hp
    exact h.of_stands hl
  | case4 s c cs hr next error hs =>
    have hl := located_step hr
    rw [hs] at hl
    refine ⟨h.of_refuses hl, fun e he => ?_⟩
    cases he
    exact h.of_marks hl.marks

theorem feed (h : Aligned s) (line : String) : Aligned (s.feed line).1 ∧
    ∀ e, (s.feed line).2 = some e → Marks 0 (s.fedSource line).toList e.span := by
  refine scan ⟨?_, by simp, fun frame hf => ?_⟩
  · obtain ⟨front, hs, ho⟩ := h.split
    exact ⟨front, by simp only [String.toList_append, hs, List.append_assoc], ho⟩
  · obtain ⟨t, ht, hm⟩ := h.opened frame hf
    refine ⟨t, ht, ?_⟩
    simp only [String.toList_append]
    exact hm.append_right _

theorem finish (h : Aligned s) : Aligned s.finish.1 ∧
    ∀ e, s.finish.2 = .error e → Marks 0 s.source.toList e.span := by
  have hbegins {start : Nat} (hb : Begins 0 s.source.toList start) :
      Marks 0 s.source.toList ⟨start, s.source.utf8ByteSize⟩ := by
    obtain ⟨before, after, hs, hn, rfl⟩ := hb
    refine ⟨before, after, [], by rw [List.append_nil, hs], hn, rfl, ?_⟩
    have hsize := Text.utf8ByteSize_ofList s.source.toList
    rw [String.ofList_toList] at hsize
    rw [hsize, hs, Text.width_append, Nat.zero_add]
  simp only [Scanner.finish]
  split
  · next start hp =>
    refine ⟨h, fun e he => ?_⟩
    cases he
    exact hbegins (h.pending _ hp)
  · next start hp =>
    refine ⟨h, fun e he => ?_⟩
    cases he
    exact hbegins (h.pending _ hp)
  · next start hp =>
    refine ⟨h, fun e he => ?_⟩
    cases he
    obtain ⟨before, after, hs, rfl⟩ := h.pending _ hp
    exact ⟨before, ['|'], after, hs, List.cons_ne_nil _ _, rfl, rfl⟩
  · split
    · next t ht =>
      refine ⟨h, fun e he => ?_⟩
      cases he
      obtain ⟨frame, hf, hframe⟩ := Option.bind_eq_some_iff.1 ht
      obtain ⟨u, hu, hm⟩ := h.opened frame (List.mem_of_mem_head? hf)
      rw [hframe, Option.some.injEq] at hu
      exact hu ▸ hm
    · exact ⟨starting s.mode, by simp⟩

end Aligned

-- A scanner as it can be met: lines are fed to it, its logical line is closed, and it starts
-- afresh, with or without success.
inductive Met : Scanner → Prop
  | starting (mode : Mode) : Met (starting mode)
  | feed {s : Scanner} (h : Met s) (line : String) : Met (s.feed line).1
  | finish {s : Scanner} (h : Met s) : Met s.finish.1
  | reset {s : Scanner} (h : Met s) : Met s.reset

theorem aligned_of_met (h : Met s) : Aligned s := by
  induction h with
  | starting mode => exact .starting mode
  | feed _ line ih => exact (ih.feed line).1
  | finish _ ih => exact ih.finish.1
  | reset => exact .starting _

section Lines

variable {u : Scanner} {lines : List String}

-- An incomplete logical line has at least one character.
theorem Aligned.source_ne_empty (h : Aligned s) (he : s.expectMore = true) : s.source ≠ "" := by
  intro hs
  have hbegins {start : Nat} (hb : Begins 0 s.source.toList start) : False := by
    obtain ⟨before, after, hsplit, hn, -⟩ := hb
    rw [hs, eq_comm, String.toList_empty, List.append_eq_nil_iff] at hsplit
    exact hn hsplit.2
  rw [expectMore, Bool.or_eq_true] at he
  rcases he with hp | hd
  · obtain ⟨p, hp⟩ := Option.isSome_iff_exists.1 hp
    have hstands := h.pending p hp
    cases p with
    | quote start => exact hbegins hstands
    | escape start => exact hbegins hstands
    | pipe start =>
      obtain ⟨before, after, hsplit, -⟩ := hstands
      simp [hs] at hsplit
  · cases hf : s.tree.enclosing with
    | nil => simp [Tree.depth, hf] at hd
    | cons frame outer =>
      obtain ⟨t, -, before, inside, after, hsplit, hn, -⟩ :=
        h.opened frame (hf ▸ List.mem_cons_self ..)
      rw [hs, eq_comm, String.toList_empty, List.append_eq_nil_iff,
        List.append_eq_nil_iff] at hsplit
      exact hn hsplit.2.1

theorem feedLines_concat (h : s.feedLines lines = (u, none)) (line : String) :
    s.feedLines (lines ++ [line]) = u.feed line := by
  induction lines generalizing s with
  | nil =>
    cases h
    rw [List.nil_append, feedLines]
    split
    · next next hn => rw [hn, feedLines]
    · next next e hn => rw [hn]
  | cons first lines ih =>
    rw [feedLines] at h
    rw [List.cons_append, feedLines]
    split at h
    · exact ih h
    · cases h

theorem of_feedLines (h : s.feedLines lines = (u, none)) (ha : Aligned s) :
    Aligned u ∧ u.mode = s.mode := by
  induction lines generalizing s with
  | nil =>
    cases h
    exact ⟨ha, rfl⟩
  | cons line lines ih =>
    rw [feedLines] at h
    split at h
    · next next hn =>
      have hnext : next = (s.feed line).1 := by rw [hn]
      obtain ⟨hu, hm⟩ := ih h (hnext ▸ (ha.feed line).1)
      exact ⟨hu, hm.trans (hnext ▸ mode_feed s line)⟩
    · cases h

end Lines

end Scanner

-- Whatever was done to a scanner before, an error of a line that is fed to it, or of closing the
-- logical line, marks whole characters of all that was fed.
theorem marks_of_met {s : Scanner} (h : s.Met) :
    (∀ line e, (s.feed line).2 = some e → Marks 0 (s.feed line).1.source.toList e.span) ∧
    ∀ e, s.finish.2 = .error e → Marks 0 s.source.toList e.span := by
  have ha := Scanner.aligned_of_met h
  refine ⟨fun line e he => ?_, ha.finish.2⟩
  rw [Scanner.source_feed]
  exact (ha.feed line).2 e he

end Script

end CommandShell
