import CommandShell.Proofs.Grammar.Arguments
import CommandShell.Proofs.Scanner.Continuation

namespace CommandShell

namespace Text

variable {front piece back : List Char}

theorem takeBytes_width_append (front back : List Char) :
    takeBytes (width front) (front ++ back) = front := by
  induction front with
  | nil =>
    cases back with
    | nil => rfl
    | cons c cs => simp [takeBytes, Nat.not_le.2 c.utf8Size_pos]
  | cons c cs ih => simp [takeBytes, ih]

theorem dropBytes_width_append (front back : List Char) :
    dropBytes (width front) (front ++ back) = back := by
  have ha := takeBytes_append_dropBytes (width front) (front ++ back)
  rw [takeBytes_width_append] at ha
  exact List.append_cancel_left ha

theorem slice_append (front piece back : List Char) :
    slice (front ++ (piece ++ back)) (width front) (width front + width piece) = piece := by
  rw [slice, dropBytes_width_append, Nat.add_sub_cancel_left, takeBytes_width_append]

theorem floorBoundary_append (front back : List Char) :
    floorBoundary (front ++ back) (width front) = width front := by
  rw [floorBoundary, takeBytes_width_append]

end Text

namespace Script

open Scanner (Passes Introduces Spells Reads)
open Text (width countLines slice takeBytes dropBytes floorBoundary)

-- Text without a token, in front of what follows it.
inductive Skipped : List Char → List Char → Prop where
  | nil {after : List Char} : Skipped [] after
  | cons {front more after : List Char} (first : Passes front (more ++ after))
      (rest : Skipped more after) : Skipped (front ++ more) after

-- A text from a byte offset and a line on, with its tokens: each behind text that is skipped and
-- what introduces it.
inductive Laid : Nat → Nat → List Char → List Token → Prop where
  | finish {offset line : Nat} {cs : List Char} (skipped : Skipped cs []) : Laid offset line cs []
  | token {offset line : Nat} {front gap piece rest : List Char} {t : Token} {tokens : List Token}
      (skipped : Skipped front (gap ++ (piece ++ rest)))
      (introduced : Introduces t.kind gap (piece ++ rest)) (taken : piece ≠ [])
      (spelled : Spells t.kind t.span.start piece t.text.toList)
      (start : t.span.start = offset + width (front ++ gap))
      (stop : t.span.stop = t.span.start + width piece)
      (starts : t.line = line + countLines (front ++ gap))
      (more : Laid t.span.stop (t.line + countLines piece) rest tokens) :
      Laid offset line (front ++ (gap ++ (piece ++ rest))) (t :: tokens)

variable {s s' : Scanner} {t u : Tree} {token : Token} {tokens : List Token}
  {front cs : List Char} {offset line : Nat}

theorem countLines_append (cs ds : List Char) :
    countLines (cs ++ ds) = countLines cs + countLines ds :=
  List.count_append

-- Text that is skipped in front of a laid out text only makes its first gap longer.
theorem Laid.skip (hp : Passes front cs) (h : Laid (offset + width front) (line + countLines front)
    cs tokens) : Laid offset line (front ++ cs) tokens := by
  cases h with
  | finish skipped => exact .finish (.cons (by rwa [List.append_nil]) skipped)
  | @token _ _ more gap piece rest t tokens skipped introduced taken spelled start stop starts
      tail =>
    have hf : Skipped (front ++ more) (gap ++ (piece ++ rest)) := .cons hp skipped
    have hs : t.span.start = offset + width (front ++ more ++ gap) := by
      rw [start, List.append_assoc, Text.width_append front, Nat.add_assoc]
    have hl : t.line = line + countLines (front ++ more ++ gap) := by
      rw [starts, List.append_assoc, countLines_append front, Nat.add_assoc]
    rw [← List.append_assoc]
    exact .token hf introduced taken spelled hs stop hl tail

-- What is read of a text that is read to its end, as it was laid out there.
theorem laid_of_scan (h : s.scan = (s', none)) (hp : s.pending = none) (hp' : s'.pending = none) :
    ∃ read, s'.tree.tokens.toList = s.tree.tokens.toList ++ read ∧
      Laid s.offset s.line s.rest read := by
  fun_induction Scanner.scan s with
  | case1 s hr =>
    cases h
    rw [hr]
    exact ⟨[], (List.append_nil _).symm, .finish .nil⟩
  | case2 s c cs hr next hs _ ih =>
    rw [hr]
    cases Scanner.reads_of_step hs with
    | skip front rest split passed =>
      obtain ⟨read, ht, hl⟩ := ih h hp
      exact ⟨read, ht, split ▸ hl.skip passed⟩
    | token kind gap piece text rest tree split taken introduced spelled inserted =>
      obtain ⟨read, ht, hl⟩ := ih h hp
      obtain ⟨id, hid⟩ := Tree.tokens_of_insert inserted
      refine ⟨{ s.tokenAt kind gap piece text with node := id } :: read, ?_, ?_⟩
      · rw [ht]
        simp [hid]
      · have hcs : c :: cs = [] ++ (gap ++ (piece ++ rest)) := by simp [← split]
        rw [hcs]
        refine .token .nil introduced taken ?_ rfl rfl rfl ?_
        · simpa [Scanner.tokenAt] using spelled
        · exact hl
  | case3 s c cs hr pending hs =>
    cases h
    cases hp'
  | case4 => cases h

-- A token is a piece of the source: it does not cut characters, it is what its piece stands for,
-- and its line is that of its first character.
structure Placed (cs : List Char) (t : Token) : Prop where
  taken : t.span.start < t.span.stop
  start : floorBoundary cs t.span.start = t.span.start
  stop : floorBoundary cs t.span.stop = t.span.stop
  line : t.line = 1 + countLines (takeBytes t.span.start cs)
  text : if t.kind = .shellRedirection then
      t.text = String.ofList (slice cs t.span.start t.span.stop)
    else decode (String.ofList (slice cs t.span.start t.span.stop)) t.span.start = .ok t.text

-- From a byte offset up to a token there is nothing but text that is skipped and what introduces
-- the token.
def Gap (cs : List Char) (start : Nat) (t : Token) : Prop :=
  ∃ front gap, slice cs start t.span.start = front ++ gap ∧
    Skipped front (gap ++ dropBytes t.span.start cs) ∧
    Introduces t.kind gap (dropBytes t.span.start cs)

-- Where the last of some tokens ends.
def endOf (start : Nat) (tokens : List Token) : Nat :=
  (tokens.getLast?.map (·.span.stop)).getD start

theorem endOf_cons (start : Nat) (t : Token) (tokens : List Token) :
    endOf start (t :: tokens) = endOf t.span.stop tokens := by
  cases h : tokens.getLast? <;> simp [endOf, List.getLast?_cons, h]

section Unrolled

variable (before : List Char)

theorem placed_of_piece {front piece back : List Char} (hp : piece ≠ [])
    (hs : Spells token.kind token.span.start piece token.text.toList)
    (hstart : token.span.start = width front)
    (hstop : token.span.stop = width front + width piece)
    (hline : token.line = 1 + countLines front) : Placed (front ++ (piece ++ back)) token := by
  have hslice : slice (front ++ (piece ++ back)) token.span.start token.span.stop = piece := by
    rw [hstart, hstop, Text.slice_append]
  have hpos := Text.width_pos hp
  refine ⟨by omega, ?_, ?_, ?_, ?_⟩
  · rw [hstart, Text.floorBoundary_append]
  · rw [hstop, ← List.append_assoc, ← Text.width_append, Text.floorBoundary_append]
  · rw [hline, hstart, Text.takeBytes_width_append]
  · rw [hslice]
    unfold Spells at hs
    split at hs
    · next hk => rw [if_pos hk, ← hs, String.ofList_toList]
    · next hk =>
      rw [if_neg hk, decode, String.toList_ofList, hs]
      simp [bind, Except.bind, pure, Except.pure]

theorem Laid.placed (h : Laid offset line cs tokens) (ho : offset = width before)
    (hl : line = 1 + countLines before) : ∀ t ∈ tokens, Placed (before ++ cs) t := by
  induction h generalizing before with
  | finish => simp
  | @token _ _ front gap piece rest t tokens skipped introduced taken spelled start stop starts _
      ih =>
    have hstart : t.span.start = width (before ++ (front ++ gap)) := by
      rw [start, ho, Text.width_append before]
    have hline : t.line = 1 + countLines (before ++ (front ++ gap)) := by
      rw [starts, hl, countLines_append before, Nat.add_assoc]
    have hwhole : before ++ (front ++ (gap ++ (piece ++ rest))) =
        before ++ (front ++ gap) ++ (piece ++ rest) := by simp
    intro u hu
    rw [hwhole]
    rcases List.mem_cons.1 hu with rfl | hu
    · exact placed_of_piece taken spelled hstart (hstart ▸ stop) hline
    · rw [← List.append_assoc]
      refine ih _ ?_ ?_ u hu
      · rw [stop, hstart, ← Text.width_append]
      · rw [hline, countLines_append (before ++ (front ++ gap)), Nat.add_assoc]

theorem Laid.le_start (h : Laid offset line cs tokens) : ∀ t ∈ tokens, offset ≤ t.span.start := by
  induction h with
  | finish => simp
  | token _ _ _ _ start stop _ _ ih =>
    intro u hu
    rcases List.mem_cons.1 hu with rfl | hu
    · omega
    · have hle := ih u hu
      omega

theorem Laid.pairwise (h : Laid offset line cs tokens) :
    tokens.Pairwise fun t u => t.span.start < u.span.start ∧ t.span.stop ≤ u.span.start := by
  induction h with
  | finish => exact .nil
  | token _ _ taken _ _ stop _ more ih =>
    refine .cons ?_ ih
    intro u hu
    have hle := more.le_start u hu
    have hpos := Text.width_pos taken
    omega

theorem Laid.gap (h : Laid offset line cs tokens) (ho : offset = width before)
    {front back : List Token} (ht : tokens = front ++ token :: back) :
    Gap (before ++ cs) (endOf offset front) token := by
  induction h generalizing before front with
  | finish => simp at ht
  | @token _ _ skip gap piece rest t tokens skipped introduced taken spelled start stop starts _
      ih =>
    have hwhole : before ++ (skip ++ (gap ++ (piece ++ rest))) =
        before ++ ((skip ++ gap) ++ (piece ++ rest)) := by simp
    have hstart : t.span.start = width before + width (skip ++ gap) := by rw [start, ho]
    cases front with
    | nil =>
      obtain ⟨rfl, rfl⟩ : t = token ∧ tokens = back := by simpa using ht
      have hdrop : dropBytes t.span.start (before ++ ((skip ++ gap) ++ (piece ++ rest))) =
          piece ++ rest := by
        have hd := Text.dropBytes_width_append (before ++ (skip ++ gap)) (piece ++ rest)
        rwa [List.append_assoc, Text.width_append, ← hstart] at hd
      refine ⟨skip, gap, ?_, ?_, ?_⟩
      · rw [hwhole, hstart, endOf, List.getLast?_nil, Option.map_none, Option.getD_none, ho,
          Text.slice_append]
      · rw [hwhole, hdrop]
        exact skipped
      · rw [hwhole, hdrop]
        exact introduced
    | cons first front =>
      obtain ⟨rfl, hback⟩ : t = first ∧ tokens = front ++ token :: back := by simpa using ht
      rw [endOf_cons, hwhole, ← List.append_assoc, ← List.append_assoc]
      refine ih _ ?_ hback
      rw [stop, hstart, ← Text.width_append, ← Text.width_append]

theorem Laid.tail (h : Laid offset line cs tokens) (ho : offset = width before) :
    Skipped (slice (before ++ cs) (endOf offset tokens) (width (before ++ cs))) [] := by
  induction h generalizing before with
  | @finish _ _ cs skipped =>
    have hs := Text.slice_append before cs []
    rw [List.append_nil] at hs
    rw [endOf, List.getLast?_nil, Option.map_none, Option.getD_none, ho, Text.width_append, hs]
    exact skipped
  | @token _ _ skip gap piece rest t tokens _ _ _ _ start stop _ _ ih =>
    have hwhole : before ++ (skip ++ (gap ++ (piece ++ rest))) =
        before ++ (skip ++ gap) ++ piece ++ rest := by simp
    rw [endOf_cons, hwhole]
    refine ih _ ?_
    rw [stop, start, ho, ← Text.width_append, ← Text.width_append]

end Unrolled

-- What was read to its end without an error, as a scan that left nothing pending.
theorem scan_of_tokenize {text : String} {script : Script} (h : tokenize text = .ok script) :
    ∃ s, (Scanner.loaded .command text).scan = (s, none) ∧ s.pending = none ∧
      script = s.snapshot := by
  rw [tokenize, read, Scanner.feed_starting] at h
  split at h
  · cases h
  · next s hs =>
    obtain ⟨hp, -, hscript⟩ := Scanner.of_finish_ok h
    exact ⟨s, hs, hp, hscript⟩

-- The tokens of a script are pieces of its text, one behind the other, and before, between and
-- behind them there is nothing but what is skipped and what introduces redirections.
structure Covers (text : String) (script : Script) : Prop where
  source : script.source = text
  placed : ∀ t ∈ script.tokens.toList, Placed text.toList t
  ordered : script.tokens.toList.Pairwise fun t u =>
    t.span.start < u.span.start ∧ t.span.stop ≤ u.span.start
  gaps : ∀ front t back, script.tokens.toList = front ++ t :: back →
    Gap text.toList (endOf 0 front) t
  tail : Skipped (slice text.toList (endOf 0 script.tokens.toList) (width text.toList)) []

theorem covers_of_tokenize {text : String} {script : Script} (h : tokenize text = .ok script) :
    Covers text script := by
  obtain ⟨s, hs, hp, rfl⟩ := scan_of_tokenize h
  obtain ⟨read, hread, hl⟩ := laid_of_scan hs rfl hp
  have ht : s.snapshot.tokens.toList = read := hread
  have hplaced := hl.placed [] rfl rfl
  have htail := hl.tail [] rfl
  refine ⟨Scanner.source_of_scan hs, ?_, ?_, ?_, ?_⟩
  · rwa [ht]
  · rw [ht]
    exact hl.pairwise
  · intro front t back he
    exact hl.gap [] rfl (ht.symm.trans he)
  · rwa [ht]

-- Two bytes a character, joined lines, a marker, a comment, and a name that makes a shell
-- redirection.
theorem covers_of_tokenize_umlaut :
    let text := "ü 'a' \\ \n -- -x # b\n;c |\n 's'h d "
    ∃ script, tokenize text = .ok script ∧
      script.tokens.toList.map (fun t => (t.text, t.span.start, t.line)) =
        [("ü", 0, 1), ("a", 3, 1), ("-x", 14, 2), ("\n", 20, 2), (";", 21, 3), ("c", 22, 3),
          ("d", 32, 4)] ∧
      Covers text script := by
  intro text
  have hk : (tokenize text).toOption.map
      (fun s => s.tokens.toList.map fun t => (t.text, t.span.start, t.line)) =
        some [("ü", 0, 1), ("a", 3, 1), ("-x", 14, 2), ("\n", 20, 2), (";", 21, 3), ("c", 22, 3),
          ("d", 32, 4)] := by decide +kernel
  cases h : tokenize text with
  | error e =>
    rw [h] at hk
    cases hk
  | ok script =>
    rw [h] at hk
    exact ⟨script, rfl, Option.some.inj hk, covers_of_tokenize h⟩

end Script

end CommandShell
