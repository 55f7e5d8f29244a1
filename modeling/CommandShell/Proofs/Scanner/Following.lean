import CommandShell.Proofs.Grammar.Motion
import CommandShell.Proofs.Scanner.Continuation

namespace CommandShell.Script

open Motion (Both)

section Decoding

variable {far : Shift}

theorem Motion.Both.cons {x y : Except LexError (List Char)} (c : Char) (h : Both far Eq x y) :
    Both far Eq (do return c :: (← x)) (do return c :: (← y)) := by
  cases h with
  | ok h => exact .ok (congrArg _ h)
  | error => exact .error _

theorem span_shift {start stop start' stop' : Nat} (hs : start' = start + far.bytes)
    (ht : stop' = stop + far.bytes) :
    (⟨start', stop'⟩ : Span) = (⟨start, stop⟩ : Span).shift far := by
  rw [hs, ht]
  rfl

-- What a text stands for does not depend on where it stands, and what is wrong with it is as far
-- on as the text is.
theorem decodeFrom_alike (quote : Option Char) (offset offset' : Nat)
    (ho : offset' = offset + far.bytes) (cs : List Char) :
    Both far Eq (decodeFrom quote offset cs) (decodeFrom quote offset' cs) := by
  fun_induction decodeFrom quote offset cs generalizing offset' with
  | case1 =>
    rw [decodeFrom]
    exact .ok rfl
  | case2 quote offset c cs hq ih =>
    rw [decodeFrom.eq_def quote offset' (c :: cs)]
    simp only [if_pos hq]
    exact ih _ (by omega)
  | case3 offset c cs hq ih =>
    rw [decodeFrom.eq_def (some c) offset' (c :: cs)]
    simp only [if_neg hq, if_true]
    exact ih _ (by omega)
  | case4 quote offset c cs hq hc hp ih =>
    rw [decodeFrom.eq_def quote offset' (c :: cs)]
    simp only [if_neg hq, if_neg hc, if_pos hp]
    exact (ih _ (by omega)).cons c
  | case5 quote offset c hq hc hp =>
    rw [decodeFrom.eq_def quote offset' [c]]
    simp only [if_neg hq, if_neg hc, if_neg hp]
    have hstop : offset' + 1 = offset + 1 + far.bytes := by omega
    rw [span_shift ho hstop]
    exact .error _
  | case6 quote offset c hq hc hp d ds gap rest hj _ ih =>
    rw [decodeFrom.eq_def quote offset' (c :: d :: ds)]
    simp only [if_neg hq, if_neg hc, if_neg hp]
    split
    · next hj' =>
      obtain ⟨rfl, rfl⟩ : gap = _ ∧ rest = _ := by simpa [hj] using hj'
      exact ih _ (by omega)
    · next hj' => exact absurd hj (hj' _ _)
  | case7 quote offset c hq hc hp d ds escape _ next value hv hj ih =>
    rw [decodeFrom.eq_def quote offset' (c :: d :: ds)]
    simp only [if_neg hq, if_neg hc, if_neg hp]
    have hv' : (Escape.ofChar d ds).value = some value := hv
    simp only [hv']
    exact (ih _ (by dsimp only [next, escape]; omega)).cons value
  | case8 quote offset c hq hc hp d ds escape _ next hv hj =>
    rw [decodeFrom.eq_def quote offset' (c :: d :: ds)]
    simp only [if_neg hq, if_neg hc, if_neg hp]
    have hv' : (Escape.ofChar d ds).value = none := hv
    simp only [hv']
    have hstop : offset' + 1 + Text.width (Escape.ofChar d ds).read = next + far.bytes := by
      dsimp only [next, escape]
      omega
    rw [span_shift ho hstop]
    exact .error _

-- A quote that is open at the end of a text was opened as far on as the text is.
theorem openQuote_shift (bytes : Nat) (quote : Option (Char × Nat)) (offset offset' : Nat)
    (ho : offset' = offset + bytes) (cs : List Char) :
    openQuote (quote.map fun q => (q.1, q.2 + bytes)) offset' cs =
      (openQuote quote offset cs).map (· + bytes) := by
  fun_induction openQuote quote offset cs generalizing offset' with
  | case1 quote => cases quote <;> simp [openQuote]
  | case2 offset cs q n ih =>
    rw [openQuote.eq_def]
    simp only [Option.map_some, Option.map_none, if_true] at ih ⊢
    exact ih _ (by omega)
  | case3 offset c q n hq hb =>
    rw [openQuote.eq_def]
    simp only [Option.map_some, if_neg hq, if_pos hb]
  | case4 offset c q n hq hb d ds ih =>
    rw [openQuote.eq_def]
    simp only [Option.map_some, if_neg hq, if_pos hb] at ih ⊢
    exact ih _ (by omega)
  | case5 offset c cs q n hq hb ih =>
    rw [openQuote.eq_def]
    simp only [Option.map_some, if_neg hq, if_neg hb] at ih ⊢
    exact ih _ (by omega)
  | case6 offset c cs hq ih =>
    rw [openQuote.eq_def]
    simp only [Option.map_some, Option.map_none, if_pos hq] at ih ⊢
    rw [← ho] at ih
    exact ih _ (by omega)
  | case7 offset hq =>
    rw [openQuote.eq_def]
    simp only [Option.map_none, if_neg hq, if_true]
  | case8 offset d ds hq ih =>
    rw [openQuote.eq_def]
    simp only [Option.map_none, if_neg hq, if_true] at ih ⊢
    exact ih _ (by omega)
  | case9 offset c cs hq hb ih =>
    rw [openQuote.eq_def]
    simp only [Option.map_none, if_neg hq, if_neg hb] at ih ⊢
    exact ih _ (by omega)

end Decoding

-- The same construct that the input ended in, further on.
def Pending.shift (d : Shift) : Pending → Pending
  | quote offset => .quote (offset + d.bytes)
  | escape offset => .escape (offset + d.bytes)
  | pipe offset => .pipe (offset + d.bytes)

namespace Scanner

-- Two scanners in front of the same text, the second one further on.
structure Follows (m : Motion) (s s' : Scanner) : Prop where
  rest : s'.rest = s.rest
  position : s'.position = s.position
  offset : s'.offset = s.offset + m.bytes
  line : s'.line = s.line + m.lines
  group : s'.group = s.group + m.groups
  touches : ∀ n, s'.pieceEnd = some (s'.offset + n) ↔ s.pieceEnd = some (s.offset + n)
  pending : s'.pending = s.pending.map (·.shift m.shift)
  tree : m.Carries s.tree s'.tree

-- Both constructs are read, both wait for more of the same, or the same is wrong with both.
inductive Step.Follows (m : Motion) : Step → Step → Prop where
  | done {s s' : Scanner} (h : Scanner.Follows m s s') : Step.Follows m (.done s) (.done s')
  | wait (pending : Pending) : Step.Follows m (.wait pending) (.wait (pending.shift m.shift))
  | reject (s s' : Scanner) (error : LexError) :
      Step.Follows m (.reject s error) (.reject s' (error.shift m.shift))

variable {m : Motion} {s s' : Scanner} {kind : TokenKind} {position : Position} {c : Char}
  {gap piece rest text front cs : List Char}

theorem Step.Follows.refused (cause : LexCause) {start stop start' stop' : Nat}
    (hs : start' = start + m.bytes) (ht : stop' = stop + m.bytes) :
    Step.Follows m (.reject s ⟨cause, ⟨start, stop⟩⟩) (.reject s' ⟨cause, ⟨start', stop'⟩⟩) := by
  have hspan : (⟨start', stop'⟩ : Span) = (⟨start, stop⟩ : Span).shift m.shift := span_shift hs ht
  rw [hspan]
  exact .reject s s' ⟨cause, ⟨start, stop⟩⟩

namespace Follows

theorem waiting (h : Follows m s s') : s'.pending.isSome = s.pending.isSome := by
  rw [h.pending, Option.isSome_map]

theorem offset_add (h : Follows m s s') (n : Nat) : s'.offset + n = s.offset + n + m.bytes := by
  rw [h.offset, Nat.add_right_comm]

theorem advance (h : Follows m s s') (front rest : List Char) :
    Follows m (s.advance front rest) (s'.advance front rest) := by
  refine ⟨rfl, h.position, ?_, ?_, h.group, ?_, h.pending, h.tree⟩
  · simp only [Scanner.advance, h.offset]
    omega
  · simp only [Scanner.advance, h.line]
    omega
  · intro n
    simpa [Scanner.advance, Nat.add_assoc] using h.touches (Text.width front + n)

theorem setPosition (h : Follows m s s') (position : Position) :
    Follows m { s with position := position } { s' with position := position } :=
  ⟨h.rest, rfl, h.offset, h.line, h.group, h.touches, h.pending, h.tree⟩

theorem isGlued (h : Follows m s s') : s'.isGlued = s.isGlued := by
  simpa [Scanner.isGlued] using h.touches 0

theorem nextGroup (h : Follows m s s') (kind : TokenKind) (gap : List Char) :
    s'.nextGroup kind (s'.offset + Text.width gap) =
      s.nextGroup kind (s.offset + Text.width gap) + m.groups := by
  simp only [Scanner.nextGroup, h.touches, h.group]
  split <;> omega

theorem tokenAt (h : Follows m s s') :
    s'.tokenAt kind gap piece text = (s.tokenAt kind gap piece text).shift m.shift := by
  have hg := h.nextGroup kind gap
  rw [h.offset] at hg
  simp only [Scanner.tokenAt, Token.shift, Span.shift, Motion.shift, h.offset, h.line, hg]
  split <;> simp <;> omega

theorem emit (h : Follows m s s') :
    Step.Follows m (s.emit kind gap piece rest text position)
      (s'.emit kind gap piece rest text position) := by
  have hr : m.related (s.tokenAt kind gap piece text) (s'.tokenAt kind gap piece text) := by
    rw [h.tokenAt]
    exact m.shifted _
  have hi := h.tree.insert hr (congrArg Token.span h.tokenAt)
  rw [emit_eq, emit_eq]
  generalize s.tree.insert (s.tokenAt kind gap piece text) = x at hi ⊢
  generalize s'.tree.insert (s'.tokenAt kind gap piece text) = y at hi ⊢
  cases hi with
  | error error => exact .reject _ _ error
  | ok ht =>
    have ho := (h.advance (gap ++ piece) rest).offset
    have hl := (h.advance (gap ++ piece) rest).line
    refine .done ⟨rfl, rfl, ?_, ?_, h.nextGroup kind gap, ?_, h.pending, ht⟩
    · simpa [Scanner.advance, marked, Text.width_append, Nat.add_assoc] using ho
    · simpa [Scanner.advance, marked, Text.countLines, Nat.add_assoc] using hl
    · intro n
      simp only [Scanner.advance, marked]
      split <;> simp

theorem emitDecoded (h : Follows m s s') :
    Step.Follows m (s.emitDecoded kind gap piece rest position)
      (s'.emitDecoded kind gap piece rest position) := by
  have hd : Both m.shift Eq _ _ :=
    decodeFrom_alike none _ _ (h.offset_add (Text.width gap)) piece
  simp only [Scanner.emitDecoded]
  generalize decodeFrom none (s.offset + Text.width gap) piece = x at hd ⊢
  generalize decodeFrom none (s'.offset + Text.width gap) piece = y at hd ⊢
  cases hd with
  | ok he =>
    subst he
    exact h.emit
  | error error => exact .reject _ _ error

theorem unfinished (h : Follows m s s') (gap cs : List Char) {offset offset' : Nat}
    (ho : offset' = offset + m.bytes) :
    Step.Follows m (s.unfinished gap cs offset) (s'.unfinished gap cs offset') := by
  have hq := openQuote_shift m.bytes none _ _ (h.offset_add (Text.width gap)) cs
  simp only [Option.map_none] at hq
  simp only [Scanner.unfinished, hq, ho]
  cases openQuote none (s.offset + Text.width gap) cs with
  | none => exact .wait (.escape offset)
  | some start => exact .wait (.quote start)

theorem readCommand (h : Follows m s s') (c : Char) (cs : List Char) :
    Step.Follows m (s.readCommand c cs) (s'.readCommand c cs) := by
  simp only [Scanner.readCommand]
  split
  · exact h.unfinished _ _ h.offset
  · exact h.emitDecoded

theorem readArgument (h : Follows m s s') (options : Bool) (c : Char) (cs : List Char) :
    Step.Follows m (s.readArgument options c cs) (s'.readArgument options c cs) := by
  simp only [Scanner.readArgument, h.isGlued, h.position]
  split
  · split
    · rw [h.offset]
      exact .wait (.quote s.offset)
    · exact h.emitDecoded
  · split
    · rw [h.offset]
      exact .wait (.escape s.offset)
    · split
      · split
        · exact .done ((h.advance _ _).setPosition _)
        · exact h.emitDecoded
      · exact h.emitDecoded

theorem readWord (h : Follows m s s') (c : Char) (cs : List Char) :
    Step.Follows m (s.readWord c cs) (s'.readWord c cs) := by
  simp only [Scanner.readWord, h.position]
  split
  · exact h.readCommand c cs
  · exact h.readArgument _ c cs

theorem readShell (h : Follows m s s') (front cs : List Char) :
    Step.Follows m (s.readShell front cs) (s'.readShell front cs) := by
  simp only [Scanner.readShell]
  split
  · refine .refused _ h.offset ?_
    simp only [h.offset]
    omega
  · exact h.emit

theorem readRedirection (h : Follows m s s') (cs : List Char) :
    Step.Follows m (s.readRedirection cs) (s'.readRedirection cs) := by
  simp only [Scanner.readRedirection]
  split
  · rw [h.offset]
    exact .wait (.pipe s.offset)
  · split
    · exact h.readShell _ _
    · split
      · exact .refused _ h.offset (h.offset_add 1)
      · split
        · exact h.unfinished _ _ h.offset
        · next piece rest _ =>
          have hg : s'.offset + 1 + Text.width (cs.takeWhile fun c => isBlank c || c = '\n') =
              s.offset + 1 + Text.width (cs.takeWhile fun c => isBlank c || c = '\n') + m.bytes := by
            simpa only [Nat.add_assoc] using h.offset_add (1 + _)
          have hd : Both m.shift Eq _ _ := decodeFrom_alike none _ _ hg piece
          generalize decodeFrom none (s.offset + 1 + _) piece = x at hd ⊢
          generalize decodeFrom none (s'.offset + 1 + _) piece = y at hd ⊢
          cases hd with
          | error error => exact .reject _ _ error
          | ok he =>
            subst he
            dsimp only
            split
            · exact h.readShell _ _
            · exact h.emit

theorem readFile (h : Follows m s s') (cs : List Char) :
    Step.Follows m (s.readFile cs) (s'.readFile cs) := by
  simp only [Scanner.readFile]
  split
  · exact .refused _ h.offset (h.offset_add 1)
  · split
    · exact .refused _ h.offset (h.offset_add 1)
    · split
      · exact h.unfinished _ _ (h.offset_add _)
      · split
        · exact h.emitDecoded
        · split
          · exact h.emitDecoded
          · refine .refused _ ?_ ?_ <;>
            · rw [h.offset]
              omega

-- What stands at `c :: cs` is read by both.
theorem step (h : Follows m s s') (c : Char) (cs : List Char) :
    Step.Follows m (s.step c cs) (s'.step c cs) := by
  simp only [Scanner.step, h.isGlued]
  by_cases hblank : isBlank c = true
  · simp only [if_pos hblank]
    exact .done (h.advance _ _)
  simp only [if_neg hblank]
  by_cases hsep : c = '\n' ∨ c = ';'
  · simp only [if_pos hsep]
    exact h.emit
  simp only [if_neg hsep]
  by_cases hcomment : c = '#' ∧ !s.isGlued
  · simp only [if_pos hcomment]
    exact .done (h.advance _ _)
  simp only [if_neg hcomment]
  by_cases hopen : c = '\x7b'
  · simp only [if_pos hopen]
    exact h.emit
  simp only [if_neg hopen]
  by_cases hclose : c = '\x7d'
  · simp only [if_pos hclose]
    exact h.emit
  simp only [if_neg hclose]
  by_cases hback : c = '\\' ∧ !s.isGlued
  · simp only [if_pos hback]
    cases join cs with
    | joined gap rest => exact .done (h.advance _ _)
    | unfinished =>
      simp only [h.offset]
      exact .wait (.escape s.offset)
    | absent => exact h.readWord c cs
  simp only [if_neg hback]
  by_cases hpipe : c = '|'
  · simp only [if_pos hpipe]
    exact h.readRedirection cs
  simp only [if_neg hpipe]
  by_cases hbang : c = '!' ∧ !s.isGlued ∧ (cs.head? = some ' ' ∨ cs.head? = some '\t')
  · simp only [if_pos hbang]
    exact h.readShell _ _
  simp only [if_neg hbang]
  by_cases hfile : c = '>'
  · simp only [if_pos hfile]
    exact h.readFile cs
  simp only [if_neg hfile]
  exact h.readWord c cs

theorem setPending (h : Follows m s s') (p : Pending) :
    Follows m { s with pending := some p } { s' with pending := some (p.shift m.shift) } :=
  ⟨h.rest, h.position, h.offset, h.line, h.group, h.touches, rfl, h.tree⟩

end Follows

-- Both texts are read without an error, and the scanners follow one another, or both have the same
-- one.
inductive Scanned (m : Motion) : Scanner × Option LexError → Scanner × Option LexError → Prop where
  | ok {s s' : Scanner} (h : Follows m s s') : Scanned m (s, none) (s', none)
  | error (s s' : Scanner) (error : LexError) :
      Scanned m (s, some error) (s', some (error.shift m.shift))

-- The same text is read in the same way further on.
theorem Follows.scan (h : Follows m s s') : Scanned m s.scan s'.scan := by
  fun_induction Scanner.scan s generalizing s' with
  | case1 s hr =>
    have hr' : s'.rest = [] := h.rest.trans hr
    rw [Scanner.scan]
    split
    · exact .ok h
    · next hc => simp [hr'] at hc
  | case2 s c cs hr next hs _ ih =>
    have hstep := h.step c cs
    rw [hs] at hstep
    rw [scan_of_cons (h.rest.trans hr)]
    generalize s'.step c cs = y at hstep ⊢
    cases hstep with
    | done hn => exact ih hn
  | case3 s c cs hr pending hs =>
    have hstep := h.step c cs
    rw [hs] at hstep
    rw [scan_of_cons (h.rest.trans hr)]
    generalize s'.step c cs = y at hstep ⊢
    cases hstep with
    | wait => exact .ok (h.setPending pending)
  | case4 s c cs hr next error hs =>
    have hstep := h.step c cs
    rw [hs] at hstep
    rw [scan_of_cons (h.rest.trans hr)]
    generalize s'.step c cs = y at hstep ⊢
    cases hstep with
    | reject _ next' => exact .error next next' error

-- Both logical lines can be closed, or neither, for the same reason.
theorem Follows.finish {related : Script → Script → Prop} (h : Follows m s s')
    (hs : s'.source.utf8ByteSize = s.source.utf8ByteSize + m.bytes)
    (ho : ∀ t u, s.tree.innermostOpen? = some t → m.related t u →
      u.span = t.span.shift m.shift)
    (hr : s.pending = none → s.tree.innermostOpen? = none → related s.snapshot s'.snapshot) :
    Both m.shift related s.finish.2 s'.finish.2 := by
  have hp := h.pending
  simp only [Scanner.finish, hp]
  cases hw : s.pending with
  | some pending =>
    cases pending with
    | quote offset => exact .refused _ (span_shift rfl hs)
    | escape offset => exact .refused _ (span_shift rfl hs)
    | pipe offset => exact .refused _ (span_shift rfl (Nat.add_right_comm ..))
  | none =>
    have hrel := h.tree.innermostOpen?
    simp only [Option.map_none]
    generalize hi : s.tree.innermostOpen? = x at hrel ⊢
    generalize s'.tree.innermostOpen? = y at hrel ⊢
    cases hrel with
    | none => exact .ok (hr hw hi)
    | some hrelated => exact .refused _ (ho _ _ hi hrelated)

end Scanner

end CommandShell.Script
