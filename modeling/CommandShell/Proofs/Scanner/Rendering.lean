import CommandShell.Proofs.Scanner.Excerpt
import CommandShell.Proofs.Scanner.Lookahead
import CommandShell.Proofs.Text.Splitting
import Mathlib.Data.List.TakeWhile

namespace CommandShell

namespace Text

section Lines

variable {c : Char} {cs ds front back : List Char} {above below : List (List Char)}

-- A text behind another one goes on in the part that the first one ends in.
theorem splitAtChar_append (hc : splitAtChar c cs = above ++ [front])
    (hd : splitAtChar c ds = back :: below) :
    splitAtChar c (cs ++ ds) = above ++ (front ++ back) :: below := by
  induction cs generalizing above front with
  | nil =>
    obtain ⟨rfl, rfl⟩ : above = [] ∧ front = [] := by
      have hl := congrArg List.length hc
      obtain rfl : above = [] := by simpa [splitAtChar] using hl
      simpa [splitAtChar] using hc.symm
    exact hd
  | cons d rest ih =>
    obtain ⟨first, parts, hr, hcons⟩ := splitAtChar_cons c d rest
    rw [hcons] at hc
    rw [List.cons_append, splitAtChar]
    by_cases hs : d = c
    · rw [if_pos hs] at hc
      cases above with
      | nil => simp at hc
      | cons part above =>
        obtain ⟨rfl, hparts⟩ := List.cons.inj hc
        rw [ih (hr.trans hparts)]
        cases above <;> simp [hs]
    · rw [if_neg hs] at hc
      cases above with
      | nil =>
        obtain ⟨rfl, rfl⟩ := List.cons.inj hc
        have hfirst : splitAtChar c rest = [] ++ [first] := hr
        rw [ih hfirst]
        simp [hs]
      | cons part above =>
        obtain ⟨rfl, rfl⟩ := List.cons.inj hc
        have hmore : splitAtChar c rest = (first :: above) ++ [front] := hr
        rw [ih hmore]
        simp [hs]

theorem exists_splitAtChar_concat (c : Char) (cs : List Char) :
    ∃ above front, splitAtChar c cs = above ++ [front] :=
  ⟨_, _, (List.dropLast_append_getLast (splitAtChar_ne_nil c cs)).symm⟩

-- The first part is what stands before the first separator.
theorem exists_splitAtChar_eq_takeWhile_cons (c : Char) (cs : List Char) :
    ∃ below, splitAtChar c cs = cs.takeWhile (· ≠ c) :: below := by
  induction cs with
  | nil => exact ⟨[], rfl⟩
  | cons d rest ih =>
    obtain ⟨below, hb⟩ := ih
    rw [splitAtChar, hb]
    by_cases hs : d = c
    · exact ⟨_, by simp [hs]; rfl⟩
    · exact ⟨below, by simp [hs]⟩

theorem width_reverse (cs : List Char) : width cs.reverse = width cs := by
  induction cs with
  | nil => rfl
  | cons c cs ih =>
    rw [List.reverse_cons, width_append, ih, width_cons, width_cons, width_nil]
    omega

-- Every part but the last one ends with a separator.
theorem eq_of_splitAtChar (h : splitAtChar c cs = above ++ [front]) :
    cs = above.flatMap (· ++ [c]) ++ front := by
  rw [← intercalate_splitAtChar c cs, h]
  clear h
  induction above with
  | nil => simp
  | cons part rest ih =>
    obtain ⟨next, parts, hn⟩ := List.exists_cons_of_ne_nil
      (List.append_ne_nil_of_right_ne_nil rest (List.cons_ne_nil front []))
    rw [List.cons_append, hn, List.intercalate_cons_cons, ← hn, ih]
    simp

theorem takeBytes_of_width_le {n : Nat} (h : width cs ≤ n) : takeBytes n cs = cs := by
  induction cs generalizing n with
  | nil => rfl
  | cons c cs ih =>
    rw [width_cons] at h
    rw [takeBytes, if_pos (by omega), ih (by omega)]

theorem takeBytes_min (n : Nat) (cs : List Char) :
    takeBytes (min n (width cs)) cs = takeBytes n cs := by
  rcases Nat.le_total n (width cs) with h | h
  · rw [Nat.min_eq_left h]
  · rw [Nat.min_eq_right h, takeBytes_of_width_le (Nat.le_refl _), takeBytes_of_width_le h]

theorem takeWhile_takeBytes (p : Char → Bool) (n : Nat) (cs : List Char) :
    (takeBytes n cs).takeWhile p = takeBytes n (cs.takeWhile p) := by
  induction cs generalizing n with
  | nil => rfl
  | cons c cs ih =>
    cases hp : p c with
    | false =>
      have hn : ¬p c = true := by simp [hp]
      simp only [List.takeWhile_cons_of_neg hn, takeBytes]
      split
      · rw [List.takeWhile_cons_of_neg hn]
      · rfl
    | true =>
      simp only [List.takeWhile_cons_of_pos hp, takeBytes]
      split
      · rw [List.takeWhile_cons_of_pos hp, ih]
      · rfl

theorem width_flatMap_newline (above : List (List Char)) :
    width (above.flatMap (· ++ ['\n'])) = (above.map (width · + 1)).sum := by
  induction above with
  | nil => rfl
  | cons part rest ih =>
    have hn : '\n'.utf8Size = 1 := rfl
    rw [List.flatMap_cons, width_append, width_append, ih, List.map_cons, List.sum_cons]
    simp [hn]

end Lines

section Places

variable {cs front back : List Char} {m n : Nat}

-- A text is cut in two at a byte: the first part has all the whole characters in front of it.
structure CutAt (n : Nat) (front back : List Char) : Prop where
  fits : width front ≤ n
  next : ∀ c ∈ back.head?, n < width front + c.utf8Size

theorem cutAt_takeBytes (n : Nat) (cs : List Char) : CutAt n (takeBytes n cs) (dropBytes n cs) := by
  induction cs generalizing n with
  | nil => exact ⟨Nat.zero_le n, nofun⟩
  | cons c cs ih =>
    rw [takeBytes, dropBytes]
    split
    · next h =>
      obtain ⟨fits, next⟩ := ih (n - c.utf8Size)
      refine ⟨?_, fun d hd => ?_⟩
      · rw [width_cons]
        omega
      · have hn := next d hd
        rw [width_cons]
        omega
    · next h =>
      refine ⟨Nat.zero_le n, fun d hd => ?_⟩
      obtain rfl := Option.some.inj hd
      rw [width_nil]
      omega

theorem CutAt.takeBytes (h : CutAt n front back) : takeBytes n (front ++ back) = front := by
  obtain ⟨fits, next⟩ := h
  obtain ⟨k, rfl⟩ := Nat.exists_eq_add_of_le fits
  rw [takeBytes_append_add]
  cases back with
  | nil => exact List.append_nil front
  | cons c cs =>
    have hn := next c rfl
    rw [Text.takeBytes, if_neg (by omega), List.append_nil]

theorem CutAt.dropBytes (h : CutAt n front back) : dropBytes n (front ++ back) = back := by
  have hs := takeBytes_append_dropBytes n (front ++ back)
  rw [h.takeBytes] at hs
  exact List.append_cancel_left hs

theorem cutAt_of_eq (h : n = width front) (back : List Char) : CutAt n front back :=
  ⟨Nat.le_of_eq h.symm, fun c _ => h ▸ Nat.lt_add_of_pos_right c.utf8Size_pos⟩

-- What is cut off behind the place does not matter.
theorem CutAt.of_append {more : List Char} (h : CutAt n front (back ++ more)) :
    CutAt n front back := by
  refine ⟨h.fits, fun c hc => h.next c ?_⟩
  obtain ⟨rest, rfl⟩ := List.head?_eq_some_iff.mp hc
  rfl

theorem CutAt.of_append_left {outer : List Char} (h : CutAt n (outer ++ front) back) :
    CutAt (n - width outer) front back := by
  obtain ⟨fits, next⟩ := h
  rw [width_append] at fits next
  refine ⟨by omega, fun c hc => ?_⟩
  have hn := next c hc
  omega

-- A byte offset between two characters of a text, or at one of its ends.
def IsBoundary (n : Nat) (cs : List Char) : Prop :=
  ∃ front back, cs = front ++ back ∧ width front = n

theorem isBoundary_width (front back : List Char) : IsBoundary (width front) (front ++ back) :=
  ⟨front, back, rfl, rfl⟩

theorem isBoundary_zero (cs : List Char) : IsBoundary 0 cs :=
  ⟨[], cs, rfl, rfl⟩

theorem isBoundary_width_self (cs : List Char) : IsBoundary (width cs) cs :=
  ⟨cs, [], (List.append_nil cs).symm, rfl⟩

theorem isBoundary_floorBoundary (cs : List Char) (n : Nat) : IsBoundary (floorBoundary cs n) cs :=
  ⟨takeBytes n cs, dropBytes n cs, (takeBytes_append_dropBytes n cs).symm, rfl⟩

theorem isBoundary_iff : IsBoundary n cs ↔ floorBoundary cs n = n := by
  constructor
  · rintro ⟨front, back, rfl, rfl⟩
    exact floorBoundary_append front back
  · intro h
    exact h ▸ isBoundary_floorBoundary cs n

instance : Decidable (IsBoundary n cs) := decidable_of_iff _ isBoundary_iff.symm

theorem floorBoundary_mono (h : m ≤ n) : floorBoundary cs m ≤ floorBoundary cs n := by
  induction cs generalizing m n with
  | nil => exact Nat.le_refl _
  | cons c cs ih =>
    rw [floorBoundary, floorBoundary, takeBytes, takeBytes]
    by_cases hm : c.utf8Size ≤ m
    · have hrest : floorBoundary cs (m - c.utf8Size) ≤ floorBoundary cs (n - c.utf8Size) :=
        ih (by omega)
      rw [if_pos hm, if_pos (Nat.le_trans hm h)]
      exact Nat.add_le_add_left hrest _
    · rw [if_neg hm]
      exact Nat.zero_le _

theorem IsBoundary.le_floorBoundary (hb : IsBoundary m cs) (h : m ≤ n) :
    m ≤ floorBoundary cs n := by
  have hle : floorBoundary cs m ≤ floorBoundary cs n := floorBoundary_mono h
  rwa [isBoundary_iff.1 hb] at hle

-- The text between two places, unless they are crossed or one of them lies inside of a character.
def slice? (cs : List Char) (start stop : Nat) : Option (List Char) :=
  if start ≤ stop ∧ IsBoundary start cs ∧ IsBoundary stop cs then some (slice cs start stop)
  else none

theorem slice?_of_le {start stop : Nat} (h : start ≤ stop) (hstart : IsBoundary start cs)
    (hstop : IsBoundary stop cs) : slice? cs start stop = some (slice cs start stop) :=
  if_pos ⟨h, hstart, hstop⟩

end Places

end Text

namespace Script

open Text (width floorBoundary slice splitAtChar takeBytes dropBytes CutAt IsBoundary slice?)

section Lines

variable {source : List Char} {caret : Span} {start offset : Nat} {above below : List (List Char)}
  {before inside after : List Char}

theorem underlined_of_lt (h : start < offset) (lines : List (List Char)) :
    underlined source caret start offset lines = lines := by
  induction lines generalizing offset with
  | nil => rfl
  | cons line rest ih =>
    rw [underlined, if_neg (by omega), ih (by omega)]

theorem underlined_append (h : offset + (above.map (width · + 1)).sum ≤ start)
    (lines : List (List Char)) : underlined source caret start offset (above ++ lines) =
      above ++ underlined source caret start (offset + (above.map (width · + 1)).sum) lines := by
  induction above generalizing offset with
  | nil => rfl
  | cons line rest ih =>
    simp only [List.map_cons, List.sum_cons] at h
    have hnext : offset + width line + 1 + (rest.map (width · + 1)).sum =
        offset + ((line :: rest).map (width · + 1)).sum := by
      simp only [List.map_cons, List.sum_cons]
      omega
    rw [List.cons_append, underlined, if_neg (by omega), ih (by omega), hnext, List.cons_append]

-- The lines of a text in two parts, one of them with carets: that in which the second part begins.
theorem exists_underlined (source before after : List Char) (caret : Span) (offset : Nat) :
    ∃ above front below, splitAtChar '\n' before = above ++ [front] ∧
      splitAtChar '\n' (before ++ after) =
        above ++ (front ++ after.takeWhile (· ≠ '\n')) :: below ∧
      before = above.flatMap (· ++ ['\n']) ++ front ∧
      underlined source caret (offset + width before) offset (splitAtChar '\n' (before ++ after)) =
        above ++ (front ++ after.takeWhile (· ≠ '\n')) ::
          caretLine source caret (offset + width (above.flatMap (· ++ ['\n'])))
            (offset + width before)
            (offset + width before + width (after.takeWhile (· ≠ '\n'))) :: below := by
  obtain ⟨above, front, hf⟩ := Text.exists_splitAtChar_concat '\n' before
  obtain ⟨below, hb⟩ := Text.exists_splitAtChar_eq_takeWhile_cons '\n' after
  have hlines := Text.splitAtChar_append hf hb
  have hbefore := Text.eq_of_splitAtChar hf
  have habove := Text.width_flatMap_newline above
  have hstart : width before = width (above.flatMap (· ++ ['\n'])) + width front := by
    rw [← Text.width_append, ← hbefore]
  have hline : offset + width (above.flatMap (· ++ ['\n'])) +
      width (front ++ after.takeWhile (· ≠ '\n')) =
      offset + width before + width (after.takeWhile (· ≠ '\n')) := by
    rw [Text.width_append, hstart]
    omega
  refine ⟨above, front, below, hf, hlines, hbefore, ?_⟩
  rw [hlines, underlined_append (by omega), ← habove, underlined, hline, if_pos (by omega),
    underlined_of_lt (by omega)]

-- A place that is looked for inside of the middle part of a text.
theorem floorBoundary_clamp (outer middle beyond : List Char) (n : Nat) :
    floorBoundary (outer ++ (middle ++ beyond))
        (clamp (width outer) (width outer + width middle) n) =
      width outer + width (takeBytes (n - width outer) middle) := by
  have hclamp : clamp (width outer) (width outer + width middle) n =
      width outer + min (n - width outer) (width middle) := by
    rw [clamp]
    omega
  rw [hclamp, floorBoundary, Text.takeBytes_append_add, Text.width_append,
    Text.takeBytes_append_of_le beyond (Nat.min_le_right _ _), Text.takeBytes_min]

-- Carets stand under the characters of a span that lie on the line that it begins on.
theorem caretLine_of_split {outer front tail beyond : List Char} (caret : Span)
    (hs : source = outer ++ (front ++ (tail ++ beyond))) :
    caretLine source caret (width outer) (width outer + width front)
        (width outer + width front + width (tail.takeWhile (· ≠ '\n'))) =
      front.map (fun c => if c = '\t' then '\t' else ' ') ++
        List.replicate (max 1 ((takeBytes (caret.stop - (width outer + width front)) tail).takeWhile
          (· ≠ '\n')).length) '^' := by
  obtain ⟨more, hmore⟩ : ∃ more, tail ++ beyond = tail.takeWhile (· ≠ '\n') ++ more := by
    refine ⟨tail.dropWhile (· ≠ '\n') ++ beyond, ?_⟩
    rw [← List.append_assoc, List.takeWhile_append_dropWhile]
  rw [Text.takeWhile_takeBytes]
  generalize tail.takeWhile (· ≠ '\n') = line at hmore ⊢
  rw [hmore] at hs
  have hpad : slice source (width outer) (width outer + width front) = front := by
    rw [hs, Text.slice_append]
  have hstop := floorBoundary_clamp (outer ++ front) line more caret.stop
  rw [List.append_assoc, ← hs, Text.width_append] at hstop
  have hmarked : slice source (width outer + width front) (width outer + width front +
      width (takeBytes (caret.stop - (width outer + width front)) line)) =
      takeBytes (caret.stop - (width outer + width front)) line := by
    have hsplit : source = outer ++ front ++
        (takeBytes (caret.stop - (width outer + width front)) line ++
          (dropBytes (caret.stop - (width outer + width front)) line ++ more)) := by
      rw [← List.append_assoc (takeBytes _ _), Text.takeBytes_append_dropBytes, hs,
        List.append_assoc]
    have hslice := Text.slice_append (outer ++ front)
      (takeBytes (caret.stop - (width outer + width front)) line)
      (dropBytes (caret.stop - (width outer + width front)) line ++ more)
    rw [← hsplit, Text.width_append] at hslice
    exact hslice
  simp only [caretLine]
  rw [hpad, hstop, hmarked]

-- The lines of a text in three parts, with one line more: carets below the line that the second
-- part begins on, from its first character on.
inductive Underlines (before inside after : List Char) : List (List Char) → Prop where
  | intro (above below : List (List Char)) (front back : List Char)
      (lines : splitAtChar '\n' (before ++ (inside ++ after)) = above ++ (front ++ back) :: below)
      (starts : splitAtChar '\n' before = above ++ [front]) :
      Underlines before inside after <| above ++ (front ++ back) ::
        (front.map (fun c => if c = '\t' then '\t' else ' ') ++
          List.replicate (max 1 (inside.takeWhile (· ≠ '\n')).length) '^') :: below

theorem underlines_of_split {outer tail beyond : List Char} (caret : Span)
    (hs : source = outer ++ (before ++ tail ++ beyond)) :
    Underlines before (takeBytes (caret.stop - (width outer + width before)) tail)
      (dropBytes (caret.stop - (width outer + width before)) tail)
      (underlined source caret (width outer + width before) (width outer)
        (splitAtChar '\n' (before ++ tail))) := by
  obtain ⟨above, front, below, hstarts, hlines, hbefore, hunder⟩ :=
    exists_underlined source before tail caret (width outer)
  generalize above.flatMap (· ++ ['\n']) = upper at hbefore hunder
  have hsource : source = outer ++ upper ++ (front ++ (tail ++ beyond)) := by
    rw [hs, hbefore]
    simp
  have hwidth : width outer + width upper + width front = width outer + width before := by
    rw [hbefore, Text.width_append, Nat.add_assoc]
  have hcaret := caretLine_of_split caret hsource
  rw [Text.width_append outer upper, hwidth] at hcaret
  rw [hunder, hcaret]
  have htail := Text.takeBytes_append_dropBytes (caret.stop - (width outer + width before)) tail
  exact .intro above below front _ (by rw [htail, hlines]) hstarts

end Lines

-- Where two spans, wherever they lie, cut a text: in front of an excerpt and behind it, and the
-- excerpt around its part under carets.
structure Cuts (source : List Char) (excerpt caret : Span)
    (outer before inside after beyond : List Char) : Prop where
  whole : source = outer ++ (before ++ (inside ++ after) ++ beyond)
  start : CutAt excerpt.start outer (before ++ (inside ++ after) ++ beyond)
  stop : CutAt (excerpt.stop - width outer) (before ++ (inside ++ after)) beyond
  caretStart : CutAt (caret.start - width outer) before (inside ++ after)
  caretStop : CutAt (caret.stop - (width outer + width before)) inside after

theorem exists_cuts (source : List Char) (excerpt caret : Span) :
    ∃ outer before inside after beyond,
      Cuts source excerpt caret outer before inside after beyond := by
  have start := Text.cutAt_takeBytes excerpt.start source
  have hsource := Text.takeBytes_append_dropBytes excerpt.start source
  generalize takeBytes excerpt.start source = outer at start hsource
  generalize dropBytes excerpt.start source = rest at start hsource
  have stop := Text.cutAt_takeBytes (excerpt.stop - width outer) rest
  have hrest := Text.takeBytes_append_dropBytes (excerpt.stop - width outer) rest
  generalize takeBytes (excerpt.stop - width outer) rest = shown at stop hrest
  generalize dropBytes (excerpt.stop - width outer) rest = beyond at stop hrest
  have caretStart := Text.cutAt_takeBytes (caret.start - width outer) shown
  have hshown := Text.takeBytes_append_dropBytes (caret.start - width outer) shown
  generalize takeBytes (caret.start - width outer) shown = before at caretStart hshown
  generalize dropBytes (caret.start - width outer) shown = tail at caretStart hshown
  have caretStop := Text.cutAt_takeBytes (caret.stop - (width outer + width before)) tail
  have htail := Text.takeBytes_append_dropBytes (caret.stop - (width outer + width before)) tail
  generalize takeBytes (caret.stop - (width outer + width before)) tail = inside at caretStop htail
  generalize dropBytes (caret.stop - (width outer + width before)) tail = after at caretStop htail
  subst htail hshown hrest hsource
  exact ⟨outer, before, inside, after, beyond, rfl, start, stop, caretStart, caretStop⟩

-- The lines of a text in three parts, with carets under the second one, and a message behind them.
def Printed (before inside after : List Char) (message printed : String) : Prop :=
  ∃ lines, Underlines before inside after lines ∧
    printed = .ofList ((lines ++ [message.toList]).flatMap (· ++ ['\n']))

theorem Cuts.printed {source message : String} {excerpt caret : Span}
    {outer before inside after beyond : List Char}
    (h : Cuts source.toList excerpt caret outer before inside after beyond) :
    Printed before inside after message (render source excerpt caret message) := by
  obtain ⟨whole, start, stop, caretStart, caretStop⟩ := h
  have hstart : floorBoundary source.toList (min excerpt.start (width source.toList)) =
      width outer := by
    rw [floorBoundary, Text.takeBytes_min, whole, start.takeBytes]
  have hstop : floorBoundary source.toList (clamp (width outer) (width source.toList)
      excerpt.stop) = width outer + width (before ++ (inside ++ after)) := by
    have hf := floorBoundary_clamp outer (before ++ (inside ++ after) ++ beyond) [] excerpt.stop
    rw [List.append_nil, stop.takeBytes, ← Text.width_append outer, ← whole] at hf
    exact hf
  have hcaret : floorBoundary source.toList (clamp (width outer)
      (width outer + width (before ++ (inside ++ after))) caret.start) =
      width outer + width before := by
    rw [whole, floorBoundary_clamp, caretStart.takeBytes]
  have hslice : slice source.toList (width outer)
      (width outer + width (before ++ (inside ++ after))) = before ++ (inside ++ after) := by
    rw [whole, Text.slice_append]
  have hunder := underlines_of_split caret whole
  rw [caretStop.takeBytes, caretStop.dropBytes] at hunder
  refine ⟨_, hunder, ?_⟩
  simp only [render]
  rw [hstart, hstop, hcaret, hslice]

-- The line that a text begins with, and the one that it ends with.
theorem exists_first_line (cs : List Char) :
    ∃ line rest, cs = line ++ rest ∧ '\n' ∉ line ∧ ∀ c ∈ rest.head?, c = '\n' := by
  refine ⟨cs.takeWhile (· ≠ '\n'), cs.dropWhile (· ≠ '\n'),
    (List.takeWhile_append_dropWhile ..).symm, fun hm => ?_, fun c hc => ?_⟩
  · simpa using List.mem_takeWhile_imp hm
  · simpa using not_of_head_dropWhile (· ≠ '\n') cs c hc

theorem takeWhile_first_line {line rest : List Char} (hl : '\n' ∉ line)
    (hr : ∀ c ∈ rest.head?, c = '\n') : (line ++ rest).takeWhile (· ≠ '\n') = line := by
  refine takeWhile_of_head (fun c hc => ?_) (fun c hc => ?_)
  · exact decide_eq_true (ne_of_mem_of_not_mem hc hl)
  · simp [hr c hc]

theorem exists_last_line (cs : List Char) :
    ∃ rest line, cs = rest ++ line ∧ (∀ c ∈ rest.getLast?, c = '\n') ∧ '\n' ∉ line := by
  obtain ⟨line, rest, hcs, hline, hrest⟩ := exists_first_line cs.reverse
  refine ⟨rest.reverse, line.reverse, ?_, ?_, ?_⟩
  · rw [← List.reverse_append, ← hcs, List.reverse_reverse]
  · rwa [List.getLast?_reverse]
  · rwa [List.mem_reverse]

-- Where a span cuts a text, and the whole lines that it lies on.
structure LineCuts (source : List Char) (caret : Span)
    (outer before inside after beyond : List Char) : Prop where
  whole : source = outer ++ (before ++ (inside ++ after) ++ beyond)
  start : CutAt caret.start (outer ++ before) (inside ++ after ++ beyond)
  stop : CutAt (caret.stop - width (outer ++ before)) inside (after ++ beyond)
  above : ∀ c ∈ outer.getLast?, c = '\n'
  front : '\n' ∉ before
  back : '\n' ∉ after
  below : ∀ c ∈ beyond.head?, c = '\n'

theorem exists_lineCuts (source : List Char) (caret : Span) :
    ∃ outer before inside after beyond, LineCuts source caret outer before inside after beyond := by
  have start := Text.cutAt_takeBytes caret.start source
  have hsource := Text.takeBytes_append_dropBytes caret.start source
  generalize takeBytes caret.start source = left at start hsource
  generalize dropBytes caret.start source = right at start hsource
  have stop := Text.cutAt_takeBytes (caret.stop - width left) right
  have hright := Text.takeBytes_append_dropBytes (caret.stop - width left) right
  generalize takeBytes (caret.stop - width left) right = inside at stop hright
  generalize dropBytes (caret.stop - width left) right = rest at stop hright
  obtain ⟨outer, before, rfl, above, front⟩ := exists_last_line left
  obtain ⟨after, beyond, rfl, back, below⟩ := exists_first_line rest
  subst hright hsource
  refine ⟨outer, before, inside, after, beyond, ?_, ?_, stop, above, front, back, below⟩
  · simp
  · simpa using start

theorem LineCuts.printed {source message : String} {caret : Span}
    {outer before inside after beyond : List Char}
    (h : LineCuts source.toList caret outer before inside after beyond) :
    Printed before inside after message (renderLines source caret message) := by
  obtain ⟨whole, start, stop, above, front, back, below⟩ := h
  have hsource : source.toList = outer ++ before ++ (inside ++ (after ++ beyond)) := by
    rw [whole]
    simp
  have hstart : floorBoundary source.toList (min caret.start (width source.toList)) =
      width (outer ++ before) := by
    rw [floorBoundary, Text.takeBytes_min, hsource, ← List.append_assoc inside, start.takeBytes]
  have hstop : floorBoundary source.toList (clamp (width (outer ++ before))
      (width source.toList) caret.stop) = width (outer ++ before) + width inside := by
    have hf := floorBoundary_clamp (outer ++ before) (inside ++ (after ++ beyond)) [] caret.stop
    rw [List.append_nil, stop.takeBytes, ← Text.width_append (outer ++ before), ← hsource] at hf
    exact hf
  have hbefore : (takeBytes (width (outer ++ before)) source.toList).reverse.takeWhile
      (· ≠ '\n') = before.reverse := by
    rw [hsource, Text.takeBytes_width_append, List.reverse_append]
    exact takeWhile_first_line (by rwa [List.mem_reverse]) (by rwa [List.head?_reverse])
  have hafter : (dropBytes (width (outer ++ before) + width inside) source.toList).takeWhile
      (· ≠ '\n') = after := by
    rw [hsource, ← List.append_assoc, ← Text.width_append, Text.dropBytes_width_append]
    exact takeWhile_first_line back below
  have hfirst : width (outer ++ before) - width before = width outer := by
    rw [Text.width_append, Nat.add_sub_cancel_right]
  have hlast : width (outer ++ before) + width inside + width after =
      width outer + width (before ++ (inside ++ after)) := by
    simp only [Text.width_append]
    omega
  have hrender : renderLines source caret message = render source
      ⟨width outer, width outer + width (before ++ (inside ++ after))⟩ caret message := by
    simp only [renderLines]
    rw [hstart, hstop, hbefore, hafter, Text.width_reverse, hfirst, hlast]
  rw [hrender]
  -- the lines are an excerpt that ends where it should
  refine Cuts.printed ⟨whole, Text.cutAt_of_eq rfl _,
    Text.cutAt_of_eq (Nat.add_sub_cancel_left ..) _, ?_, ?_⟩
  · have hcut : CutAt (caret.start - width outer) before (inside ++ after ++ beyond) :=
      start.of_append_left
    exact hcut.of_append
  · rw [← Text.width_append]
    exact stop.of_append

section Checked

variable {source : List Char} {caret : Span} {offset start stop : Nat}

-- A number between two bounds, unless they are crossed.
def clamp? (low high n : Nat) : Option Nat :=
  if low ≤ high then some (clamp low high n) else none

theorem clamp?_of_le {low high : Nat} (h : low ≤ high) (n : Nat) :
    clamp? low high n = some (clamp low high n) :=
  if_pos h

-- The same functions, but with every slice and every pair of bounds looked at.
def caretLine? (source : List Char) (caret : Span) (offset start stop : Nat) :
    Option (List Char) := do
  let pad ← slice? source offset start
  let bound ← clamp? start stop caret.stop
  let marked ← slice? source start (floorBoundary source bound)
  return pad.map (fun c => if c = '\t' then '\t' else ' ') ++
    List.replicate (max 1 marked.length) '^'

def underlined? (source : List Char) (caret : Span) (start : Nat) (offset : Nat) :
    List (List Char) → Option (List (List Char))
  | [] => some []
  | line :: rest => do
    let stop := offset + width line
    if offset ≤ start ∧ start ≤ stop then
      let carets ← caretLine? source caret offset start stop
      let below ← underlined? source caret start (stop + 1) rest
      return line :: carets :: below
    else
      let below ← underlined? source caret start (stop + 1) rest
      return line :: below

def render? (source : String) (excerpt caret : Span) (message : String) : Option String := do
  let cs := source.toList
  let start := floorBoundary cs (min excerpt.start (width cs))
  let bound ← clamp? start (width cs) excerpt.stop
  let stop := floorBoundary cs bound
  let place ← clamp? start stop caret.start
  let shown ← slice? cs start stop
  let lines ← underlined? cs caret (floorBoundary cs place) start (splitAtChar '\n' shown)
  return String.ofList ((lines ++ [message.toList]).flatMap (· ++ ['\n']))

def renderLines? (source : String) (caret : Span) (message : String) : Option String := do
  let cs := source.toList
  let start := floorBoundary cs (min caret.start (width cs))
  let before ← slice? cs 0 start
  let bound ← clamp? start (width cs) caret.stop
  let stop := floorBoundary cs bound
  let after ← slice? cs stop (width cs)
  render? source ⟨start - width (before.reverse.takeWhile (· ≠ '\n')),
    stop + width (after.takeWhile (· ≠ '\n'))⟩ caret message

theorem le_clamp (low high n : Nat) : low ≤ clamp low high n :=
  Nat.le_max_left _ _

theorem caretLine?_eq (caret : Span) (stop : Nat) (hoffset : IsBoundary offset source)
    (hstart : IsBoundary start source) (hle : offset ≤ start) (hlt : start ≤ stop) :
    caretLine? source caret offset start stop =
      some (caretLine source caret offset start stop) := by
  have hmarked := hstart.le_floorBoundary (le_clamp start stop caret.stop)
  have hbound := Text.isBoundary_floorBoundary source (clamp start stop caret.stop)
  simp only [caretLine?, clamp?_of_le hlt, Text.slice?_of_le hle hoffset hstart,
    Text.slice?_of_le hmarked hstart hbound, Option.bind_eq_bind, Option.bind_some, caretLine]
  rfl

-- The lines lie in the source one behind the other, so each of them begins at a character.
theorem underlined?_eq (caret : Span) {outer beyond : List Char} {lines : List (List Char)}
    (hs : source = outer ++ (['\n'].intercalate lines ++ beyond))
    (hstart : IsBoundary start source) :
    underlined? source caret start (width outer) lines =
      some (underlined source caret start (width outer) lines) := by
  induction lines generalizing outer with
  | nil => rfl
  | cons line rest ih =>
    have hoffset : IsBoundary (width outer) source := hs ▸ Text.isBoundary_width outer _
    have hrest : underlined? source caret start (width outer + width line + 1) rest =
        some (underlined source caret start (width outer + width line + 1) rest) := by
      cases rest with
      | nil => rfl
      | cons next rest =>
        have hn : '\n'.utf8Size = 1 := rfl
        have hnext := @ih (outer ++ (line ++ ['\n'])) (by
          rw [hs, List.intercalate_cons_cons]
          simp)
        rwa [Text.width_append, Text.width_append, Text.width_cons, Text.width_nil, hn,
          ← Nat.add_assoc] at hnext
    simp only [underlined?, underlined, hrest]
    split
    · next hin =>
      rw [caretLine?_eq caret _ hoffset hstart hin.1 hin.2]
      rfl
    · rfl

theorem render?_eq (source : String) (excerpt caret : Span) (message : String) :
    render? source excerpt caret message = some (render source excerpt caret message) := by
  simp only [render?, render]
  generalize source.toList = cs
  have hfirst := Text.isBoundary_floorBoundary cs (min excerpt.start (width cs))
  have hle : floorBoundary cs (min excerpt.start (width cs)) ≤ width cs :=
    Nat.le_trans (Text.floorBoundary_le _ _) (Nat.min_le_right _ _)
  generalize floorBoundary cs (min excerpt.start (width cs)) = start at hfirst hle ⊢
  have hlast := Text.isBoundary_floorBoundary cs (clamp start (width cs) excerpt.stop)
  have hlt := hfirst.le_floorBoundary (le_clamp start (width cs) excerpt.stop)
  generalize hstop : floorBoundary cs (clamp start (width cs) excerpt.stop) = stop at hlast hlt
  obtain ⟨outer, rest, hcs, rfl⟩ := hfirst
  have hlines : cs = outer ++
      (['\n'].intercalate (splitAtChar '\n' (slice cs (width outer) stop)) ++
        dropBytes (stop - width outer) rest) := by
    have hdrop : dropBytes (width outer) cs = rest := by rw [hcs, Text.dropBytes_width_append]
    rw [Text.intercalate_splitAtChar, slice, hdrop, Text.takeBytes_append_dropBytes, hcs]
  simp only [clamp?_of_le hle, hstop, clamp?_of_le hlt,
    Text.slice?_of_le hlt ⟨outer, rest, hcs, rfl⟩ hlast,
    underlined?_eq caret hlines (Text.isBoundary_floorBoundary _ _), Option.bind_eq_bind,
    Option.bind_some]
  rfl

theorem renderLines?_eq (source : String) (caret : Span) (message : String) :
    renderLines? source caret message = some (renderLines source caret message) := by
  simp only [renderLines?, renderLines, render?_eq]
  generalize source.toList = cs
  have hfirst := Text.isBoundary_floorBoundary cs (min caret.start (width cs))
  have hle : floorBoundary cs (min caret.start (width cs)) ≤ width cs :=
    Nat.le_trans (Text.floorBoundary_le _ _) (Nat.min_le_right _ _)
  generalize floorBoundary cs (min caret.start (width cs)) = start at hfirst hle ⊢
  have hlast := Text.isBoundary_floorBoundary cs (clamp start (width cs) caret.stop)
  have hlt : floorBoundary cs (clamp start (width cs) caret.stop) ≤ width cs :=
    Nat.le_trans (Text.floorBoundary_le _ _) (clamp_le _ hle (Nat.le_refl _))
  have hbefore : slice cs 0 start = takeBytes start cs := by
    rw [slice, Text.dropBytes_zero, Nat.sub_zero]
  simp only [clamp?_of_le hle, Text.slice?_of_le (Nat.zero_le _) (Text.isBoundary_zero cs) hfirst,
    Text.slice?_of_le hlt hlast (Text.isBoundary_width_self cs), hbefore, Option.bind_eq_bind,
    Option.bind_some]
  generalize floorBoundary cs (clamp start (width cs) caret.stop) = stop at hlast
  have hafter : slice cs stop (width cs) = dropBytes stop cs := by
    obtain ⟨front, back, rfl, rfl⟩ := hlast
    have hslice := Text.slice_append front back []
    rw [List.append_nil] at hslice
    rw [Text.width_append, hslice, Text.dropBytes_width_append]
  rw [hafter]

end Checked

-- Of any source, two spans and a message: the excerpt is printed with a line of carets more and the
-- message, and no place is looked at that is not there; likewise the whole lines of one span.
theorem render_underlines (source : String) (excerpt caret : Span) (message : String) :
    (render? source excerpt caret message = some (render source excerpt caret message) ∧
      ∃ outer before inside after beyond,
        Cuts source.toList excerpt caret outer before inside after beyond ∧
        Printed before inside after message (render source excerpt caret message)) ∧
    renderLines? source caret message = some (renderLines source caret message) ∧
      ∃ outer before inside after beyond,
        LineCuts source.toList caret outer before inside after beyond ∧
        Printed before inside after message (renderLines source caret message) := by
  obtain ⟨outer, before, inside, after, beyond, hcuts⟩ := exists_cuts source.toList excerpt caret
  obtain ⟨outer', before', inside', after', beyond', hlines⟩ :=
    exists_lineCuts source.toList caret
  exact ⟨⟨render?_eq source excerpt caret message,
      outer, before, inside, after, beyond, hcuts, hcuts.printed⟩,
    renderLines?_eq source caret message,
    outer', before', inside', after', beyond', hlines, hlines.printed⟩

-- A span that is reversed and begins inside of a character.
example : render "a\n\té\nb" ⟨0, 9⟩ ⟨4, 3⟩ "no" = "a\n\té\n\t^\nb\nno\n" := by
  cbv

end Script

end CommandShell
