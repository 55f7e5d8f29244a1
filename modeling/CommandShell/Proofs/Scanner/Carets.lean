import CommandShell.Proofs.Scanner.Faults
import CommandShell.Proofs.Scanner.Rendering

namespace CommandShell.Script

open Text (width)

-- What is printed of an excerpt at a byte offset with carets under a part of it and a message.
def Shows (offset : Nat) (excerpt : List Char) (span : Span) (message printed : String) : Prop :=
  ∃ before inside after lines, excerpt = before ++ (inside ++ after) ∧ inside ≠ [] ∧
    span.start = offset + width before ∧ span.stop = span.start + width inside ∧
    Underlines before inside after lines ∧
    printed = String.ofList ((lines ++ [message.toList]).flatMap (· ++ ['\n']))

theorem shows_of_marks {source : String} {outer excerpt beyond : List Char} {span : Span}
    (hs : source.toList = outer ++ (excerpt ++ beyond)) (hm : Marks (width outer) excerpt span)
    (message : String) : Shows (width outer) excerpt span message
      (render source ⟨width outer, width outer + width excerpt⟩ span message) := by
  obtain ⟨before, inside, after, rfl, hi, hstart, hstop⟩ := hm
  have cuts : Cuts source.toList ⟨width outer, width outer + width (before ++ (inside ++ after))⟩
      span outer before inside after beyond :=
    { whole := hs
      start := Text.cutAt_of_eq rfl _
      stop := Text.cutAt_of_eq (Nat.add_sub_cancel_left ..) _
      caretStart := Text.cutAt_of_eq (by omega) _
      caretStop := Text.cutAt_of_eq (by omega) _ }
  obtain ⟨lines, hlines, hprinted⟩ := cuts.printed
  exact ⟨before, inside, after, lines, rfl, hi, hstart, hstop, hlines, hprinted⟩

-- A part of a text is shown on whole lines.
theorem exists_shows_renderLines {source : String} {span : Span}
    (hm : Marks 0 source.toList span) (message : String) :
    ∃ outer excerpt beyond, source.toList = outer ++ (excerpt ++ beyond) ∧
      Shows (width outer) excerpt span message (renderLines source span message) := by
  obtain ⟨before, inside, after, hs, hi, hstart, hstop⟩ := hm
  -- the line that the part begins on, and what is left of the one that it ends on
  obtain ⟨outer, front, rfl, above, hfront⟩ := exists_last_line before
  obtain ⟨back, beyond, rfl, hback, below⟩ := exists_first_line after
  rw [Nat.zero_add] at hstart
  have cuts : LineCuts source.toList span outer front inside back beyond :=
    { whole := by simp [hs]
      start := Text.cutAt_of_eq hstart _
      stop := Text.cutAt_of_eq (by omega) _
      above, front := hfront, back := hback, below }
  obtain ⟨lines, hlines, hprinted⟩ := cuts.printed
  refine ⟨outer, _, beyond, cuts.whole, front, inside, back, lines, rfl, hi, ?_, hstop, hlines,
    hprinted⟩
  rw [hstart, Text.width_append]

-- An error of reading a text marks whole characters of it, and it is shown there.
structure LexError.Located (e : LexError) (source : String) : Prop where
  marks : Marks 0 source.toList e.span
  shown : ∃ outer excerpt beyond, source.toList = outer ++ (excerpt ++ beyond) ∧
    Shows (width outer) excerpt e.span e.message (renderLines source e.span e.message)

theorem LexError.Located.of_marks {e : LexError} {source : String}
    (h : Marks 0 source.toList e.span) : e.Located source :=
  ⟨h, exists_shows_renderLines h e.message⟩

end CommandShell.Script
