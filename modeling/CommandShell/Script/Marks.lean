import CommandShell.Script.Token
import CommandShell.Script.Word
import CommandShell.Text.Bytes

namespace CommandShell.Script

open Text (width)

-- A span that marks whole characters, at least one, of a text at a byte offset.
def Marks (offset : Nat) (cs : List Char) (span : Span) : Prop :=
  ∃ before inside after, cs = before ++ (inside ++ after) ∧ inside ≠ [] ∧
    span.start = offset + width before ∧ span.stop = span.start + width inside

namespace Marks

variable {offset : Nat} {front cs : List Char} {span : Span}

theorem head {c : Char} {cs : List Char} : Marks offset (c :: cs) ⟨offset, offset + c.utf8Size⟩ :=
  ⟨[], [c], cs, rfl, List.cons_ne_nil _ _, rfl, rfl⟩

theorem append_left (h : Marks (offset + width front) cs span) :
    Marks offset (front ++ cs) span := by
  obtain ⟨before, inside, after, rfl, hi, hs, ht⟩ := h
  refine ⟨front ++ before, inside, after, by simp, hi, ?_, ht⟩
  rw [hs, Text.width_append, Nat.add_assoc]

theorem append_right (h : Marks offset cs span) (more : List Char) :
    Marks offset (cs ++ more) span := by
  obtain ⟨before, inside, after, rfl, hi, hs, ht⟩ := h
  exact ⟨before, inside, after ++ more, by simp, hi, hs, ht⟩

theorem cons {c : Char} (h : Marks (offset + c.utf8Size) cs span) : Marks offset (c :: cs) span :=
  @append_left offset [c] cs span h

end Marks

-- An offset of a character of a text at a byte offset.
def Begins (offset : Nat) (cs : List Char) (start : Nat) : Prop :=
  ∃ before after, cs = before ++ after ∧ after ≠ [] ∧ start = offset + width before

namespace Begins

variable {offset start : Nat} {front cs : List Char}

theorem head {c : Char} {cs : List Char} : Begins offset (c :: cs) offset :=
  ⟨[], c :: cs, rfl, List.cons_ne_nil _ _, rfl⟩

theorem append_left (h : Begins (offset + width front) cs start) :
    Begins offset (front ++ cs) start := by
  obtain ⟨before, after, rfl, hn, hs⟩ := h
  refine ⟨front ++ before, after, by simp, hn, ?_⟩
  rw [hs, Text.width_append, Nat.add_assoc]

theorem cons {c : Char} (h : Begins (offset + c.utf8Size) cs start) :
    Begins offset (c :: cs) start :=
  @append_left offset start [c] cs h

end Begins

-- A quote that is open at the end was open before, or it was opened in the text.
theorem begins_of_openQuote {quote : Option (Char × Nat)} {offset start : Nat} {cs : List Char}
    (h : openQuote quote offset cs = some start) :
    (∃ q, quote = some (q, start)) ∨ Begins offset cs start := by
  fun_induction openQuote quote offset cs with
  | case1 quote =>
    obtain ⟨⟨q, n⟩, rfl, rfl⟩ := Option.map_eq_some_iff.1 h
    exact .inl ⟨q, rfl⟩
  | case2 offset cs q n ih => exact .inr ((ih h).resolve_left (by simp)).cons
  | case3 offset c q n hq hb =>
    cases h
    exact .inl ⟨q, rfl⟩
  | case4 offset c q n hq hb d ds ih => exact (ih h).imp_right fun hb => hb.cons.cons
  | case5 offset c cs q n hq hb ih => exact (ih h).imp_right .cons
  | case6 offset c cs hq ih =>
    rcases ih h with ⟨q, hq⟩ | hb
    · cases hq
      exact .inr .head
    · exact .inr hb.cons
  | case7 => cases h
  | case8 offset d ds hq ih => exact .inr ((ih h).resolve_left (by simp)).cons.cons
  | case9 offset c cs hq hb ih => exact .inr ((ih h).resolve_left (by simp)).cons

end CommandShell.Script
