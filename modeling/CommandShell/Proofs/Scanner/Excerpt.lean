import CommandShell.Proofs.Grammar.Motion
import CommandShell.Proofs.Scanner.Layout
import CommandShell.Script.Excerpt
import Mathlib.Algebra.Ring.Nat

namespace CommandShell

namespace Text

variable {before cs after : List Char} {n a b : Nat}

theorem takeBytes_zero (cs : List Char) : takeBytes 0 cs = [] := by
  cases cs with
  | nil => rfl
  | cons c cs => simp [takeBytes, Nat.not_le.2 c.utf8Size_pos]

theorem dropBytes_zero (cs : List Char) : dropBytes 0 cs = cs := by
  cases cs with
  | nil => rfl
  | cons c cs => simp [dropBytes, Nat.not_le.2 c.utf8Size_pos]

theorem takeBytes_append_of_le (after : List Char) (h : n ≤ width cs) :
    takeBytes n (cs ++ after) = takeBytes n cs := by
  induction cs generalizing n with
  | nil =>
    obtain rfl : n = 0 := by simpa using h
    simp [takeBytes_zero]
  | cons c cs ih =>
    simp only [width_cons] at h
    simp only [List.cons_append, takeBytes]
    split
    · rw [ih (by omega)]
    · rfl

theorem dropBytes_append_of_le (after : List Char) (h : n ≤ width cs) :
    dropBytes n (cs ++ after) = dropBytes n cs ++ after := by
  induction cs generalizing n with
  | nil =>
    obtain rfl : n = 0 := by simpa using h
    simp [dropBytes_zero]
  | cons c cs ih =>
    simp only [width_cons] at h
    simp only [List.cons_append, dropBytes]
    split
    · exact ih (by omega)
    · rfl

theorem takeBytes_append_add (before cs : List Char) (n : Nat) :
    takeBytes (width before + n) (before ++ cs) = before ++ takeBytes n cs := by
  induction before with
  | nil => simp
  | cons c before ih =>
    have hn : c.utf8Size + width before + n - c.utf8Size = width before + n := by omega
    simp only [List.cons_append, takeBytes, width_cons]
    rw [if_pos (by omega), hn, ih]

theorem dropBytes_append_add (before cs : List Char) (n : Nat) :
    dropBytes (width before + n) (before ++ cs) = dropBytes n cs := by
  induction before with
  | nil => simp
  | cons c before ih =>
    have hn : c.utf8Size + width before + n - c.utf8Size = width before + n := by omega
    simp only [List.cons_append, dropBytes, width_cons]
    rw [if_pos (by omega), hn, ih]

theorem width_takeBytes_le (n : Nat) (cs : List Char) : width (takeBytes n cs) ≤ n := by
  induction cs generalizing n with
  | nil => exact Nat.zero_le _
  | cons c cs ih =>
    simp only [takeBytes]
    split
    · have hr := ih (n - c.utf8Size)
      simp only [width_cons]
      omega
    · exact Nat.zero_le _

theorem floorBoundary_le (cs : List Char) (n : Nat) : floorBoundary cs n ≤ n :=
  width_takeBytes_le n cs

theorem le_width_dropBytes (n : Nat) (cs : List Char) : width cs - n ≤ width (dropBytes n cs) := by
  have hs := congrArg width (takeBytes_append_dropBytes n cs)
  have ht := width_takeBytes_le n cs
  rw [width_append] at hs
  omega

-- Places in a text that stands inside of another one.
theorem floorBoundary_inside (before after : List Char) (h : n ≤ width cs) :
    floorBoundary (before ++ (cs ++ after)) (n + width before) =
      floorBoundary cs n + width before := by
  rw [floorBoundary, Nat.add_comm n, takeBytes_append_add, takeBytes_append_of_le after h,
    width_append, floorBoundary, Nat.add_comm]

theorem slice_inside (before after : List Char) (ha : a ≤ width cs) (hb : b ≤ width cs) :
    slice (before ++ (cs ++ after)) (a + width before) (b + width before) = slice cs a b := by
  have hw := le_width_dropBytes a cs
  have hn : b + width before - (a + width before) = b - a := by omega
  rw [slice, hn, Nat.add_comm a, dropBytes_append_add, dropBytes_append_of_le after ha,
    takeBytes_append_of_le after (by omega), slice]

-- The lines of a text take up its bytes, but for a newline between two of them.
theorem width_splitAtChar_newline (cs : List Char) :
    ((splitAtChar '\n' cs).map (width · + 1)).sum = width cs + 1 := by
  induction cs with
  | nil => rfl
  | cons c cs ih =>
    rw [splitAtChar]
    cases h : splitAtChar '\n' cs with
    | nil => simp [h] at ih
    | cons part rest =>
      simp only [h, List.map_cons, List.sum_cons] at ih
      dsimp only
      split
      · next hc =>
        have hw : c.utf8Size = 1 := by rw [hc]; rfl
        simp only [List.map_cons, List.sum_cons, width_nil, width_cons, hw]
        omega
      · simp only [List.map_cons, List.sum_cons, width_cons]
        omega

end Text

namespace Script

open Text (width floorBoundary slice)

section Inside

variable (before after : List Char) {cs : List Char}

theorem clamp_add (low high n d : Nat) : clamp (low + d) (high + d) (n + d) = clamp low high n + d := by
  simp only [clamp]
  omega

theorem clamp_le {low high bound : Nat} (n : Nat) (hl : low ≤ bound) (hh : high ≤ bound) :
    clamp low high n ≤ bound := by
  simp only [clamp]
  omega

theorem caretLine_inside {d : Shift} (hd : d.bytes = width before) (caret : Span)
    {offset start stop : Nat} (ho : offset ≤ width cs) (hs : start ≤ stop)
    (hw : stop ≤ width cs) :
    caretLine (before ++ (cs ++ after)) (caret.shift d) (offset + d.bytes) (start + d.bytes)
        (stop + d.bytes) =
      caretLine cs caret offset start stop := by
  have hc : clamp start stop caret.stop ≤ width cs := clamp_le caret.stop (by omega) hw
  have hf := Text.floorBoundary_le cs (clamp start stop caret.stop)
  simp only [caretLine, Span.shift, clamp_add, hd]
  rw [Text.floorBoundary_inside before after hc, Text.slice_inside before after ho (by omega),
    Text.slice_inside before after (by omega) (by omega)]

theorem underlined_inside {d : Shift} (hd : d.bytes = width before) (caret : Span) (start : Nat)
    (offset : Nat) (lines : List (List Char))
    (hw : offset + (lines.map (width · + 1)).sum ≤ width cs + 1) :
    underlined (before ++ (cs ++ after)) (caret.shift d) (start + d.bytes) (offset + d.bytes) lines =
      underlined cs caret start offset lines := by
  induction lines generalizing offset with
  | nil => rfl
  | cons line rest ih =>
    simp only [List.map_cons, List.sum_cons] at hw
    have hr := ih (offset + width line + 1) (by omega)
    have hstop : offset + d.bytes + width line = offset + width line + d.bytes := by omega
    have hnext : offset + width line + d.bytes + 1 = offset + width line + 1 + d.bytes := by omega
    simp only [underlined, hstop, hnext, hr, Nat.add_le_add_iff_right]
    split
    · next hin =>
      rw [caretLine_inside before after hd caret (by omega) hin.2 (by omega)]
    · rfl

-- An excerpt of a text that stands inside of another one.
theorem render_inside {source whole : String} {d : Shift} (hd : d.bytes = width before)
    (hs : whole.toList = before ++ (source.toList ++ after)) {excerpt : Span} (caret : Span)
    (message : String) (hstart : excerpt.start ≤ width source.toList)
    (hstop : excerpt.stop ≤ width source.toList) :
    render whole (excerpt.shift d) (caret.shift d) message =
      render source excerpt caret message := by
  simp only [render, Span.shift, hs, hd]
  generalize source.toList = cs at hstart hstop ⊢
  have hwhole : width (before ++ (cs ++ after)) = width cs + width after + width before := by
    rw [Text.width_append, Text.width_append]
    omega
  have hmin : min (excerpt.start + width before) (width (before ++ (cs ++ after))) =
      min excerpt.start (width cs) + width before := by omega
  have hle : floorBoundary cs (min excerpt.start (width cs)) ≤ width cs :=
    Nat.le_trans (Text.floorBoundary_le _ _) (Nat.min_le_right _ _)
  rw [hmin, Text.floorBoundary_inside before after (Nat.min_le_right _ _)]
  generalize floorBoundary cs (min excerpt.start (width cs)) = start at hle ⊢
  have hclamp : clamp (start + width before) (width (before ++ (cs ++ after)))
      (excerpt.stop + width before) = clamp start (width cs) excerpt.stop + width before := by
    simp only [clamp]
    omega
  have hc : clamp start (width cs) excerpt.stop ≤ width cs := clamp_le _ hle (Nat.le_refl _)
  have hstople : floorBoundary cs (clamp start (width cs) excerpt.stop) ≤ width cs :=
    Nat.le_trans (Text.floorBoundary_le _ _) hc
  rw [hclamp, Text.floorBoundary_inside before after hc]
  generalize floorBoundary cs (clamp start (width cs) excerpt.stop) = stop at hstople ⊢
  have hlines : start + ((Text.splitAtChar '\n' (slice cs start stop)).map (width · + 1)).sum ≤
      width cs + 1 := by
    have hw := Text.width_takeBytes_le (stop - start) (Text.dropBytes start cs)
    rw [Text.width_splitAtChar_newline, slice]
    omega
  have hu := underlined_inside before after hd caret (floorBoundary cs (clamp start stop caret.start))
    start _ hlines
  simp only [Span.shift, hd] at hu
  rw [clamp_add, Text.floorBoundary_inside before after (clamp_le _ hle hstople),
    Text.slice_inside before after hle hstople, hu]

end Inside

end Script

end CommandShell
