import CommandShell.Text.Split
import Mathlib.Data.List.Basic

namespace CommandShell.Text

variable {c : Char} {cs part : List Char}

theorem splitAtChar_ne_nil (c : Char) (cs : List Char) : splitAtChar c cs ≠ [] := by
  cases cs with
  | nil => simp [splitAtChar]
  | cons d ds =>
    rw [splitAtChar]
    split
    · simp
    · split <;> simp

theorem splitString_ne_nil (c : Char) (text : String) : splitString c text ≠ [] := by
  simpa [splitString] using splitAtChar_ne_nil c text.toList

-- A separator ends a part; any other character goes into the first part.
theorem splitAtChar_cons (c d : Char) (ds : List Char) :
    ∃ first rest, splitAtChar c ds = first :: rest ∧
      splitAtChar c (d :: ds) = if d = c then [] :: first :: rest else (d :: first) :: rest := by
  obtain ⟨first, rest, h⟩ := List.exists_cons_of_ne_nil (splitAtChar_ne_nil c ds)
  exact ⟨first, rest, h, by rw [splitAtChar, h]⟩

theorem intercalate_splitAtChar (c : Char) (cs : List Char) :
    [c].intercalate (splitAtChar c cs) = cs := by
  induction cs with
  | nil => rfl
  | cons d ds ih =>
    obtain ⟨first, rest, h, hd⟩ := splitAtChar_cons c d ds
    rw [h] at ih
    rw [hd]
    split
    · next hc => rw [List.intercalate_cons_cons, ih, hc]; rfl
    · rw [List.intercalate_cons_cons_left, ih]

theorem intercalate_splitString (text : String) :
    String.intercalate "\n" (splitString '\n' text) = text := by
  rw [← String.toList_inj, String.toList_intercalate, splitString, List.map_map]
  simpa [Function.comp_def] using intercalate_splitAtChar '\n' text.toList

theorem not_mem_of_mem_splitAtChar (h : part ∈ splitAtChar c cs) : c ∉ part := by
  induction cs generalizing part with
  | nil =>
    obtain rfl := List.mem_singleton.mp h
    exact List.not_mem_nil
  | cons d ds ih =>
    obtain ⟨first, rest, hs, hd⟩ := splitAtChar_cons c d ds
    rw [hs] at ih
    rw [hd] at h
    split at h
    · rcases List.mem_cons.mp h with rfl | h
      · exact List.not_mem_nil
      · exact ih h
    · next hc =>
      rcases List.mem_cons.mp h with rfl | h
      · have hf : c ∉ first := ih List.mem_cons_self
        rw [List.mem_cons, not_or]
        exact ⟨Ne.symm hc, hf⟩
      · exact ih (List.mem_cons_of_mem _ h)

theorem splitAtChar_of_not_mem (h : c ∉ cs) : splitAtChar c cs = [cs] := by
  induction cs with
  | nil => rfl
  | cons d ds ih =>
    obtain ⟨hd, hds⟩ := not_or.mp (mt List.mem_cons.mpr h)
    rw [splitAtChar, ih hds]
    exact if_neg (Ne.symm hd)

-- The first part ends at the first separator.
theorem splitAtChar_append_cons (h : c ∉ part) (cs : List Char) :
    splitAtChar c (part ++ c :: cs) = part :: splitAtChar c cs := by
  induction part with
  | nil =>
    obtain ⟨first, rest, hs, hd⟩ := splitAtChar_cons c c cs
    rw [List.nil_append, hd, if_pos rfl, hs]
  | cons d ds ih =>
    obtain ⟨hd, hds⟩ := not_or.mp (mt List.mem_cons.mpr h)
    rw [List.cons_append, splitAtChar, ih hds]
    exact if_neg (Ne.symm hd)

-- Parts without separators come out as they were joined.
theorem splitAtChar_intercalate {parts : List (List Char)} (hn : parts ≠ [])
    (h : ∀ part ∈ parts, c ∉ part) : splitAtChar c ([c].intercalate parts) = parts := by
  induction parts with
  | nil => exact absurd rfl hn
  | cons part rest ih =>
    obtain ⟨hp, hr⟩ := List.forall_mem_cons.mp h
    cases rest with
    | nil => rw [List.intercalate_singleton, splitAtChar_of_not_mem hp]
    | cons next rest =>
      rw [List.intercalate_cons_cons, List.append_assoc, List.singleton_append,
        splitAtChar_append_cons hp, ih (List.cons_ne_nil _ _) hr]

theorem splitString_intercalate {separator : String} {parts : List String}
    (hs : separator.toList = [c]) (hn : parts ≠ []) (h : ∀ part ∈ parts, c ∉ part.toList) :
    splitString c (separator.intercalate parts) = parts := by
  have hsplit : splitAtChar c ([c].intercalate (parts.map String.toList)) =
      parts.map String.toList := splitAtChar_intercalate (by simpa using hn) (by simpa using h)
  rw [splitString, String.toList_intercalate, hs, hsplit, List.map_map]
  simp [Function.comp_def]

theorem not_mem_intercalate {separator : List Char} {parts : List (List Char)}
    (hs : c ∉ separator) (h : ∀ part ∈ parts, c ∉ part) : c ∉ separator.intercalate parts := by
  induction parts with
  | nil => exact List.not_mem_nil
  | cons part rest ih =>
    obtain ⟨hp, hr⟩ := List.forall_mem_cons.mp h
    cases rest with
    | nil => rwa [List.intercalate_singleton]
    | cons next rest =>
      rw [List.intercalate_cons_cons, List.mem_append, List.mem_append]
      exact not_or.mpr ⟨not_or.mpr ⟨hp, hs⟩, ih hr⟩

theorem splitOnce_append (h : c ∉ part) (cs : List Char) :
    splitOnce c (part ++ c :: cs) = some (part, cs) := by
  induction part with
  | nil => exact if_pos rfl
  | cons d ds ih =>
    obtain ⟨hd, hds⟩ := not_or.mp (mt List.mem_cons.mpr h)
    rw [List.cons_append, splitOnce, if_neg (Ne.symm hd), ih hds]
    rfl

end CommandShell.Text
