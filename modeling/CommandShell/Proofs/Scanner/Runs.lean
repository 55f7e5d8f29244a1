import CommandShell.Proofs.Scanner.Cutting
import CommandShell.Proofs.Scanner.Pieces
import Mathlib.Data.List.SplitBy

namespace CommandShell

section Singletons

variable {α : Type} {xss : List (List α)}

theorem eq_map_of_singletons (h : ∀ xs ∈ xss, xs.length = 1) : xss = xss.flatten.map ([·]) := by
  induction xss with
  | nil => rfl
  | cons xs xss ih =>
    obtain ⟨hx, hrest⟩ := List.forall_mem_cons.1 h
    obtain ⟨x, rfl⟩ := List.length_eq_one_iff.1 hx
    rw [List.flatten_cons, List.map_append, ← ih hrest]
    rfl

-- Lists that are not empty are no more than their members, and just as many if each has one.
theorem length_le_flatten (h : [] ∉ xss) : xss.length ≤ xss.flatten.length ∧
    (xss.length = xss.flatten.length → ∀ xs ∈ xss, xs.length = 1) := by
  induction xss with
  | nil => simp
  | cons xs xss ih =>
    rw [List.mem_cons, not_or] at h
    obtain ⟨hle, heq⟩ := ih h.2
    have hpos := List.length_pos_iff.2 (Ne.symm h.1)
    simp only [List.flatten_cons, List.length_cons, List.length_append]
    refine ⟨by omega, fun hl => List.forall_mem_cons.2 ⟨by omega, heq (by omega)⟩⟩

end Singletons

namespace Script

open Scanner (loaded Spells Delimited)
open Text (width slice dropBytes)

-- The words of some tokens: pieces of an argument that touch make one, and every other token is one.
def words (tokens : List Token) : List (List Token) := tokens.splitBy Token.touches

-- What a word stands for.
def wordText (word : List Token) : String := String.ofList (word.flatMap (·.text.toList))

variable {text : List Char} {t u : Token} {tokens word : List Token} {piece behind : List Char}

theorem wordText_singleton (t : Token) : wordText [t] = t.text := by simp [wordText]

-- The piece of a text that a token was read from, with what is behind it.
structure Drawn (text : List Char) (t : Token) (piece behind : List Char) : Prop where
  start : dropBytes t.span.start text = piece ++ behind
  stop : dropBytes t.span.stop text = behind
  reach : t.span.stop = t.span.start + width piece
  taken : piece ≠ []
  starts : ∀ c ∈ piece.head?, isBlank c = false
  spelled : Spells t.kind t.span.start piece t.text.toList
  ended : Delimited t.kind piece behind

theorem exists_drawn {text : String} {w : Scanner} (h : (loaded .command text).scan = (w, none)) :
    ∀ t ∈ w.tree.tokens.toList, ∃ piece behind, Drawn text.toList t piece behind := by
  intro t ht
  obtain ⟨first, later, hsplit⟩ := List.append_of_mem ht
  obtain ⟨s, next, gap, piece, hpiece, -, -, hstart, hstop⟩ := Scanner.exists_taken h hsplit
  refine ⟨piece, next.rest, hstart, hstop, ?_, hpiece.taken, hpiece.starts, hpiece.spelled,
    hpiece.ended⟩
  rw [hpiece.stop, hpiece.start]

theorem Drawn.decoded (h : Drawn text t piece behind) (hk : t.kind ≠ .shellRedirection) :
    decoded none piece = some t.text.toList := by
  have hs := h.spelled
  rw [Spells, if_neg hk] at hs
  rw [← toOption_decodeFrom none t.span.start, hs]
  rfl

-- In front of what goes on its word, a piece of an argument ends where it ends in the text.
theorem Drawn.decoded_append {more : List Char} (h : Drawn text t piece behind)
    (hk : t.kind.isArgument = true) (hp : more <+: behind) (hm : ∃ c ∈ more, isBlank c = false) :
    Script.decoded none (piece ++ more) =
      joinTexts (some t.text.toList) (Script.decoded none more) := by
  have htext : Script.decoded none piece = some t.text.toList := by
    refine h.decoded ?_
    intro hs
    rw [hs] at hk
    cases hk
  rw [← htext]
  cases h.ended with
  | quote c body quotes opens kinds closed =>
    subst quotes
    rw [List.cons_append, decoded_open opens, decoded_quoted opens (quoted_before closed more),
      ← decoded_open opens]
  | bare plain whole =>
    have hends := (resembles_of_kept hp hm).endsAlike (piece ++ behind)
    exact decoded_bare (bare_before whole hends)
  | sign structural =>
    rw [isStructural_of_isPiece (isPiece_of_isArgument hk)] at structural
    cases structural
  | name names => rcases names with hn | hn <;> rw [hn] at hk <;> cases hk
  | file operand =>
    rw [operand] at hk
    cases hk
  | shell operand =>
    rw [operand] at hk
    cases hk

-- Pieces that touch stand for their source, all of it from the first one to the last one.
theorem exists_source {rest : List Token}
    (hd : ∀ u ∈ t :: rest, ∃ piece behind, Drawn text u piece behind)
    (hc : (t :: rest).IsChain fun t u => t.touches u = true) (hk : t.kind ≠ .shellRedirection) :
    ∃ source behind, dropBytes t.span.start text = source ++ behind ∧
      endOf t.span.stop rest = t.span.start + width source ∧
      (∃ c ∈ source, isBlank c = false) ∧
      decoded none source = some ((t :: rest).flatMap (·.text.toList)) := by
  induction rest generalizing t with
  | nil =>
    obtain ⟨piece, behind, h⟩ := hd t (List.mem_cons_self ..)
    refine ⟨piece, behind, h.start, h.reach, ?_, by simpa using h.decoded hk⟩
    exact (eq_nil_or_mem_of_head h.starts).resolve_left h.taken
  | cons u rest ih =>
    obtain ⟨htouch, hrest⟩ := List.isChain_cons_cons.1 hc
    simp only [Token.touches, Bool.and_eq_true, decide_eq_true_eq] at htouch
    obtain ⟨⟨ht, hu⟩, hbetween⟩ := htouch
    obtain ⟨piece, behind, h⟩ := hd t (List.mem_cons_self ..)
    have hplain : u.kind ≠ .shellRedirection := by
      intro hs
      rw [hs] at hu
      cases hu
    obtain ⟨more, after, hstart, hstop, hmem, hdecoded⟩ :=
      ih (fun v hv => hd v (List.mem_cons_of_mem _ hv)) hrest hplain
    have hbehind : behind = more ++ after := by rw [← h.stop, hbetween, hstart]
    refine ⟨piece ++ more, after, ?_, ?_, ?_, ?_⟩
    · rw [h.start, hbehind, List.append_assoc]
    · rw [endOf_cons, hstop, ← hbetween, h.reach, Text.width_append, Nat.add_assoc]
    · obtain ⟨c, hcmem, hblank⟩ := hmem
      exact ⟨c, List.mem_append_right _ hcmem, hblank⟩
    · have hprefix : more <+: behind := ⟨after, hbehind.symm⟩
      rw [h.decoded_append ht hprefix hmem, hdecoded]
      rfl

-- A word as it stands in a text: it is what its source stands for, from the beginning of its first
-- piece up to the end of its last one.
def StandsFor (text : String) (word : List Token) : Prop :=
  ∃ first ∈ word.head?, ∃ last ∈ word.getLast?,
    decode (String.ofList (slice text.toList first.span.start last.span.stop)) first.span.start =
      .ok (wordText word)

theorem standsFor_of_scan {text : String} {w : Scanner}
    (h : (loaded .command text).scan = (w, none)) (hw : word ∈ words w.tree.tokens.toList)
    (hk : ∀ t ∈ word, t.kind ≠ .shellRedirection) : StandsFor text word := by
  have hdrawn := exists_drawn h
  have hsub : ∀ t ∈ word, t ∈ w.tree.tokens.toList := by
    intro t ht
    rw [← List.flatten_splitBy Token.touches w.tree.tokens.toList]
    exact List.mem_flatten_of_mem hw ht
  have hchain := List.isChain_of_mem_splitBy hw
  obtain ⟨t, rest, rfl⟩ := List.exists_cons_of_ne_nil (List.ne_nil_of_mem_splitBy hw)
  obtain ⟨source, behind, hstart, hstop, -, hdecoded⟩ :=
    exists_source (fun u hu => hdrawn u (hsub u hu)) hchain (hk t (List.mem_cons_self ..))
  obtain ⟨last, hlast⟩ : ∃ last, (t :: rest).getLast? = some last :=
    ⟨_, List.getLast?_eq_some_getLast (List.cons_ne_nil t rest)⟩
  have hreach : last.span.stop = t.span.start + width source := by
    rw [← hstop, ← endOf_cons 0, endOf, hlast]
    rfl
  have hslice : slice text.toList t.span.start last.span.stop = source := by
    rw [slice, hstart, hreach, Nat.add_sub_cancel_left, Text.takeBytes_width_append]
  refine ⟨t, rfl, last, hlast, ?_⟩
  rw [hslice, decode, String.toList_ofList, decodeFrom_eq_ok hdecoded]
  rfl

end Script

end CommandShell
