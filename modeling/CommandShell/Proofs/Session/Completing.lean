import CommandShell.Handler.Library
import CommandShell.Proofs.Scanner.Runs
import CommandShell.Proofs.Session.Naming

namespace CommandShell.Session

open Script (Token TokenKind wordText StandsFor)

namespace Typing

variable {t : Typing} {line : String} {u : Token} {word : List Token}

-- The words of a line.
def words (t : Typing) : List (List Token) := Script.words t.tokens

-- The pieces of options and arguments behind the head, and the words that they make.
def pieces (t : Typing) : List Token := (t.tokens.reverse.takeWhile fun u => !isHead u).reverse

def operands (t : Typing) : List (List Token) := Script.words t.pieces

-- The line ends where its last word ends.
def endsInWord (t : Typing) (line : String) : Bool :=
  t.tokens.getLast?.any fun u => !u.kind.isStructural && u.span.stop = line.utf8ByteSize

-- The word that ends where the line does, without a piece if there is none.
def current (t : Typing) (line : String) : List Token :=
  if t.endsInWord line then t.words.getLast?.getD [] else []

-- The options and arguments in front of that word.
def before (t : Typing) (line : String) : List (List Token) :=
  if t.endsInWord line then t.operands.dropLast else t.operands

theorem flatten_operands (t : Typing) : t.operands.flatten = t.pieces :=
  List.flatten_splitBy Token.touches t.pieces

theorem operands_eq_nil_iff : t.operands = [] ↔ t.pieces = [] := List.splitBy_eq_nil

theorem map_operands_of_singletons (h : ∀ w ∈ t.operands, w.length = 1) :
    t.operands.map wordText = t.pieces.map (·.text) := by
  rw [eq_map_of_singletons h, flatten_operands, List.map_map]
  exact List.map_congr_left fun u _ => Script.wordText_singleton u

-- There are no more words than pieces, and as many if each word is one piece.
theorem length_operands (t : Typing) : t.operands.length ≤ t.pieces.length ∧
    (t.operands.length = t.pieces.length → ∀ w ∈ t.operands, w.length = 1) := by
  have h := length_le_flatten (List.nil_notMem_splitBy Token.touches t.pieces)
  rwa [List.flatten_splitBy] at h

-- In front of the pieces stands the head.
theorem exists_pieces (t : Typing) :
    ∃ front, t.tokens = front ++ t.pieces ∧ ∀ u ∈ front.getLast?, isHead u = true := by
  refine ⟨(t.tokens.reverse.dropWhile fun u => !isHead u).reverse, ?_, fun u hu => ?_⟩
  · rw [pieces, ← List.reverse_append, List.takeWhile_append_dropWhile, List.reverse_reverse]
  · have hd := List.head?_dropWhile_not (fun u => !isHead u) t.tokens.reverse
    rw [List.getLast?_reverse] at hu
    rw [Option.mem_def.1 hu] at hd
    simpa using hd

theorem touches_of_isHead (hu : isHead u = true) (v : Token) : u.touches v = false := by
  have hk : u.kind.isArgument = false := by
    unfold isHead at hu
    revert hu
    cases u.kind <;> decide
  simp [Token.touches, hk]

-- The operands are the last words of the line.
theorem operands_suffix (t : Typing) : t.operands <:+ t.words := by
  obtain ⟨front, hsplit, hhead⟩ := t.exists_pieces
  have happend : t.words = Script.words front ++ t.operands := by
    rw [words, hsplit]
    exact List.splitBy_append fun u hu v _ => touches_of_isHead (hhead u hu) v
  exact ⟨_, happend.symm⟩

-- The last piece, if there is one, is the last token of the line.
theorem getLast?_pieces (hu : t.pieces.getLast? = some u) :
    t.tokens.getLast? = some u ∧ u.kind.isStructural = false := by
  obtain ⟨front, hf, -⟩ := t.exists_pieces
  refine ⟨by rw [hf, List.getLast?_append, hu]; rfl, ?_⟩
  have hmem := List.mem_of_getLast? hu
  rw [pieces, List.mem_reverse] at hmem
  have hplain := List.mem_takeWhile_imp hmem
  simp only [isHead, Bool.not_eq_true', Bool.or_eq_false_iff, decide_eq_false_iff_not] at hplain
  exact hplain.2

theorem word_of_getLast? (hf : t.fresh = false) (hu : t.tokens.getLast? = some u)
    (hk : u.kind.isStructural = false) : t.word = u.text := by
  simp [word, hu, hf, hk]

theorem args_of_fresh (hf : t.fresh = true) (head : Token) :
    (t.request head).args = t.pieces.map (·.text) := by
  simp [request, hf, following, pieces]

theorem args_of_not_fresh (hf : t.fresh = false) (head : Token) :
    (t.request head).args = (t.pieces.map (·.text)).dropLast := by
  simp [request, hf, following, pieces]

-- The word that the line ends in goes up to its last token.
theorem exists_current (he : t.endsInWord line = true) :
    ∃ init u, t.current line = init ++ [u] ∧ t.tokens.getLast? = some u ∧
      u.kind.isStructural = false := by
  cases hu : t.tokens.getLast? with
  | none => simp [endsInWord, hu] at he
  | some u =>
    have hk : u.kind.isStructural = false := by
      simp only [endsInWord, hu, Option.any_some, Bool.and_eq_true, Bool.not_eq_true'] at he
      exact he.1
    have hflatten : t.words.flatten = t.tokens := List.flatten_splitBy Token.touches t.tokens
    obtain ⟨others, w, hwords⟩ : ∃ others w, t.words = others ++ [w] := by
      rcases List.eq_nil_or_concat' t.words with hn | hw
      · rw [← hflatten, hn] at hu
        cases hu
      · exact hw
    have hw : w ∈ t.tokens.splitBy Token.touches := by
      rw [show t.tokens.splitBy Token.touches = t.words from rfl, hwords]
      exact List.mem_concat_self
    have hne : w ≠ [] := List.ne_nil_of_mem_splitBy hw
    obtain ⟨init, last, rfl⟩ := (List.eq_nil_or_concat' w).resolve_left hne
    obtain rfl : last = u := by
      rw [← hflatten, hwords] at hu
      simpa using hu
    refine ⟨init, last, ?_, rfl, hk⟩
    rw [current, if_pos he, hwords, List.getLast?_concat]
    rfl

-- What is completed of that word is its last piece, which is all of it if those in front of it
-- stand for nothing.
theorem word_eq_current_iff (hf : t.fresh = false) (he : t.endsInWord line = true) :
    t.word = wordText (t.current line) ↔ ∀ u ∈ (t.current line).dropLast, u.text = "" := by
  obtain ⟨init, u, hcurrent, hu, hk⟩ := exists_current he
  have htext : wordText (init ++ [u]) =
      String.ofList (init.flatMap (·.text.toList)) ++ u.text := by
    simp [wordText]
  rw [word_of_getLast? hf hu hk, hcurrent, htext, List.dropLast_concat, eq_comm,
    String.append_eq_right_iff]
  simp

theorem word_eq_empty_iff (hf : t.fresh = false) :
    t.word = "" ↔ ∀ u ∈ t.tokens.getLast?, u.kind.isStructural = true ∨ u.text = "" := by
  cases hu : t.tokens.getLast? with
  | none => simp [word, hu]
  | some u => cases hk : u.kind.isStructural <;> simp [word, hu, hf, hk]

-- Of the arguments each piece but the last one is handed over on its own.
theorem args_iff_of_word (hf : t.fresh = false) (he : t.endsInWord line = true) (head : Token) :
    (t.request head).args = (t.before line).map wordText ↔ ∀ w ∈ t.operands, w.length = 1 := by
  rw [args_of_not_fresh hf, before, if_pos he]
  refine ⟨fun h => ?_, fun h => ?_⟩
  · obtain ⟨hle, hone⟩ := t.length_operands
    have hlength := congrArg List.length h
    simp only [List.length_dropLast, List.length_map] at hlength
    by_cases hn : t.operands = []
    · simp [hn]
    · have hpos := List.length_pos_iff.2 hn
      exact hone (by omega)
  · rw [← map_operands_of_singletons h, List.map_dropLast]

-- If the line does not end in a word, an argument is missing.
theorem args_iff_of_single (hf : t.fresh = false) (he : t.endsInWord line = false) (head : Token)
    (h : ∀ w ∈ t.operands, w.length = 1) :
    (t.request head).args = (t.before line).map wordText ↔ t.operands = [] := by
  rw [args_of_not_fresh hf, before, if_neg (by simp [he]), map_operands_of_singletons h,
    operands_eq_nil_iff, ← List.map_eq_nil_iff (f := (·.text))]
  refine ⟨fun hd => ?_, fun hn => by simp [hn]⟩
  have hlength := congrArg List.length hd
  rw [List.length_dropLast] at hlength
  exact List.length_eq_zero_iff.1 (by omega)

theorem empty_of_args (hf : t.fresh = false) (he : t.endsInWord line = false) (head : Token)
    (h : (t.request head).args = (t.before line).map wordText) : t.operands = [] ∨ t.word = "" := by
  rw [args_of_not_fresh hf, before, if_neg (by simp [he])] at h
  by_cases hn : t.operands = []
  · exact .inl hn
  have hpieces : t.pieces ≠ [] := fun hp => hn (operands_eq_nil_iff.2 hp)
  obtain ⟨init, u, hsplit⟩ := (List.eq_nil_or_concat' t.pieces).resolve_left hpieces
  obtain ⟨hu, hk⟩ := getLast?_pieces (u := u) (by rw [hsplit, List.getLast?_concat])
  -- The words and the pieces stand for the same, one behind the other.
  have hall : t.operands.flatMap (fun w => (wordText w).toList) =
      t.pieces.flatMap (·.text.toList) := by
    rw [← flatten_operands, ← List.flatMap_id, List.flatMap_assoc]
    simp [wordText]
  have hinit : init.flatMap (·.text.toList) =
      t.operands.flatMap (fun w => (wordText w).toList) := by
    have hflat := congrArg (List.flatMap String.toList) h
    rwa [hsplit, List.map_append, List.map_singleton, List.dropLast_concat, List.flatMap_map,
      List.flatMap_map] at hflat
  rw [← hinit, hsplit, List.flatMap_append, List.self_eq_append_right] at hall
  refine .inr ((word_of_getLast? hf hu hk).trans ?_)
  simpa using hall

-- Where a new word begins, all pieces are handed over.
theorem args_iff_of_fresh (hf : t.fresh = true) (he : t.endsInWord line = false) (head : Token) :
    (t.request head).args = (t.before line).map wordText ↔ ∀ w ∈ t.operands, w.length = 1 := by
  rw [args_of_fresh hf, before, if_neg (by simp [he])]
  refine ⟨fun h => t.length_operands.2 ?_, fun h => (map_operands_of_singletons h).symm⟩
  have hlength := congrArg List.length h
  simp only [List.length_map] at hlength
  exact hlength.symm

theorem args_iff_of_break (hf : t.fresh = true) (he : t.endsInWord line = true) (head : Token) :
    (t.request head).args = (t.before line).map wordText ↔ t.operands = [] := by
  rw [args_of_fresh hf, before, if_pos he]
  refine ⟨fun h => ?_, fun h => by simp [h, operands_eq_nil_iff.1 h]⟩
  have hle := t.length_operands.1
  have hlength := congrArg List.length h
  simp only [List.length_dropLast, List.length_map] at hlength
  exact List.length_eq_zero_iff.1 (by omega)

end Typing

variable {line : String} {t : Typing}

-- What completion makes of a line that the scanner takes in.  Its words stand for what is written
-- there, and the last ones of them are the operands of its head.  If the line ends in a word, this
-- is what is completed exactly if only its last piece stands for something, and the arguments in
-- front of it are handed over exactly if no operand has more than one piece.  If it does not, the
-- empty word is completed exactly if its last token stands for nothing, and what is handed over
-- lacks an argument.  Where a blank begins a new word, the empty one is completed.
theorem completes_word (h : Typing.ofLine? line = some t) :
    (∀ w ∈ t.words, (∀ u ∈ w, u.kind ≠ .shellRedirection) → StandsFor line w) ∧
    t.operands <:+ t.words ∧
    (t.fresh = false → t.endsInWord line = true →
      (t.word = wordText (t.current line) ↔ ∀ u ∈ (t.current line).dropLast, u.text = "") ∧
      ∀ head, (t.request head).args = (t.before line).map wordText ↔
        ∀ w ∈ t.operands, w.length = 1) ∧
    (t.fresh = false → t.endsInWord line = false →
      (t.word = "" ↔ ∀ u ∈ t.tokens.getLast?, u.kind.isStructural = true ∨ u.text = "") ∧
      ∀ head, ((∀ w ∈ t.operands, w.length = 1) →
          ((t.request head).args = (t.before line).map wordText ↔ t.operands = [])) ∧
        ((t.request head).args = (t.before line).map wordText → t.operands = [] ∨ t.word = "")) ∧
    (t.fresh = true → t.word = "" ∧ ∀ head,
      (t.endsInWord line = true →
        ((t.request head).args = (t.before line).map wordText ↔ t.operands = [])) ∧
      (t.endsInWord line = false →
        ((t.request head).args = (t.before line).map wordText ↔
          ∀ w ∈ t.operands, w.length = 1))) := by
  refine ⟨?_, t.operands_suffix, ?_, ?_, ?_⟩
  · intro w hw hk
    rw [Typing.ofLine?] at h
    split at h
    · cases h
    · next scanner hs =>
      cases h
      have hscan : (Script.Scanner.loaded .command line).scan = (scanner, none) := by
        rw [← Script.Scanner.feed_starting]
        exact hs
      exact Script.standsFor_of_scan hscan hw hk
  · exact fun hf he => ⟨Typing.word_eq_current_iff hf he, Typing.args_iff_of_word hf he⟩
  · exact fun hf he => ⟨Typing.word_eq_empty_iff hf, fun head =>
      ⟨Typing.args_iff_of_single hf he head, Typing.empty_of_args hf he head⟩⟩
  · intro hf
    refine ⟨?_, fun head => ⟨fun he => Typing.args_iff_of_break hf he head, fun he =>
      Typing.args_iff_of_fresh hf he head⟩⟩
    cases hu : t.tokens.getLast? <;> simp [Typing.word, hu, hf]

-- A word in pieces of which all but the last one are empty, behind an option and an argument.
theorem completes_word_of_pieces :
    let line := "grep -i 'a b' ''h"
    ∃ t head, Typing.ofLine? line = some t ∧ t.head? = some head ∧
      (t.before line).map wordText = ["-i", "a b"] ∧ wordText (t.current line) = "h" ∧
      t.word = "h" ∧ (t.request head).args ≠ ["-i", "a b"] := by
  intro line
  let head : Token := ⟨.command, "grep", ⟨0, 4⟩, 1, 1, some 0⟩
  let option : Token := ⟨.option, "-i", ⟨5, 7⟩, 1, 2, none⟩
  let argument : Token := ⟨.singleQuoted, "a b", ⟨8, 13⟩, 1, 3, none⟩
  let empty : Token := ⟨.singleQuoted, "", ⟨14, 16⟩, 1, 4, none⟩
  let last : Token := ⟨.bareArgument, "h", ⟨16, 17⟩, 1, 4, none⟩
  let t : Typing := ⟨[head, option, argument, empty, last], false⟩
  have ht : Typing.ofLine? line = some t := by decide +kernel
  have hcurrent : t.current line = [empty, last] := by decide +kernel
  have hoperands : t.operands = [[option], [argument], [empty, last]] := by decide +kernel
  have hbefore : (t.before line).map wordText = ["-i", "a b"] := by decide +kernel
  obtain ⟨hword, hargs⟩ := (completes_word ht).2.2.1 rfl (by decide +kernel)
  have htext : wordText (t.current line) = "h" := by decide +kernel
  refine ⟨t, head, ht, by decide +kernel, hbefore, htext, ?_, fun he => ?_⟩
  · rw [← htext, hword, hcurrent]
    simp [empty]
  · have hone := (hargs head).1 (he.trans hbefore.symm)
    rw [hoperands] at hone
    simpa using hone [empty, last] (by simp)

-- The last piece of an argument is taken for all of it, and the piece in front of it for one of its
-- own, so that no variable is offered.  In front of an open quote the name of the command is taken
-- for the word.
theorem completion_takes_last_piece :
    let s : Session := { library := .standard, context := ⟨[], [("host", "x")]⟩ }
    s.complete "set ho" = ["host"] ∧ s.complete "set 'h'o" = [] ∧
      (∃ t head, Typing.ofLine? "set 'h'o" = some t ∧ t.fresh = false ∧ t.head? = some head ∧
        wordText (t.current "set 'h'o") = "ho" ∧ t.word = "o" ∧ t.before "set 'h'o" = [] ∧
        (t.request head).args = ["h"]) ∧
      ∃ t, Typing.ofLine? "set 'h" = some t ∧ t.fresh = false ∧ t.current "set 'h" = [] ∧
        t.word = "set" := by
  intro s
  let head : Token := ⟨.command, "set", ⟨0, 3⟩, 1, 1, some 0⟩
  let quoted : Token := ⟨.singleQuoted, "h", ⟨4, 7⟩, 1, 2, none⟩
  let bare : Token := ⟨.bareArgument, "o", ⟨7, 8⟩, 1, 2, none⟩
  refine ⟨by decide +kernel, by decide +kernel, ⟨⟨[head, quoted, bare], false⟩, head, ?_⟩,
    ⟨⟨[head], false⟩, ?_⟩⟩
  · exact ⟨by decide +kernel, rfl, rfl, by decide +kernel, rfl, by decide +kernel, rfl⟩
  · exact ⟨by decide +kernel, rfl, by decide +kernel, rfl⟩

end CommandShell.Session
