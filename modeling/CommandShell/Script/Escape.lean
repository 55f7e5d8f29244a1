import CommandShell.Script.Error
import CommandShell.Script.Word
import CommandShell.Text.Bytes

namespace CommandShell.Script

-- An escape sequence: the characters after the backslash that belong to it, the character it
-- stands for if there is one, and what follows it.
structure Escape where
  read : List Char
  value : Option Char
  rest : List Char
deriving DecidableEq, Repr

private def digitValue (c : Char) : Nat :=
  if c.isDigit then c.toNat - '0'.toNat
  else c.toLower.toNat - 'a'.toNat + 10

private def isHexDigit (c : Char) : Bool :=
  c.isDigit || ('a' ≤ c.toLower && c.toLower ≤ 'f')

private def isOctalDigit (c : Char) : Bool :=
  '0' ≤ c && c ≤ '7'

def numeral (radix : Nat) (digits : List Char) : Nat :=
  digits.foldl (fun n d => n * radix + digitValue d) 0

-- The character with this code point, if it is one.
def scalar? (n : Nat) : Option Char :=
  if n.isValidChar then some (Char.ofNat n) else none

-- Digits that were taken are taken again in front of the beginning of what is behind them.
theorem takeWhile_take_append {test : Char → Bool} {n : Nat} {cs rest : List Char}
    (h : rest <+: cs.drop ((cs.take n).takeWhile test).length) :
    (((cs.take n).takeWhile test ++ rest).take n).takeWhile test = (cs.take n).takeWhile test := by
  have hcs := List.prefix_iff_eq_append.1
    ((List.takeWhile_prefix test).trans (List.take_prefix n cs))
  obtain ⟨later, hlater⟩ := h
  have hmem := forall_mem_takeWhile test (cs.take n)
  have hle : ((cs.take n).takeWhile test).length ≤ n :=
    Nat.le_trans (List.takeWhile_prefix test).length_le (List.length_take_le n cs)
  generalize hdigits : (cs.take n).takeWhile test = digits at *
  have htake (behind : List Char) : ((digits ++ behind).take n).takeWhile test =
      digits ++ (behind.take (n - digits.length)).takeWhile test := by
    rw [List.take_append, List.take_of_length_le hle, List.takeWhile_append_of_pos hmem]
  rw [← hcs, htake, ← hlater, List.take_append] at hdigits
  have hnone := List.append_right_eq_self.1 hdigits
  rw [htake]
  cases hr : rest.take (n - digits.length) with
  | nil => simp
  | cons c more =>
    rw [hr, List.cons_append, List.takeWhile_cons] at hnone
    rw [List.takeWhile_cons]
    cases hc : test c <;> simp_all

-- No digit ends a piece or starts an escape.
private theorem plain_of_isHexDigit {c : Char} (h : isHexDigit c = true) :
    endsBare c = false ∧ c ≠ '\\' := by
  constructor
  · cases he : endsBare c with
    | false => rfl
    | true =>
      simp only [endsBare, endsWord, isDelimiter, isBlank, isQuote, Bool.or_eq_true,
        decide_eq_true_eq, or_assoc] at he
      rcases he with rfl | rfl | rfl | rfl | rfl | rfl | rfl | rfl | rfl | rfl | rfl <;>
        exact absurd h (by decide)
  · rintro rfl
    exact absurd h (by decide)

private theorem isHexDigit_of_isOctalDigit {c : Char} (h : isOctalDigit c = true) :
    isHexDigit c = true := by
  simp only [isOctalDigit, Bool.and_eq_true, decide_eq_true_eq] at h
  have hd : c.isDigit = true := by
    simp only [Char.isDigit, Bool.and_eq_true, decide_eq_true_eq]
    exact ⟨h.1, UInt32.le_trans h.2 (by decide)⟩
  simp [isHexDigit, hd]

namespace Escape

-- `\uHHHH` and `\xHH` take all of their digits.
def hexadecimal (letter : Char) (count : Nat) (cs : List Char) : Escape :=
  let digits := (cs.take count).takeWhile isHexDigit
  { read := letter :: digits
    value := if digits.length = count then scalar? (numeral 16 digits) else none
    rest := cs.drop digits.length }

-- One to three octal digits, of a value that fits a byte.
def octal (first : Char) (cs : List Char) : Escape :=
  let more := (cs.take 2).takeWhile isOctalDigit
  let value := numeral 8 (first :: more)
  { read := first :: more
    value := if value ≤ 255 then scalar? value else none
    rest := cs.drop more.length }

-- The escape sequence whose character after the backslash is `c`.
def ofChar (c : Char) (cs : List Char) : Escape :=
  if c = 'u' then hexadecimal c 4 cs
  else if c = 'x' then hexadecimal c 2 cs
  else if isOctalDigit c then octal c cs
  else
    let value := if c = 'n' then '\n' else if c = 't' then '\t' else if c = 'r' then '\r' else c
    ⟨[c], some value, cs⟩

theorem length_rest_ofChar (c : Char) (cs : List Char) :
    (ofChar c cs).rest.length ≤ cs.length := by
  simp only [ofChar]
  split
  · simp [hexadecimal]
  · split
    · simp [hexadecimal]
    · split
      · simp [octal]
      · simp

-- Behind its first character an escape sequence has digits, none of which ends a piece, and in front
-- of the beginning of what is behind them they are read alike.
theorem exists_of_ofChar (c : Char) (cs : List Char) :
    ∃ digits, digits ++ (ofChar c cs).rest = cs ∧
      (∀ d ∈ digits, endsBare d = false ∧ d ≠ '\\') ∧
      ∀ rest, rest <+: (ofChar c cs).rest →
        ofChar c (digits ++ rest) = { ofChar c cs with rest := rest } := by
  have hsplit (test : Char → Bool) (n : Nat) :
      (cs.take n).takeWhile test ++ cs.drop ((cs.take n).takeWhile test).length = cs :=
    List.prefix_iff_eq_append.1 ((List.takeWhile_prefix test).trans (List.take_prefix n cs))
  have hhex (count : Nat) (hc : ofChar c = hexadecimal c count) :
      ∃ digits, digits ++ (ofChar c cs).rest = cs ∧
        (∀ d ∈ digits, endsBare d = false ∧ d ≠ '\\') ∧
        ∀ rest, rest <+: (ofChar c cs).rest →
          ofChar c (digits ++ rest) = { ofChar c cs with rest := rest } := by
    rw [hc]
    refine ⟨(cs.take count).takeWhile isHexDigit, hsplit isHexDigit count, fun d hd => ?_,
      fun rest hr => ?_⟩
    · exact plain_of_isHexDigit (forall_mem_takeWhile isHexDigit _ d hd)
    · simp only [hexadecimal, takeWhile_take_append hr, List.drop_left]
  by_cases hu : c = 'u'
  · exact hhex 4 (by funext; simp [ofChar, hu])
  by_cases hx : c = 'x'
  · exact hhex 2 (by funext; simp [ofChar, hx])
  by_cases ho : isOctalDigit c = true
  · have hc : ofChar c = octal c := by
      funext
      simp [ofChar, hu, hx, ho]
    rw [hc]
    refine ⟨(cs.take 2).takeWhile isOctalDigit, hsplit isOctalDigit 2, fun d hd => ?_,
      fun rest hr => ?_⟩
    · have hoctal := forall_mem_takeWhile isOctalDigit _ d hd
      exact plain_of_isHexDigit (isHexDigit_of_isOctalDigit hoctal)
    · simp only [octal, takeWhile_take_append hr, List.drop_left]
  · refine ⟨[], ?_, by simp, fun rest _ => ?_⟩
    · simp [ofChar, hu, hx, ho]
    · simp [ofChar, hu, hx, ho]

end Escape

-- Decode from a byte offset, inside `quote` if there is one.  Single-quoted text stands for
-- itself; a backslash, blanks and a newline stand for nothing.
def decodeFrom (quote : Option Char) (offset : Nat) : List Char → Except LexError (List Char)
  | [] => .ok []
  | c :: cs =>
    if quote = none ∧ isQuote c then decodeFrom (some c) (offset + c.utf8Size) cs
    else if quote = some c then decodeFrom none (offset + c.utf8Size) cs
    else if quote = some '\'' ∨ c ≠ '\\' then do
      return c :: (← decodeFrom quote (offset + c.utf8Size) cs)
    else
      match cs with
      | [] => .error ⟨.danglingEscape, ⟨offset, offset + 1⟩⟩
      | d :: ds =>
        match h : join (d :: ds) with
        | .joined gap rest =>
          have := length_of_join_joined h
          decodeFrom quote (offset + 1 + Text.width gap) rest
        | _ =>
          let escape := Escape.ofChar d ds
          have := Escape.length_rest_ofChar d ds
          let next := offset + 1 + Text.width escape.read
          match escape.value with
          | some value => do return value :: (← decodeFrom quote next escape.rest)
          | none =>
            .error ⟨.invalidEscape (String.ofList ('\\' :: escape.read)), ⟨offset, next⟩⟩
termination_by cs => cs.length
decreasing_by all_goals simp_all <;> omega

-- The text that a token's source stands for.  `base` is the byte offset of `raw` in the script.
def decode (raw : String) (base : Nat) : Except LexError String := do
  return String.ofList (← decodeFrom none base raw.toList)

end CommandShell.Script
