import CommandShell.Script.Escape
import CommandShell.Script.Token

namespace CommandShell.Script

-- How a text is written so that it is read back as it is.
inductive Style where
  | single
  | double
deriving DecidableEq, Repr

def requoted (cs : List Char) : List Char :=
  cs.flatMap fun c => if c = '\'' then ['\'', '"', '\'', '"', '\''] else [c]

-- Between single quotes every character stands for itself; a single quote is written between double
-- quotes.
def singleQuote (cs : List Char) : List Char := '\'' :: (requoted cs ++ ['\''])

def escaped (cs : List Char) : List Char :=
  cs.flatMap fun c => if c = '\\' ∨ c = '"' then ['\\', c] else [c]

def doubleQuote (cs : List Char) : List Char := '"' :: (escaped cs ++ ['"'])

def Style.quote : Style → List Char → List Char
  | single => singleQuote
  | double => doubleQuote

theorem requoted_of_plain {cs : List Char} (h : '\'' ∉ cs) : requoted cs = cs := by
  induction cs with
  | nil => rfl
  | cons c cs ih =>
    obtain ⟨hc, hs⟩ := not_or.1 fun hm => h (List.mem_cons.2 hm)
    have hr := ih hs
    unfold requoted at hr ⊢
    rw [List.flatMap_cons, if_neg (Ne.symm hc), hr]
    rfl

-- Up to the first single quote, the single quote, and from there on.
theorem singleQuote_append {cs : List Char} (h : '\'' ∉ cs) (ds : List Char) :
    singleQuote (cs ++ '\'' :: ds) =
      '\'' :: ((cs ++ ['\'']) ++ '"' :: (['\'', '"'] ++ singleQuote ds)) := by
  have hcs := requoted_of_plain h
  unfold requoted at hcs
  simp [singleQuote, requoted, List.flatMap_append, hcs]

theorem escaped_cons_of_special {c : Char} (hc : c = '\\' ∨ c = '"') (cs : List Char) :
    escaped (c :: cs) = '\\' :: c :: escaped cs := by
  simp [escaped, hc]

theorem escaped_cons_of_plain {c : Char} (hb : c ≠ '\\') (hq : c ≠ '"') (cs : List Char) :
    escaped (c :: cs) = c :: escaped cs := by
  simp [escaped, hb, hq]

section Quoted

variable {quote c : Char} {cs rest : List Char}

theorem quoted_of_close : quoted quote (quote :: rest) = some ([quote], rest) := by
  cases rest <;> simp [quoted]

theorem quoted_of_plain (hc : c ≠ quote) (hb : ¬(c = '\\' ∧ quote = '"')) :
    quoted quote (c :: cs) = (quoted quote cs).map (Piece.after [c]) := by
  cases cs <;> simp [quoted, hc, hb]

theorem quoted_of_escape :
    quoted '"' ('\\' :: c :: cs) = (quoted '"' cs).map (Piece.after ['\\', c]) := by
  simp [quoted]

-- The text up to the next single quote, then the quote.
theorem quoted_single (hs : '\'' ∉ cs) (rest : List Char) :
    quoted '\'' (cs ++ '\'' :: rest) = some (cs ++ ['\''], rest) := by
  induction cs with
  | nil => exact quoted_of_close
  | cons c cs ih =>
    obtain ⟨hc, hs⟩ := not_or.1 fun hm => hs (List.mem_cons.2 hm)
    rw [List.cons_append, quoted_of_plain (Ne.symm hc) (by simp), ih hs]
    rfl

theorem quoted_escaped (cs rest : List Char) :
    quoted '"' (escaped cs ++ '"' :: rest) = some (escaped cs ++ ['"'], rest) := by
  induction cs with
  | nil => exact quoted_of_close
  | cons c cs ih =>
    by_cases hc : c = '\\' ∨ c = '"'
    · rw [escaped_cons_of_special hc, List.cons_append, List.cons_append, quoted_of_escape, ih]
      rfl
    · obtain ⟨hb, hq⟩ := not_or.1 hc
      rw [escaped_cons_of_plain hb hq, List.cons_append, quoted_of_plain hq (by simp [hb]), ih]
      rfl

end Quoted

section Decoded

variable {offset : Nat} {cs : List Char}

theorem decodeFrom_plain {quote c : Char} (hc : c ≠ quote) (hb : quote = '\'' ∨ c ≠ '\\')
    (offset : Nat) (cs : List Char) :
    decodeFrom (some quote) offset (c :: cs) =
      (decodeFrom (some quote) (offset + c.utf8Size) cs).map (c :: ·) := by
  rw [decodeFrom.eq_def]
  dsimp only
  rw [if_neg (by simp), if_neg (by simp [Ne.symm hc]), if_pos (by simpa using hb)]
  cases decodeFrom (some quote) (offset + c.utf8Size) cs <;> rfl

theorem decodeFrom_open {quote : Char} (h : isQuote quote = true) (offset : Nat) (cs : List Char) :
    decodeFrom none offset (quote :: cs) =
      decodeFrom (some quote) (offset + quote.utf8Size) cs := by
  rw [decodeFrom.eq_def]
  simp [h]

theorem decodeFrom_close (quote : Char) (offset : Nat) :
    decodeFrom (some quote) offset [quote] = .ok [] := by
  simp [decodeFrom]

theorem decodeFrom_escape {c : Char} (hc : c = '\\' ∨ c = '"') (offset : Nat) (cs : List Char) :
    decodeFrom (some '"') offset ('\\' :: c :: cs) =
      (decodeFrom (some '"') (offset + 1 + Text.width [c]) cs).map (c :: ·) := by
  have hj : join (c :: cs) = .absent := by rcases hc with rfl | rfl <;> rfl
  have he : Escape.ofChar c cs = ⟨[c], some c, cs⟩ := by rcases hc with rfl | rfl <;> rfl
  rw [decodeFrom, if_neg (by simp), if_neg (by decide), if_neg (by simp)]
  split
  · next hjoined => simp [hj] at hjoined
  · simp only [he]
    cases decodeFrom (some '"') (offset + 1 + Text.width [c]) cs <;> rfl

theorem decodeFrom_single (hs : '\'' ∉ cs) (offset : Nat) :
    decodeFrom (some '\'') offset (cs ++ ['\'']) = .ok cs := by
  induction cs generalizing offset with
  | nil => exact decodeFrom_close _ _
  | cons c cs ih =>
    obtain ⟨hc, hs⟩ := not_or.1 fun hm => hs (List.mem_cons.2 hm)
    rw [List.cons_append, decodeFrom_plain (Ne.symm hc) (.inl rfl), ih hs]
    rfl

theorem decodeFrom_escaped (cs : List Char) (offset : Nat) :
    decodeFrom (some '"') offset (escaped cs ++ ['"']) = .ok cs := by
  induction cs generalizing offset with
  | nil => exact decodeFrom_close _ _
  | cons c cs ih =>
    by_cases hc : c = '\\' ∨ c = '"'
    · rw [escaped_cons_of_special hc, List.cons_append, List.cons_append, decodeFrom_escape hc, ih]
      rfl
    · obtain ⟨hb, hq⟩ := not_or.1 hc
      rw [escaped_cons_of_plain hb hq, List.cons_append, decodeFrom_plain hq (.inr hb), ih]
      rfl

end Decoded

-- The pieces of one group spell a text.  In the single-quoted style they stand for themselves, but
-- for the single quotes.
structure Written (style : Style) (content : List Char) (group : Nat) (tokens : List Token) :
    Prop where
  taken : tokens ≠ []
  pieces : ∀ t ∈ tokens, t.kind.isArgument = true ∧ t.group = group
  text : tokens.flatMap (·.text.toList) = content
  kinds : ∀ t ∈ tokens, t.kind = .singleQuoted ∨ style = .double ∨ t.text = "'"

namespace Written

variable {style : Style} {content front : List Char} {group : Nat} {tokens : List Token}
  {t u : Token}

theorem of_piece (hk : t.kind = .singleQuoted ∨ t.kind = .doubleQuoted ∧ style = .double)
    (ht : t.text = String.ofList content) (hg : t.group = group) :
    Written style content group [t] := by
  refine ⟨List.cons_ne_nil _ _, ?_, by simp [ht], ?_⟩
  · intro u hu
    obtain rfl := List.mem_singleton.1 hu
    rcases hk with hk | ⟨hk, -⟩ <;> exact ⟨by rw [hk]; rfl, hg⟩
  · intro u hu
    obtain rfl := List.mem_singleton.1 hu
    exact hk.imp_right fun h => .inl h.2

-- A text up to a single quote, the quote, and what was written behind it.
theorem cons_quote (h : Written .single content group tokens) (hk : t.kind = .singleQuoted)
    (ht : t.text = String.ofList front) (hg : t.group = group) (hk' : u.kind = .doubleQuoted)
    (ht' : u.text = String.ofList ['\'']) (hg' : u.group = group) :
    Written .single (front ++ '\'' :: content) group (t :: u :: tokens) := by
  refine ⟨List.cons_ne_nil _ _, ?_, by simp [ht, ht', h.text], ?_⟩
  · intro v hv
    rcases List.mem_cons.1 hv with rfl | hv
    · exact ⟨by rw [hk]; rfl, hg⟩
    rcases List.mem_cons.1 hv with rfl | hv
    · exact ⟨by rw [hk']; rfl, hg'⟩
    · exact h.pieces v hv
  · intro v hv
    rcases List.mem_cons.1 hv with rfl | hv
    · exact .inl hk
    rcases List.mem_cons.1 hv with rfl | hv
    · exact .inr (.inr ht')
    · exact h.kinds v hv

end Written

end CommandShell.Script
