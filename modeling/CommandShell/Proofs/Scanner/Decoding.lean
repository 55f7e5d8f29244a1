import CommandShell.Proofs.Scanner.Behind
import CommandShell.Proofs.Scanner.Pieces
import Mathlib.Logic.Relation

namespace CommandShell.Script

open Relation (ReflTransGen)
open Text (width)

-- A place in a text: the quote that it is inside of, if there is one, and what is left from there.
structure Place where
  quote : Option Char
  rest : List Char
deriving DecidableEq, Repr

-- The same place when the text goes on.
def Place.before (p : Place) (after : List Char) : Place := { p with rest := p.rest ++ after }

-- One round of the scanner in search of the end of a quoted piece, of a bare one or of a word.
inductive Scans : Place → Place → Prop where
  | opens {c : Char} {cs : List Char} (opens : isQuote c = true) :
      Scans ⟨none, c :: cs⟩ ⟨some c, cs⟩
  | closes {quote : Char} {cs : List Char} : Scans ⟨some quote, quote :: cs⟩ ⟨none, cs⟩
  | covers {d : Char} {ds : List Char} : Scans ⟨some '"', '\\' :: d :: ds⟩ ⟨some '"', ds⟩
  | inside {quote c : Char} {cs : List Char} (other : c ≠ quote)
      (plain : ¬(c = '\\' ∧ quote = '"')) : Scans ⟨some quote, c :: cs⟩ ⟨some quote, cs⟩
  | joins {cs gap rest : List Char} (joined : join cs = .joined gap rest) :
      Scans ⟨none, '\\' :: cs⟩ ⟨none, rest⟩
  | escapes {d : Char} {ds : List Char} (absent : join (d :: ds) = .absent) :
      Scans ⟨none, '\\' :: d :: ds⟩ ⟨none, ds⟩
  | plain {c : Char} {cs : List Char} (other : c ≠ '\\') (plain : endsBare c = false) :
      Scans ⟨none, c :: cs⟩ ⟨none, cs⟩

section Scans

variable {quote c : Char} {cs front rest after : List Char} {p : Piece} {x y : Place}

-- The scanner ends a piece or a word where its rounds lead to.
theorem scans_of_quoted (h : quoted quote cs = some p) :
    ReflTransGen Scans ⟨some quote, cs⟩ ⟨none, p.2⟩ := by
  fun_induction quoted quote cs generalizing p with
  | case1 => cases h
  | case2 =>
    cases h
    exact .single .closes
  | case3 => cases h
  | case4 =>
    cases h
    exact .single .closes
  | case5 c d ds hc hb ih =>
    obtain ⟨q, hq, rfl⟩ := Option.map_eq_some_iff.1 h
    obtain ⟨rfl, rfl⟩ := hb
    exact .head .covers (ih (p := q) hq)
  | case6 c d ds hc hb ih =>
    obtain ⟨q, hq, rfl⟩ := Option.map_eq_some_iff.1 h
    exact .head (.inside hc hb) (ih (p := q) hq)

theorem scans_of_bare (h : bare cs = some p) : ReflTransGen Scans ⟨none, cs⟩ ⟨none, p.2⟩ := by
  fun_induction bare cs generalizing p with
  | case1 =>
    cases h
    exact .refl
  | case2 cs gap rest hj _ ih =>
    obtain ⟨q, hq, rfl⟩ := Option.map_eq_some_iff.1 h
    exact .head (.joins hj) (ih (p := q) hq)
  | case3 => cases h
  | case4 => cases h
  | case5 d ds hj ih =>
    obtain ⟨q, hq, rfl⟩ := Option.map_eq_some_iff.1 h
    exact .head (.escapes hj) (ih (p := q) hq)
  | case6 =>
    cases h
    exact .refl
  | case7 c cs hb hc ih =>
    obtain ⟨q, hq, rfl⟩ := Option.map_eq_some_iff.1 h
    exact .head (.plain hb (by simpa using hc)) (ih (p := q) hq)

theorem scans_of_word (h : word cs = some p) : ReflTransGen Scans ⟨none, cs⟩ ⟨none, p.2⟩ := by
  fun_induction word cs generalizing p with
  | case1 =>
    cases h
    exact .refl
  | case2 => cases h
  | case3 c cs hc piece rest hq _ ih =>
    obtain ⟨q, hw, rfl⟩ := Option.map_eq_some_iff.1 h
    exact .head (.opens hc) ((scans_of_quoted hq).trans (ih (p := q) hw))
  | case4 =>
    cases h
    exact .refl
  | case5 => cases h
  | case6 c cs hc he piece rest hb _ ih =>
    obtain ⟨q, hw, rfl⟩ := Option.map_eq_some_iff.1 h
    exact (scans_of_bare hb).trans (ih (p := q) hw)

-- Every round takes at least one character.
theorem Scans.exists_front (h : Scans x y) : ∃ front ≠ [], front ++ y.rest = x.rest := by
  cases h with
  | @opens c => exact ⟨[c], by simp, rfl⟩
  | @closes quote => exact ⟨[quote], by simp, rfl⟩
  | @covers d => exact ⟨['\\', d], by simp, rfl⟩
  | @inside quote c => exact ⟨[c], by simp, rfl⟩
  | @joins cs gap rest joined =>
    exact ⟨'\\' :: gap, by simp, by rw [List.cons_append, append_of_join_joined joined]⟩
  | @escapes d => exact ⟨['\\', d], by simp, rfl⟩
  | @plain c => exact ⟨[c], by simp, rfl⟩

theorem Scans.length_lt (h : Scans x y) : y.rest.length < x.rest.length := by
  obtain ⟨front, hn, hf⟩ := h.exists_front
  have hpos := List.length_pos_iff.2 hn
  rw [← hf, List.length_append]
  omega

theorem eq_or_length_lt (h : ReflTransGen Scans x y) : y = x ∨ y.rest.length < x.rest.length := by
  induction h with
  | refl => exact .inl rfl
  | tail _ hs ih =>
    have hlt := hs.length_lt
    rcases ih with rfl | ih
    · exact .inr hlt
    · exact .inr (Nat.lt_trans hlt ih)

theorem suffix_of_scans (h : ReflTransGen Scans x y) : y.rest <:+ x.rest := by
  induction h with
  | refl => exact List.suffix_rfl
  | tail _ hs ih =>
    obtain ⟨front, -, hf⟩ := hs.exists_front
    exact (hf ▸ List.suffix_append front _).trans ih

theorem scans_right_unique : Relator.RightUnique Scans := by
  have hquoted {c : Char} (hq : isQuote c = true) (hp : endsBare c = false) : False := by
    simp only [endsBare, hq, Bool.or_true] at hp
    cases hp
  intro x y z hy hz
  cases hy with
  | opens opens =>
    cases hz with
    | opens => rfl
    | joins => cases opens
    | escapes => cases opens
    | plain _ plain => exact (hquoted opens plain).elim
  | closes =>
    cases hz with
    | closes => rfl
    | inside other => exact absurd rfl other
  | covers =>
    cases hz with
    | covers => rfl
    | inside _ plain => exact absurd ⟨rfl, rfl⟩ plain
  | inside other plain =>
    cases hz with
    | closes => exact absurd rfl other
    | covers => exact absurd ⟨rfl, rfl⟩ plain
    | inside => rfl
  | joins joined =>
    cases hz with
    | opens opens => cases opens
    | joins joined' =>
      cases joined.symm.trans joined'
      rfl
    | escapes absent => cases joined.symm.trans absent
    | plain other => exact absurd rfl other
  | escapes absent =>
    cases hz with
    | opens opens => cases opens
    | joins joined => cases absent.symm.trans joined
    | escapes => rfl
    | plain other => exact absurd rfl other
  | plain other plain =>
    cases hz with
    | opens opens => exact (hquoted opens plain).elim
    | joins => exact absurd rfl other
    | escapes => exact absurd rfl other
    | plain => rfl

-- Only quote characters open a quote.
theorem isQuote_of_scans (h : ReflTransGen Scans ⟨none, cs⟩ x) :
    ∀ q ∈ x.quote, isQuote q = true := by
  induction h with
  | refl => nofun
  | tail _ hs ih =>
    cases hs with
    | opens opens =>
      intro q hq
      cases hq
      exact opens
    | closes => nofun
    | covers => exact ih
    | inside => exact ih
    | joins => nofun
    | escapes => nofun
    | plain => nofun

theorem scans_plain (hf : ∀ c ∈ front, endsBare c = false ∧ c ≠ '\\') :
    ReflTransGen Scans ⟨none, front ++ rest⟩ ⟨none, rest⟩ := by
  induction front with
  | nil => exact .refl
  | cons c front ih =>
    obtain ⟨⟨hc, hb⟩, hrest⟩ := List.forall_mem_cons.1 hf
    exact .head (.plain hb hc) (ih hrest)

theorem scans_inside (hf : ∀ c ∈ front, c ≠ quote ∧ c ≠ '\\') :
    ReflTransGen Scans ⟨some quote, front ++ rest⟩ ⟨some quote, rest⟩ := by
  induction front with
  | nil => exact .refl
  | cons c front ih =>
    obtain ⟨⟨hc, hb⟩, hrest⟩ := List.forall_mem_cons.1 hf
    exact .head (.inside hc (by simp [hb])) (ih hrest)

-- A piece or a word has ended outside of any quote.
theorem quote_of_scans {quote : Option Char} (h : ReflTransGen Scans ⟨quote, cs⟩ ⟨none, cs⟩) :
    quote = none := by
  rcases eq_or_length_lt h with he | hlt
  · exact (congrArg Place.quote he).symm
  · exact absurd hlt (Nat.lt_irrefl _)

-- The scanner ends nothing right behind a backslash, and within quotes nothing at all.
theorem not_scans_of_backslash {quote : Option Char} (hq : ∀ q ∈ quote, isQuote q = true) :
    ¬ReflTransGen Scans ⟨quote, '\\' :: cs⟩ ⟨none, cs⟩ := by
  intro h
  rcases ReflTransGen.cases_head h with he | ⟨x, hs, hx⟩
  · simpa using congrArg (·.rest.length) he
  have hle : cs.length ≤ x.rest.length := (suffix_of_scans hx).length_le
  cases hs with
  | opens opens => cases opens
  | closes => cases hq '\\' rfl
  | covers => exact absurd hle (Nat.not_succ_le_self _)
  | inside => cases quote_of_scans hx
  | joins joined => exact absurd hle (Nat.not_le.2 (length_of_join_joined joined))
  | escapes => exact absurd hle (Nat.not_succ_le_self _)
  | plain other => exact other rfl

-- On the way to the end of a slice no lines are joined but those that the slice holds.
theorem join_absent_of_scans {d : Char} {ds : List Char}
    (hn : ∀ gap rest, join (d :: ds) ≠ .joined gap rest)
    (h : ReflTransGen Scans ⟨none, '\\' :: d :: (ds ++ after)⟩ ⟨none, after⟩) :
    join (d :: (ds ++ after)) = .absent := by
  rcases ReflTransGen.cases_head h with he | ⟨x, hs, hx⟩
  · have hlength := congrArg (·.rest.length) he
    simp only [List.length_cons, List.length_append] at hlength
    omega
  cases hs with
  | opens opens => cases opens
  | @joins _ gap rest joined =>
    obtain ⟨more, rfl⟩ : after <:+ rest := suffix_of_scans hx
    have hall := append_of_join_joined joined
    rw [← List.append_assoc, ← List.cons_append] at hall
    have hgap : gap ++ more = d :: ds := List.append_cancel_right hall
    exact absurd (hgap ▸ join_of_joined joined more) (hn gap more)
  | escapes absent => exact absent
  | plain other => exact absurd rfl other

end Scans

-- One round of the decoder.  It reads all of an escape at once, and joined lines within quotes too.
inductive Decodes : Place → Place → Prop where
  | opens {c : Char} {cs : List Char} (opens : isQuote c = true) :
      Decodes ⟨none, c :: cs⟩ ⟨some c, cs⟩
  | closes {quote : Char} {cs : List Char} : Decodes ⟨some quote, quote :: cs⟩ ⟨none, cs⟩
  | plain {quote : Option Char} {c : Char} {cs : List Char}
      (outside : quote = none → isQuote c = false) (within : quote ≠ some c)
      (plain : quote = some '\'' ∨ c ≠ '\\') : Decodes ⟨quote, c :: cs⟩ ⟨quote, cs⟩
  | joins {quote : Option Char} {cs gap rest : List Char} (escaping : quote ≠ some '\'')
      (joined : join cs = .joined gap rest) : Decodes ⟨quote, '\\' :: cs⟩ ⟨quote, rest⟩
  | escapes {quote : Option Char} {d value : Char} {ds : List Char} (escaping : quote ≠ some '\'')
      (absent : ∀ gap rest, join (d :: ds) ≠ .joined gap rest)
      (stands : (Escape.ofChar d ds).value = some value) :
      Decodes ⟨quote, '\\' :: d :: ds⟩ ⟨quote, (Escape.ofChar d ds).rest⟩

-- What the decoder makes of a text: it goes on in another place, behind what it read, or it stops.
theorem decodeFrom_cases (quote : Option Char) (offset : Nat) (c : Char) (cs : List Char) :
    (∃ x read text, Decodes ⟨quote, c :: cs⟩ x ∧ decodeFrom quote offset (c :: cs) =
      (decodeFrom x.quote (offset + width read) x.rest).map (text ++ ·)) ∨
    (c = '\\' ∧ cs = []) ∨
    ∃ sequence span, decodeFrom quote offset (c :: cs) = .error ⟨.invalidEscape sequence, span⟩ := by
  have hnothing (x : Except LexError (List Char)) : x = x.map ([] ++ ·) := by cases x <;> rfl
  by_cases hopen : quote = none ∧ isQuote c = true
  · obtain ⟨rfl, hq⟩ := hopen
    refine .inl ⟨_, [c], [], .opens hq, ?_⟩
    rw [decodeFrom_open hq]
    exact hnothing _
  by_cases hclose : quote = some c
  · subst hclose
    refine .inl ⟨_, [c], [], .closes, ?_⟩
    rw [decodeFrom.eq_def]
    dsimp only
    rw [if_neg hopen, if_pos rfl]
    exact hnothing _
  by_cases hplain : quote = some '\'' ∨ c ≠ '\\'
  · have hout (hn : quote = none) : isQuote c = false := by simpa [hn] using hopen
    refine .inl ⟨_, [c], [c], .plain hout hclose hplain, ?_⟩
    rw [decodeFrom.eq_def]
    dsimp only
    rw [if_neg hopen, if_neg hclose, if_pos hplain]
    rfl
  obtain ⟨hescaping, hb⟩ := not_or.1 hplain
  obtain rfl : c = '\\' := not_not.1 hb
  cases cs with
  | nil => exact .inr (.inl ⟨rfl, rfl⟩)
  | cons d ds =>
    rw [decodeFrom, if_neg hopen, if_neg hclose, if_neg hplain]
    split
    · next gap rest hj =>
      refine .inl ⟨_, '\\' :: gap, [], .joins hescaping hj, ?_⟩
      rw [Nat.add_assoc]
      exact hnothing _
    · next hj =>
      dsimp only
      split
      · next value hv =>
        refine .inl ⟨_, '\\' :: (Escape.ofChar d ds).read, [value], .escapes hescaping hj hv, ?_⟩
        rw [Nat.add_assoc]
        rfl
      · exact .inr (.inr ⟨_, _, rfl⟩)

section Agreement

variable {slice after cs : List Char} {quote : Option Char} {c : Char} {x y : Place}

-- A place that the scanner comes by on its way from the beginning of a slice to the end of it, in
-- front of `after`.
structure OnWay (slice after : List Char) (x : Place) : Prop where
  comes : ReflTransGen Scans ⟨none, slice ++ after⟩ (x.before after)
  goes : ReflTransGen Scans (x.before after) ⟨none, after⟩

-- From `x` to `y` the scanner makes one round, and passes over characters that are neither quotes
-- nor backslashes.
def InStep (after : List Char) (x y : Place) : Prop :=
  ∃ front, (∀ c ∈ front, isQuote c = false ∧ c ≠ '\\') ∧
    Scans (x.before after) ⟨y.quote, front ++ (y.rest ++ after)⟩ ∧
    ReflTransGen Scans ⟨y.quote, front ++ (y.rest ++ after)⟩ (y.before after)

theorem inStep_of_scans (h : Scans (x.before after) (y.before after)) : InStep after x y :=
  ⟨[], nofun, h, .refl⟩

theorem eq_none_or_double (hq : ∀ q ∈ quote, isQuote q = true) (he : quote ≠ some '\'') :
    quote = none ∨ quote = some '"' := by
  cases quote with
  | none => exact .inl rfl
  | some q =>
    have hquote := hq q rfl
    simp only [isQuote, Bool.or_eq_true, decide_eq_true_eq] at hquote
    rcases hquote with rfl | rfl
    · exact absurd rfl he
    · exact .inr rfl

theorem endsBare_of_scans (hq : isQuote c = false) (hb : c ≠ '\\')
    (h : ReflTransGen Scans ⟨none, c :: (cs ++ after)⟩ ⟨none, after⟩) : endsBare c = false := by
  rcases ReflTransGen.cases_head h with he | ⟨x, hs, -⟩
  · have hlength := congrArg (·.rest.length) he
    simp only [List.length_cons, List.length_append] at hlength
    omega
  generalize cs ++ after = ds at hs
  cases hs with
  | opens opens => cases hq.symm.trans opens
  | joins => exact absurd rfl hb
  | escapes => exact absurd rfl hb
  | plain _ plain => exact plain

theorem inStep_of_joined {gap rest : List Char} (hq : quote = none ∨ quote = some '"')
    (hj : join cs = .joined gap rest) : InStep after ⟨quote, '\\' :: cs⟩ ⟨quote, rest⟩ := by
  rcases hq with rfl | rfl
  · exact inStep_of_scans (.joins (join_append_of_joined after hj))
  -- within quotes the scanner reads the blanks and the newline like other text
  · obtain ⟨d, front, rfl⟩ := List.exists_cons_of_ne_nil (ne_nil_of_joined hj)
    have happend := append_of_join_joined hj
    subst happend
    have hrest := (List.forall_mem_cons.1 (plain_of_joined hj)).2
    refine ⟨front, hrest, ?_, scans_inside fun c hc => ⟨?_, (hrest c hc).2⟩⟩
    · simp only [Place.before, List.cons_append, List.append_assoc]
      exact .covers
    · rintro rfl
      cases (hrest _ hc).1

theorem inStep_of_escape {d : Char} {ds : List Char} (hq : quote = none ∨ quote = some '"')
    (hn : ∀ gap rest, join (d :: ds) ≠ .joined gap rest)
    (h : ReflTransGen Scans ⟨quote, '\\' :: d :: (ds ++ after)⟩ ⟨none, after⟩) :
    InStep after ⟨quote, '\\' :: d :: ds⟩ ⟨quote, (Escape.ofChar d ds).rest⟩ := by
  obtain ⟨digits, hds, hdigits, -⟩ := Escape.exists_of_ofChar d ds
  have hplain : ∀ c ∈ digits, isQuote c = false ∧ c ≠ '\\' := by
    intro c hc
    obtain ⟨hends, hb⟩ := hdigits c hc
    simp only [endsBare, Bool.or_eq_false_iff] at hends
    exact ⟨hends.2, hb⟩
  have hall : ds ++ after = digits ++ ((Escape.ofChar d ds).rest ++ after) := by
    rw [← List.append_assoc, hds]
  refine ⟨digits, hplain, ?_, ?_⟩
  · rw [← hall]
    rcases hq with rfl | rfl
    · exact .escapes (join_absent_of_scans hn h)
    · exact .covers
  · rcases hq with rfl | rfl
    · exact scans_plain hdigits
    · refine scans_inside fun c hc => ⟨?_, (hplain c hc).2⟩
      rintro rfl
      cases (hplain _ hc).1

namespace OnWay

theorem isQuote (h : OnWay slice after x) : ∀ q ∈ x.quote, isQuote q = true := by
  have hq := isQuote_of_scans h.comes
  exact hq

-- The decoder keeps step with the scanner.
theorem inStep (h : OnWay slice after x) (hd : Decodes x y) : InStep after x y := by
  have hquote := h.isQuote
  cases hd with
  | opens opens => exact inStep_of_scans (.opens opens)
  | closes => exact inStep_of_scans .closes
  | @plain quote c cs outside within plain =>
    cases quote with
    | none =>
      have hb : c ≠ '\\' := plain.resolve_left (by simp)
      exact inStep_of_scans (.plain hb (endsBare_of_scans (outside rfl) hb h.goes))
    | some q =>
      refine inStep_of_scans (.inside (by simpa using Ne.symm within) ?_)
      rintro ⟨rfl, rfl⟩
      simp at plain
  | joins escaping joined => exact inStep_of_joined (eq_none_or_double hquote escaping) joined
  | escapes escaping absent =>
    exact inStep_of_escape (eq_none_or_double hquote escaping) absent h.goes

theorem next (h : OnWay slice after x) (hs : InStep after x y) : OnWay slice after y := by
  obtain ⟨front, -, hfirst, hfront⟩ := hs
  have hxy : ReflTransGen Scans (x.before after) (y.before after) := .head hfirst hfront
  refine ⟨h.comes.trans hxy, ?_⟩
  rcases ReflTransGen.total_of_right_unique scans_right_unique hxy h.goes with hy | hend
  · exact hy
  -- no place of the slice is behind its end
  · rcases eq_or_length_lt hend with he | hlt
    · rw [he]
    · simp only [Place.before, List.length_append] at hlt
      omega

theorem of_decodes (h : OnWay slice after x) (hd : ReflTransGen Decodes x y) :
    OnWay slice after y := by
  induction hd with
  | refl => exact h
  | tail _ hs ih => exact ih.next (ih.inStep hs)

-- The decoder comes to the end of the slice outside of any quote, or an escape stands for nothing.
theorem decodeFrom_cases (h : OnWay slice after x) (offset : Nat) :
    (∃ text, decodeFrom x.quote offset x.rest = .ok text ∧ ReflTransGen Decodes x ⟨none, []⟩) ∨
    ∃ sequence span,
      decodeFrom x.quote offset x.rest = .error ⟨.invalidEscape sequence, span⟩ := by
  induction hlength : x.rest.length using Nat.strong_induction_on generalizing x offset with
  | _ length ih =>
  obtain ⟨quote, cs⟩ := x
  cases cs with
  | nil =>
    obtain rfl : quote = none := quote_of_scans h.goes
    exact .inl ⟨[], by rw [decodeFrom], .refl⟩
  | cons c cs =>
    rcases Script.decodeFrom_cases quote offset c cs with
      ⟨y, read, text, hd, heq⟩ | ⟨rfl, rfl⟩ | hinvalid
    · have hs := h.inStep hd
      obtain ⟨front, -, hfirst, -⟩ := hs
      have hlt := hfirst.length_lt
      simp only [Place.before, List.length_append, List.length_cons] at hlt hlength
      rcases ih y.rest.length (by omega) (h.next (h.inStep hd)) (offset + width read) rfl with
        ⟨more, hmore, hend⟩ | ⟨sequence, span, hinvalid⟩
      · exact .inl ⟨text ++ more, by rw [heq, hmore]; rfl, .head hd hend⟩
      · exact .inr ⟨sequence, span, by rw [heq, hinvalid]; rfl⟩
    · exact absurd h.goes (not_scans_of_backslash h.isQuote)
    · exact .inr hinvalid

end OnWay

-- The decoder reads a slice in front of `after` as the scanner did.  Each place that it comes to is
-- one of the scanner's, inside of the same quote, and no quote and no backslash is passed over in
-- between.  It stops at the end of the slice, outside of any quote and not behind a backslash, or
-- at an escape that stands for nothing.
structure DecodedAsScanned (slice after : List Char) : Prop where
  places : ∀ x, ReflTransGen Decodes ⟨none, slice⟩ x → OnWay slice after x
  rounds : ∀ x y, ReflTransGen Decodes ⟨none, slice⟩ x → Decodes x y → InStep after x y
  closed : ∀ quote, ReflTransGen Decodes ⟨none, slice⟩ ⟨quote, []⟩ → quote = none
  whole : ∀ quote, ¬ReflTransGen Decodes ⟨none, slice⟩ ⟨quote, ['\\']⟩
  outcome : ∀ offset,
    (∃ text, decodeFrom none offset slice = .ok text ∧
      ReflTransGen Decodes ⟨none, slice⟩ ⟨none, []⟩) ∨
    ∃ sequence span, decodeFrom none offset slice = .error ⟨.invalidEscape sequence, span⟩

theorem decodedAsScanned_of_scans (h : ReflTransGen Scans ⟨none, slice ++ after⟩ ⟨none, after⟩) :
    DecodedAsScanned slice after := by
  have hstart : OnWay slice after ⟨none, slice⟩ := ⟨.refl, h⟩
  refine ⟨fun x hx => hstart.of_decodes hx, fun x y hx hd => ?_, fun quote hx => ?_,
    fun quote hx => ?_, fun offset => hstart.decodeFrom_cases offset⟩
  · exact (hstart.of_decodes hx).inStep hd
  · exact quote_of_scans (hstart.of_decodes hx).goes
  · have hway := hstart.of_decodes hx
    exact not_scans_of_backslash hway.isQuote hway.goes

end Agreement

theorem Tree.cause_of_insert {t : Tree} {token : Token} {e : LexError}
    (h : t.insert token = .error e) : e.cause ∈ LexCause.ofPlaces := by
  simp only [insert] at h
  split at h <;> (try split at h) <;> (try split at h) <;> cases h <;> simp [LexCause.ofPlaces]

namespace Scanner

variable {s next : Scanner} {kind : TokenKind} {c : Char} {gap piece rest cs : List Char}
  {e : LexError}

theorem decodedAsScanned_of_slice (h : s.Slice cs kind gap piece rest)
    (hk : kind.isDecoded = true) : DecodedAsScanned piece rest := by
  refine decodedAsScanned_of_scans ?_
  cases h.ended with
  | sign structural => simp [TokenKind.isDecoded, structural] at hk
  | name _ whole => exact scans_of_word whole
  | quote c body quotes opens _ closed =>
    subst quotes
    exact .head (.opens opens) (scans_of_quoted closed)
  | bare _ whole => exact scans_of_bare whole
  | file _ whole => exact scans_of_word whole
  | shell operand =>
    subst operand
    cases hk

-- A token of this kind is made of a slice, and the tree refuses it.
def Declines (s : Scanner) (kind : TokenKind) (next : Scanner) (e : LexError) : Prop :=
  ∃ gap piece rest text, s.Slice s.rest kind gap piece rest ∧
    Spells kind (s.offset + width gap) piece text ∧
    s.tree.insert (s.tokenAt kind gap piece text) = .error e ∧ next = s.marked kind gap piece rest

-- What a construct can be refused for.
theorem declines_of_step (hr : s.rest = c :: cs) (h : s.step c cs = .reject next e) :
    (∃ kind, s.Declines kind next e) ∨ next = s ∧
      (e.cause ∈ LexCause.ofRedirections ∨ ∃ sequence, e.cause = .invalidEscape sequence) := by
  have ho := outcome_step s c cs
  rw [← hr] at ho
  generalize s.step c cs = result at h ho
  cases ho with
  | skip => cases h
  | @token kind gap piece rest text slice spelled =>
    rw [emit_eq] at h
    split at h
    · next hi =>
      cases h
      exact .inl ⟨kind, gap, piece, rest, text, slice, spelled, hi, rfl⟩
    · cases h
  | undecoded decodes slice failed =>
    cases h
    rcases (decodedAsScanned_of_slice slice decodes).outcome _ with
      ⟨text, ht, -⟩ | ⟨sequence, span, hi⟩
    · cases failed.symm.trans ht
    · cases failed.symm.trans hi
      exact .inr ⟨rfl, .inr ⟨sequence, rfl⟩⟩
  | malformed _ cause =>
    cases h
    exact .inr ⟨rfl, .inl cause⟩
  | wait => cases h

theorem cause_of_step (hr : s.rest = c :: cs) (h : s.step c cs = .reject next e) :
    e.cause ∉ LexCause.ofEnds := by
  intro hend
  simp only [LexCause.ofEnds, List.mem_cons, List.not_mem_nil, or_false] at hend
  rcases declines_of_step hr h with ⟨kind, gap, piece, rest, text, -, -, hi, -⟩ | ⟨-, hc | ⟨_, hc⟩⟩
  · have hc := Tree.cause_of_insert hi
    rcases hend with hend | hend | hend <;> simp [hend, LexCause.ofPlaces] at hc
  · rcases hend with hend | hend | hend <;> simp [hend, LexCause.ofRedirections] at hc
  · rcases hend with hend | hend | hend <;> cases hend.symm.trans hc

end Scanner

-- A token is made of a slice of the input, and a slice that is decoded is read as the scanner read
-- it.  An error of feeding never says that the input has ended too early: that is told when it is
-- closed.
theorem decoded_as_scanned :
    (∀ (s : Scanner) (c : Char) (cs : List Char), s.Outcome (c :: cs) (s.step c cs)) ∧
    (∀ (s : Scanner) (cs : List Char) (kind : TokenKind) (gap slice after : List Char),
      s.Slice cs kind gap slice after → kind.isDecoded = true → DecodedAsScanned slice after) ∧
    (∀ (s : Scanner) (line : String) (e : LexError), (s.feed line).2 = some e →
      e.cause ∉ LexCause.ofEnds) ∧
    ∀ cause ∈ LexCause.ofEnds, ∃ line s span,
      Scanner.new.feed line = (s, none) ∧ s.finish.2 = .error ⟨cause, span⟩ := by
  refine ⟨fun s c cs => Scanner.outcome_step s c cs,
    fun s cs kind gap slice after h hk => Scanner.decodedAsScanned_of_slice h hk,
    fun s line e h => ?_, fun cause hc => ?_⟩
  · obtain ⟨n, u, c, cs, -, hr, hs⟩ := Scanner.exists_reject_of_scan (Prod.ext rfl h)
    exact Scanner.cause_of_step hr hs
  · have hfinish (line : String) (span : Span)
        (h : (Scanner.new.feed line).2 = none ∧
          (Scanner.new.feed line).1.finish.2 = .error ⟨cause, span⟩) :
        ∃ line s span, Scanner.new.feed line = (s, none) ∧ s.finish.2 = .error ⟨cause, span⟩ :=
      ⟨line, _, span, Prod.ext rfl h.1, h.2⟩
    simp only [LexCause.ofEnds, List.mem_cons, List.not_mem_nil, or_false] at hc
    rcases hc with rfl | rfl | rfl
    · exact hfinish "'" ⟨0, 1⟩ (by decide +kernel)
    · exact hfinish "\\" ⟨0, 1⟩ (by decide +kernel)
    · exact hfinish "a \x7b" ⟨2, 3⟩ (by decide +kernel)

-- A name of bare and quoted pieces, with joined lines within quotes and a blank that is escaped at its
-- end.
theorem decoded_as_scanned_of_pieces :
    let slice := "ab\"\\\"\\x41\\ \n\"'\\'\\ ".toList
    DecodedAsScanned slice [' ', ';'] ∧
      decodeFrom none 0 slice = .ok "ab\"A\\ ".toList := by
  intro slice
  have hword : word (slice ++ [' ', ';']) = some (slice, [' ', ';']) := by decide +kernel
  have hhead : ∀ c ∈ slice.head?, isBlank c = false := by
    rintro c ⟨⟩
    rfl
  have hslice : Scanner.new.Slice (slice ++ [' ', ';']) .command [] slice [' ', ';'] :=
    ⟨rfl, by decide, .nothing rfl, hhead, ⟨nofun, rfl⟩, .name (.inl rfl) hword,
      Scanner.signed_of_plain rfl⟩
  exact ⟨decoded_as_scanned.2.1 _ _ _ _ _ _ hslice rfl, by decide +kernel⟩

end CommandShell.Script
