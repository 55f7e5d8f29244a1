import CommandShell.Proofs.Scanner.Following
import CommandShell.Proofs.Scanner.Lookahead
import CommandShell.Proofs.Scanner.Quoting
import Mathlib.Data.Option.NAry

namespace CommandShell.Script

variable {quote c d : Char} {cs ds front body rest : List Char}

-- A word as the pieces it is made of, each with the kind of the argument that it makes.
inductive Cut : List Char → List (TokenKind × List Char) → Prop where
  | nil : Cut [] []
  | quote {c : Char} {body rest : List Char} {pieces : List (TokenKind × List Char)}
      (opens : isQuote c = true) (closed : quoted c (body ++ rest) = some (body, rest))
      (more : Cut rest pieces) :
      Cut (c :: (body ++ rest))
        ((if c = '\'' then .singleQuoted else .doubleQuoted, c :: body) :: pieces)
  | bare {c : Char} {body rest : List Char} {pieces : List (TokenKind × List Char)}
      (plain : endsBare c = false) (ended : bare (c :: (body ++ rest)) = some (c :: body, rest))
      (more : Cut rest pieces) :
      Cut (c :: (body ++ rest)) ((.bareArgument, c :: body) :: pieces)

-- A text that is cut is one word.
theorem word_of_cut {pieces : List (TokenKind × List Char)} (h : Cut cs pieces) :
    word cs = some (cs, []) := by
  induction h with
  | nil => exact word.eq_1
  | quote opens closed more ih =>
    rw [word_of_quoted opens closed, ih]
    rfl
  | bare plain ended more ih =>
    simp only [endsBare, Bool.or_eq_false_iff] at plain
    rw [word_of_bare plain.2 plain.1 ended, ih]
    rfl

-- What a text stands for, from inside of a quote if there is one, wherever the text stands.
def decoded (quote : Option Char) (cs : List Char) : Option (List Char) :=
  (decodeFrom quote 0 cs).toOption

theorem toOption_decodeFrom (quote : Option Char) (offset : Nat) (cs : List Char) :
    (decodeFrom quote offset cs).toOption = decoded quote cs := by
  have h : Motion.Both { bytes := offset } Eq (decodeFrom quote 0 cs) (decodeFrom quote offset cs) :=
    decodeFrom_alike quote 0 offset (Nat.zero_add _).symm cs
  rw [decoded]
  generalize decodeFrom quote offset cs = x at h ⊢
  generalize decodeFrom quote 0 cs = y at h ⊢
  cases h with
  | ok h => rw [h]
  | error => rfl

theorem decodeFrom_eq_ok {quote : Option Char} {text : List Char} (h : decoded quote cs = some text)
    (offset : Nat) : decodeFrom quote offset cs = .ok text := by
  rw [← toOption_decodeFrom quote offset] at h
  cases hd : decodeFrom quote offset cs with
  | error e =>
    rw [hd] at h
    cases h
  | ok text' =>
    rw [hd] at h
    cases h
    rfl

section Decoded

@[simp] theorem decoded_nil (quote : Option Char) : decoded quote [] = some [] := by
  rw [decoded, decodeFrom]
  rfl

theorem decoded_open (hc : isQuote c = true) (cs : List Char) :
    decoded none (c :: cs) = decoded (some c) cs := by
  rw [decoded, decodeFrom_open hc, toOption_decodeFrom]

theorem decoded_close (quote : Char) (cs : List Char) :
    decoded (some quote) (quote :: cs) = decoded none cs := by
  rw [decoded, decodeFrom.eq_def]
  simp [toOption_decodeFrom]

theorem decoded_plain {quote : Option Char} (ho : quote = none → isQuote c = false)
    (hc : quote ≠ some c) (hb : quote = some '\'' ∨ c ≠ '\\') (cs : List Char) :
    decoded quote (c :: cs) = (decoded quote cs).map (c :: ·) := by
  have hopen : ¬(quote = none ∧ isQuote c = true) := by
    rintro ⟨hn, hq⟩
    rw [ho hn] at hq
    cases hq
  rw [decoded, decodeFrom.eq_def]
  simp only [if_neg hopen, if_neg hc, if_pos hb]
  rw [← toOption_decodeFrom quote (0 + c.utf8Size)]
  cases decodeFrom quote (0 + c.utf8Size) cs <;> rfl

-- Escapes are read anywhere but in single quotes.
theorem decoded_of_joined {quote : Option Char} {gap : List Char}
    (hq : quote = none ∨ quote = some '"') (hj : join cs = .joined gap rest) :
    decoded quote ('\\' :: cs) = decoded quote rest := by
  have hclose : quote ≠ some '\\' := by rcases hq with rfl | rfl <;> simp
  have hsingle : quote ≠ some '\'' := by rcases hq with rfl | rfl <;> simp
  cases cs with
  | nil => cases hj
  | cons d ds =>
    rw [decoded, decodeFrom, if_neg (by simp [isQuote]), if_neg hclose, if_neg (by simp [hsingle])]
    split
    · next hj' =>
      rw [hj] at hj'
      cases hj'
      exact toOption_decodeFrom _ _ _
    · next hn => exact absurd hj (hn gap rest)

theorem decoded_of_escape {quote : Option Char} (hq : quote = none ∨ quote = some '"')
    (hj : ∀ gap rest, join (d :: ds) ≠ .joined gap rest) :
    decoded quote ('\\' :: d :: ds) = (Escape.ofChar d ds).value.bind fun value =>
      (decoded quote (Escape.ofChar d ds).rest).map (value :: ·) := by
  have hclose : quote ≠ some '\\' := by rcases hq with rfl | rfl <;> simp
  have hsingle : quote ≠ some '\'' := by rcases hq with rfl | rfl <;> simp
  rw [decoded, decodeFrom, if_neg (by simp [isQuote]), if_neg hclose, if_neg (by simp [hsingle])]
  split
  · next hj' => exact absurd hj' (hj _ _)
  · rw [← toOption_decodeFrom quote (0 + 1 + Text.width (Escape.ofChar d ds).read)]
    dsimp only
    generalize Escape.ofChar d ds = escape
    obtain ⟨read, value, rest⟩ := escape
    cases value with
    | none => rfl
    | some value =>
      dsimp only [Option.bind_some]
      cases decodeFrom quote (0 + 1 + Text.width read) rest <;> rfl

end Decoded

-- What is read of a piece behind characters that neither end it nor start an escape.
theorem exists_of_quoted_front (hf : ∀ c ∈ front, c ≠ quote ∧ c ≠ '\\')
    (h : quoted quote (front ++ cs) = some (body, rest)) :
    ∃ more, quoted quote cs = some (more, rest) ∧ body = front ++ more := by
  induction front generalizing body with
  | nil => exact ⟨body, h, rfl⟩
  | cons c front ih =>
    obtain ⟨hc, hb⟩ := hf c (List.mem_cons_self ..)
    rw [List.cons_append, quoted_of_plain hc (by simp [hb])] at h
    obtain ⟨⟨later, rest⟩, hlater, hp⟩ := Option.map_eq_some_iff.1 h
    cases hp
    obtain ⟨more, hmore, rfl⟩ := ih (fun d hd => hf d (List.mem_cons_of_mem _ hd)) hlater
    exact ⟨more, hmore, rfl⟩

theorem exists_of_bare_front (hf : ∀ c ∈ front, endsBare c = false ∧ c ≠ '\\')
    (h : bare (front ++ cs) = some (body, rest)) :
    ∃ more, bare cs = some (more, rest) ∧ body = front ++ more := by
  induction front generalizing body with
  | nil => exact ⟨body, h, rfl⟩
  | cons c front ih =>
    obtain ⟨hc, hb⟩ := hf c (List.mem_cons_self ..)
    rw [List.cons_append, bare_of_plain hb hc] at h
    obtain ⟨⟨later, rest⟩, hlater, hp⟩ := Option.map_eq_some_iff.1 h
    cases hp
    obtain ⟨more, hmore, rfl⟩ := ih (fun d hd => hf d (List.mem_cons_of_mem _ hd)) hlater
    exact ⟨more, hmore, rfl⟩

section Append

-- One text behind the other, if there are both.
def joinTexts (x y : Option (List Char)) : Option (List Char) := Option.map₂ (· ++ ·) x y

theorem map_cons_joinTexts (c : Char) (x y : Option (List Char)) :
    (joinTexts x y).map (c :: ·) = joinTexts (x.map (c :: ·)) y := by
  cases x <;> cases y <;> rfl

theorem joinTexts_nil (x : Option (List Char)) : joinTexts (some []) x = x := by
  cases x <;> rfl

variable {state : Option Char} {digits more : List Char}

-- What is read behind joined lines, and behind an escape, is cut off at the same place.
theorem decoded_joined_append (hq : state = none ∨ state = some '"') {gap : List Char}
    (hj : join cs = .joined gap (more ++ rest))
    (h : decoded state (more ++ rest) = joinTexts (decoded state more) (decoded none rest)) :
    decoded state ('\\' :: cs) =
      joinTexts (decoded state ('\\' :: (gap ++ more))) (decoded none rest) := by
  rw [decoded_of_joined hq hj, decoded_of_joined hq (join_of_joined hj more), h]

theorem decoded_escape_append (hq : state = none ∨ state = some '"')
    (hds : digits ++ (Escape.ofChar d ds).rest = ds)
    (hread : ∀ rest, rest <+: (Escape.ofChar d ds).rest →
      Escape.ofChar d (digits ++ rest) = { Escape.ofChar d ds with rest := rest })
    (hmore : more ++ rest = (Escape.ofChar d ds).rest)
    (hj : ∀ gap rest, join (d :: ds) ≠ .joined gap rest)
    (h : decoded state (more ++ rest) = joinTexts (decoded state more) (decoded none rest)) :
    decoded state ('\\' :: d :: ds) =
      joinTexts (decoded state ('\\' :: d :: (digits ++ more))) (decoded none rest) := by
  have hall : d :: (digits ++ more) ++ rest = d :: ds := by
    rw [← hds, ← hmore, List.cons_append, List.append_assoc]
  have hj' : ∀ gap rest, join (d :: (digits ++ more)) ≠ .joined gap rest := by
    intro gap rest' hn
    have happend := join_append_of_joined rest hn
    rw [hall] at happend
    exact hj _ _ happend
  rw [decoded_of_escape hq hj, decoded_of_escape hq hj', hread more ⟨rest, hmore⟩, ← hmore, h]
  cases (Escape.ofChar d ds).value with
  | none => rfl
  | some value => exact map_cons_joinTexts value _ _

-- Joined lines are read within double quotes like other text.
theorem exists_of_quoted_joined {gap : List Char} (hj : join (d :: ds) = .joined gap cs)
    (h : quoted '"' ds = some (body, rest)) :
    ∃ more, quoted '"' cs = some (more, rest) ∧ d :: body = gap ++ more := by
  have hplain : ∀ c ∈ gap, c ≠ '"' ∧ c ≠ '\\' := by
    intro c hc
    obtain ⟨hq, hb⟩ := plain_of_joined hj c hc
    refine ⟨?_, hb⟩
    rintro rfl
    cases hq
  obtain ⟨more, hmore, -⟩ := exists_cons_of_append (ne_nil_of_joined hj) (append_of_join_joined hj)
  obtain ⟨hq, hb⟩ := hplain d (by simp [hmore])
  have hall : quoted '"' (gap ++ cs) = some (d :: body, rest) := by
    rw [append_of_join_joined hj, quoted_of_plain hq (by simp [hb]), h]
    rfl
  exact exists_of_quoted_front hplain hall

-- A quoted piece stands for the same alone, and what is behind it is read from outside of it.
theorem decoded_quoted (hq : isQuote quote = true) (h : quoted quote cs = some (body, rest)) :
    decoded (some quote) cs = joinTexts (decoded (some quote) body) (decoded none rest) := by
  induction hlength : cs.length using Nat.strong_induction_on generalizing cs body with
  | _ length ih =>
  cases cs with
  | nil => cases h
  | cons c cs =>
    by_cases hc : c = quote
    · subst hc
      rw [quoted_of_close] at h
      cases h
      rw [decoded_close, decoded_close, decoded_nil, joinTexts_nil]
    by_cases hb : c = '\\' ∧ quote = '"'
    · obtain ⟨rfl, rfl⟩ := hb
      cases cs with
      | nil => cases h
      | cons d ds =>
        rw [quoted_of_escape] at h
        obtain ⟨⟨body, rest⟩, hbody, hp⟩ := Option.map_eq_some_iff.1 h
        cases hp
        by_cases hj : ∃ gap later, join (d :: ds) = .joined gap later
        · obtain ⟨gap, later, hj⟩ := hj
          obtain ⟨more, hmore, hgap⟩ := exists_of_quoted_joined hj hbody
          have hshort := length_of_join_joined hj
          have hlater : more ++ rest = later := append_of_quoted hmore
          have hrest := ih later.length (by simp at hlength hshort; omega) hmore rfl
          rw [← hlater] at hj hrest
          have hread := decoded_joined_append (.inr rfl) hj hrest
          rwa [← hgap] at hread
        · obtain ⟨digits, hds, hplain, hread⟩ := Escape.exists_of_ofChar d ds
          have hfront : ∀ c ∈ digits, c ≠ '"' ∧ c ≠ '\\' := by
            intro c hc
            obtain ⟨he, hb⟩ := hplain c hc
            refine ⟨?_, hb⟩
            rintro rfl
            cases he
          rw [← hds] at hbody
          obtain ⟨more, hmore, rfl⟩ := exists_of_quoted_front hfront hbody
          have hshort := Escape.length_rest_ofChar d ds
          have hlater : more ++ rest = (Escape.ofChar d ds).rest := append_of_quoted hmore
          have hrest := ih _ (by simp at hlength; omega) hmore rfl
          rw [← hlater] at hrest
          have hnone : ∀ gap later, join (d :: ds) ≠ .joined gap later := by simpa using hj
          have happend := decoded_escape_append (.inr rfl) hds hread hlater hnone hrest
          exact happend
    · rw [quoted_of_plain hc hb] at h
      obtain ⟨⟨body, rest⟩, hbody, hp⟩ := Option.map_eq_some_iff.1 h
      cases hp
      have hrest := ih cs.length (by simp at hlength; omega) hbody rfl
      have hplain : some quote = some '\'' ∨ c ≠ '\\' := by
        simp only [isQuote, Bool.or_eq_true, decide_eq_true_eq] at hq
        rcases hq with rfl | rfl
        · exact .inl rfl
        · exact .inr fun hs => hb ⟨hs, rfl⟩
      have hclose : some quote ≠ some c := by simpa using Ne.symm hc
      show _ = joinTexts (decoded (some quote) (c :: body)) _
      rw [decoded_plain (by simp) hclose hplain, decoded_plain (by simp) hclose hplain, hrest,
        map_cons_joinTexts]

theorem decoded_bare (h : bare cs = some (body, rest)) :
    decoded none cs = joinTexts (decoded none body) (decoded none rest) := by
  induction hlength : cs.length using Nat.strong_induction_on generalizing cs body with
  | _ length ih =>
  by_cases hn : body = []
  · subst hn
    obtain rfl : rest = cs := append_of_bare h
    rw [decoded_nil, joinTexts_nil]
  cases cs with
  | nil =>
    rw [bare] at h
    cases h
    exact absurd rfl hn
  | cons c cs =>
    by_cases hc : endsBare c = true
    · rw [bare_of_endsBare hc] at h
      cases h
      exact absurd rfl hn
    rw [Bool.not_eq_true] at hc
    by_cases hb : c = '\\'
    · subst hb
      cases hj : join cs with
      | unfinished =>
        rw [bare, if_pos rfl] at h
        split at h
        · next hj' => simp [hj] at hj'
        · cases h
        · next hj' => simp [hj] at hj'
      | joined gap later =>
        rw [bare_of_joined hj] at h
        obtain ⟨⟨more, rest⟩, hmore, hp⟩ := Option.map_eq_some_iff.1 h
        cases hp
        have hshort := length_of_join_joined hj
        have hlater : more ++ rest = later := append_of_bare hmore
        have hrest := ih later.length (by simp at hlength; omega) hmore rfl
        rw [← hlater] at hj hrest
        exact decoded_joined_append (.inl rfl) hj hrest
      | absent =>
        cases cs with
        | nil => cases hj
        | cons d ds =>
          rw [bare_of_absent hj] at h
          obtain ⟨⟨body, rest⟩, hbody, hp⟩ := Option.map_eq_some_iff.1 h
          cases hp
          obtain ⟨digits, hds, hplain, hread⟩ := Escape.exists_of_ofChar d ds
          have hshort := Escape.length_rest_ofChar d ds
          rw [← hds] at hbody
          obtain ⟨more, hmore, rfl⟩ := exists_of_bare_front hplain hbody
          have hlater : more ++ rest = (Escape.ofChar d ds).rest := append_of_bare hmore
          have hrest := ih _ (by simp at hlength; omega) hmore rfl
          rw [← hlater] at hrest
          have hnone : ∀ gap later, join (d :: ds) ≠ .joined gap later := by simp [hj]
          have happend := decoded_escape_append (.inl rfl) hds hread hlater hnone hrest
          exact happend
    · rw [bare_of_plain hb hc] at h
      obtain ⟨⟨body, rest⟩, hbody, hp⟩ := Option.map_eq_some_iff.1 h
      cases hp
      have hrest := ih cs.length (by simp at hlength; omega) hbody rfl
      have hopen : (none : Option Char) = none → isQuote c = false := fun _ => by
        simp only [endsBare, Bool.or_eq_false_iff] at hc
        exact hc.2
      show _ = joinTexts (decoded none (c :: body)) _
      rw [decoded_plain hopen (by simp) (.inr hb), decoded_plain hopen (by simp) (.inr hb), hrest,
        map_cons_joinTexts]

end Append

-- The kinds and the texts of a word's pieces, if all of them stand for something.
def spelled? : List (TokenKind × List Char) → Option (List (TokenKind × String))
  | [] => some []
  | (kind, piece) :: rest => do
    return (kind, String.ofList (← decoded none piece)) :: (← spelled? rest)

theorem exists_of_spelled?_cons {kind : TokenKind} {piece : List Char}
    {pieces : List (TokenKind × List Char)} {texts : List (TokenKind × String)}
    (h : spelled? ((kind, piece) :: pieces) = some texts) :
    ∃ text more, decoded none piece = some text ∧ spelled? pieces = some more ∧
      texts = (kind, String.ofList text) :: more := by
  rw [spelled?] at h
  cases hd : decoded none piece with
  | none => simp [hd] at h
  | some text =>
    cases hs : spelled? pieces with
    | none => simp [hd, hs] at h
    | some more =>
      simp only [hd, hs] at h
      exact ⟨text, more, rfl, rfl, (Option.some.inj h).symm⟩

theorem spelled?_singleton (kind : TokenKind) (cs : List Char) :
    spelled? [(kind, cs)] = (decoded none cs).map fun text => [(kind, String.ofList text)] := by
  rw [spelled?, spelled?]
  cases decoded none cs <;> rfl

theorem kind_of_spelled? {pieces : List (TokenKind × List Char)} {texts : List (TokenKind × String)}
    (h : spelled? pieces = some texts) : texts.map (·.1) = pieces.map (·.1) := by
  induction pieces generalizing texts with
  | nil =>
    cases h
    rfl
  | cons p pieces ih =>
    obtain ⟨text, more, -, hmore, rfl⟩ := exists_of_spelled?_cons h
    rw [List.map_cons, List.map_cons, ih hmore]

-- What the pieces stand for, one behind the other.
def joined? (pieces : List (TokenKind × List Char)) : Option (List Char) :=
  (spelled? pieces).map fun texts => texts.flatMap (·.2.toList)

theorem joined?_cons (kind : TokenKind) (piece : List Char)
    (pieces : List (TokenKind × List Char)) :
    joined? ((kind, piece) :: pieces) = joinTexts (decoded none piece) (joined? pieces) := by
  rw [joined?, joined?, spelled?]
  cases decoded none piece with
  | none => rfl
  | some text => cases spelled? pieces <;> simp [joinTexts]

theorem joined?_singleton (kind : TokenKind) (cs : List Char) :
    joined? [(kind, cs)] = decoded none cs := by
  rw [joined?, spelled?_singleton]
  cases decoded none cs <;> simp

-- A word stands for what its pieces stand for.
theorem decoded_of_cut {pieces : List (TokenKind × List Char)} (h : Cut cs pieces) :
    decoded none cs = joined? pieces := by
  induction h with
  | nil => exact decoded_nil none
  | quote opens closed more ih =>
    rw [decoded_open opens, decoded_quoted opens closed, ih, ← decoded_open opens, joined?_cons]
  | bare plain ended more ih => rw [decoded_bare ended, ih, joined?_cons]

end CommandShell.Script
