import CommandShell.Proofs.Grammar.Concatenation
import CommandShell.Proofs.Scanner.Behind
import CommandShell.Proofs.Scanner.Rereading

namespace CommandShell.Script

open Text (width)

namespace Tree

variable {t u t' u' v : Tree} {token kept : Token}

theorem tokens_of_insert_plain (hk : token.kind.opensNode = false) (h : t.insert token = .ok u) :
    u.tokens = t.tokens.push token := by
  rcases token.kind.insert_cases with hc | hc | hc | hc | hc | hc
  · rw [Derivation.insert_separator hc] at h
    cases h
    rfl
  · simp [hc, TokenKind.opensNode] at hk
  · simp [hc, TokenKind.opensNode] at hk
  · rw [insert_of_isPiece hc] at h
    split at h
    · cases h
    · split at h
      · cases h
        simp [push, update]
      · cases h
  · simp only [insert, hc] at h
    split at h
    · cases h
    · cases h
      simp [push, update]
  · simp only [insert, hc] at h
    split at h
    · cases h
    · cases h
      split <;> simp [push, update]

-- A token that was taken in once is taken in again as it was kept.
theorem insert_kept (h : t.insert token = .ok u) (hu : u.tokens = t.tokens.push kept) (v : Tree) :
    v.insert kept = v.insert token := by
  by_cases hk : token.kind.opensNode = true
  · obtain ⟨id, hid⟩ := tokens_of_insert h
    obtain rfl := Array.push_inj_right.1 (hu.symm.trans hid)
    exact Derivation.insert_numbered id hk
  · have hplain := tokens_of_insert_plain (by simpa using hk) h
    rw [Array.push_inj_right.1 (hu.symm.trans hplain)]

theorem exists_of_insertAll_cons {tokens : List Token} (h : t.insertAll (token :: tokens) = .ok v) :
    ∃ u, t.insert token = .ok u ∧ u.insertAll tokens = .ok v := by
  cases hi : t.insert token with
  | error e =>
    rw [insertAll, List.foldlM_cons, hi] at h
    cases h
  | ok u => exact ⟨u, rfl, (insertAll_cons hi).symm.trans h⟩

theorem exists_of_insertAll_concat {tokens : List Token}
    (h : t.insertAll (tokens ++ [token]) = .ok v) :
    ∃ u, t.insertAll tokens = .ok u ∧ u.insert token = .ok v := by
  cases hi : t.insertAll tokens with
  | error e =>
    rw [insertAll] at hi
    rw [insertAll, List.foldlM_append, hi] at h
    cases h
  | ok u => exact ⟨u, rfl, (insertAll_concat hi token).symm.trans h⟩

theorem ne_of_push (hu : u.tokens = t.tokens.push kept) : u ≠ t := by
  rintro rfl
  have hsize := congrArg Array.size hu
  rw [Array.size_push] at hsize
  omega

namespace GrowsAlike

theorem of_kept (hu : u.tokens = t.tokens.push kept) (h' : t'.insert kept = .ok u') :
    GrowsAlike t u t' u' :=
  ⟨fun h => absurd h (ne_of_push hu), fun _ h => (insert_kept h hu t').symm.trans h'⟩

theorem none (t t' : Tree) : GrowsAlike t t t' t' := by
  refine ⟨fun _ => rfl, fun token h => ?_⟩
  obtain ⟨id, hid⟩ := tokens_of_insert h
  exact absurd rfl (ne_of_push hid)

end GrowsAlike

end Tree

section Prefix

variable {cs rest rest' : List Char}

-- Text of which the beginning is kept looks the same if more than blanks is kept.
theorem resembles_of_kept (hp : rest' <+: rest) (hm : ∃ c ∈ rest', isBlank c = false) :
    Resembles rest rest' := by
  obtain ⟨cut, rfl⟩ := hp
  refine ⟨?_, fun h => ?_⟩
  · obtain ⟨c, hc, -⟩ := hm
    rw [List.head?_append_of_ne_nil _ (List.ne_nil_of_mem hc)]
  · have hjoin := join_absent_of_mem hm h []
    rwa [List.append_nil] at hjoin

theorem Token.endsAlike_of_kept (t : Token) (hp : rest' <+: rest) : t.EndsAlike rest rest' := by
  obtain ⟨cut, rfl⟩ := hp
  refine ⟨fun _ => ?_, fun _ c hc => ?_⟩
  · rw [List.takeWhile_append]
    split
    · next hl =>
      rw [(List.takeWhile_prefix _).eq_of_length hl]
      exact List.prefix_append _ _
    · exact List.prefix_rfl
  · have hne : rest'.dropWhile isBlank ≠ [] := by
      intro hn
      rw [hn] at hc
      cases hc
    rw [dropWhile_append_of_ne_nil cut hne, List.head?_append_of_ne_nil _ hne]
    exact hc

end Prefix

namespace Scanner

variable {s s' s₁ s₂ w next : Scanner} {t last : Token} {tree tree' final : Tree} {c : Char}
  {n : Nat} {cs front gap piece kept rest rest' : List Char} {tokens later : List Token}

theorem stops_of_kept (cs : List Char) (hp : rest' <+: next.rest)
    (hm : ∃ c ∈ rest', isBlank c = false) : Stops cs next rest' := by
  refine ⟨(resembles_of_kept hp hm).endsAlike cs, fun _ hn => ?_,
    fun t _ _ => t.endsAlike_of_kept hp⟩
  obtain ⟨c, hc, -⟩ := hm
  rw [hn] at hc
  cases hc

-- Nothing is needed behind a construct that has no escaped blank at its end.
theorem stops_nil (hf : cs = front ++ next.rest)
    (hb : ∀ b, ['\\', b] <:+ front → isBlank b = false)
    (hq : next.position ≠ .command → ∀ c ∈ next.rest.head?, isQuote c = false) :
    Stops cs next [] := by
  refine ⟨⟨nofun, fun d hs hj => ?_⟩, fun hp _ => hq hp,
    fun t _ _ => t.endsAlike_of_kept List.nil_prefix⟩
  have hescape : '\\' :: d :: next.rest = ['\\', d] ++ next.rest := rfl
  rw [hf, hescape, List.suffix_append_self_iff] at hs
  have hmem : ∃ c ∈ [d], isBlank c = false := ⟨d, List.mem_singleton_self d, hb d hs⟩
  exact join_absent_of_mem hmem hj []

-- The scanner reads this token next.
structure TakesIn (s : Scanner) (t : Token) (next : Scanner) : Prop where
  step : ∃ c cs, s.rest = c :: cs ∧ s.step c cs = .done next
  tokens : next.tree.tokens = s.tree.tokens.push t

-- In front of every token that is read of a text, the scanner came to stand once.
theorem exists_takesIn {first : List Token} (h : s.scan = (w, none))
    (ht : w.tree.tokens.toList = s.tree.tokens.toList ++ (first ++ t :: later)) :
    ∃ n s' next, behind n s = some s' ∧ s'.TakesIn t next ∧
      s'.tree.tokens.toList = s.tree.tokens.toList ++ first := by
  fun_induction scan s generalizing first with
  | case1 =>
    cases h
    simp at ht
  | case2 s c cs hr next hs _ ih =>
    have hlater (first : List Token)
        (ht : w.tree.tokens.toList = next.tree.tokens.toList ++ (first ++ t :: later)) :
        ∃ n s' next', behind n s = some s' ∧ s'.TakesIn t next' ∧
          s'.tree.tokens.toList = next.tree.tokens.toList ++ first := by
      obtain ⟨n, s', next', hn, htakes, htokens⟩ := ih h ht
      exact ⟨n + 1, s', next', (behind_of_step hr hs).trans hn, htakes, htokens⟩
    rcases tree_of_step hs with htree | ⟨u, hu⟩
    · rw [← htree] at ht ⊢
      exact hlater first ht
    · have hread : next.tree.tokens.toList = s.tree.tokens.toList ++ [u] := by simp [hu]
      obtain ⟨more, hmore⟩ := tokens_of_scan h
      rw [hread, ht, List.append_assoc, List.append_cancel_left_eq] at hmore
      cases first with
      | nil =>
        obtain rfl := (List.cons.inj hmore).1
        exact ⟨0, s, next, rfl, ⟨⟨c, cs, hr, hs⟩, hu⟩, (List.append_nil _).symm⟩
      | cons v first =>
        obtain rfl := (List.cons.inj hmore).1
        obtain ⟨n, s', next', hn, htakes, htokens⟩ :=
          hlater first (by rw [ht, hread, List.append_assoc]; rfl)
        refine ⟨n, s', next', hn, htakes, ?_⟩
        rw [htokens, hread, List.append_assoc]
        rfl
  | case3 =>
    cases h
    simp at ht
  | case4 => cases h

-- What is read for a token: what introduces it, and its piece.
structure TakenFrom (s : Scanner) (t : Token) (next : Scanner) (gap piece : List Char) : Prop where
  rest : s.rest = gap ++ (piece ++ next.rest)
  taken : piece ≠ []
  starts : ∀ c ∈ piece.head?, isBlank c = false
  introduced : Introduces t.kind gap (piece ++ next.rest)
  spelled : Spells t.kind t.span.start piece t.text.toList
  ended : Delimited t.kind piece next.rest
  fits : s.position.Takes t.kind
  start : t.span.start = s.offset + width gap
  stop : t.span.stop = s.offset + width gap + width piece
  offset : next.offset = t.span.stop
  position : next.position = positionAfter s.position t.kind
  pieceEnd : next.pieceEnd = if t.kind.isArgument then some t.span.stop else none

theorem TakesIn.exists_piece (h : s.TakesIn t next) : ∃ gap piece, s.TakenFrom t next gap piece := by
  obtain ⟨⟨c, cs, hr, hs⟩, htokens⟩ := h
  cases reads_of_step hs with
  | skip =>
    exact absurd rfl (Tree.ne_of_push htokens)
  | token kind gap piece text rest tree split taken introduced spelled inserted starts fits ended =>
    obtain ⟨id, hid⟩ := Tree.tokens_of_insert inserted
    obtain rfl : { s.tokenAt kind gap piece text with node := id } = t := by
      exact Array.push_inj_right.1 (hid.symm.trans htokens)
    refine ⟨gap, piece, ?_, taken, starts, introduced, ?_, ended, fits, rfl, rfl, rfl, rfl, rfl⟩
    · rw [hr, ← split, List.append_assoc]
      rfl
    · simpa [tokenAt] using spelled

-- Of the tokens that a run of constructs leaves, the first construct leaves one or none, to any
-- tree that takes them in.
theorem exists_growsAlike (hs : s.step c cs = .done next) (hn : behind n next = some s')
    (ht : s'.tree.tokens.toList = s.tree.tokens.toList ++ tokens)
    (hi : tree.insertAll tokens = .ok tree') :
    ∃ grown later, s.tree.GrowsAlike next.tree tree grown ∧
      s'.tree.tokens.toList = next.tree.tokens.toList ++ later ∧
      grown.insertAll later = .ok tree' := by
  rcases tree_of_step hs with htree | ⟨u, hu⟩
  · refine ⟨tree, tokens, ?_, by rw [htree, ht], hi⟩
    rw [htree]
    exact .none s.tree tree
  · have hread : next.tree.tokens.toList = s.tree.tokens.toList ++ [u] := by simp [hu]
    obtain ⟨later, hlater⟩ := tokens_of_behind hn
    have htokens := hlater
    rw [hread, ht, List.append_assoc, List.append_cancel_left_eq] at htokens
    rw [← htokens] at hi
    obtain ⟨grown, hgrown, hmore⟩ := Tree.exists_of_insertAll_cons hi
    exact ⟨grown, later, .of_kept hu hgrown, hlater.symm, hmore⟩

-- In another text, of which some is kept behind the constructs, and in front of a tree that takes
-- the tokens in, the constructs are read alike.
theorem behind_within (h : behind n s = some s') (hp : kept <+: s'.rest)
    (hm : ∃ c ∈ kept, isBlank c = false) (hf : s.rest = front ++ s'.rest)
    (ht : s'.tree.tokens.toList = s.tree.tokens.toList ++ tokens)
    (hi : tree.insertAll tokens = .ok tree') (source : String) :
    behind n (s.within source (front ++ kept) tree) = some (s'.within source kept tree') := by
  induction n generalizing s front tree tokens with
  | zero =>
    cases h
    obtain rfl : front = [] := by simpa using hf
    obtain rfl : tokens = [] := by simpa using ht
    cases hi
    rfl
  | succ n ih =>
    obtain ⟨c, cs, next, hr, hs, hn⟩ := exists_of_behind h
    obtain ⟨more, hmore, -⟩ := split_of_behind hn
    obtain ⟨grown, later, hg, hlater, hgrown⟩ := exists_growsAlike hs hn ht hi
    -- The first construct ends in front of what is read behind it and what is kept.
    have hprefix : more ++ kept <+: next.rest := by
      rw [hmore]
      exact (List.prefix_append_right_inj more).2 hp
    have hmem : ∃ c ∈ more ++ kept, isBlank c = false := by
      obtain ⟨c, hc, hb⟩ := hm
      exact ⟨c, List.mem_append_right more hc, hb⟩
    obtain ⟨taken, hcs, hwithin⟩ :=
      step_within hs (stops_of_kept _ hprefix hmem) hg source (front ++ kept)
    have hfront : front = c :: (taken ++ more) := by
      have hall : front ++ s'.rest = c :: (taken ++ more) ++ s'.rest := by
        rw [← hf, hr, hcs, hmore, List.cons_append, List.append_assoc]
      exact List.append_cancel_right hall
    have hrest : (s.within source (front ++ kept) tree).rest = c :: (taken ++ (more ++ kept)) := by
      simp [within, hfront]
    rw [behind_of_step hrest hwithin]
    exact ih hn hmore hlater hgrown

-- A piece that ends without an escaped blank ends so together with what introduces it.
theorem TakesIn.unescaped {text before : List Char} (h : s.TakesIn t next)
    (hsplit : text = before ++ s.rest) (ho : s.offset = width before)
    (hb : ∀ b, ['\\', b] <:+ Text.slice text t.span.start t.span.stop → isBlank b = false) :
    ∀ taken, s.rest = taken ++ next.rest → ∀ b, ['\\', b] <:+ taken → isBlank b = false := by
  intro taken htaken b hsuffix
  obtain ⟨gap, piece, hpiece⟩ := h.exists_piece
  have hrest := hpiece.rest
  have hslice : Text.slice text t.span.start t.span.stop = piece := by
    rw [hpiece.start, hpiece.stop, ho, hsplit, hrest, ← Text.width_append, ← List.append_assoc,
      Text.slice_append]
  rw [hslice] at hb
  have hall : taken ++ next.rest = gap ++ piece ++ next.rest := by
    rw [← htaken, hrest, List.append_assoc]
  obtain rfl := List.append_cancel_right hall
  by_cases hlength : 2 ≤ piece.length
  · exact hb b (List.suffix_of_suffix_length_le hsuffix (List.suffix_append gap piece) hlength)
  · have hpos := List.length_pos_iff.2 hpiece.taken
    obtain ⟨d, rfl⟩ : ∃ d, piece = [d] := List.length_eq_one_iff.1 (by omega)
    obtain ⟨front, hfront⟩ := hsuffix
    have hlast : front ++ ['\\'] ++ [b] = gap ++ [d] := by simpa using hfront
    obtain rfl := (List.cons.inj (List.append_inj_right' hlast rfl)).1
    exact hpiece.starts b rfl

theorem exists_step_of_scan (hr : s.rest = c :: cs) (h : s.scan = (w, none))
    (hp : w.pending = none) : ∃ next, s.step c cs = .done next ∧ next.scan = (w, none) := by
  rw [scan_of_cons hr] at h
  cases hs : s.step c cs with
  | wait pending =>
    rw [hs] at h
    cases h
    cases hp
  | reject next error =>
    rw [hs] at h
    cases h
  | done next =>
    rw [hs] at h
    exact ⟨next, rfl, h⟩

-- Behind a token that no argument follows, and where one may stand, there is no quote.
theorem quote_of_scan (h : s.scan = (w, none)) (hp : w.pending = none)
    (ht : w.tree.tokens.toList = s.tree.tokens.toList ++ later)
    (hl : ∀ t ∈ later.head?, t.kind.isPiece = false) (hposition : s.position ≠ .command) :
    ∀ c ∈ s.rest.head?, isQuote c = false := by
  intro c hc
  by_contra hn
  have hq : isQuote c = true := by simpa using hn
  obtain ⟨cs, hr⟩ : ∃ cs, s.rest = c :: cs := List.head?_eq_some_iff.1 hc
  obtain ⟨options, hoptions⟩ : ∃ options, s.position = .argument options := by
    cases hs : s.position with
    | command => exact absurd hs hposition
    | argument options => exact ⟨options, rfl⟩
  obtain ⟨next, hstep, hnext⟩ := exists_step_of_scan hr h hp
  rw [step_of_isQuote hq, readWord, hoptions] at hstep
  simp only [readArgument, if_pos hq] at hstep
  split at hstep
  · cases hstep
  · generalize hkind : (if c = '\'' then TokenKind.singleQuoted else .doubleQuoted) = kind at hstep
    have hpiece : kind.isPiece = true := by
      rw [← hkind]
      split <;> rfl
    obtain ⟨text, hemit⟩ := emit_of_emitDecoded hstep
    obtain ⟨t, htokens, hk, -⟩ := exists_of_emit hemit
    obtain ⟨more, hmore⟩ := tokens_of_scan hnext
    rw [htokens, ht, List.append_assoc, List.append_cancel_left_eq] at hmore
    have hplain := hl t (by rw [← hmore]; rfl)
    rw [hk, hpiece] at hplain
    cases hplain

-- A text that is cut off behind the last of some tokens is read up to there and no further.
theorem scan_within (h : behind n s = some s₂) (hl : s₂.TakesIn last s₁)
    (hb : ∀ taken, s₂.rest = taken ++ s₁.rest → ∀ b, ['\\', b] <:+ taken → isBlank b = false)
    (hq : s₁.position ≠ .command → ∀ c ∈ s₁.rest.head?, isQuote c = false)
    (hf : s.rest = kept ++ s₁.rest)
    (ht : s₁.tree.tokens.toList = s.tree.tokens.toList ++ tokens)
    (hi : tree.insertAll tokens = .ok final) (source : String) :
    (s.within source kept tree).scan = (s₁.within source [] final, none) := by
  obtain ⟨⟨c, cs, hr, hs⟩, htaken⟩ := hl
  obtain ⟨front, hfront, -⟩ := split_of_behind h
  obtain ⟨earlier, hearlier⟩ := tokens_of_behind h
  have htokens : s.tree.tokens.toList ++ (earlier ++ [last]) = s.tree.tokens.toList ++ tokens := by
    rw [← ht, htaken, Array.toList_push, ← hearlier, List.append_assoc]
  obtain rfl := List.append_cancel_left htokens
  obtain ⟨tree₂, hinit, hlast⟩ := Tree.exists_of_insertAll_concat hi
  have hg : s₂.tree.GrowsAlike s₁.tree tree₂ final := .of_kept htaken hlast
  obtain ⟨taken, hcs, -⟩ := split_of_step hs
  have hstops : Stops (c :: cs) s₁ [] := stops_nil hcs (hb taken (hr.trans hcs)) hq
  have hblank : isBlank c = false := by
    by_contra hc
    have hc' : isBlank c = true := by simpa using hc
    rw [step_of_blank hc'] at hs
    cases hs
    exact absurd rfl (Tree.ne_of_push htaken)
  -- The last construct finds its end at the end of the text, the ones before it in front of it.
  obtain ⟨more, hmore, hwithin⟩ := step_within hs hstops hg source taken
  have htakenMore : taken = c :: more := by
    have hall : taken ++ s₁.rest = c :: more ++ s₁.rest := by
      rw [← hcs, hmore, List.cons_append]
    exact List.append_cancel_right hall
  have hkept : kept = front ++ taken := by
    have hall : kept ++ s₁.rest = front ++ taken ++ s₁.rest := by
      rw [← hf, hfront, hr, hcs, List.append_assoc]
    exact List.append_cancel_right hall
  have hprefix : taken <+: s₂.rest := ⟨s₁.rest, hcs.symm.trans hr.symm⟩
  have hmem : ∃ d ∈ taken, isBlank d = false := ⟨c, by simp [htakenMore], hblank⟩
  have hbehind := behind_within h hprefix hmem hfront hearlier.symm hinit source
  have hrest : (s₂.within source taken tree₂).rest = c :: more := htakenMore
  rw [List.append_nil] at hwithin
  rw [hkept, scan_of_behind hbehind, scan_of_done hrest hwithin, scan_of_rest_nil rfl]

-- What was read of a text for one of its tokens, and what is left of the text there.
theorem exists_taken {text : String} {first : List Token}
    (h : (loaded .command text).scan = (w, none))
    (ht : w.tree.tokens.toList = first ++ t :: later) :
    ∃ (s next : Scanner) (gap piece : List Char), s.TakenFrom t next gap piece ∧
      next.scan = (w, none) ∧
      next.tree.tokens.toList = first ++ [t] ∧
      Text.dropBytes t.span.start text.toList = piece ++ next.rest ∧
      Text.dropBytes t.span.stop text.toList = next.rest := by
  obtain ⟨n, s, next, hn, htakes, hbefore⟩ := exists_takesIn h ht
  obtain ⟨gap, piece, hpiece⟩ := htakes.exists_piece
  obtain ⟨front, hfront, hoffset⟩ := split_of_behind hn
  obtain ⟨⟨c, cs, hr, hstep⟩, hpush⟩ := htakes
  have hwidth : s.offset = width front := hoffset.trans (Nat.zero_add _)
  have htext : text.toList = front ++ gap ++ (piece ++ next.rest) := by
    have hloaded : text.toList = front ++ s.rest := hfront
    rw [hloaded, hpiece.rest, List.append_assoc]
  refine ⟨s, next, gap, piece, hpiece, ?_, ?_, ?_, ?_⟩
  · rw [← scan_of_done hr hstep, ← scan_of_behind hn, h]
  · rw [hpush, Array.toList_push, hbefore]
    rfl
  · rw [htext, hpiece.start, hwidth, ← Text.width_append, Text.dropBytes_width_append]
  · rw [htext, hpiece.stop, hwidth, ← List.append_assoc, ← Text.width_append, ← Text.width_append,
      Text.dropBytes_width_append]

end Scanner

end CommandShell.Script
