import CommandShell.Proofs.Scanner.LogicalLine

namespace CommandShell.Script

open Text (width)

namespace Scanner

variable {s s' next : Scanner} {c : Char} {cs : List Char} {n : Nat}

-- The scanner behind so many constructs, if it comes so far.
def behind : Nat → Scanner → Option Scanner
  | 0, s => some s
  | n + 1, s =>
    match s.rest with
    | [] => none
    | c :: cs =>
      match s.step c cs with
      | .done next => behind n next
      | _ => none

theorem behind_of_step (hr : s.rest = c :: cs) (hs : s.step c cs = .done next) :
    behind (n + 1) s = behind n next := by
  simp only [behind, hr, hs]

theorem exists_of_behind (h : behind (n + 1) s = some s') :
    ∃ c cs next, s.rest = c :: cs ∧ s.step c cs = .done next ∧ behind n next = some s' := by
  rw [behind] at h
  split at h
  · cases h
  · next c cs hr =>
    split at h
    · next next hs => exact ⟨c, cs, next, hr, hs, h⟩
    · cases h

theorem scan_of_behind (h : behind n s = some s') : s.scan = s'.scan := by
  induction n generalizing s with
  | zero =>
    cases h
    rfl
  | succ n ih =>
    obtain ⟨c, cs, next, hr, hs, hn⟩ := exists_of_behind h
    rw [scan_of_cons hr, hs]
    exact ih hn

-- A scan that fails does so at a construct that it comes to.
theorem exists_reject_of_scan {e : LexError} (h : s.scan = (s', some e)) :
    ∃ n u c cs, behind n s = some u ∧ u.rest = c :: cs ∧ u.step c cs = .reject s' e := by
  fun_induction scan s with
  | case1 => cases h
  | case2 s c cs hr next hs _ ih =>
    obtain ⟨n, u, d, ds, hn, hu, hreject⟩ := ih h
    exact ⟨n + 1, u, d, ds, (behind_of_step hr hs).trans hn, hu, hreject⟩
  | case3 => cases h
  | case4 s c cs hr next e hs =>
    cases h
    exact ⟨0, s, c, cs, rfl, hr, hs⟩

theorem split_of_behind (h : behind n s = some s') :
    ∃ front, s.rest = front ++ s'.rest ∧ s'.offset = s.offset + width front := by
  induction n generalizing s with
  | zero =>
    cases h
    exact ⟨[], rfl, rfl⟩
  | succ n ih =>
    obtain ⟨c, cs, next, hr, hs, hn⟩ := exists_of_behind h
    obtain ⟨front, hf, ho⟩ := split_of_step hs
    obtain ⟨more, hm, ho'⟩ := ih hn
    refine ⟨front ++ more, by rw [hr, hf, hm, List.append_assoc], ?_⟩
    rw [ho', ho, Text.width_append, Nat.add_assoc]

theorem step_of_blank (hc : isBlank c = true) (s : Scanner) (cs : List Char) :
    s.step c cs = .done (s.advance [c] cs) := by
  rw [step, if_pos hc]

-- A construct is passed over or leaves a token.
theorem tree_of_step (h : s.step c cs = .done next) :
    next.tree = s.tree ∨ ∃ t, next.tree.tokens = s.tree.tokens.push t := by
  cases reads_of_step h with
  | skip => exact .inl rfl
  | token kind gap piece text rest tree split taken introduced spelled inserted =>
    obtain ⟨id, hid⟩ := Tree.tokens_of_insert inserted
    exact .inr ⟨_, hid⟩

-- Tokens that were read are kept, in front of those that are read later.
theorem tokens_of_step (h : s.step c cs = .done next) :
    s.tree.tokens.toList <+: next.tree.tokens.toList := by
  rcases tree_of_step h with htree | ⟨t, ht⟩
  · exact htree ▸ List.prefix_rfl
  · simp [ht]

theorem tokens_of_behind (h : behind n s = some s') :
    s.tree.tokens.toList <+: s'.tree.tokens.toList := by
  induction n generalizing s with
  | zero =>
    cases h
    exact List.prefix_rfl
  | succ n ih =>
    obtain ⟨c, cs, next, hr, hs, hn⟩ := exists_of_behind h
    exact (tokens_of_step hs).trans (ih hn)

theorem tokens_of_scan (h : s.scan = (s', none)) :
    s.tree.tokens.toList <+: s'.tree.tokens.toList := by
  fun_induction scan s with
  | case1 =>
    cases h
    exact List.prefix_rfl
  | case2 s c cs _ next hs _ ih => exact (tokens_of_step hs).trans (ih h)
  | case3 =>
    cases h
    exact List.prefix_rfl
  | case4 => cases h

theorem pending_of_behind (h : behind n s = some s') : s'.pending = s.pending := by
  induction n generalizing s with
  | zero =>
    cases h
    rfl
  | succ n ih =>
    obtain ⟨c, cs, next, hr, hstep, hn⟩ := exists_of_behind h
    have hnext : next.pending = s.pending := by cases reads_of_step hstep <;> rfl
    exact (ih hn).trans hnext

-- No argument piece ends further on than what was read.
theorem pieceEnd_le_of_behind (hs : ∀ stop ∈ s.pieceEnd, stop ≤ s.offset)
    (h : behind n s = some s') : ∀ stop ∈ s'.pieceEnd, stop ≤ s'.offset := by
  induction n generalizing s with
  | zero =>
    cases h
    exact hs
  | succ n ih =>
    obtain ⟨c, cs, next, hr, hstep, hn⟩ := exists_of_behind h
    refine ih ?_ hn
    cases reads_of_step hstep with
    | skip front rest split passed =>
      intro stop hstop
      have hle := hs stop hstop
      simp only [advance]
      omega
    | token kind gap piece text rest tree split taken introduced spelled inserted =>
      intro stop hstop
      simp only [advance, marked, Option.mem_def, Option.ite_none_right_eq_some,
        Option.some.injEq] at hstop ⊢
      omega

end Scanner

end CommandShell.Script
