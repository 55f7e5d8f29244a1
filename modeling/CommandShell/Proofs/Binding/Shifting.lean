import CommandShell.Proofs.Binding.Words
import CommandShell.Proofs.Grammar.Motion

namespace CommandShell

namespace Script

variable (d : Shift) (t u : Token)

@[simp] theorem Token.touches_shift : (t.shift d).touches (u.shift d) = t.touches u := by
  simp [touches, shift, Span.shift]

theorem Token.Counts.shift {t u : Token} (h : t.Counts u) : (t.shift d).Counts (u.shift d) := by
  intro ht hu
  rw [touches_shift]
  have hg := h ht hu
  have ht' : t.kind.isStructural = false := ht
  have hu' : u.kind.isStructural = false := hu
  simp only [Token.shift, ht', hu', hg, Bool.false_eq_true, if_false]
  split <;> omega

theorem Argued.shift {tokens : List Token} (h : Argued tokens) :
    Argued (tokens.map (·.shift d)) := by
  refine ⟨?_, ?_, ?_⟩
  · simpa using h.pieces
  · intro u hu
    obtain ⟨t, ht, rfl⟩ := List.mem_map.1 hu
    have hp := h.positive t ht
    simp only [Token.shift]
    split <;> omega
  · rw [List.isChain_map]
    exact h.counted.imp fun _ _ hc => hc.shift d

end Script

namespace Binding

open Script (Argued Shift Token)
open Binder (belongs)

-- The same error at a token that is further on.
def BindError.shift (d : Shift) (e : BindError) : BindError :=
  { e with token := e.token.map (· + d.tokens) }

def Argument.shift (d : Shift) : Argument → Argument
  | option token => .option (token.shift d)
  | word first more => .word (first.shift d) (more.map (·.shift d))

@[simp] theorem Argument.shift_option (d : Shift) (t : Token) :
    (option t).shift d = .option (t.shift d) := rfl

@[simp] theorem Argument.shift_word (d : Shift) (first : Token) (more : List Token) :
    (word first more).shift d = .word (first.shift d) (more.map (·.shift d)) := rfl

variable {d : Shift} {table : Table} {command : String} {interpolate : Interpolation}

theorem withPiece_shift (t : Token) (arguments : List Argument) :
    Argument.withPiece (t.shift d) (arguments.map (·.shift d)) =
      (Argument.withPiece t arguments).map (·.shift d) := by
  cases arguments with
  | nil => rfl
  | cons argument rest =>
    cases argument with
    | option u => rfl
    | word first more =>
      simp only [List.map_cons, Argument.shift_word, Argument.withPiece, Token.touches_shift]
      split <;> rfl

theorem ofTokens_shift (tokens : List Token) :
    Argument.ofTokens (tokens.map (·.shift d)) =
      (Argument.ofTokens tokens).map (·.shift d) := by
  induction tokens with
  | nil => rfl
  | cons t rest ih =>
    rw [List.map_cons, Argument.ofTokens, Argument.ofTokens, ih, withPiece_shift, Token.kind_shift]
    split <;> rfl

theorem expand_shift (index : Nat) (t : Token) :
    expand interpolate (index + d.tokens) (t.shift d) =
      (expand interpolate index t).mapError (·.shift d) := by
  by_cases hk : t.kind = .singleQuoted
  · simp [expand, hk, Except.mapError]
  · have hk' : (t.shift d).kind ≠ .singleQuoted := hk
    rw [expand, expand, if_neg hk, if_neg hk', Token.text_shift]
    cases interpolate t.text <;> rfl

theorem assemble_shift (index : Nat) (tokens : List Token) :
    assemble interpolate (index + d.tokens) (tokens.map (·.shift d)) =
      (assemble interpolate index tokens).mapError (·.shift d) := by
  induction tokens generalizing index with
  | nil => rfl
  | cons t rest ih =>
    have hi := ih (index + 1)
    rw [Nat.add_right_comm] at hi
    rw [List.map_cons, assemble, assemble, expand_shift, hi]
    cases expand interpolate index t with
    | error e => rfl
    | ok text => cases assemble interpolate (index + 1) rest <;> rfl

namespace Filling

variable (f : Filling) (a : Active) (name value : String) (index : Nat)

theorem store_shift :
    f.store a name value (index + d.tokens) =
      (f.store a name value index).mapError (·.shift d) := by
  simp only [store]
  split
  · rfl
  · cases (f.slot a).assign a.field.type.scalar value <;> rfl

theorem take_shift (interpolate : Interpolation) (d : Shift) (pieces : List Token) :
    f.take interpolate a name (index + d.tokens) (pieces.map (·.shift d)) =
      (f.take interpolate a name index pieces).mapError (·.shift d) := by
  rw [take, take, assemble_shift]
  cases assemble interpolate index pieces with
  | error e => rfl
  | ok text => exact f.store_shift a name text index

theorem raise_shift (d : Shift) :
    f.raise a name (index + d.tokens) = (f.raise a name index).mapError (·.shift d) := by
  simp only [raise]
  split <;> rfl

end Filling

-- What is bound further on is the same, and so is what is wrong with it.
theorem walk_shift (f : Filling) (options : Bool) (words index : Nat) (arguments : List Argument) :
    f.walk table command interpolate options words (index + d.tokens)
        (arguments.map (·.shift d)) =
      ((f.walk table command interpolate options words index arguments).1,
        (f.walk table command interpolate options words index arguments).2.map (·.shift d)) := by
  fun_induction Filling.walk table command interpolate f options words index arguments with
  | case1 => rfl
  | case2 f options words index t rest ho =>
    simp [Filling.walk, BindError.shift, ho]
  | case3 f options words index t rest ho hf =>
    simp [Filling.walk, BindError.shift, ho, hf]
  | case4 f options words index t rest ho a hf ha e he =>
    have hr := f.raise_shift a t.text index d
    rw [he] at hr
    simp [Filling.walk, ho, hf, ha, hr, Except.mapError]
  | case5 f options words index t rest ho a hf ha next he ih =>
    have hr := f.raise_shift a t.text index d
    rw [he] at hr
    rw [Nat.add_right_comm] at ih
    simp only [List.map_cons, Argument.shift_option, Filling.walk, Token.text_shift, hf, ha, hr,
      Except.mapError, if_neg ho, if_true]
    exact ih
  | case6 f options words index t ho a hf ha =>
    simp [Filling.walk, BindError.shift, ho, hf, ha]
  | case7 f options words index t ho a hf ha u rest =>
    simp [Filling.walk, BindError.shift, ho, hf, ha, Nat.add_right_comm]
  | case8 f options words index t ho a hf ha first more rest e he =>
    have ht := f.take_shift a a.set.display (index + 1) interpolate d (first :: more)
    rw [he, Nat.add_right_comm] at ht
    simp only [List.map_cons] at ht
    simp [Filling.walk, ho, hf, ha, ht, Except.mapError]
  | case9 f options words index t ho a hf ha first more rest next he ih =>
    have ht := f.take_shift a a.set.display (index + 1) interpolate d (first :: more)
    rw [he, Nat.add_right_comm] at ht
    rw [Nat.add_right_comm, Nat.add_right_comm index] at ih
    simp only [List.map_cons] at ht
    simp only [List.map_cons, Argument.shift_option, Argument.shift_word, Filling.walk,
      Token.text_shift, List.length_map, hf, ht, Except.mapError, if_neg ho, if_neg ha]
    exact ih
  | case10 f options words index first more rest hf =>
    simp [Filling.walk, BindError.shift, hf]
  | case11 f options words index first more rest a hf e he =>
    have ht := f.take_shift a (a.called (words + 1)) index interpolate d (first :: more)
    rw [he] at ht
    simp only [List.map_cons] at ht
    simp [Filling.walk, hf, ht, Except.mapError]
  | case12 f options words index first more rest a hf next he ih =>
    have ht := f.take_shift a (a.called (words + 1)) index interpolate d (first :: more)
    rw [he] at ht
    rw [Nat.add_right_comm] at ih
    simp only [List.map_cons] at ht
    simp only [List.map_cons, Argument.shift_word, Filling.walk, List.length_map, hf, ht,
      Except.mapError]
    exact ih

theorem token_of_omission? {f : Filling} {e : BindError}
    (h : f.omission? table command = some e) : e.token = none := by
  simp only [Filling.omission?] at h
  split at h
  · cases h
    rfl
  · obtain ⟨p, -, rfl⟩ := Option.map_eq_some_iff.1 h
    rfl

-- Arguments that stand further on are bound to the same values.
theorem bindOnto_shift (slots : List Slot) {args args' : Args} (h : Argued args.tokens)
    (ht : args'.tokens = args.tokens.map (·.shift d))
    (hf : args.tokens ≠ [] → args'.first = args.first + d.tokens) :
    bindOnto slots table command args' interpolate =
      ((bindOnto slots table command args interpolate).1,
        (bindOnto slots table command args interpolate).2.map (·.shift d)) := by
  have hargued : Argued args'.tokens := ht ▸ h.shift d
  have hwalk (f : Filling) : f.walk table command interpolate true 0 args'.first
        (Argument.ofTokens args'.tokens) =
      ((f.walk table command interpolate true 0 args.first (Argument.ofTokens args.tokens)).1,
        (f.walk table command interpolate true 0 args.first
          (Argument.ofTokens args.tokens)).2.map (·.shift d)) := by
    rw [ht, ofTokens_shift]
    by_cases hn : args.tokens = []
    · rw [hn]
      rfl
    · rw [hf hn]
      exact walk_shift f true 0 args.first (Argument.ofTokens args.tokens)
  simp only [bindOnto_eq_of_argued table command interpolate _ _ hargued,
    bindOnto_eq_of_argued table command interpolate _ _ h, bindInOrder, hwalk]
  generalize Filling.walk _ _ _ _ _ _ _ (Argument.ofTokens args.tokens) = walked
  obtain ⟨f, e | e⟩ := walked
  · simp only [Option.map_none, Filling.close]
    cases ho : f.omission? table command with
    | none => rfl
    | some e =>
      obtain ⟨cause, token⟩ := e
      obtain rfl : token = none := token_of_omission? ho
      rfl
  · rfl

theorem bindFrom_shift (slots : List Slot) {args args' : Args} (h : Argued args.tokens)
    (ht : args'.tokens = args.tokens.map (·.shift d))
    (hf : args.tokens ≠ [] → args'.first = args.first + d.tokens) :
    bindFrom slots table command args' interpolate =
      (bindFrom slots table command args interpolate).mapError (·.shift d) := by
  rw [bindFrom, bindOnto_shift slots h ht hf, bindFrom]
  generalize bindOnto slots table command args interpolate = bound
  obtain ⟨slots, e | e⟩ := bound <;> rfl

section Place

variable {e : BindError} {i : Nat}

theorem token_of_assemble {index : Nat} {tokens : List Token}
    (h : assemble interpolate index tokens = .error e) (hi : e.token = some i) :
    index ≤ i ∧ i < index + tokens.length := by
  induction tokens generalizing index with
  | nil => cases h
  | cons t rest ih =>
    rw [assemble] at h
    cases hx : expand interpolate index t with
    | error e' =>
      rw [hx] at h
      cases h
      have hindex : e.token = some index := by
        simp only [expand] at hx
        split at hx
        · cases hx
        · cases ht : interpolate t.text with
          | ok text => simp [ht, Except.mapError] at hx
          | error m =>
            simp only [ht, Except.mapError, Except.error.injEq] at hx
            rw [← hx]
      rw [hi, Option.some.injEq] at hindex
      simp only [List.length_cons]
      omega
    | ok text =>
      rw [hx] at h
      cases hr : assemble interpolate (index + 1) rest with
      | error e' =>
        rw [hr] at h
        cases h
        have hrest := ih hr
        simp only [List.length_cons]
        omega
      | ok more =>
        rw [hr] at h
        cases h

theorem token_of_store {f : Filling} {a : Active} {name value : String} {index : Nat}
    (h : f.store a name value index = .error e) : e.token = some index := by
  simp only [Filling.store] at h
  split at h
  · cases h
    rfl
  · split at h
    · cases h
      rfl
    · cases h

theorem token_of_take {f : Filling} {a : Active} {name : String} {index : Nat}
    {pieces : List Token} (h : f.take interpolate a name index pieces = .error e)
    (hp : pieces ≠ []) (hi : e.token = some i) : index ≤ i ∧ i < index + pieces.length := by
  rw [Filling.take] at h
  cases hx : assemble interpolate index pieces with
  | error e' =>
    rw [hx] at h
    cases h
    exact token_of_assemble hx hi
  | ok value =>
    rw [hx] at h
    have hs : f.store a name value index = .error e := h
    have hpos := List.length_pos_iff.2 hp
    rw [token_of_store hs, Option.some.injEq] at hi
    omega

theorem token_of_raise {f : Filling} {a : Active} {option : String} {index : Nat}
    (h : f.raise a option index = .error e) : e.token = some index := by
  simp only [Filling.raise] at h
  split at h
  · cases h
    rfl
  · cases h

-- An error is shown at one of the arguments.
theorem token_of_run {b : Binder} {index : Nat} {tokens : List Token} {f : Filling}
    (h : Binder.run table command interpolate b index tokens = (f, some e))
    (hi : e.token = some i) : index ≤ i ∧ i < index + tokens.length := by
  have hsplit (group : Nat) (tokens : List Token) :
      (tokens.takeWhile (belongs group)).length + (tokens.dropWhile (belongs group)).length =
        tokens.length := by
    rw [← List.length_append, List.takeWhile_append_dropWhile]
  fun_induction Binder.run table command interpolate b index tokens with
  | case1 => cases h
  | case2 | case3 | case6 =>
    cases h
    cases hi
    simp
  | case7 =>
    cases h
    cases hi
    simp
  | case4 b index t rest hk ho a hf ha e' he =>
    cases h
    rw [token_of_raise he, Option.some.injEq] at hi
    simp only [List.length_cons]
    omega
  | case5 b index t rest hk ho a hf ha next he ih =>
    have hr := ih h
    simp only [List.length_cons]
    omega
  | case8 b index t hk ho a hf ha head more hn pieces e' he =>
    cases h
    have ht := token_of_take he (List.cons_ne_nil _ _) hi
    have hm := hsplit head.group more
    simp only [pieces, List.length_cons] at ht ⊢
    omega
  | case9 b index t hk ho a hf ha head more hn pieces next he ih =>
    have hr := ih h
    have hm := hsplit head.group more
    simp only [pieces, List.length_cons] at hr ⊢
    omega
  | case10 | case11 =>
    cases h
    cases hi
    simp
  | case12 b index t rest hk position a hf hn pieces e' he =>
    cases h
    have ht := token_of_take he (List.cons_ne_nil _ _) hi
    have hm := hsplit t.group rest
    simp only [pieces, List.length_cons] at ht ⊢
    omega
  | case13 b index t rest hk position a hf hn pieces next he ih =>
    have hr := ih h
    have hm := hsplit t.group rest
    simp only [pieces, List.length_cons] at hr ⊢
    omega

theorem token_of_bindFrom {slots : List Slot} {args : Args}
    (h : bindFrom slots table command args interpolate = .error e) (hi : e.token = some i) :
    args.first ≤ i ∧ i < args.first + args.tokens.length := by
  simp only [bindFrom, bindOnto] at h
  generalize hw : Binder.run table command interpolate _ args.first args.tokens = walked at h
  obtain ⟨f, e' | e'⟩ := walked
  · simp only [Filling.close] at h
    cases ho : f.omission? table command with
    | none => simp [ho] at h
    | some e' =>
      simp only [ho, Except.error.injEq] at h
      subst h
      rw [token_of_omission? ho] at hi
      cases hi
  · simp only [Filling.close, Except.error.injEq] at h
    subst h
    exact token_of_run hw hi

end Place

end Binding

end CommandShell
