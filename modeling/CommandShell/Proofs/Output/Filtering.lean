import CommandShell.Proofs.Output.Sequential
import CommandShell.Proofs.Output.Written

namespace CommandShell.Output

open Assembler (Completes pushAll)

section Reading

variable {ω σ : Type} {b : Behaviour ω σ} {state : Assembler → σ} {echo : Token → List ω}

theorem Behaviour.outputs_emitAll (b : Behaviour ω σ) (input : List Token) (outputs : List ω)
    (last : Reaction ω σ) :
    b.outputs input (.emitAll outputs last) = outputs ++ b.outputs input last := by
  induction outputs with
  | nil => rfl
  | cons output rest ih => rw [Reaction.emitAll, outputs_emit, ih, List.cons_append]

-- A stage that reads with an assembler, and only echoes a token that completes no record.
def Behaviour.Echoes (b : Behaviour ω σ) (state : Assembler → σ) (echo : Token → List ω) : Prop :=
  ∀ (a a' : Assembler) (t : Token), a.push t = (a', none) →
    b.onToken (state a) t = .emitAll (echo t) (.await (state a'))

theorem Behaviour.Echoes.outputs_append (h : b.Echoes state echo) {a a' : Assembler}
    {front : List Token} (hf : a.pushAll front = (a', List.replicate front.length none))
    (rest : List Token) :
    b.outputs (front ++ rest) (.await (state a)) =
      front.flatMap echo ++ b.outputs rest (.await (state a')) := by
  induction front generalizing a with
  | nil =>
    cases hf
    rfl
  | cons t front ih =>
    rw [Assembler.pushAll_cons] at hf
    obtain ⟨states, records⟩ := Prod.mk.inj hf
    obtain ⟨first, others⟩ := List.cons.inj records
    rw [List.cons_append, outputs_await_cons, h _ _ _ (Prod.ext rfl first), outputs_emitAll,
      ih (Prod.ext states others), List.flatMap_cons, List.append_assoc]

-- Up to the token that completes a record there are only echoes.
theorem Behaviour.Echoes.outputs_completes (h : b.Echoes state echo) {tokens : List Token}
    {r : Record} (hc : Completes tokens r) (rest : List Token) :
    ∃ front t a, tokens = front ++ [t] ∧ a.push t = (.empty, some r) ∧
      b.outputs (tokens ++ rest) (.await (state .empty)) =
        front.flatMap echo ++ b.outputs rest (b.onToken (state a) t) := by
  obtain ⟨front, t, a, rfl, hf, ht⟩ := hc.exists_last
  refine ⟨front, t, a, rfl, ht, ?_⟩
  rw [List.append_assoc, h.outputs_append hf, List.singleton_append, outputs_await_cons]

end Reading

namespace FilterState

variable (left : Nat) (pattern : String) (ignoreCase invert : Bool) {tokens : List Token}
  {r : Record}

theorem echoes_limit : behaviour.Echoes (limit (left + 1)) fun t => [t] := by
  intro a a' t h
  simp only [behaviour, onToken, h]
  rfl

theorem echoes_grep : behaviour.Echoes (grep pattern ignoreCase invert) fun _ => [] := by
  intro a a' t h
  simp only [behaviour, onToken, h]

theorem outputs_limit_completes (h : Completes tokens r) (rest : List Token) :
    behaviour.outputs (tokens ++ rest) (limit (left + 1) .empty).ready =
      tokens ++ behaviour.outputs rest (limit left .empty).ready := by
  obtain ⟨front, t, a, rfl, ht, ho⟩ := (echoes_limit left).outputs_completes h rest
  refine ho.trans ?_
  simp [behaviour, onToken, ht, Behaviour.outputs_emitAll]

theorem outputs_grep_completes (h : Completes tokens r) (rest : List Token) :
    behaviour.outputs (tokens ++ rest) (.await (grep pattern ignoreCase invert .empty)) =
      (if r.contains pattern ignoreCase ≠ invert then tokensOf r.name r.value else []) ++
        behaviour.outputs rest (.await (grep pattern ignoreCase invert .empty)) := by
  obtain ⟨front, t, a, rfl, ht, ho⟩ :=
    (echoes_grep pattern ignoreCase invert).outputs_completes h rest
  refine ho.trans ?_
  simp [behaviour, onToken, ht, Behaviour.outputs_emitAll]

-- Of records in a row as many pass as there may; what comes behind them is read only if there may
-- be more.
theorem outputs_limit (records : List Written) (rest : List Token) :
    behaviour.outputs (records.flatMap Written.tokens ++ rest) (limit left .empty).ready =
      (records.take left).flatMap Written.tokens ++
        behaviour.outputs rest (limit (left - records.length) .empty).ready := by
  induction records generalizing left with
  | nil => simp
  | cons w records ih =>
    cases left with
    | zero => simp [ready]
    | succ left =>
      have first := outputs_limit_completes left (Assembler.completes_tokens w)
        (records.flatMap Written.tokens ++ rest)
      rw [List.flatMap_cons, List.append_assoc, first, ih, List.take_succ_cons, List.flatMap_cons,
        List.append_assoc, List.length_cons, Nat.add_sub_add_right]

theorem outputs_grep (records : List Written) (rest : List Token) :
    behaviour.outputs (records.flatMap Written.tokens ++ rest)
        (.await (grep pattern ignoreCase invert .empty)) =
      (records.filter fun w => w.record.contains pattern ignoreCase ≠ invert).flatMap
          (fun w => tokensOf w.record.name w.record.value) ++
        behaviour.outputs rest (.await (grep pattern ignoreCase invert .empty)) := by
  induction records with
  | nil => rfl
  | cons w records ih =>
    have first := outputs_grep_completes pattern ignoreCase invert (Assembler.completes_tokens w)
      (records.flatMap Written.tokens ++ rest)
    rw [List.flatMap_cons, List.append_assoc, first, ih, List.filter_cons]
    split
    · next h => simp [h]
    · next h => simp [h]

end FilterState

-- The text of a record contains the pattern, in lower case both if the case is ignored.
def Record.Matches (r : Record) (pattern : String) (ignoreCase : Bool) : Prop :=
  if ignoreCase then (Text.lower pattern).toList <:+: (Text.lower r.text).toList
  else pattern.toList <:+: r.text.toList

instance (r : Record) (pattern : String) (ignoreCase : Bool) :
    Decidable (r.Matches pattern ignoreCase) :=
  inferInstanceAs (Decidable (if ignoreCase then _ else _))

theorem Record.contains_eq_decide (r : Record) (pattern : String) (ignoreCase : Bool) :
    r.contains pattern ignoreCase = decide (r.Matches pattern ignoreCase) := by
  rw [Bool.eq_iff_iff, decide_eq_true_iff, contains, Matches, Text.contains, Text.contains]
  cases ignoreCase <;> exact Text.occursIn_iff

namespace Filter

variable (records : List Written)

theorem apply_limit (count : Nat) :
    (limit count).apply (records.flatMap Written.tokens) =
      (records.take count).flatMap Written.tokens := by
  have passed := FilterState.outputs_limit count records []
  rw [List.append_nil] at passed
  refine passed.trans ?_
  cases count - records.length <;> simp [FilterState.ready, FilterState.behaviour,
    FilterState.onEnd, Reaction.emitted]

-- Nothing is read behind the last record that may pass.
theorem apply_limit_append {count : Nat} (h : count ≤ records.length) (more : List Token) :
    (limit count).apply (records.flatMap Written.tokens ++ more) =
      (records.take count).flatMap Written.tokens := by
  refine (FilterState.outputs_limit count records more).trans ?_
  rw [Nat.sub_eq_zero_of_le h, FilterState.ready, Behaviour.outputs_stop, List.append_nil]

theorem apply_grep (pattern : String) (ignoreCase invert : Bool) :
    (grep pattern ignoreCase invert).apply (records.flatMap Written.tokens) =
      (records.filter fun w => decide (w.record.Matches pattern ignoreCase) ≠ invert).flatMap
        fun w => tokensOf w.record.name w.record.value := by
  have kept := FilterState.outputs_grep pattern ignoreCase invert records []
  simp only [Record.contains_eq_decide, List.append_nil] at kept
  refine kept.trans ?_
  simp [FilterState.behaviour, FilterState.onEnd, Reaction.emitted]

theorem exists_apply {f : Filter} (hf : f.isStandard = true) (records : List Written) :
    ∃ records' : List Written, f.apply (records.flatMap Written.tokens) =
      records'.flatMap Written.tokens := by
  cases f with
  | limit count => exact ⟨_, apply_limit records count⟩
  | grep pattern ignoreCase invert =>
    let passed := records.filter fun w => decide (w.record.Matches pattern ignoreCase) ≠ invert
    refine ⟨passed.map fun w => .ofValue w.record.name w.record.value, ?_⟩
    rw [apply_grep, List.flatMap_map]
    simp only [Written.tokens_ofValue]
    rfl
  | other stage => cases hf

-- Induction on the filters, each of which has records in a row for its input.
theorem exists_foldl_apply {filters : List Filter} (hf : ∀ f ∈ filters, f.isStandard = true)
    (records : List Written) :
    ∃ records' : List Written, filters.foldl (fun stream f => f.apply stream)
      (records.flatMap Written.tokens) = records'.flatMap Written.tokens := by
  induction filters generalizing records with
  | nil => exact ⟨records, rfl⟩
  | cons f filters ih =>
    obtain ⟨first, others⟩ := List.forall_mem_cons.mp hf
    obtain ⟨passed, hp⟩ := exists_apply first records
    rw [List.foldl_cons, hp]
    exact ih others passed

-- On records in a row, whatever they are, a limit passes the first of them on as they are, and
-- reads nothing behind the last one that may pass; a search passes on those that match, each as
-- the tokens of its value; and what comes out of a chain of these filters is records in a row.
theorem apply_records (records : List Written) :
    (∀ count, (limit count).apply (records.flatMap Written.tokens) =
      (records.take count).flatMap Written.tokens) ∧
    (∀ count ≤ records.length, ∀ more,
      (limit count).apply (records.flatMap Written.tokens ++ more) =
        (records.take count).flatMap Written.tokens) ∧
    (∀ pattern ignoreCase invert,
      (grep pattern ignoreCase invert).apply (records.flatMap Written.tokens) =
        (records.filter fun w => decide (w.record.Matches pattern ignoreCase) ≠ invert).flatMap
          fun w => tokensOf w.record.name w.record.value) ∧
    ∀ filters : List Filter, (∀ f ∈ filters, f.isStandard = true) →
      ∃ records' : List Written, filters.foldl (fun stream f => f.apply stream)
        (records.flatMap Written.tokens) = records'.flatMap Written.tokens :=
  ⟨apply_limit records, fun _ h more => apply_limit_append records h more, apply_grep records,
    fun _ hf => exists_foldl_apply hf records⟩

-- A record that repeats a name and has a child without one, and a value; the search finds the
-- first in its second value only, and the limit cuts off what is still open.
theorem apply_records_of_repeated :
    let host : Written := .container .object none
      [.value (some "a") .null, .value (some "a") (.string "Up"), .value none (.int 7)]
    let other : Written := .value none (.string "off")
    let filters : List Filter := [.grep "UP" true false, .limit 1]
    (limit 1).apply ([host, other].flatMap Written.tokens ++ [.array none]) = host.tokens ∧
      (grep "UP" true false).apply ([host, other].flatMap Written.tokens) =
        [.object none, .value (some "1") (.int 7), .value (some "a") (.string "Up"), .close] ∧
      (∀ f ∈ filters, f.isStandard = true) ∧
      ∃ records' : List Written, filters.foldl (fun stream f => f.apply stream)
        ([host, other].flatMap Written.tokens) = records'.flatMap Written.tokens := by
  intro host other filters
  obtain ⟨-, limits, greps, chains⟩ := apply_records [host, other]
  have standard : ∀ f ∈ filters, f.isStandard = true := by decide
  have hit : host.record.Matches "UP" true := by decide +kernel
  have miss : ¬other.record.Matches "UP" true := by decide +kernel
  have limited := limits 1 (by decide) [.array none]
  have kept := greps "UP" true false
  rw [List.filter_cons_of_pos (by simpa using hit), List.filter_cons_of_neg (by simpa using miss)]
    at kept
  refine ⟨limited.trans (List.append_nil _), kept.trans ?_, standard, chains filters standard⟩
  rfl

end Filter

end CommandShell.Output
