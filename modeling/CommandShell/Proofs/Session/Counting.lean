import CommandShell.Handler.Library
import CommandShell.Session.Execution
import Mathlib.Tactic.Ring

namespace CommandShell.Session

open Output (Pipeline)

-- The numbers from `first` on in steps, none of them beyond `last`: at each place stands the number
-- that belongs there, if it is not beyond, and nothing else.
def IsProgression (first last step : Int) (terms : List Int) : Prop :=
  ∀ (k : Nat) (n : Int), terms[k]? = some n ↔
    n = first + k * step ∧ (0 < step → n ≤ last) ∧ (step < 0 → last ≤ n)

section Terms

variable {first last step n : Int} {terms : List Int}

theorem isWithin_iff (hs : step ≠ 0) :
    isWithin last step n = true ↔ (0 < step → n ≤ last) ∧ (step < 0 → last ≤ n) := by
  simp only [isWithin, Bool.or_eq_true, Bool.and_eq_true, decide_eq_true_eq]
  omega

theorem isWithin_of_add (h : isWithin last step (n + step) = true) :
    isWithin last step n = true := by
  simp only [isWithin, Bool.or_eq_true, Bool.and_eq_true, decide_eq_true_eq] at h ⊢
  omega

theorem add_succ_mul (n step : Int) (k : Nat) :
    n + (k + 1 : Nat) * step = n + step + k * step := by
  push_cast
  ring

-- What lies beyond stays there.
theorem not_isWithin_add_mul (h : ¬isWithin last step n = true) (k : Nat) :
    ¬isWithin last step (n + k * step) = true := by
  induction k generalizing n with
  | zero => simpa using h
  | succ k ih =>
    rw [add_succ_mul]
    exact ih (mt isWithin_of_add h)

theorem isProgression_nil (hs : step ≠ 0) (h : ¬isWithin last step first = true) :
    IsProgression first last step [] := by
  intro k n
  constructor
  · nofun
  · rintro ⟨rfl, hn⟩
    exact absurd ((isWithin_iff hs).mpr hn) (not_isWithin_add_mul h k)

theorem IsProgression.cons (hs : step ≠ 0) (h : isWithin last step first = true)
    (ht : IsProgression (first + step) last step terms) :
    IsProgression first last step (first :: terms) := by
  intro k n
  cases k with
  | zero =>
    have hw := (isWithin_iff hs).mp h
    rw [List.getElem?_cons_zero, Option.some.injEq, Nat.cast_zero, zero_mul, add_zero]
    constructor
    · rintro rfl
      exact ⟨rfl, hw⟩
    · rintro ⟨rfl, -⟩
      rfl
  | succ k => rw [List.getElem?_cons_succ, ht k n, add_succ_mul]

theorem IsProgression.unique {terms' : List Int} (h : IsProgression first last step terms)
    (h' : IsProgression first last step terms') : terms = terms' :=
  List.ext_getElem? fun k => Option.ext fun n => (h k n).trans (h' k n).symm

-- The numbers from one on, however many bits they have.
def progression (last step n : Int) : List Int :=
  if isWithin last step n then n :: progression last step (n + step) else []
termination_by distance last step n
decreasing_by exact distance_add_lt ‹_›

theorem progression_of_not_isWithin (h : ¬isWithin last step n = true) :
    progression last step n = [] := by
  rw [progression, if_neg h]

theorem isProgression_progression (last : Int) (hs : step ≠ 0) (first : Int) :
    IsProgression first last step (progression last step first) := by
  fun_induction progression last step first with
  | case1 n h ih => exact ih.cons hs h
  | case2 n h => exact isProgression_nil hs h

-- A number of 64 bits.
def IsInt64 (n : Int) : Prop :=
  Binding.minInteger true .bits64 ≤ n ∧ n ≤ Binding.maxInteger true .bits64
deriving Decidable

theorem isInt64_toInt (n : Int64) : IsInt64 n.toInt := by
  have hmin := n.le_toInt
  have hmax := n.toInt_lt
  simp only [IsInt64, Binding.minInteger, Binding.maxInteger, Binding.Width.bits]
  norm_num
  omega

theorem IsInt64.next? {next : Int} (h : next? step n = some next) : IsInt64 next := by
  rw [eq_add_of_next? h]
  rw [Session.next?, Option.ite_none_right_eq_some] at h
  exact h.1

-- A number that has too many bits lies beyond one that has not.
theorem not_isWithin_add_of_next? (hlast : IsInt64 last) (hn : IsInt64 n)
    (h : next? step n = none) : ¬isWithin last step (n + step) = true := by
  have hout : ¬IsInt64 (n + step) := by
    rw [next?, ite_eq_right_iff] at h
    exact fun hin => Option.some_ne_none _ (h hin)
  simp only [IsInt64, isWithin, Bool.or_eq_true, Bool.and_eq_true, decide_eq_true_eq] at *
  omega

end Terms

-- Write numbers one after the other.
def writeNumbers (numbers : List Int) (p : Pipeline) : Pipeline :=
  numbers.foldl (fun p n => p.write (.value none (.int n))) p

-- The numbers are written up to the last one, or as many of them as are read.
theorem exists_writeTerms {last : Int} (hlast : IsInt64 last) (step : Int) {n : Int}
    (hn : IsInt64 n) (p : Pipeline) :
    ∃ written, written <+: progression last step n ∧
      writeTerms last step n p = writeNumbers written p ∧
      (written = progression last step n ∨ (writeNumbers written p).isClosed = true) := by
  fun_induction writeTerms last step n p with
  | case1 n p hw hc => exact ⟨[], List.nil_prefix, rfl, .inr hc⟩
  | case2 n p hw hc q next hnext ih =>
    obtain ⟨written, hp, he, hd⟩ := ih (.next? hnext)
    obtain rfl := eq_add_of_next? hnext
    rw [progression, if_pos hw]
    exact ⟨n :: written, List.cons_prefix_cons.mpr ⟨rfl, hp⟩, he,
      hd.imp_left fun h => by rw [h]⟩
  | case3 n p hw hc q hnext =>
    have hend := progression_of_not_isWithin (not_isWithin_add_of_next? hlast hn hnext)
    rw [progression, if_pos hw, hend]
    exact ⟨[n], List.prefix_rfl, rfl, .inl rfl⟩
  | case4 n p hw =>
    rw [progression_of_not_isWithin hw]
    exact ⟨[], List.prefix_rfl, rfl, .inl rfl⟩

namespace Activity

-- From where to where two operands say to count; a single one says how far from 1 on.
def ends (operand : Int64) : Option Int64 → Int × Int
  | some last => (operand.toInt, last.toInt)
  | none => (1, operand.toInt)

def stepsOf (ends : Int × Int) : Option Int64 → Int
  | some step => step.toInt
  | none => if ends.1 ≤ ends.2 then 1 else -1

theorem isInt64_ends (operand : Int64) (last : Option Int64) :
    IsInt64 (ends operand last).1 ∧ IsInt64 (ends operand last).2 := by
  cases last with
  | none => exact ⟨(by decide : IsInt64 1), isInt64_toInt operand⟩
  | some last => exact ⟨isInt64_toInt operand, isInt64_toInt last⟩

-- What becomes of a request that is to write numbers: the output is opened unless there are none,
-- and they are written into it up to the last one, or until it is closed.  An output that cannot be
-- opened is a failure, and nothing is written.
inductive Counted (a : Activity) (terms : List Int) : Activity × Option Failure → Prop where
  | nothing (empty : terms = []) : Counted a terms (a, none)
  | unopened {r : Request} {e : Failure} (nonempty : terms ≠ [])
      (opening : a.request.openOutput a.session.world = (a.session.world, r, some e))
      (unwritten : r.output = none) : Counted a terms (⟨a.session, r⟩, some e)
  | written {world : World} {r : Request} {d : World.Destination} {p : Pipeline}
      {written : List Int} (nonempty : terms ≠ [])
      (opening : a.request.openOutput a.session.world = (world, r, none))
      (output : r.output = some (d, p)) (begun : written <+: terms)
      (ended : written = terms ∨ (writeNumbers written p).isClosed = true) :
      Counted a terms
        (⟨{ a.session with world }, { r with output := some (d, writeNumbers written p) }⟩, none)

theorem exists_output_of_openOutput {r r' : Request} {w w' : World}
    (h : r.openOutput w = (w', r', none)) : ∃ d p, r'.output = some (d, p) := by
  unfold Request.openOutput at h
  split at h
  · next ho =>
    cases h
    exact ⟨_, _, ho⟩
  · cases h
  · cases h
  · split at h
    · cases h
    · cases h
      exact ⟨_, _, rfl⟩

theorem eq_of_connect_error {t : Handler.Target} {w w' : World} {path : String} {e : Failure}
    (h : t.connect w path = (w', .error e)) : w' = w := by
  unfold Handler.Target.connect at h
  split at h
  · cases h
  · cases h
  · dsimp only at h
    split at h
    · cases h
      rfl
    · cases h
  · exact (congrArg Prod.fst h).symm
  · split at h
    · cases h
      rfl
    · cases h

theorem eq_of_openOutput_error {r r' : Request} {w w' : World} {e : Failure}
    (h : r.openOutput w = (w', r', some e)) : w' = w ∧ r'.output = none := by
  unfold Request.openOutput at h
  split at h
  · cases h
  · next ho _ =>
    cases h
    exact ⟨rfl, ho⟩
  · next ho _ _ =>
    cases h
    exact ⟨rfl, ho⟩
  · next ho _ _ =>
    split at h
    · next hc =>
      cases h
      exact ⟨eq_of_connect_error hc, ho⟩
    · cases h

variable {a : Activity} {terms : List Int}

theorem counted_write {f : Pipeline → Pipeline} (nonempty : terms ≠ [])
    (h : ∀ p, ∃ written, written <+: terms ∧ f p = writeNumbers written p ∧
      (written = terms ∨ (writeNumbers written p).isClosed = true)) :
    Counted a terms (a.write f) := by
  rw [write, Request.write]
  rcases opening : a.request.openOutput a.session.world with ⟨world, r, failure⟩
  cases failure with
  | some e =>
    obtain ⟨rfl, unwritten⟩ := eq_of_openOutput_error opening
    exact .unopened nonempty opening unwritten
  | none =>
    obtain ⟨d, p, output⟩ := exists_output_of_openOutput opening
    obtain ⟨written, begun, hf, ended⟩ := h p
    have counted := Counted.written nonempty opening output begun ended
    rw [← hf] at counted
    dsimp only
    rw [output]
    exact counted

theorem perform_seq_of_options {operand : Int64} {last step : Option Int64}
    (block : Option BlockRun)
    (options : a.request.options = [.one (.integer operand.toInt),
      .optional (last.map (.integer ·.toInt)), .optional (step.map (.integer ·.toInt))])
    (running : a.session.cancellation.isCancelled a.request.id = false) :
    let between := ends operand last
    let steps := stepsOf between step
    a.perform .seq block = if steps = 0 then (a, some (.failed "step must not be zero"))
      else if !isWithin between.2 steps between.1 then (a, none)
      else a.write (writeTerms between.2 steps between.1) := by
  intro between steps
  have sight : (a.view block.isSome).cancelled = false := running
  have first : (a.view block.isSome).option 0 = .one (.integer operand.toInt) := by
    rw [Handler.View.option, view, options]
    rfl
  have second : (a.view block.isSome).option 1 = .optional (last.map (.integer ·.toInt)) := by
    rw [Handler.View.option, view, options]
    rfl
  have third : (a.view block.isSome).option 2 = .optional (step.map (.integer ·.toInt)) := by
    rw [Handler.View.option, view, options]
    rfl
  rw [perform, Handler.Command.seq, follow, first, second, third, sight]
  have body : follow block (if steps = 0 then .fail "step must not be zero"
      else if !isWithin between.2 steps between.1 then .ends none
      else .output (writeTerms between.2 steps between.1) .ends) a =
      if steps = 0 then (a, some (.failed "step must not be zero"))
      else if !isWithin between.2 steps between.1 then (a, none)
      else a.write (writeTerms between.2 steps between.1) := by
    split
    · rfl
    · split <;> rfl
  cases last <;> cases step <;> exact body

-- All numbers between the bounds are written in their order, also where the next one would have too
-- many bits.  Steps of zero are a failure, and so is an output that cannot be opened; in no other
-- case is there one, and in both of them nothing is written.
theorem seq_counts (a : Activity) (block : Option BlockRun) (operand : Int64)
    (last step : Option Int64)
    (options : a.request.options = [.one (.integer operand.toInt),
      .optional (last.map (.integer ·.toInt)), .optional (step.map (.integer ·.toInt))])
    (running : a.session.cancellation.isCancelled a.request.id = false) :
    let between := ends operand last
    let steps := stepsOf between step
    (steps = 0 → a.perform .seq block = (a, some (.failed "step must not be zero"))) ∧
      (steps ≠ 0 → ∃ terms, IsProgression between.1 between.2 steps terms ∧
        Counted a terms (a.perform .seq block)) := by
  intro between steps
  have he : a.perform .seq block = if steps = 0 then (a, some (.failed "step must not be zero"))
      else if !isWithin between.2 steps between.1 then (a, none)
      else a.write (writeTerms between.2 steps between.1) :=
    perform_seq_of_options block options running
  refine ⟨fun hs => by rw [he, if_pos hs], fun hs => ?_⟩
  refine ⟨_, isProgression_progression between.2 hs between.1, ?_⟩
  obtain ⟨hfirst, hlast⟩ := isInt64_ends operand last
  rw [he, if_neg hs]
  cases hw : isWithin between.2 steps between.1 with
  | false => exact .nothing (progression_of_not_isWithin (by simp [hw]))
  | true =>
    have nonempty : progression between.2 steps between.1 ≠ [] := by
      rw [progression, if_pos hw]
      exact List.cons_ne_nil _ _
    exact counted_write nonempty (exists_writeTerms hlast steps hfirst)

-- Up to the greatest number that there is, into a pipeline that takes in only one of the two.
theorem seq_counts_to_greatest :
    let greatest : Int := 9223372036854775807
    let p : Pipeline := .start [.limit 1] .text .unlimited
    let a : Activity :=
      { session := { library := .standard }
        request :=
          { id := 1, script := default, command := .mk (.opened 0) [] []
            options := [.one (.integer (greatest - 1)), .optional (some (.integer greatest)),
              .optional none]
            context := {}, chain := {}, output := some (.captured, p) } }
    a.session.cancellation.isCancelled a.request.id = false ∧
      IsProgression (greatest - 1) greatest 1 [greatest - 1, greatest] ∧
      Counted a [greatest - 1, greatest] (a.perform .seq none) := by
  intro greatest p a
  have running : a.session.cancellation.isCancelled a.request.id = false := rfl
  have both : IsProgression (greatest - 1) greatest 1 [greatest - 1, greatest] :=
    .cons (by decide) (by decide) (.cons (by decide) (by decide)
      (isProgression_nil (by decide) (by decide)))
  obtain ⟨terms, ht, hc⟩ :=
    (seq_counts a none 9223372036854775806 (some 9223372036854775807) none rfl running).2 (by decide)
  obtain rfl := both.unique ht
  exact ⟨running, both, hc⟩

-- A file in a directory that is not there, for the numbers up to one.
theorem seq_fails_without_directory :
    let a : Activity :=
      { session := { library := .standard }
        request :=
          { id := 1, script := default, command := .mk (.opened 0) [] []
            options := [.one (.integer (1 : Int64).toInt), .optional none, .optional none]
            context := {}
            chain :=
              { formatter := some ⟨"text", 0, .text⟩
                sink := some ⟨"file", 2, .file "nodir/out.txt" false⟩ } } }
    a.session.cancellation.isCancelled a.request.id = false ∧ a.request.output = none ∧
      stepsOf (ends 1 none) none = 1 ∧ IsProgression 1 1 1 [1] ∧
      (a.perform .seq none).2 =
        some (.failed "nodir/out.txt: No such file or directory (os error 2)") ∧
      (a.perform .seq none).1.request.output = none := by
  intro a
  have single : IsProgression 1 1 1 [1] := .cons (by decide) (by decide)
    (isProgression_nil (by decide) (by decide))
  exact ⟨rfl, rfl, rfl, single, by decide +kernel, by decide +kernel⟩

end Activity

end CommandShell.Session
