import CommandShell.Binding.Coercion
import CommandShell.Output.Pipeline

namespace CommandShell.Session

open Output (Pipeline)

-- Whether a number in steps towards `last` does not lie beyond it.
def isWithin (last step n : Int) : Bool := (0 < step && n ≤ last) || (step < 0 && last ≤ n)

-- The number one step further on, if it has 64 bits.
def next? (step n : Int) : Option Int :=
  if Binding.minInteger true .bits64 ≤ n + step ∧ n + step ≤ Binding.maxInteger true .bits64 then
    some (n + step)
  else none

theorem eq_add_of_next? {step n next : Int} (h : next? step n = some next) : next = n + step := by
  rw [next?, Option.ite_none_right_eq_some] at h
  exact (Option.some.inj h.2).symm

-- More than the numbers that are left.
def distance (last step n : Int) : Nat := (if 0 < step then last + 1 - n else n + 1 - last).toNat

theorem distance_add_lt {last step n : Int} (h : isWithin last step n = true) :
    distance last step (n + step) < distance last step n := by
  simp only [isWithin, Bool.or_eq_true, Bool.and_eq_true, decide_eq_true_eq] at h
  rw [distance, distance]
  split <;> omega

theorem distance_lt {last step n next : Int} (h : isWithin last step n = true)
    (hn : next? step n = some next) : distance last step next < distance last step n := by
  rw [eq_add_of_next? hn]
  exact distance_add_lt h

-- Write the numbers from one on in steps, as long as they are read.  When the next one has too many
-- bits, it lies beyond `last`.
def writeTerms (last step n : Int) (p : Pipeline) : Pipeline :=
  if isWithin last step n then
    if p.isClosed then p
    else
      let p := p.write (.value none (.int n))
      match _ : next? step n with
      | some next => writeTerms last step next p
      | none => p
  else p
termination_by distance last step n
decreasing_by exact distance_lt ‹_› ‹_›

end CommandShell.Session
