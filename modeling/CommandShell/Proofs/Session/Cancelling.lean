import CommandShell.Session.Cancellation
import Mathlib.Data.List.Induction

namespace CommandShell.Session.Cancellation

-- What happens to the trigger and to the requests that run: the watches look at the trigger when
-- they happen to, whatever runs inside of their requests.
inductive Event where
  | raise
  | poll (request : Nat)
  | start (request : Nat)
  | finish
deriving DecidableEq, Repr

def react (c : Cancellation) : Event → Cancellation
  | .raise => c.raise
  | .poll request => c.poll request
  | .start request => c.start request
  | .finish => c.finish

def run (c : Cancellation) (events : List Event) : Cancellation := events.foldl react c

-- The watch of a request finds the trigger raised and takes it.
def Takes (c : Cancellation) (request : Nat) : Prop :=
  c.raised = true ∧ (c.poll request).raised = false

variable {c : Cancellation} {request : Nat} {events before after : List Event} {event : Event}

theorem poll_of_not_raised (h : c.raised = false) (request : Nat) : c.poll request = c := by
  simp [poll, h]

-- The trigger is down and the request was not cancelled.
def Spares (c : Cancellation) (request : Nat) : Prop :=
  c.raised = false ∧ ∀ w ∈ c.watches, w.request = request → w.cancelled = false

theorem Spares.react (h : c.Spares request) (he : event ≠ .raise) :
    (c.react event).Spares request := by
  obtain ⟨hr, hw⟩ := h
  cases event with
  | raise => exact absurd rfl he
  | poll r =>
    rw [Cancellation.react, poll_of_not_raised hr]
    exact ⟨hr, hw⟩
  | start r =>
    simp only [Cancellation.react, start]
    split
    · refine ⟨rfl, fun w hm => ?_⟩
      rcases List.mem_cons.1 hm with rfl | hm
      · exact fun _ => rfl
      · exact hw w hm
    · exact ⟨hr, hw⟩
  | finish =>
    simp only [Cancellation.react, finish]
    split
    · exact ⟨hr, fun w hm => hw w (List.mem_of_mem_tail hm)⟩
    · exact ⟨hr, hw⟩

theorem Spares.run (h : c.Spares request) (ha : .raise ∉ events) :
    (c.run events).Spares request := by
  induction events generalizing c with
  | nil => exact h
  | cons event rest ih =>
    rw [List.mem_cons, not_or] at ha
    exact ih (h.react (Ne.symm ha.1)) ha.2

-- All watches looking at the trigger is one event for each of them.
theorem pollAll_eq_run (c : Cancellation) (order : List Nat → List Nat) :
    c.pollAll order = c.run ((order (c.watches.map (·.request))).map .poll) := by
  rw [pollAll, run, List.foldl_map]
  rfl

end CommandShell.Session.Cancellation
