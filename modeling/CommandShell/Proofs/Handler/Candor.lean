import CommandShell.Handler.Library
import CommandShell.Proofs.Handler.Registering

namespace CommandShell.Handler

namespace Body

-- A failure of the block, if there was one already or whenever there is one, is a failure of the
-- command too.
def Candid : Body → Bool → Prop
  | .ends failure, failed => failed = true → failure.isSome = true
  | .look next, failed => ∀ v, (next v).Candid failed
  | .change _ next, failed => next.Candid failed
  | .output _ next, failed | .closeOutput next, failed => ∀ failure, (next failure).Candid failed
  | .block next, failed => ∀ failure, (next failure).Candid (failed || failure.isSome)

variable {body : Body}

theorem candid_ends (failure : Option Failure) : (ends failure).Candid false := nofun

theorem candid_fail (message : String) : (fail message).Candid false := nofun

theorem candid_write (name : Option String) (v : Json.Value) : (write name v).Candid false :=
  candid_ends

theorem Candid.proceed (h : body.Candid false) (failure : Option Failure) :
    (body.proceed failure).Candid (false || failure.isSome) := by
  cases failure with
  | none => exact h
  | some e => exact fun _ => rfl

theorem Candid.proceed_of_output (h : body.Candid false) (failure : Option Failure) :
    (body.proceed failure).Candid false := by
  cases failure with
  | none => exact h
  | some e => exact candid_ends _

end Body

namespace Command

open Body

theorem candid_countTo (first last step : Int) (cancelled : Bool) :
    (countTo first last step cancelled).Candid false := by
  unfold countTo
  split
  · exact candid_fail _
  · split
    · exact candid_ends none
    · split
      · exact candid_ends _
      · exact candid_ends

theorem candid_set : set.body.Candid false := by
  intro v
  dsimp only
  split
  · exact candid_fail _
  · split
    · exact candid_ends none
    · exact candid_fail _
  · exact candid_ends none
  · split
    · exact candid_write _ _
    · exact candid_fail _
  · exact candid_ends

-- A block that failed is what the command fails with, back at the old place.
theorem candid_within : within.body.Candid false := by
  intro v
  dsimp only
  split
  · exact fun failure => id
  · exact candid_fail _

theorem candid_writeTrees (name : Option String) (texts : List String) :
    (writeTrees name texts).Candid false := by
  induction texts with
  | nil => exact candid_ends none
  | cons text rest ih =>
    rw [writeTrees]
    split
    · exact candid_fail _
    · exact ih.proceed_of_output

theorem candid_repeated {last : Body} (h : last.Candid false) (count : Nat) :
    (repeated last count).Candid false := by
  induction count with
  | zero => exact h
  | succ count ih => exact ih.proceed

theorem candid_rerun : rerun.body.Candid false := by
  intro v
  dsimp only
  split
  · exact candid_repeated (candid_write _ _) _
  · exact candid_fail _

theorem candid_failBy (name way : String) : (failBy name way).Candid false := by
  unfold failBy
  split
  -- the three ways that use the output, and those that end at once
  case h_9 => exact candid_ends
  case h_10 => exact (candid_fail _).proceed_of_output
  case h_11 =>
    have hreopened : (Body.output id .ends).Candid false := candid_ends
    exact hreopened.proceed_of_output
  all_goals exact candid_ends _

theorem candid_stall {otherwise : Body} (h : otherwise.Candid false) :
    (stall otherwise).body.Candid false := by
  intro v
  dsimp only
  split
  · exact candid_ends _
  · exact h

end Command

-- No command of these hides that its block failed.
def Library.Candid (library : Library) : Prop :=
  ∀ name c, library.handler? .command name = some c → c.body.Candid false

namespace Library

open Command

theorem table_standard : standard.table .command = [.echo, .seq, .set, .within, .pwd] := rfl

theorem table_captured (group : String) :
    (captured group).table .command = standard.table .command := rfl

theorem table_extended : extended.table .command = standard.table .command ++
    [.tree, .inspect, .rerun, .fail, .restart, .stall (.ends none), .slow] := rfl

theorem candid_of_mem_standard {c : Command} (h : c ∈ standard.table .command) :
    c.body.Candid false := by
  simp only [table_standard, List.mem_cons, List.not_mem_nil, or_false] at h
  rcases h with rfl | rfl | rfl | rfl | rfl
  · exact fun v => Body.candid_write _ _
  · exact fun v => candid_countTo _ _ _ _
  · exact candid_set
  · exact candid_within
  · exact fun v => Body.candid_write _ _

theorem candid_captured (group : String) : (captured group).Candid := by
  intro name c hc
  have hm := Registry.mem_table_of_handler? hc
  rw [table_captured] at hm
  exact candid_of_mem_standard hm

theorem candid_standard : standard.Candid :=
  fun _ _ hc => candid_of_mem_standard (Registry.mem_table_of_handler? hc)

theorem candid_extended : extended.Candid := by
  intro name c hc
  have hm := Registry.mem_table_of_handler? hc
  rw [table_extended, List.mem_append] at hm
  rcases hm with hm | hm
  · exact candid_of_mem_standard hm
  · simp only [List.mem_cons, List.not_mem_nil, or_false] at hm
    rcases hm with rfl | rfl | rfl | rfl | rfl | rfl | rfl
    · exact fun v => candid_writeTrees _ _
    · exact fun v => Body.candid_ends
    · exact candid_rerun
    · exact fun v => (candid_failBy _ _).proceed_of_output
    · exact fun v => Body.candid_write _ _
    · exact candid_stall (Body.candid_ends none)
    · exact Body.candid_ends none

end Library

end CommandShell.Handler
