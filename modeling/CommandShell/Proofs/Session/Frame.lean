import CommandShell.Proofs.Session.Requests
import CommandShell.Proofs.Session.Stability

namespace CommandShell.Session

-- A run that keeps the sessions it is started in.
def Keeps (run : Session → Session × Option Failure) : Prop := ∀ s, Kept s (run s).1

def TextKeeps (inner : TextRun) : Prop := ∀ text s, Kept s (inner text s).1

variable {s : Session} {inner : TextRun} {script : Script}

theorem kept_report (s : Session) (script : Script) (c : Script.Command) (e : Error) :
    Kept s (s.report script c e) := ⟨rfl, rfl, rfl, rfl⟩

-- A script that is sourced runs one level deeper.
theorem steady_kept (s : Session) : Steady (Kept s) (Kept { s with depth := s.depth + 1 }) where
  world _ h := ⟨h.library, h.scanner, h.depth, h.prompting⟩
  cancellation _ h := ⟨h.library, h.scanner, h.depth, h.prompting⟩
  requests _ h := ⟨h.library, h.scanner, h.depth, h.prompting⟩
  config _ h := ⟨h.library, h.scanner, h.depth, h.prompting⟩
  exit h := ⟨h.library, h.scanner, h.depth, h.prompting⟩
  cd _ h := ⟨h.library, h.scanner, h.depth, h.prompting⟩
  vars _ h := ⟨h.library, h.scanner, h.depth, h.prompting⟩
  enter h _ := ⟨h.library, h.scanner, congrArg (· + 1) h.depth, h.prompting⟩
  leave h := ⟨h.library, h.scanner, congrArg (· - 1) h.depth, h.prompting⟩

theorem kept_dispatch (hi : TextKeeps inner) {c : Script.Command} {block : Option BlockRun}
    (hb : ∀ run ∈ block, Keeps run) (hs : block.isSome = !c.blocks.isEmpty) :
    Kept s (dispatch s inner script c block).1 := by
  have own : Keeps (runOf block) := by
    cases block with
    | none => exact .refl
    | some run => exact hb run rfl
  rw [dispatch_eq_run hs]
  exact ((steady_kept s).course (.refl s) script c).last (fun text s' h => h.trans (hi text s'))
    fun s' h => h.trans (own s')

mutual

theorem kept_runCommand (hi : TextKeeps inner) (script : Script) :
    (c : Script.Command) → (s : Session) → Kept s (runCommand inner script c s).1
  | .mk node blocks redirections, s => by
    have hd : Kept s (dispatch s inner script (.mk node blocks redirections)
        (firstBlock inner script blocks)).1 :=
      kept_dispatch hi (keeps_firstBlock hi script blocks) (isSome_firstBlock inner script blocks)
    rw [runCommand]
    generalize dispatch s inner script _ _ = done at hd ⊢
    obtain ⟨s', e | e⟩ := done
    · exact hd
    · exact hd.trans (kept_report _ _ _ _)

theorem keeps_runBlock (hi : TextKeeps inner) (script : Script) :
    (commands : List Script.Command) → Keeps (runBlock inner script commands)
  | [], s => .refl s
  | c :: rest, s => by
    rw [runBlock]
    split
    · exact .refl s
    · exact (kept_runCommand hi script c s).trans (keeps_runBlock hi script rest _)

theorem keeps_firstBlock (hi : TextKeeps inner) (script : Script) :
    (blocks : List (List Script.Command)) → ∀ run ∈ firstBlock inner script blocks, Keeps run
  | [], run, h => by cases h
  | block :: _, run, h => by
    obtain rfl : runBlock inner script block = run := Option.some.inj h
    exact keeps_runBlock hi script block

end

theorem kept_runScript (hi : TextKeeps inner) (script : Script) :
    Kept s (runScript inner s script).1 :=
  keeps_runBlock hi script script.commands s

theorem textKeeps_runText (hi : TextKeeps inner) : TextKeeps (runText inner) := by
  intro text s
  rw [runText]
  split
  · exact ⟨rfl, rfl, rfl, rfl⟩
  · exact kept_runScript hi _

theorem textKeeps_runWithin (levels : Nat) : TextKeeps (runWithin levels) := by
  induction levels with
  | zero => exact textKeeps_runText fun _ s => .refl s
  | succ levels ih => exact textKeeps_runText ih

theorem textKeeps_inner (s : Session) : TextKeeps s.inner := textKeeps_runWithin _

end CommandShell.Session
