import CommandShell.Handler.Library
import CommandShell.Proofs.Grammar.Extents
import CommandShell.Proofs.Session.Events

namespace CommandShell.Session

open Binding (Args)

-- A command that ends like this was refused: its name, its arguments or its redirections do not
-- fit.  Any other failure is one of running it.
def Error.IsRefusal : Error → Prop
  | .bind _ | .dispatch _ => True
  | .lex _ | .run _ | .config _ => False

variable {s : Session} {inner : TextRun} {script : Script} {c : Script.Command}
  {block : Option BlockRun} {e : Error}

-- What goes wrong in a file is a failure of running the command that sources it, even if the file
-- cannot be read as a script.
theorem not_isRefusal_of_sourceFile {file : String} (h : (sourceFile s inner file).2 = some e) :
    ¬e.IsRefusal := by
  simp only [sourceFile] at h
  split at h
  · obtain rfl := Option.some.inj h
    exact id
  · split at h
    · obtain rfl := Option.some.inj h
      exact id
    · generalize inner _ _ = ran at h
      obtain ⟨after, result⟩ := ran
      cases result with
      | none => cases h
      | some e => cases e <;> obtain rfl := Option.some.inj h <;> exact id

-- A refused builtin was refused for its arguments.
theorem error_bind_of_runBuiltin {b : Builtin} {args : Args}
    (h : (runBuiltin s inner b args).2 = some e) (he : e.IsRefusal) :
    ∃ fault, Binding.bind b.table b.name args s.interpolation = .error fault ∧ e = .bind fault := by
  simp only [runBuiltin] at h
  cases hb : Binding.bind b.table b.name args s.interpolation with
  | error fault =>
    rw [hb] at h
    exact ⟨fault, rfl, (Option.some.inj h).symm⟩
  | ok slots =>
    rw [hb] at h
    cases b with
    | cd => cases h
    | exit => cases h
    | reload =>
      dsimp only at h
      split at h
      · obtain rfl := Option.some.inj h
        cases he
      · cases h
    | source => exact absurd he (not_isRefusal_of_sourceFile h)

-- Once its chain is made up, a command is not refused anymore.
theorem registeredCourse_of_refused {handler : Handler.Command} {name : String} {args : Args}
    (h : (runRegistered s script c block handler name args).2 = some e) (he : e.IsRefusal) :
    ∃ requests, registeredCourse s script c handler name args =
      .ends { s with requests } (some e) := by
  simp only [runRegistered] at h
  simp only [registeredCourse]
  cases hf : (handler.options s.context).bind name args s.interpolation with
  | error fault =>
    rw [hf] at h
    obtain rfl := Option.some.inj h
    exact ⟨s.requests, rfl⟩
  | ok options =>
    rw [hf] at h
    dsimp only at h ⊢
    cases hc : chainOf { s with requests := s.requests + 1 } script c with
    | error fault =>
      rw [hc] at h
      obtain rfl := Option.some.inj h
      exact ⟨s.requests + 1, rfl⟩
    | ok chain =>
      rw [hc] at h
      obtain ⟨failure, -, rfl⟩ := Option.map_eq_some_iff.1 h
      cases he

-- The course of a refused command ends where it starts: no handler is carried out, no block and no
-- text is run.
theorem course_of_refused (h : (dispatch s inner script c block).2 = some e) (he : e.IsRefusal) :
    ∃ requests, course s script c = .ends { s with requests } (some e) := by
  simp only [dispatch] at h
  simp only [course]
  cases hn : Builtin.ofName? (script.token c.head).text with
  | some b =>
    rw [hn] at h
    obtain ⟨fault, hf, rfl⟩ := error_bind_of_runBuiltin h he
    refine ⟨s.requests, ?_⟩
    cases b with
    | source => simp only [hf]
    | _ => simp only [runBuiltin, hf]
  | none =>
    cases hc : command? s (script.token c.head).text with
    | some handler =>
      rw [hn, hc] at h
      exact registeredCourse_of_refused h he
    | none =>
      rw [hn, hc] at h
      obtain rfl := Option.some.inj h
      exact ⟨s.requests, rfl⟩

theorem dispatch_of_refused (hb : block.isSome = !c.blocks.isEmpty)
    (h : (dispatch s inner script c block).2 = some e) (he : e.IsRefusal) :
    ∃ requests, dispatch s inner script c block = ({ s with requests }, some e) := by
  obtain ⟨requests, hc⟩ := course_of_refused h he
  refine ⟨requests, ?_⟩
  rw [dispatch_eq_run hb, hc]
  rfl

-- A refused command is counted and told about, which is all that comes of it.
theorem runCommand_of_refused
    (h : (dispatch s inner script c (firstBlock inner script c.blocks)).2 = some e)
    (he : e.IsRefusal) : ∃ requests told, runCommand inner script c s =
      ({ s with requests, world := s.world.diagnose told }, false) := by
  obtain ⟨node, blocks, redirections⟩ := c
  obtain ⟨requests, hd⟩ := dispatch_of_refused (isSome_firstBlock inner script blocks) h he
  rw [Script.Command.blocks] at hd
  rw [runCommand, hd]
  exact ⟨requests, _, rfl⟩

-- Nothing else is dispatched for it.
theorem commandEvents_of_refused (ofText : TextEvents)
    (h : (dispatch s inner script c (firstBlock inner script c.blocks)).2 = some e)
    (he : e.IsRefusal) : ∃ s', commandEvents inner ofText script c s =
      [.began script c s, .ended script c s' (some e)] := by
  obtain ⟨node, blocks, redirections⟩ := c
  obtain ⟨requests, hc⟩ := course_of_refused h he
  simp only [commandEvents, hc, Course.events, List.nil_append]
  exact ⟨_, by rw [← h]; rfl⟩

-- What is rejected has no effect.  A text that cannot be read is told about, and nothing is
-- dispatched for it.  A refused command leaves the session as it is, but for the number of requests
-- and what is told, and nothing is dispatched on its account.
theorem unchanged_of_rejected (s : Session) :
    (∀ text e, Script.tokenize text = .error e → s.sourceEvents text = [] ∧
      s.runSource text =
        (s.diagnose (Script.renderLines text e.span e.message), some (.lex e))) ∧
    ∀ inner script c e,
      (dispatch s inner script c (firstBlock inner script c.blocks)).2 = some e → e.IsRefusal →
      (∃ requests told, runCommand inner script c s =
        ({ s with requests, world := s.world.diagnose told }, false)) ∧
      ∀ ofText, ∃ s', commandEvents inner ofText script c s =
        [.began script c s, .ended script c s' (some e)] := by
  refine ⟨fun text e ht => ?_, fun inner script c e h he => ?_⟩
  · simp only [sourceEvents, textEvents, runSource, runText, ht, and_self]
  · exact ⟨runCommand_of_refused h he, fun ofText => commandEvents_of_refused ofText h he⟩

-- A block with an unpaired brace, and a chain whose last redirection comes too late: its file is
-- not opened.
theorem unchanged_of_rejected_of_chain :
    let s : Session := { library := .standard }
    (∃ e, Script.tokenize "cd a \x7b" = .error e ∧ s.sourceEvents "cd a \x7b" = []) ∧
    ∃ script c e, Script.tokenize "seq 3 | file f | limit 1" = .ok script ∧
      script.commands = [c] ∧
      (dispatch s s.inner script c (firstBlock s.inner script c.blocks)).2 = some e ∧
      e.IsRefusal ∧ ∃ requests told, runCommand s.inner script c s =
        ({ s with requests, world := s.world.diagnose told }, false) := by
  intro s
  have hrejected : (Script.tokenize "cd a \x7b").toOption.isNone = true := by decide +kernel
  obtain ⟨script, c, ht, hc, -, hd⟩ := Script.exists_command_of_tokenize
    (show (Script.tokenize "seq 3 | file f | limit 1").toOption.map (fun script =>
      script.commands.map fun c =>
        (dispatch s s.inner script c (firstBlock s.inner script c.blocks)).2) =
      some [some (.dispatch ⟨"limit", .misplaced .pipe .sink, 4⟩)] by decide +kernel)
  refine ⟨?_, script, c, _, ht, hc, hd, trivial,
    ((unchanged_of_rejected s).2 s.inner script c _ hd trivial).1⟩
  cases ht : Script.tokenize "cd a \x7b" with
  | error e => exact ⟨e, rfl, ((unchanged_of_rejected s).1 _ e ht).1⟩
  | ok script =>
    rw [ht] at hrejected
    cases hrejected

end CommandShell.Session
