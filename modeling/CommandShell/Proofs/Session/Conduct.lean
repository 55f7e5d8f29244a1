import CommandShell.Proofs.Handler.Candor
import CommandShell.Proofs.Session.Course

namespace CommandShell

namespace World

theorem diagnostics_openFile {w w' : World} {path : String} {append : Bool} {d : Destination}
    (h : w.openFile path append = .ok (w', d)) : w'.diagnostics = w.diagnostics := by
  unfold openFile at h
  cases hd : w.disk.openFile path append with
  | error e => simp [hd, bind, Except.bind] at h
  | ok opened =>
    simp only [hd, bind, Except.bind, pure, Except.pure, Except.ok.injEq, Prod.mk.injEq] at h
    rw [← h.1]

theorem diagnostics_deliver (w : World) (d : Destination) (bytes : List UInt8) :
    (w.deliver d bytes).diagnostics = w.diagnostics := by
  cases d with
  | program p => simp only [deliver]
  | _ => rfl

end World

namespace Handler

theorem Target.diagnostics_connect (t : Target) (w : World) (contextPath : String) :
    (t.connect w contextPath).1.diagnostics = w.diagnostics := by
  cases t with
  | file path append =>
    unfold connect
    dsimp only
    split
    · rfl
    · next h => exact World.diagnostics_openFile h
  | other connect =>
    unfold Target.connect
    dsimp only
    split <;> rfl
  | _ => rfl

end Handler

namespace Session

namespace Request

theorem diagnostics_openOutput (r : Request) (w : World) :
    (r.openOutput w).1.diagnostics = w.diagnostics := by
  unfold openOutput
  split
  · rfl
  · rfl
  · rfl
  · next sink _ _ _ =>
    have hc := sink.stage.diagnostics_connect w r.context.path
    split <;> next h => rwa [h] at hc

theorem diagnostics_write (r : Request) (w : World) (f : Output.Pipeline → Output.Pipeline) :
    (r.write w f).1.diagnostics = w.diagnostics := by
  have ho := r.diagnostics_openOutput w
  unfold write
  split <;> next h => rwa [h] at ho

theorem diagnostics_closeOutput (r : Request) (w : World) :
    (r.closeOutput w).1.diagnostics = w.diagnostics := by
  unfold closeOutput
  split
  · rfl
  · exact w.diagnostics_deliver _ _

end Request

-- Nothing is told, no exit is taken back, and the handlers are the same.
structure Quiet (s s' : Session) : Prop where
  diagnostics : s'.world.diagnostics = s.world.diagnostics
  exiting : s.exiting = true → s'.exiting = true
  library : s'.library = s.library

namespace Quiet

variable {s s' s'' : Session}

theorem refl (s : Session) : Quiet s s := ⟨rfl, id, rfl⟩

theorem trans (h : Quiet s s') (h' : Quiet s' s'') : Quiet s s'' :=
  ⟨h'.diagnostics.trans h.diagnostics, h'.exiting ∘ h.exiting, h'.library.trans h.library⟩

end Quiet

theorem quiet_apply (s : Session) (c : Handler.Change) : Quiet s (s.apply c) := by
  cases c <;> exact ⟨rfl, id, rfl⟩

namespace Activity

variable (a : Activity)

theorem quiet_write (f : Output.Pipeline → Output.Pipeline) :
    Quiet a.session (a.write f).1.session :=
  ⟨a.request.diagnostics_write a.session.world f, id, rfl⟩

theorem quiet_closeOutput : Quiet a.session a.closeOutput.1.session :=
  ⟨a.request.diagnostics_closeOutput a.session.world, id, rfl⟩

end Activity

namespace Course

-- A course that tells nothing itself, and where a failure of what it runs is a failure of its own
-- if it is `candid`.  `failed` says whether something failed before it came to session `s`.
inductive Honest (candid : Prop) : Session → Bool → Course → Prop where
  | ends {s s' : Session} {failed : Bool} {e : Option Error} (quiet : Quiet s s')
      (told : candid → failed = true → e.isSome = true) : Honest candid s failed (.ends s' e)
  | block {s s' : Session} {failed : Bool} {next : Session → Option Failure → Course}
      (quiet : Quiet s s')
      (rest : ∀ s'' failure, Honest candid s'' (failed || failure.isSome) (next s'' failure)) :
      Honest candid s failed (.block s' next)
  | text {s s' : Session} {failed : Bool} {text : String}
      {next : Session → Option Error → Course} (quiet : Quiet s s')
      (rest : ∀ s'' e, Honest candid s'' (failed || e.isSome) (next s'' e)) :
      Honest candid s failed (.text text s' next)

theorem honest_ends {candid : Prop} {s s' : Session} {e : Option Error} (h : Quiet s s') :
    Honest candid s false (.ends s' e) :=
  .ends h fun _ => nofun

end Course

open Course

variable {candid : Prop} {s : Session} {script : Script} {c : Script.Command}

namespace Activity

variable {a : Activity} {next : Activity → Option Failure → Course}

theorem honest_following (hasBlock : Bool) {body : Handler.Body} {failed : Bool}
    (h : Quiet s a.session) (hb : candid → body.Candid failed)
    (hn : ∀ {s a failure failed}, Quiet s a.session →
      (candid → failed = true → failure.isSome = true) → (next a failure).Honest candid s failed) :
    (following hasBlock next body a).Honest candid s failed := by
  induction body generalizing s a failed with
  | ends failure => exact hn h hb
  | look rest ih => exact ih _ h fun hc => hb hc _
  | change c rest ih => exact ih (h.trans (a.session.quiet_apply c)) hb
  | output use rest ih => exact ih _ (h.trans (a.quiet_write use)) fun hc => hb hc _
  | closeOutput rest ih => exact ih _ (h.trans a.quiet_closeOutput) fun hc => hb hc _
  | block rest ih => exact .block h fun s' failure => ih failure (.refl s') fun hc => hb hc failure

theorem honest_course {handler : Handler.Command} (hasBlock : Bool) (h : Quiet s a.session)
    (hc : candid → handler.body.Candid false) :
    (a.course handler hasBlock).Honest candid s false := by
  unfold course
  refine honest_following hasBlock (h.trans ⟨rfl, id, rfl⟩) hc ?_
  intro s' a' failure failed hq hf
  let ended : Activity := { a' with session :=
    { a'.session with cancellation := a'.session.cancellation.finish } }
  have hended : Quiet a'.session ended.session := ⟨rfl, id, rfl⟩
  refine .ends (hq.trans (hended.trans ended.quiet_closeOutput)) fun hc ht => ?_
  obtain ⟨e, rfl⟩ := Option.isSome_iff_exists.1 (hf hc ht)
  rfl

end Activity

theorem honest_sourceCourse (s : Session) (file : String) :
    (sourceCourse s file).Honest candid s false := by
  simp only [sourceCourse]
  split
  · exact honest_ends (.refl s)
  · split
    · exact honest_ends (.refl s)
    · refine .text ⟨rfl, id, rfl⟩ fun s' e => .ends ⟨rfl, id, rfl⟩ fun _ ht => ?_
      cases e with
      | none => cases ht
      | some e => cases e <;> rfl

-- A builtin that runs no file.
theorem quiet_runBuiltin {inner : TextRun} {b : Builtin} (hb : b ≠ .source)
    (args : Binding.Args) : Quiet s (runBuiltin s inner b args).1 := by
  simp only [runBuiltin]
  split
  · exact .refl s
  · cases b with
    | cd => exact ⟨rfl, id, rfl⟩
    | exit => exact ⟨rfl, fun _ => rfl, rfl⟩
    | reload =>
      dsimp only
      split
      · exact .refl s
      · exact ⟨rfl, id, rfl⟩
    | source => exact absurd rfl hb

theorem honest_registeredCourse {handler : Handler.Command}
    (hc : candid → handler.body.Candid false) (name : String) (args : Binding.Args) :
    (registeredCourse s script c handler name args).Honest candid s false := by
  simp only [registeredCourse]
  split
  · exact honest_ends (.refl s)
  · split
    · exact honest_ends ⟨rfl, id, rfl⟩
    · exact Activity.honest_course _ ⟨rfl, id, rfl⟩ hc

-- Every command that is dispatched takes an honest course.
theorem honest_course (s : Session) (script : Script) (c : Script.Command) :
    (course s script c).Honest s.library.Candid s false := by
  simp only [course]
  split
  · split
    · exact honest_ends (.refl s)
    · exact honest_sourceCourse s _
  · next hb _ => exact honest_ends (quiet_runBuiltin hb _)
  · next handler _ hc =>
    exact honest_registeredCourse (fun h => h _ handler (Option.filter_eq_some_iff.1 hc).1) _ _
  · exact honest_ends (.refl s)

end Session

end CommandShell
