import CommandShell.Session.Run

namespace CommandShell.Session

open Binding (Args)
open Handler (Body Command)

-- What a command does by itself: it ends, or it has its block or the text of a file run and goes
-- on with what comes of that.
inductive Course where
  | ends (s : Session) (e : Option Error)
  | block (s : Session) (next : Session → Option Failure → Course)
  | text (text : String) (s : Session) (next : Session → Option Error → Course)

namespace Course

-- Go through a course where blocks and texts are run like this.
def run (inner : TextRun) (block : BlockRun) : Course → Session × Option Error
  | ends s e => (s, e)
  | .block s next => (next (block s).1 (block s).2).run inner block
  | text t s next => (next (inner t s).1 (inner t s).2).run inner block

end Course

variable {s : Session} {inner : TextRun} {script : Script} {c : Script.Command}
  {block : Option BlockRun}

namespace Activity

-- What a body says, and then `next`.
def following (hasBlock : Bool) (next : Activity → Option Failure → Course) :
    Body → Activity → Course
  | .ends failure, a => next a failure
  | .look rest, a => following hasBlock next (rest (a.view hasBlock)) a
  | .change c rest, a => following hasBlock next rest { a with session := a.session.apply c }
  | .output use rest, a => following hasBlock next (rest (a.write use).2) (a.write use).1
  | .closeOutput rest, a => following hasBlock next (rest a.closeOutput.2) a.closeOutput.1
  | .block rest, a =>
    .block a.session fun s failure => following hasBlock next (rest failure) { a with session := s }

def course (a : Activity) (c : Command) (hasBlock : Bool) : Course :=
  let begun := { a.session with cancellation := a.session.cancellation.start a.request.id }
  let last (a : Activity) (failure : Option Failure) : Course :=
    let ended := { a.session with cancellation := a.session.cancellation.finish }
    let closed := { a with session := ended }.closeOutput
    .ends closed.1.session ((failure.or closed.2).map .run)
  following hasBlock last c.body { a with session := begun }

end Activity

def sourceCourse (s : Session) (file : String) : Course :=
  let path := s.world.expandPath file
  let fault (message : String) : Error := .run (.failed (path ++ ": " ++ message))
  if maxDepth ≤ s.depth then .ends s (some (fault "nested too deeply"))
  else
    match s.world.readText path with
    | .error e => .ends s (some (fault e.message))
    | .ok text => .text text { s with depth := s.depth + 1 } fun after result =>
      .ends { after with depth := after.depth - 1 } <| match result with
        | none => none
        | some (.run e) => some (.run e)
        | some e => some (fault e.message)

def registeredCourse (s : Session) (script : Script) (c : Script.Command) (handler : Command)
    (name : String) (args : Args) : Course :=
  match (handler.options s.context).bind name args s.interpolation with
  | .error e => .ends s (some (.bind e))
  | .ok options =>
    let s := { s with requests := s.requests + 1 }
    match chainOf s script c with
    | .error e => .ends s (some e)
    | .ok chain =>
      Activity.course ⟨s, ⟨s.requests, script, c, options, s.context, chain, none⟩⟩ handler
        (!c.blocks.isEmpty)

-- The course of a command that is dispatched.
def course (s : Session) (script : Script) (c : Script.Command) : Course :=
  let name := (script.token c.head).text
  let args : Args := ⟨script.argsOf c.node, c.node.firstArg⟩
  match Builtin.ofName? name, command? s name with
  | some .source, _ =>
    match Binding.bind Builtin.source.table Builtin.source.name args s.interpolation with
    | .error e => .ends s (some (.bind e))
    | .ok slots => sourceCourse s (Handler.valueAt slots 0).text
  | some b, _ =>
    let ran := runBuiltin s (fun _ s => (s, none)) b args
    .ends ran.1 ran.2
  | none, some handler => registeredCourse s script c handler name args
  | none, none => .ends s (some (.dispatch ⟨name, .notFound, c.head⟩))

namespace Activity

variable {a : Activity} {next : Activity → Option Failure → Course}

theorem run_following (body : Body) :
    (following block.isSome next body a).run inner (runOf block) =
      (next (follow block body a).1 (follow block body a).2).run inner (runOf block) := by
  induction body generalizing a with
  | ends failure => rfl
  | look rest ih => exact ih _
  | change c rest ih => exact ih
  | output use rest ih => exact ih _
  | closeOutput rest ih => exact ih _
  | block rest ih => exact ih _

theorem run_course (handler : Command) :
    (a.course handler block.isSome).run inner (runOf block) =
      ((a.carryOut handler block).1, (a.carryOut handler block).2.map .run) := by
  rw [course, run_following]
  rfl

end Activity

theorem run_sourceCourse (s : Session) (run : BlockRun) (file : String) :
    (sourceCourse s file).run inner run = sourceFile s inner file := by
  simp only [sourceCourse, sourceFile]
  split
  · rfl
  · cases s.world.readText (s.world.expandPath file) with
    | error e => rfl
    | ok text =>
      simp only [Course.run]
      generalize inner text _ = ran
      obtain ⟨s', e⟩ := ran
      cases e with
      | none => rfl
      | some e => cases e <;> rfl

theorem run_registeredCourse (hb : block.isSome = !c.blocks.isEmpty) (handler : Command)
    (name : String) (args : Args) :
    (registeredCourse s script c handler name args).run inner (runOf block) =
      runRegistered s script c block handler name args := by
  unfold registeredCourse runRegistered
  cases (handler.options s.context).bind name args s.interpolation with
  | error e => rfl
  | ok options =>
    dsimp only
    cases chainOf { s with requests := s.requests + 1 } script c with
    | error e => rfl
    | ok chain =>
      dsimp only
      rw [← hb, Activity.run_course]

theorem isSome_firstBlock (inner : TextRun) (script : Script)
    (blocks : List (List Script.Command)) :
    (firstBlock inner script blocks).isSome = !blocks.isEmpty := by
  cases blocks <;> rfl

-- Whatever blocks and texts do, a dispatched command follows its course.
theorem dispatch_eq_run (hb : block.isSome = !c.blocks.isEmpty) :
    dispatch s inner script c block = (course s script c).run inner (runOf block) := by
  simp only [dispatch, course]
  cases Builtin.ofName? (script.token c.head).text with
  | some b =>
    cases b with
    | source =>
      simp only [runBuiltin]
      cases Binding.bind Builtin.source.table Builtin.source.name _ s.interpolation with
      | error e => rfl
      | ok slots => exact (run_sourceCourse s _ _).symm
    | _ => rfl
  | none =>
    cases command? s (script.token c.head).text with
    | none => rfl
    | some handler => exact (run_registeredCourse hb handler _ _).symm

end CommandShell.Session
