import CommandShell.Proofs.Session.Conduct

namespace CommandShell

namespace Script

-- What is shown of an error ends in its message, on a line of its own.
theorem render_ne_empty (source : String) (excerpt caret : Span) (message : String) :
    render source excerpt caret message ≠ "" := by
  intro h
  have hlist := congrArg String.toList h
  simp [render, List.flatMap_append] at hlist

theorem renderLines_ne_empty (source : String) (caret : Span) (message : String) :
    renderLines source caret message ≠ "" :=
  render_ne_empty source _ caret message

end Script

namespace Session

-- What can be noted while a session runs: a command is dispatched, and it comes to its end.
inductive Event where
  | began (script : Script) (c : Script.Command) (s : Session)
  | ended (script : Script) (c : Script.Command) (s : Session) (e : Option Error)

namespace Event

def session : Event → Session
  | began _ _ s => s
  | ended _ _ s _ => s

-- No command ended with an error here.
def Succeeded : Event → Prop
  | began _ _ _ => True
  | ended _ _ _ e => e = none

end Event

-- What is dispatched while a block or a text is run.
abbrev BlockEvents := Session → List Event

abbrev TextEvents := String → Session → List Event

namespace Course

-- What is dispatched on the way through a course.
def events (inner : TextRun) (ofText : TextEvents) (block : BlockRun) (ofBlock : BlockEvents) :
    Course → List Event
  | ends _ _ => []
  | .block s next =>
    ofBlock s ++ (next (block s).1 (block s).2).events inner ofText block ofBlock
  | text t s next =>
    ofText t s ++ (next (inner t s).1 (inner t s).2).events inner ofText block ofBlock

end Course

mutual

-- All that is dispatched while one command runs, the command itself first.
def commandEvents (inner : TextRun) (ofText : TextEvents) (script : Script) :
    Script.Command → Session → List Event
  | .mk node blocks redirections, s =>
    let c := .mk node blocks redirections
    let block := firstBlock inner script blocks
    let done := dispatch s inner script c block
    .began script c s ::
      ((course s script c).events inner ofText (runOf block)
        (firstBlockEvents inner ofText script blocks) ++ [.ended script c done.1 done.2])

def blockEvents (inner : TextRun) (ofText : TextEvents) (script : Script) :
    List Script.Command → BlockEvents
  | [], _ => []
  | c :: rest, s =>
    if s.exiting then []
    else
      commandEvents inner ofText script c s ++
        blockEvents inner ofText script rest (runCommand inner script c s).1

def firstBlockEvents (inner : TextRun) (ofText : TextEvents) (script : Script) :
    List (List Script.Command) → BlockEvents
  | [], _ => []
  | block :: _, s => blockEvents inner ofText script block s

end

def textEvents (inner : TextRun) (ofText : TextEvents) : TextEvents := fun text s =>
  match Script.tokenize text with
  | .error _ => []
  | .ok script => blockEvents inner ofText script script.commands s

-- What is dispatched by texts that source files down to a number of levels.
def eventsWithin : Nat → TextEvents
  | 0 => textEvents (fun _ s => (s, none)) fun _ _ => []
  | levels + 1 => textEvents (runWithin levels) (eventsWithin levels)

def innerEvents (s : Session) : TextEvents := eventsWithin (maxDepth - (s.depth + 1))

-- What is dispatched while a complete text is run.
def sourceEvents (s : Session) (text : String) : List Event :=
  textEvents s.inner s.innerEvents text s

variable {R : Session → List Event → Session → Bool → Prop} {inner : TextRun}
  {ofText : TextEvents} {block : BlockRun} {ofBlock : BlockEvents} {s s' s'' : Session}
  {es es' : List Event} {e : Option Error}

-- A relation of a session, what is dispatched from there on, the session that it comes to and
-- whether it succeeds, which can be followed through every run.
structure Lawful (R : Session → List Event → Session → Bool → Prop) : Prop where
  quiet : ∀ {s s'}, Quiet s s' → R s [] s' true
  append : ∀ {s s' s'' es es' ok ok'},
    R s es s' ok → R s' es' s'' ok' → R s (es ++ es') s'' (ok && ok')
  complaint : ∀ {s told}, told ≠ "" → R s [] (s.diagnose told) false
  command : ∀ {s s' es ok inner script c block e}, s.exiting = false →
    dispatch s inner script c block = (s', e) → R s es s' ok →
    (s.library.Candid → e = none → ok = true) →
    R s (.began script c s :: (es ++ [.ended script c s' e])) (e.elim s' (s'.report script c))
      e.isNone

def TextLaw (R : Session → List Event → Session → Bool → Prop) (inner : TextRun)
    (ofText : TextEvents) : Prop :=
  ∀ text s, R s (ofText text s) (inner text s).1 (inner text s).2.isNone

def BlockLaw (R : Session → List Event → Session → Bool → Prop) (block : BlockRun)
    (ofBlock : BlockEvents) : Prop :=
  ∀ s, R s (ofBlock s) (block s).1 (block s).2.isNone

namespace Lawful

theorem of_quiet {ok : Bool} (hR : Lawful R) (h : R s' es s'' ok) (hq : Quiet s s') :
    R s es s'' ok :=
  hR.append (hR.quiet hq) h

-- The relation can be followed through a course.  If the course is candid and ends without an error,
-- it met no failure.
theorem course (hR : Lawful R) (hi : TextLaw R inner ofText) (hb : BlockLaw R block ofBlock)
    {candid : Prop} {k : Course} {failed : Bool} (hk : k.Honest candid s failed) :
    ∃ ok, R s (k.events inner ofText block ofBlock) (k.run inner block).1 ok ∧
      (candid → (k.run inner block).2 = none → failed = false ∧ ok = true) := by
  induction hk with
  | @ends s s' failed e quiet told =>
    refine ⟨true, hR.quiet quiet, fun hc he => ⟨?_, rfl⟩⟩
    obtain rfl : e = none := he
    simpa using told hc
  | @block s s' failed next quiet rest ih =>
    obtain ⟨ok, hlater, hsound⟩ := ih (block s').1 (block s').2
    have hwhole := hR.of_quiet (hR.append (hb s') hlater) quiet
    refine ⟨_, hwhole, fun hc he => ?_⟩
    obtain ⟨hf, rfl⟩ := hsound hc he
    obtain ⟨hf, hn⟩ := Bool.or_eq_false_iff.1 hf
    exact ⟨hf, by simpa using hn⟩
  | @text s s' failed text next quiet rest ih =>
    obtain ⟨ok, hlater, hsound⟩ := ih (inner text s').1 (inner text s').2
    have hwhole := hR.of_quiet (hR.append (hi text s') hlater) quiet
    refine ⟨_, hwhole, fun hc he => ?_⟩
    obtain ⟨hf, rfl⟩ := hsound hc he
    obtain ⟨hf, hn⟩ := Bool.or_eq_false_iff.1 hf
    exact ⟨hf, by simpa using hn⟩

mutual

theorem runCommand (hR : Lawful R) (hi : TextLaw R inner ofText) (script : Script) :
    (c : Script.Command) → (s : Session) → s.exiting = false →
      R s (commandEvents inner ofText script c s) (Session.runCommand inner script c s).1
        (Session.runCommand inner script c s).2
  | .mk node blocks redirections, s, he => by
    have hfollowed : dispatch s inner script (.mk node blocks redirections)
        (Session.firstBlock inner script blocks) = _ :=
      dispatch_eq_run (isSome_firstBlock inner script blocks)
    obtain ⟨ok, hcourse, hsound⟩ := hR.course hi (hR.firstBlock hi script blocks)
      (honest_course s script (.mk node blocks redirections))
    rw [← hfollowed] at hcourse hsound
    rw [commandEvents, Session.runCommand]
    generalize hd : dispatch s inner script _ _ = done at hcourse hsound ⊢
    have hcommand := hR.command he hd hcourse fun hc hn => (hsound hc hn).2
    obtain ⟨s', e | e⟩ := done
    · exact hcommand
    · exact hcommand

theorem runBlock (hR : Lawful R) (hi : TextLaw R inner ofText) (script : Script) :
    (commands : List Script.Command) →
      BlockLaw R (Session.runBlock inner script commands) (blockEvents inner ofText script commands)
  | [], s => hR.quiet (.refl s)
  | c :: rest, s => by
    rw [blockEvents, Session.runBlock]
    split
    · exact hR.quiet (.refl s)
    · next he =>
      have hfirst := hR.runCommand hi script c s (by simpa using he)
      have hwhole := hR.append hfirst (hR.runBlock hi script rest _)
      generalize Session.runCommand inner script c s = done at hwhole ⊢
      obtain ⟨s', succeeded⟩ := done
      cases succeeded with
      | true => exact hwhole
      | false => exact hwhole

theorem firstBlock (hR : Lawful R) (hi : TextLaw R inner ofText) (script : Script) :
    (blocks : List (List Script.Command)) →
      BlockLaw R (runOf (Session.firstBlock inner script blocks))
        (firstBlockEvents inner ofText script blocks)
  | [], s => hR.quiet (.refl s)
  | block :: _, s => hR.runBlock hi script block s

end

theorem runText (hR : Lawful R) (hi : TextLaw R inner ofText) :
    TextLaw R (Session.runText inner) (textEvents inner ofText) := by
  intro text s
  rw [Session.runText, textEvents]
  cases Script.tokenize text with
  | error e => exact hR.complaint (Script.renderLines_ne_empty _ _ _)
  | ok script => simpa [runScript] using hR.runBlock hi script script.commands s

theorem runWithin (hR : Lawful R) (levels : Nat) :
    TextLaw R (Session.runWithin levels) (eventsWithin levels) := by
  induction levels with
  | zero => exact hR.runText fun _ s => hR.quiet (.refl s)
  | succ levels ih => exact hR.runText ih

theorem textLaw_inner (hR : Lawful R) (s : Session) : TextLaw R s.inner s.innerEvents :=
  hR.runWithin _

theorem runSource (hR : Lawful R) (s : Session) (text : String) :
    R s (s.sourceEvents text) (s.runSource text).1 (s.runSource text).2.isNone :=
  hR.runText (hR.textLaw_inner s) text s

end Lawful

end Session

end CommandShell
