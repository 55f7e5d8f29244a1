import CommandShell.Proofs.Session.Cancelling
import CommandShell.Proofs.Session.Events
import CommandShell.Session.Reading

namespace CommandShell.Session

-- A property of sessions that no command takes away by what it does itself.  While a text is
-- sourced, its session has the property `Q` instead.
structure Steady (P Q : Session → Prop) : Prop where
  world : ∀ {s} (w : World), P s → P { s with world := w }
  cancellation : ∀ {s} (e : Cancellation.Event), P s →
    P { s with cancellation := s.cancellation.react e }
  requests : ∀ {s} (n : Nat), P s → P { s with requests := n }
  config : ∀ {s} (c : Config), P s → P { s with config := c }
  exit : ∀ {s}, P s → P { s with exiting := true }
  cd : ∀ {s} (target : String), P s → P (s.cd target)
  vars : ∀ {s} (vars : Dictionary String), P s → P { s with context := { s.context with vars } }
  enter : ∀ {s}, P s → s.depth < maxDepth → Q { s with depth := s.depth + 1 }
  leave : ∀ {s}, Q s → P { s with depth := s.depth - 1 }

-- One that reading lines does not take away either.
structure Stable (P : Session → Prop) : Prop extends Steady P P where
  scanner : ∀ {s} (u : Script.Scanner), P s → P { s with scanner := u }

namespace Course

-- A course whose own sessions are `P` and those of its texts `Q`, as long as what it has run
-- hands back such sessions.
inductive Along (P Q : Session → Prop) : Course → Prop where
  | ends {s : Session} {e : Option Error} (h : P s) : Along P Q (.ends s e)
  | block {s : Session} {next : Session → Option Failure → Course} (h : P s)
      (rest : ∀ s' failure, P s' → Along P Q (next s' failure)) : Along P Q (.block s next)
  | text {text : String} {s : Session} {next : Session → Option Error → Course} (h : Q s)
      (rest : ∀ s' e, Q s' → Along P Q (next s' e)) : Along P Q (.text text s next)

variable {P Q : Session → Prop} {inner : TextRun} {block : BlockRun} {k : Course}

-- Such a course ends in a session like its own.
theorem Along.last (hk : k.Along P Q) (hi : ∀ text s, Q s → Q (inner text s).1)
    (hb : ∀ s, P s → P (block s).1) : P (k.run inner block).1 := by
  induction hk with
  | ends h => exact h
  | block h rest ih => exact ih _ _ (hb _ h)
  | text h rest ih => exact ih _ _ (hi _ _ h)

end Course

open Course

namespace Steady

variable {P Q : Session → Prop} (hP : Steady P Q) {a : Activity} {s : Session}
include hP

theorem afterEvents (h : P s) (events : List Cancellation.Event) :
    P { s with cancellation := s.cancellation.run events } := by
  induction events generalizing s with
  | nil => exact h
  | cons e rest ih => exact ih (hP.cancellation e h)

theorem apply (h : P s) (c : Handler.Change) : P (s.apply c) := by
  cases c with
  | cd path => exact hP.cd path h
  | setVar name value => exact hP.vars _ h
  | unsetVar name => exact hP.vars _ h
  | files change => exact hP.world _ h
  | raise => exact hP.cancellation .raise h
  | wait =>
    rw [Session.apply, Cancellation.pollAll_eq_run]
    exact hP.afterEvents h _

theorem following {next : Activity → Option Failure → Course}
    (hn : ∀ a' failure, P a'.session → (next a' failure).Along P Q) (hasBlock : Bool)
    {body : Handler.Body} (h : P a.session) :
    (Activity.following hasBlock next body a).Along P Q := by
  induction body generalizing a with
  | ends failure => exact hn a failure h
  | look rest ih => exact ih _ h
  | change c rest ih => exact ih (hP.apply h c)
  | output use rest ih => exact ih _ (hP.world _ h)
  | closeOutput rest ih => exact ih _ (hP.world _ h)
  | block rest ih => exact .block h fun s' failure hs' => ih failure hs'

theorem ofActivity (h : P a.session) (c : Handler.Command) (hasBlock : Bool) :
    (a.course c hasBlock).Along P Q := by
  have hb := hP.cancellation (.start a.request.id) h
  unfold Activity.course
  exact hP.following (fun a' failure ha' => .ends (hP.world _ (hP.cancellation .finish ha'))) _ hb

theorem ofSource (h : P s) (file : String) : (sourceCourse s file).Along P Q := by
  simp only [sourceCourse]
  split
  · exact .ends h
  · next hd =>
    split
    · exact .ends h
    · exact .text (hP.enter h (by omega)) fun s' e hs' => .ends (hP.leave hs')

-- A builtin that runs no file.
theorem runBuiltin (h : P s) {inner : TextRun} {b : Builtin} (hb : b ≠ .source)
    (args : Binding.Args) : P (Session.runBuiltin s inner b args).1 := by
  simp only [Session.runBuiltin]
  split
  · exact h
  · cases b with
    | cd => exact hP.cd _ h
    | exit => exact hP.exit h
    | reload =>
      dsimp only
      split
      · exact h
      · exact hP.config _ h
    | source => exact absurd rfl hb

theorem ofRegistered {script : Script} {c : Script.Command} (h : P s)
    (handler : Handler.Command) (name : String) (args : Binding.Args) :
    (registeredCourse s script c handler name args).Along P Q := by
  simp only [registeredCourse]
  split
  · exact .ends h
  · split
    · exact .ends (hP.requests _ h)
    · have counted : P { s with requests := s.requests + 1 } := hP.requests _ h
      exact hP.ofActivity counted handler _

-- Every command that is dispatched keeps to the property.
theorem course (h : P s) (script : Script) (c : Script.Command) :
    (Session.course s script c).Along P Q := by
  simp only [Session.course]
  split
  · split
    · exact .ends h
    · exact hP.ofSource h _
  · next hb _ => exact .ends (hP.runBuiltin h hb _)
  · exact hP.ofRegistered h _ _ _
  · exact .ends h

end Steady

-- Blocks and texts that are run in such a session, with all that is dispatched meanwhile.
def BlockHolds (P : Session → Prop) (block : BlockRun) (ofBlock : BlockEvents) : Prop :=
  ∀ s, P s → P (block s).1 ∧ ∀ event ∈ ofBlock s, P event.session

def TextHolds (P : Session → Prop) (inner : TextRun) (ofText : TextEvents) : Prop :=
  ∀ text s, P s → P (inner text s).1 ∧ ∀ event ∈ ofText text s, P event.session

variable {P : Session → Prop} {inner : TextRun} {ofText : TextEvents} {s : Session}

theorem Course.Along.during {block : BlockRun} {ofBlock : BlockEvents} {k : Course}
    (hk : k.Along P P) (hi : TextHolds P inner ofText) (hb : BlockHolds P block ofBlock) :
    ∀ event ∈ k.events inner ofText block ofBlock, P event.session := by
  induction hk with
  | ends h => exact List.forall_mem_nil _
  | block h rest ih =>
    obtain ⟨back, during⟩ := hb _ h
    exact List.forall_mem_append.mpr ⟨during, ih _ _ back⟩
  | text h rest ih =>
    obtain ⟨back, during⟩ := hi _ _ h
    exact List.forall_mem_append.mpr ⟨during, ih _ _ back⟩

namespace Stable

mutual

theorem runCommand (hP : Stable P) (hi : TextHolds P inner ofText) (script : Script) :
    (c : Script.Command) → (s : Session) → P s →
      P (Session.runCommand inner script c s).1 ∧
        ∀ event ∈ commandEvents inner ofText script c s, P event.session
  | .mk node blocks redirections, s, h => by
    have followed : dispatch s inner script (.mk node blocks redirections)
        (Session.firstBlock inner script blocks) = _ :=
      dispatch_eq_run (isSome_firstBlock inner script blocks)
    have along := hP.course h script (.mk node blocks redirections)
    have own := hP.firstBlock hi script blocks
    have during := along.during hi own
    have last := along.last (fun text s' h => (hi text s' h).1) fun s' h => (own s' h).1
    rw [← followed] at last
    constructor
    · rw [Session.runCommand]
      generalize dispatch s inner script _ _ = done at last ⊢
      obtain ⟨s', e | e⟩ := done
      · exact last
      · exact hP.world (s'.report script (.mk node blocks redirections) e).world last
    · rw [commandEvents]
      exact List.forall_mem_cons.mpr ⟨h,
        List.forall_mem_append.mpr ⟨during, List.forall_mem_singleton.mpr last⟩⟩

theorem runBlock (hP : Stable P) (hi : TextHolds P inner ofText) (script : Script) :
    (commands : List Script.Command) →
      BlockHolds P (Session.runBlock inner script commands)
        (blockEvents inner ofText script commands)
  | [], s, h => ⟨h, List.forall_mem_nil _⟩
  | c :: rest, s, h => by
    obtain ⟨back, during⟩ := hP.runCommand hi script c s h
    obtain ⟨last, later⟩ := hP.runBlock hi script rest _ back
    rw [Session.runBlock, blockEvents]
    split
    · exact ⟨h, List.forall_mem_nil _⟩
    · exact ⟨last, List.forall_mem_append.mpr ⟨during, later⟩⟩

theorem firstBlock (hP : Stable P) (hi : TextHolds P inner ofText) (script : Script) :
    (blocks : List (List Script.Command)) →
      BlockHolds P (runOf (Session.firstBlock inner script blocks))
        (firstBlockEvents inner ofText script blocks)
  | [], _, h => ⟨h, List.forall_mem_nil _⟩
  | commands :: _, s, h => hP.runBlock hi script commands s h

end

variable (hP : Stable P)
include hP

theorem runText (hi : TextHolds P inner ofText) :
    TextHolds P (Session.runText inner) (textEvents inner ofText) := by
  intro text s h
  rw [Session.runText, textEvents]
  cases Script.tokenize text with
  | error e =>
    have told : P (s.diagnose (Script.renderLines text e.span e.message)) := hP.world _ h
    exact ⟨told, List.forall_mem_nil _⟩
  | ok script => exact hP.runBlock hi script script.commands s h

theorem runWithin (levels : Nat) :
    TextHolds P (Session.runWithin levels) (eventsWithin levels) := by
  induction levels with
  | zero => exact hP.runText fun text s h => ⟨h, List.forall_mem_nil _⟩
  | succ levels ih => exact hP.runText ih

-- It holds of every session that a complete text comes to, and after it.
theorem runSource (text : String) (h : P s) :
    P (s.runSource text).1 ∧ ∀ event ∈ s.sourceEvents text, P event.session :=
  hP.runText (hP.runWithin _) text s h

theorem finishLine (h : P s) : P s.finishLine := by
  unfold Session.finishLine
  split
  · next scanner script _ =>
    exact (hP.runBlock (hP.runWithin _) script script.commands _ (hP.scanner scanner h)).1
  · exact hP.scanner _ (hP.world _ h)

theorem takeLine (text : String) (h : P s) : P (s.takeLine text) := by
  unfold Session.takeLine
  split
  · next scanner e _ => exact hP.scanner _ (hP.world _ (hP.scanner scanner h))
  · next scanner _ =>
    dsimp only
    split
    · exact hP.scanner scanner h
    · exact hP.finishLine (hP.scanner scanner h)

theorem takeEnd (h : P s) : P s.takeEnd := by
  unfold Session.takeEnd
  split
  · exact hP.finishLine h
  · exact h

theorem ask (h : P s) : P s.ask := by
  unfold Session.ask
  split
  · exact hP.world _ h
  · exact h

-- The same for lines that are read one by one.
theorem read (inputs : List Input) (h : P s) : P (s.read inputs).session := by
  induction inputs generalizing s with
  | nil =>
    rw [Session.read]
    split
    · exact h
    · exact hP.takeEnd (hP.ask h)
  | cons input rest ih =>
    rw [Session.read]
    split
    · exact h
    · cases input with
      | line text => exact ih (hP.takeLine text (hP.ask h))
      | interrupt => exact ih (hP.scanner _ (hP.ask h))
      | endOfInput => exact hP.takeEnd (hP.ask h)
      | failure message => exact hP.ask h

end Stable

end CommandShell.Session
