import CommandShell.Handler.Library
import CommandShell.Proofs.Session.Frame
import CommandShell.Proofs.Session.Stability
import Mathlib.Logic.Relation

namespace CommandShell.Session

namespace Calls

-- A command that is being carried out, with those that are still to run in its block and whether
-- one before it failed.
structure Place where
  script : Script
  command : Script.Command
  later : List Script.Command
  failed : Bool

-- A command that waits until its block, or the text of the file that it sources, was run.
inductive Frame where
  | block (place : Place) (next : Session → Option Failure → Course)
  | text (place : Place) (next : Session → Option Error → Course)

-- What is being done: a text is to be read, commands are to be run, one of them is being carried
-- out, or a text is at its end.
inductive Control where
  | text (text : String) (s : Session)
  | commands (script : Script) (commands : List Script.Command) (failed : Bool) (s : Session)
  | command (place : Place) (course : Course)
  | returned (s : Session) (e : Option Error)

-- The innermost of the waiting commands is the first.
structure State where
  control : Control
  frames : List Frame

-- What comes of commands some of which failed.
def outcome (failed : Bool) : Option Failure := if failed then some .block else none

-- A block, or the commands of a text, were gone through.
def leave (s : Session) (failed : Bool) : List Frame → State
  | .block place next :: frames => ⟨.command place (next s (outcome failed)), frames⟩
  | frames => ⟨.returned s ((outcome failed).map .run), frames⟩

-- One step, with no bound on how many there are.
def step : State → Option State
  | ⟨.text text s, frames⟩ =>
    match Script.tokenize text with
    | .error e =>
      let told := s.diagnose (Script.renderLines text e.span e.message)
      some ⟨.returned told (some (.lex e)), frames⟩
    | .ok script => some ⟨.commands script script.commands false s, frames⟩
  | ⟨.commands _ [] failed s, frames⟩ => some (leave s failed frames)
  | ⟨.commands script (c :: later) failed s, frames⟩ =>
    if s.exiting then some ⟨.commands script [] failed s, frames⟩
    else some ⟨.command ⟨script, c, later, failed⟩ (course s script c), frames⟩
  | ⟨.command place (.ends s e), frames⟩ =>
    some ⟨.commands place.script place.later (place.failed || e.isSome)
      (e.elim s (s.report place.script place.command)), frames⟩
  | ⟨.command place (.block s next), frames⟩ =>
    match place.command.blocks with
    | [] => some ⟨.command place (next s none), frames⟩
    | commands :: _ => some ⟨.commands place.script commands false s, .block place next :: frames⟩
  | ⟨.command place (.text text s next), frames⟩ => some ⟨.text text s, .text place next :: frames⟩
  | ⟨.returned s e, .text place next :: frames⟩ => some ⟨.command place (next s e), frames⟩
  | ⟨.returned _ _, _⟩ => none

def Steps : State → State → Prop := Relation.ReflTransGen fun st st' => step st = some st'

namespace Frame

def isText : Frame → Bool
  | block _ _ => false
  | text _ _ => true

end Frame

-- How many of the waiting commands source a file.
def sourcing (frames : List Frame) : Nat := frames.countP Frame.isText

@[simp] theorem sourcing_nil : sourcing [] = 0 := rfl

@[simp] theorem sourcing_block (place : Place) (next : Session → Option Failure → Course)
    (frames : List Frame) : sourcing (.block place next :: frames) = sourcing frames :=
  List.countP_cons_of_neg (by simp [Frame.isText])

@[simp] theorem sourcing_text (place : Place) (next : Session → Option Error → Course)
    (frames : List Frame) : sourcing (.text place next :: frames) = sourcing frames + 1 :=
  List.countP_cons_of_pos rfl

namespace Control

def session : Control → Session
  | text _ s | commands _ _ _ s | returned s _ => s
  | command _ (.ends s _) | command _ (.block s _) | command _ (.text _ s _) => s

-- Whether a command has just begun to source a file.
def isSourcing : Control → Bool
  | command _ (.text _ _ _) => true
  | _ => false

end Control

namespace State

-- How many commands are sourcing files, each within the file that the one before it sources.
def nested (st : State) : Nat := sourcing st.frames + st.control.isSourcing.toNat

end State

-- A course whose sessions have the depth `d`, one more where a text is run, and only if that is
-- allowed.
def Level (d : Nat) : Course → Prop :=
  Course.Along (fun s => s.depth = d) fun s => s.depth = d + 1 ∧ d < maxDepth

theorem steady_depth (d : Nat) :
    Steady (fun s => s.depth = d) fun s => s.depth = d + 1 ∧ d < maxDepth where
  world _ h := h
  cancellation _ h := h
  requests _ h := h
  config _ h := h
  exit h := h
  cd _ h := h
  vars _ h := h
  enter h hd := ⟨congrArg (· + 1) h, h ▸ hd⟩
  leave h := by rw [h.1, Nat.add_sub_cancel]

-- The waiting commands go on at their own depths, counted from that of the first text.
def Awaited (base : Nat) : List Frame → Prop
  | [] => True
  | .block _ next :: frames =>
    (∀ s failure, s.depth = base + sourcing frames →
      Level (base + sourcing frames) (next s failure)) ∧ Awaited base frames
  | .text _ next :: frames =>
    base + sourcing frames < maxDepth ∧
      (∀ s e, s.depth = base + sourcing frames + 1 → Level (base + sourcing frames) (next s e)) ∧
      Awaited base frames

theorem Awaited.bound {base : Nat} {frames : List Frame} (h : Awaited base frames) :
    sourcing frames ≤ maxDepth - base := by
  induction frames with
  | nil => exact Nat.zero_le _
  | cons frame frames ih =>
    cases frame with
    | block place next =>
      rw [sourcing_block]
      exact ih h.2
    | text place next =>
      have below := h.1
      rw [sourcing_text]
      omega

-- What holds of every state of a run: the depth of the session is the number of commands that are
-- sourcing files.
structure Sound (base : Nat) (st : State) : Prop where
  control : match st.control with
    | .command _ k => Level (base + sourcing st.frames) k
    | control => control.session.depth = base + sourcing st.frames
  frames : Awaited base st.frames

variable {base : Nat} {st st' : State}

theorem sound_leave {s : Session} {failed : Bool} {frames : List Frame}
    (hd : s.depth = base + sourcing frames) (hf : Awaited base frames) :
    Sound base (leave s failed frames) := by
  match frames with
  | .block place next :: frames =>
    rw [sourcing_block] at hd
    exact ⟨hf.1 s _ hd, hf.2⟩
  | .text _ _ :: _ | [] => exact ⟨hd, hf⟩

-- A command that ends leaves its depth to those behind it; one that has something run waits for it.
theorem Sound.step (h : Sound base st) (hs : step st = some st') : Sound base st' := by
  obtain ⟨control, frames⟩ := st
  obtain ⟨hc, hf⟩ := h
  cases control with
  | text text s =>
    simp only [Calls.step] at hs
    split at hs <;> cases hs
    · exact ⟨hc, hf⟩
    · exact ⟨hc, hf⟩
  | commands script commands failed s =>
    cases commands with
    | nil => cases hs; exact sound_leave hc hf
    | cons c later =>
      simp only [Calls.step] at hs
      split at hs <;> cases hs
      · exact ⟨hc, hf⟩
      · exact ⟨(steady_depth _).course hc script c, hf⟩
  | command place k =>
    cases hc with
    | @ends s e hd =>
      cases hs
      cases e with
      | none => exact ⟨hd, hf⟩
      | some e => exact ⟨hd, hf⟩
    | @block s next hd rest =>
      simp only [Calls.step] at hs
      split at hs <;> cases hs
      · exact ⟨rest s none hd, hf⟩
      · refine ⟨?_, rest, hf⟩
        rw [sourcing_block]
        exact hd
    | @text text s next hd rest =>
      cases hs
      refine ⟨?_, hd.2, fun s' e hs' => rest s' e ⟨hs', hd.2⟩, hf⟩
      rw [sourcing_text]
      exact hd.1
  | returned s e =>
    cases frames with
    | nil => cases hs
    | cons frame frames =>
      cases frame with
      | block place next => cases hs
      | text place next =>
        cases hs
        rw [sourcing_text] at hc
        exact ⟨hf.2.1 s e hc, hf.2.2⟩

theorem Sound.steps (h : Sound base st) (hs : Steps st st') : Sound base st' := by
  induction hs with
  | refl => exact h
  | tail _ hs ih => exact ih.step hs

theorem Sound.depth (h : Sound base st) : st.control.session.depth = base + st.nested := by
  obtain ⟨control, frames⟩ := st
  obtain ⟨hc, -⟩ := h
  cases control with
  | text | commands | returned => exact hc
  | command place k =>
    cases hc with
    | ends hd => exact hd
    | block hd => exact hd
    | text hd => exact hd.1

theorem Sound.nested_le (h : Sound base st) : st.nested ≤ maxDepth - base := by
  have bound := h.frames.bound
  obtain ⟨control, frames⟩ := st
  obtain ⟨hc, -⟩ := h
  cases control with
  | text | commands | returned => exact bound
  | command place k =>
    cases hc with
    | ends => exact bound
    | block => exact bound
    | text hd =>
      have below : base + sourcing frames < maxDepth := hd.2
      show sourcing frames + 1 ≤ maxDepth - base
      omega

-- What ends here is a text, and not the block of a waiting command.
def AtText : List Frame → Prop
  | .block _ _ :: _ => False
  | _ => True

theorem leave_of_atText {frames : List Frame} (h : AtText frames) (s : Session) (failed : Bool) :
    leave s failed frames = ⟨.returned s ((outcome failed).map .run), frames⟩ := by
  match frames, h with
  | .text _ _ :: _, _ | [], _ => rfl

-- A block fails as a block, or not at all.
theorem outcome_runBlock (inner : TextRun) (script : Script) (commands : List Script.Command)
    (s : Session) :
    outcome (runBlock inner script commands s).2.isSome = (runBlock inner script commands s).2 := by
  induction commands generalizing s with
  | nil => rfl
  | cons c later ih =>
    rw [runBlock]
    split
    · rfl
    · have hl := ih (runCommand inner script c s).1
      generalize runCommand inner script c s = ran at hl ⊢
      obtain ⟨s', ok⟩ := ran
      cases ok with
      | true => exact hl
      | false => rfl

theorem right_unique : Relator.RightUnique fun st st' => step st = some st' :=
  fun _ _ _ h h' => Option.some.inj (h.symm.trans h')

theorem steps_single (h : step st = some st') : Steps st st' := Relation.ReflTransGen.single h

theorem Steps.trans {st'' : State} (h : Steps st st') (h' : Steps st' st'') : Steps st st'' :=
  Relation.ReflTransGen.trans h h'

-- A run that comes to an end gets there from wherever it is.
theorem steps_last {start last : State} (hl : Steps start last) (hn : step last = none)
    (h : Steps start st) : Steps st last := by
  rcases Relation.ReflTransGen.total_of_right_unique right_unique h hl with h | h
  · exact h
  · cases h.cases_head with
    | inl he => exact he ▸ .refl
    | inr further =>
      obtain ⟨next, first, -⟩ := further
      rw [hn] at first
      cases first

-- The steps from a text that is to be read lead to where `inner` ends.
def TextSteps (inner : TextRun) (d : Nat) : Prop :=
  ∀ text s frames, s.depth = d → AtText frames →
    Steps ⟨.text text s, frames⟩ ⟨.returned (inner text s).1 (inner text s).2, frames⟩

-- The steps through commands lead to where `run` ends, whoever waits.
def BlockSteps (run : BlockRun) (script : Script) (commands : List Script.Command) (d : Nat) :
    Prop :=
  ∀ s frames failed, s.depth = d →
    Steps ⟨.commands script commands failed s, frames⟩
      ⟨.commands script [] (failed || (run s).2.isSome) (run s).1, frames⟩

variable {inner : TextRun} {d : Nat} {place : Place}

-- The steps of a command follow its course.
theorem steps_course {k : Course} (hk : Level d k) (hi : d < maxDepth → TextSteps inner (d + 1))
    (keeps : TextKeeps inner)
    (hb : ∀ commands ∈ place.command.blocks.head?,
      BlockSteps (runBlock inner place.script commands) place.script commands d)
    (frames : List Frame) :
    let done := k.run inner (runOf (firstBlock inner place.script place.command.blocks))
    Steps ⟨.command place k, frames⟩ ⟨.command place (.ends done.1 done.2), frames⟩ := by
  induction hk with
  | ends hd => exact .refl
  | @block s next hd rest ih =>
    cases hbs : place.command.blocks with
    | nil =>
      have first : step ⟨.command place (.block s next), frames⟩ =
          some ⟨.command place (next s none), frames⟩ := by
        simp only [step, hbs]
      rw [hbs] at ih
      exact (steps_single first).trans (ih s none hd)
    | cons commands others =>
      let ran := runBlock inner place.script commands s
      have first : step ⟨.command place (.block s next), frames⟩ =
          some ⟨.commands place.script commands false s, .block place next :: frames⟩ := by
        simp only [step, hbs]
      have through := hb commands (by rw [hbs]; rfl) s (.block place next :: frames) false hd
      have last : step ⟨.commands place.script [] (false || ran.2.isSome) ran.1,
          .block place next :: frames⟩ = some ⟨.command place (next ran.1 ran.2), frames⟩ := by
        rw [Bool.false_or, step, leave, outcome_runBlock]
      have kept : ran.1.depth = d :=
        (keeps_runBlock keeps place.script commands s).depth.trans hd
      rw [hbs] at ih
      exact (((steps_single first).trans through).trans (steps_single last)).trans
        (ih ran.1 ran.2 kept)
  | @text text s next hd rest ih =>
    obtain ⟨hd, below⟩ := hd
    have first : step ⟨.command place (.text text s next), frames⟩ =
        some ⟨.text text s, .text place next :: frames⟩ := rfl
    have through := hi below text s (.text place next :: frames) hd trivial
    have last : step ⟨.returned (inner text s).1 (inner text s).2, .text place next :: frames⟩ =
        some ⟨.command place (next (inner text s).1 (inner text s).2), frames⟩ := rfl
    have kept : (inner text s).1.depth = d + 1 := (keeps text s).depth.trans hd
    exact (((steps_single first).trans through).trans (steps_single last)).trans
      (ih _ _ ⟨kept, below⟩)

mutual

theorem steps_command (hi : d < maxDepth → TextSteps inner (d + 1)) (keeps : TextKeeps inner)
    (script : Script) : (c : Script.Command) → (s : Session) → s.depth = d →
      (later : List Script.Command) → (failed : Bool) → (frames : List Frame) →
      Steps ⟨.command ⟨script, c, later, failed⟩ (course s script c), frames⟩
        ⟨.commands script later (failed || !(runCommand inner script c s).2)
          (runCommand inner script c s).1, frames⟩
  | .mk node blocks redirections, s, hd, later, failed, frames => by
    let place : Place := ⟨script, .mk node blocks redirections, later, failed⟩
    have level : Level d (course s script (.mk node blocks redirections)) :=
      (steady_depth d).course hd script _
    let done := dispatch s inner script (.mk node blocks redirections)
      (firstBlock inner script blocks)
    have through : Steps ⟨.command place (course s script (.mk node blocks redirections)), frames⟩
        ⟨.command place (.ends done.1 done.2), frames⟩ := by
      rw [show done = _ from dispatch_eq_run (isSome_firstBlock inner script blocks)]
      have own : ∀ commands ∈ place.command.blocks.head?,
          BlockSteps (runBlock inner place.script commands) place.script commands d :=
        steps_firstBlock hi keeps script blocks
      exact steps_course level hi keeps own frames
    rw [runCommand, show dispatch s inner script _ _ = done from rfl]
    obtain ⟨s', e | e⟩ := done
    · exact through.trans (steps_single rfl)
    · exact through.trans (steps_single rfl)

theorem steps_runBlock (hi : d < maxDepth → TextSteps inner (d + 1)) (keeps : TextKeeps inner)
    (script : Script) : (commands : List Script.Command) →
      BlockSteps (runBlock inner script commands) script commands d
  | [], s, frames, failed, _ => by
    rw [runBlock, Option.isSome_none, Bool.or_false]
    exact .refl
  | c :: later, s, frames, failed, hd => by
    by_cases he : s.exiting = true
    · have first : step ⟨.commands script (c :: later) failed s, frames⟩ =
          some ⟨.commands script [] failed s, frames⟩ := if_pos he
      rw [runBlock, if_pos he, Option.isSome_none, Bool.or_false]
      exact steps_single first
    · have first : step ⟨.commands script (c :: later) failed s, frames⟩ =
          some ⟨.command ⟨script, c, later, failed⟩ (course s script c), frames⟩ := if_neg he
      have through := steps_command hi keeps script c s hd later failed frames
      have kept : (runCommand inner script c s).1.depth = d :=
        (kept_runCommand keeps script c s).depth.trans hd
      have rest := steps_runBlock hi keeps script later _ frames
        (failed || !(runCommand inner script c s).2) kept
      have whole := ((steps_single first).trans through).trans rest
      rw [runBlock, if_neg he]
      generalize runCommand inner script c s = ran at whole ⊢
      obtain ⟨s', ok⟩ := ran
      cases ok with
      | true => simpa using whole
      | false => simpa using whole

theorem steps_firstBlock (hi : d < maxDepth → TextSteps inner (d + 1)) (keeps : TextKeeps inner)
    (script : Script) : (blocks : List (List Script.Command)) → ∀ commands ∈ blocks.head?,
      BlockSteps (runBlock inner script commands) script commands d
  | [], _, h => by cases h
  | block :: _, commands, h => by
    obtain rfl : block = commands := Option.some.inj h
    exact steps_runBlock hi keeps script block

end

-- A text is run at the depth of its session, if those one level deeper can be.
theorem textSteps_runText (hi : d < maxDepth → TextSteps inner (d + 1)) (keeps : TextKeeps inner) :
    TextSteps (runText inner) d := by
  intro text s frames hd ha
  rw [runText]
  cases ht : Script.tokenize text with
  | error e =>
    refine steps_single ?_
    simp only [step, ht]
  | ok script =>
    have first : step ⟨.text text s, frames⟩ =
        some ⟨.commands script script.commands false s, frames⟩ := by
      simp only [step, ht]
    let ran := runBlock inner script script.commands s
    have through := steps_runBlock hi keeps script script.commands s frames false hd
    have last : step ⟨.commands script [] (false || ran.2.isSome) ran.1, frames⟩ =
        some ⟨.returned (runScript inner s script).1 (runScript inner s script).2, frames⟩ := by
      rw [Bool.false_or, step, leave_of_atText ha, outcome_runBlock]
      rfl
    exact ((steps_single first).trans through).trans (steps_single last)

-- Induction on the levels that are left; at the last one no file is sourced.
theorem textSteps_runWithin (levels : Nat) (h : levels = maxDepth - d) :
    TextSteps (runWithin levels) d := by
  induction levels generalizing d with
  | zero =>
    have none_left : ¬d < maxDepth := by omega
    exact textSteps_runText (fun below => absurd below none_left) fun text s => .refl s
  | succ levels ih =>
    exact textSteps_runText (fun below => ih (by omega)) (textKeeps_runWithin levels)

-- The steps from a text come to an end, with what it is said to give.
theorem steps_runSource (s : Session) (text : String) :
    Steps ⟨.text text s, []⟩ ⟨.returned (s.runSource text).1 (s.runSource text).2, []⟩ := by
  refine textSteps_runText (fun below => ?_) (textKeeps_inner s) text s [] rfl trivial
  exact textSteps_runWithin _ rfl

-- Whatever is in the files, and however they change: every way to run a text ends, at most 16
-- commands source files at a time, each within the file of the one before it, and the depth of the
-- session, which counts them, is afterwards what it was.
theorem runSource_returns (s : Session) (text : String) :
    let start : State := ⟨.text text s, []⟩
    let last : State := ⟨.returned (s.runSource text).1 (s.runSource text).2, []⟩
    Steps start last ∧ step last = none ∧
      (∀ st, Steps start st → Steps st last ∧ st.nested ≤ maxDepth - s.depth ∧
        st.control.session.depth = s.depth + st.nested) ∧
      (s.runSource text).1.depth = s.depth := by
  intro start last
  have sound : Sound s.depth start := ⟨rfl, trivial⟩
  have ends : Steps start last := steps_runSource s text
  refine ⟨ends, rfl, fun st reached => ⟨?_, ?_, ?_⟩, ?_⟩
  · exact steps_last ends rfl reached
  · exact (sound.steps reached).nested_le
  · exact (sound.steps reached).depth
  · exact (sound.steps ends).depth

-- A file that sources itself is run 16 times, and one more time it is refused.
example :
    let files : World.Disk := ⟨[("a", .file (Text.encodeUtf8 "source a"))]⟩
    let s : Session := { library := .standard, world := { disk := files } }
    (s.sourceEvents "source a").length = 2 * 17 := by
  decide +kernel

end Calls

end CommandShell.Session
