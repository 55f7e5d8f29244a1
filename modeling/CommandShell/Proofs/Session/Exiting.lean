import CommandShell.Handler.Library
import CommandShell.Proofs.Session.Events
import CommandShell.Proofs.Session.Interactive

namespace CommandShell.Session

variable {R : Session → List Event → Session → Bool → Prop} {s s' s'' : Session}
  {es es' : List Event} {ok ok' : Bool}

-- What is dispatched when a logical line is closed.
def finishEvents (s : Session) : List Event :=
  match s.scanner.finish with
  | (scanner, .ok script) =>
    blockEvents s.inner s.innerEvents script script.commands { s with scanner }
  | (_, .error _) => []

def lineEvents (s : Session) (text : String) : List Event :=
  match s.scanner.feed text with
  | (_, some _) => []
  | (scanner, none) => if scanner.expectMore then [] else { s with scanner }.finishEvents

def endEvents (s : Session) : List Event :=
  if s.scanner.expectMore then s.finishEvents else []

-- What is dispatched while a reader is read.
def readEvents (s : Session) : List Input → List Event
  | [] => if s.exiting then [] else s.ask.endEvents
  | input :: rest =>
    if s.exiting then []
    else
      match input with
      | .line text => s.ask.lineEvents text ++ (s.ask.takeLine text).readEvents rest
      | .interrupt => { s.ask with scanner := s.scanner.reset }.readEvents rest
      | .endOfInput => s.ask.endEvents
      | .failure _ => []

namespace Lawful

theorem discardLine (hR : Lawful R) (s : Session) (e : Script.LexError) :
    ∃ ok, R s [] (s.discardLine e) ok :=
  ⟨_, hR.append (hR.complaint (Script.renderLines_ne_empty s.scanner.source e.span e.message))
    (hR.quiet ⟨rfl, id, rfl⟩)⟩

theorem finishLine (hR : Lawful R) (s : Session) : ∃ ok, R s s.finishEvents s.finishLine ok := by
  unfold finishEvents Session.finishLine
  generalize s.scanner.finish = finished
  obtain ⟨scanner, e | script⟩ := finished
  · exact hR.discardLine s e
  · have hrun := hR.runBlock (hR.textLaw_inner s) script script.commands { s with scanner }
    exact ⟨_, hR.of_quiet hrun ⟨rfl, id, rfl⟩⟩

theorem takeLine (hR : Lawful R) (s : Session) (text : String) :
    ∃ ok, R s (s.lineEvents text) (s.takeLine text) ok := by
  unfold lineEvents Session.takeLine
  generalize s.scanner.feed text = fed
  obtain ⟨scanner, e | e⟩ := fed
  · dsimp only
    split
    · exact ⟨_, hR.quiet ⟨rfl, id, rfl⟩⟩
    · obtain ⟨ok, hf⟩ := hR.finishLine { s with scanner }
      exact ⟨_, hR.of_quiet hf ⟨rfl, id, rfl⟩⟩
  · obtain ⟨ok, hd⟩ := hR.discardLine { s with scanner } e
    exact ⟨_, hR.of_quiet hd ⟨rfl, id, rfl⟩⟩

theorem takeEnd (hR : Lawful R) (s : Session) : ∃ ok, R s s.endEvents s.takeEnd ok := by
  unfold endEvents Session.takeEnd
  split
  · exact hR.finishLine s
  · exact ⟨_, hR.quiet (.refl s)⟩

theorem quiet_ask (s : Session) : Quiet s s.ask := by
  unfold ask
  split
  · exact ⟨s.world.diagnostics_deliver _ _, id, rfl⟩
  · exact .refl s

-- The relation can be followed through all that is read.
theorem read (hR : Lawful R) (s : Session) (inputs : List Input) :
    ∃ ok, R s (s.readEvents inputs) (s.read inputs).session ok := by
  have hend (s : Session) : ∃ ok, R s s.ask.endEvents s.ask.takeEnd ok := by
    obtain ⟨ok, he⟩ := hR.takeEnd s.ask
    exact ⟨_, hR.of_quiet he (quiet_ask s)⟩
  induction inputs generalizing s with
  | nil =>
    unfold readEvents Session.read
    split
    · exact ⟨_, hR.quiet (.refl s)⟩
    · exact hend s
  | cons input rest ih =>
    unfold readEvents Session.read
    split
    · exact ⟨_, hR.quiet (.refl s)⟩
    · cases input with
      | line text =>
        obtain ⟨ok, hl⟩ := hR.takeLine s.ask text
        obtain ⟨ok', hr⟩ := ih (s.ask.takeLine text)
        exact ⟨_, hR.of_quiet (hR.append hl hr) (quiet_ask s)⟩
      | interrupt =>
        obtain ⟨ok, hr⟩ := ih { s.ask with scanner := s.scanner.reset }
        exact ⟨_, hR.of_quiet hr ((quiet_ask s).trans ⟨rfl, id, rfl⟩)⟩
      | endOfInput => exact hend s
      | failure message => exact ⟨_, hR.quiet (quiet_ask s)⟩

end Lawful

-- An exit that succeeded has set the flag.
theorem exiting_of_dispatch {inner : TextRun} {script : Script} {c : Script.Command}
    {block : Option BlockRun} (h : dispatch s inner script c block = (s', none))
    (hn : (script.token c.head).text = "exit") : s'.exiting = true := by
  have hb : Builtin.ofName? (script.token c.head).text = some .exit := by
    rw [hn]
    rfl
  simp only [dispatch, hb, runBuiltin] at h
  split at h
  · cases h
  · cases h
    rfl

-- Once the flag is set it stays set, through all that is noted, and nothing is dispatched while it
-- is.  An exit that succeeded has set it.
structure Orderly (s : Session) (es : List Event) (s' : Session) (ok : Bool) : Prop where
  whole : s.exiting = true → s'.exiting = true
  first : ∀ event ∈ es, s.exiting = true → event.session.exiting = true
  between : es.Pairwise fun a b => a.session.exiting = true → b.session.exiting = true
  last : ∀ event ∈ es, event.session.exiting = true → s'.exiting = true
  began : ∀ {script c s₁}, .began script c s₁ ∈ es → s₁.exiting = false
  exits : ∀ {script c s₁}, .ended script c s₁ none ∈ es →
    (script.token c.head).text = "exit" → s₁.exiting = true

namespace Orderly

theorem of_flag (h : s.exiting = true → s'.exiting = true) : Orderly s [] s' ok := by
  refine ⟨h, ?_, .nil, ?_, ?_, ?_⟩ <;> simp

theorem append (h : Orderly s es s' ok) (h' : Orderly s' es' s'' ok') :
    Orderly s (es ++ es') s'' (ok && ok') where
  whole := h'.whole ∘ h.whole
  first event hm hs := (List.mem_append.1 hm).elim (h.first event · hs)
    (h'.first event · (h.whole hs))
  between := List.pairwise_append.2 ⟨h.between, h'.between, fun a ha b hb hs =>
    h'.first b hb (h.last a ha hs)⟩
  last event hm hs := (List.mem_append.1 hm).elim (fun hm => h'.whole (h.last event hm hs))
    (h'.last event · hs)
  began hm := (List.mem_append.1 hm).elim h.began h'.began
  exits hm hn := (List.mem_append.1 hm).elim (h.exits · hn) (h'.exits · hn)

theorem of_command {inner : TextRun} {script : Script} {c : Script.Command}
    {block : Option BlockRun} {e : Option Error} (he : s.exiting = false)
    (hd : dispatch s inner script c block = (s', e)) (h : Orderly s es s' ok) :
    Orderly s (.began script c s :: (es ++ [.ended script c s' e]))
      (e.elim s' (s'.report script c)) e.isNone := by
  have hreport : (e.elim s' (s'.report script c)).exiting = s'.exiting := by cases e <;> rfl
  have hclosed {p : Prop} (hs : s.exiting = true) : p := by
    rw [he] at hs
    cases hs
  refine ⟨hclosed, fun _ _ => hclosed, ?_, ?_, ?_, ?_⟩
  · refine List.pairwise_cons.2 ⟨fun _ _ => hclosed, List.pairwise_append.2
      ⟨h.between, List.pairwise_singleton _ _, fun a ha b hb hs => ?_⟩⟩
    obtain rfl := List.mem_singleton.1 hb
    exact h.last a ha hs
  · intro event hm hs
    rw [hreport]
    rcases List.mem_cons.1 hm with rfl | hm
    · exact hclosed hs
    · rcases List.mem_append.1 hm with hm | hm
      · exact h.last event hm hs
      · obtain rfl := List.mem_singleton.1 hm
        exact hs
  · intro script' c' s₁ hm
    rcases List.mem_cons.1 hm with hm | hm
    · cases hm
      exact he
    · rcases List.mem_append.1 hm with hm | hm
      · exact h.began hm
      · cases List.mem_singleton.1 hm
  · intro script' c' s₁ hm hn
    rcases List.mem_cons.1 hm with hm | hm
    · cases hm
    · rcases List.mem_append.1 hm with hm | hm
      · exact h.exits hm hn
      · cases List.mem_singleton.1 hm
        exact exiting_of_dispatch hd hn

theorem lawful : Lawful Orderly where
  quiet h := of_flag h.exiting
  append := append
  complaint _ := of_flag id
  command he hd h _ := h.of_command he hd

end Orderly

-- What is done with a session from outside, in any order; the path, the variables and the
-- surroundings can be changed too.
inductive Act where
  | source (text : String)
  | block (script : Script) (commands : List Script.Command)
  | read (inputs : List Input)
  | change (context : Context) (world : World)

-- What an act changes that needs no command.
def Act.apart (s : Session) : Act → Session
  | change context world => { s with context, world }
  | source _ | block _ _ | read _ => s

def act (s : Session) : Act → Session
  | .source text => (s.runSource text).1
  | .block script commands => (runBlock s.inner script commands s).1
  | .read inputs => (s.read inputs).session
  | .change context world => { s with context, world }

def actEvents (s : Session) : Act → List Event
  | .source text => s.sourceEvents text
  | .block script commands => blockEvents s.inner s.innerEvents script commands s
  | .read inputs => s.readEvents inputs
  | .change _ _ => []

def acts (s : Session) : List Act → Session
  | [] => s
  | a :: rest => (s.act a).acts rest

-- What is dispatched over all acts.
def actsEvents (s : Session) : List Act → List Event
  | [] => []
  | a :: rest => s.actEvents a ++ (s.act a).actsEvents rest

theorem orderly_act (s : Session) (a : Act) : ∃ ok, Orderly s (s.actEvents a) (s.act a) ok := by
  cases a with
  | source text => exact ⟨_, Orderly.lawful.runSource s text⟩
  | block script commands =>
    exact ⟨_, Orderly.lawful.runBlock (Orderly.lawful.textLaw_inner s) script commands s⟩
  | read inputs => exact Orderly.lawful.read s inputs
  | change context world => exact ⟨true, .of_flag id⟩

theorem orderly_acts (s : Session) (as : List Act) :
    ∃ ok, Orderly s (s.actsEvents as) (s.acts as) ok := by
  induction as generalizing s with
  | nil => exact ⟨true, .of_flag id⟩
  | cons a rest ih =>
    obtain ⟨ok, ha⟩ := orderly_act s a
    obtain ⟨ok', hr⟩ := ih (s.act a)
    exact ⟨_, ha.append hr⟩

theorem diagnose_empty (s : Session) : s.diagnose "" = s := by
  simp [diagnose, World.diagnose]

-- While the flag is set nothing is dispatched, and all that can come of an act is that a text which
-- cannot be read is told about.
theorem act_of_exiting (he : s.exiting = true) (a : Act) :
    s.actEvents a = [] ∧ ∃ told, s.act a = (a.apart s).diagnose told := by
  have hblock (script : Script) (commands : List Script.Command) :
      blockEvents s.inner s.innerEvents script commands s = [] ∧
        (runBlock s.inner script commands s).1 = s := by
    cases commands with
    | nil => exact ⟨rfl, rfl⟩
    | cons c rest =>
      rw [blockEvents, runBlock, if_pos he, if_pos he]
      exact ⟨rfl, rfl⟩
  cases a with
  | source text =>
    simp only [actEvents, act, Act.apart, sourceEvents, textEvents, runSource, runText]
    cases Script.tokenize text with
    | error e => exact ⟨rfl, _, rfl⟩
    | ok script =>
      exact ⟨(hblock script _).1, "",
        (runScript_of_exiting s.inner he script).trans s.diagnose_empty.symm⟩
  | block script commands =>
    exact ⟨(hblock script commands).1, "", (hblock script commands).2.trans s.diagnose_empty.symm⟩
  | read inputs =>
    refine ⟨?_, "", (read_of_exiting he inputs).trans s.diagnose_empty.symm⟩
    cases inputs <;> simp [actEvents, readEvents, he]
  | change context world => exact ⟨rfl, "", (diagnose_empty _).symm⟩

-- Whatever is done with a session: once an exit has succeeded the flag stays set, all that is still
-- noted is the end of what was dispatched before, and nothing that is done later dispatches a
-- command or changes anything on its own.
theorem nothing_dispatched_after_exit (s : Session) (as : List Act) {before after : List Event}
    {script : Script} {c : Script.Command} {s₁ : Session}
    (h : s.actsEvents as = before ++ .ended script c s₁ none :: after)
    (hn : (script.token c.head).text = "exit") :
    s₁.exiting = true ∧ (s.acts as).exiting = true ∧
      (∀ event ∈ after, event.session.exiting = true ∧
        ∃ script c s₂ e, event = .ended script c s₂ e) ∧
      ∀ a, (s.acts as).actEvents a = [] ∧
        ∃ told, (s.acts as).act a = (a.apart (s.acts as)).diagnose told := by
  obtain ⟨ok, ho⟩ := orderly_acts s as
  have hmem : .ended script c s₁ none ∈ s.actsEvents as := by simp [h]
  have hset := ho.exits hmem hn
  have hlast := ho.last _ hmem hset
  refine ⟨hset, hlast, fun event hm => ?_, act_of_exiting hlast⟩
  have hlater := ho.between
  rw [h, List.pairwise_append, List.pairwise_cons] at hlater
  have hflag := hlater.2.1.1 event hm hset
  refine ⟨hflag, ?_⟩
  cases event with
  | ended script c s₂ e => exact ⟨script, c, s₂, e, rfl⟩
  | began script c s₂ =>
    have hopen := ho.began (show .began script c s₂ ∈ s.actsEvents as by simp [h, hm])
    cases hopen.symm.trans hflag

-- The name of the command, and whether it succeeded if it came to its end.
def Event.outcome : Event → String × Option Bool
  | .began script c _ => ((script.token c.head).text, none)
  | .ended script c _ e => ((script.token c.head).text, some e.isNone)

-- An exit in a block: the rest of the block, of the line and of what is read later does not run.
theorem nothing_dispatched_after_exit_of_block :
    let s : Session := { library := .standard }
    let as : List Act := [.source "in a \x7b exit; cd b \x7d; cd c", .source "cd d",
      .read [.line "cd e"]]
    ∃ before after script c s₁, s.actsEvents as = before ++ .ended script c s₁ none :: after ∧
      (script.token c.head).text = "exit" ∧ after.length = 1 ∧ (s.acts as).exiting = true ∧
      ∀ event ∈ after, event.session.exiting = true ∧
        ∃ script c s₂ e, event = .ended script c s₂ e := by
  intro s as
  have hall : (s.actsEvents as).map Event.outcome =
      [("in", none), ("exit", none)] ++ ("exit", some true) :: [("in", some true)] := by
    decide +kernel
  obtain ⟨before, later, h, -, hl⟩ := List.map_eq_append_iff.1 hall
  obtain ⟨exit, after, rfl, he, ha⟩ := List.map_eq_cons_iff.1 hl
  cases exit with
  | began script c s₁ => simp [Event.outcome] at he
  | ended script c s₁ e =>
    obtain ⟨hn, hs⟩ : (script.token c.head).text = "exit" ∧ e = none := by
      simpa [Event.outcome] using he
    subst hs
    have hmain := nothing_dispatched_after_exit s as h hn
    exact ⟨before, after, script, c, s₁, h, hn, by simpa using congrArg List.length ha,
      hmain.2.1, hmain.2.2.1⟩

end CommandShell.Session
