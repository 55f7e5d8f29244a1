import CommandShell.Session.Run

namespace CommandShell

open Output (Pipeline)

namespace Session

-- What no command changes about a session.
structure Kept (s s' : Session) : Prop where
  library : s'.library = s.library
  scanner : s'.scanner = s.scanner
  depth : s'.depth = s.depth
  prompting : s'.prompting = s.prompting

namespace Kept

variable {s s' s'' : Session}

theorem refl (s : Session) : Kept s s := ⟨rfl, rfl, rfl, rfl⟩

theorem trans (h : Kept s s') (h' : Kept s' s'') : Kept s s'' :=
  ⟨h'.library.trans h.library, h'.scanner.trans h.scanner, h'.depth.trans h.depth,
    h'.prompting.trans h.prompting⟩

end Kept

-- The same stages, which other places of a script may have asked for.
structure Chain.Alike (c d : Chain) : Prop where
  pipes : d.pipes.map (·.stage) = c.pipes.map (·.stage)
  formatter : d.formatter.map (·.stage) = c.formatter.map (·.stage)
  sink : d.sink.map (·.stage) = c.sink.map (·.stage)

-- Requests that differ in nothing but the places of their script.
structure Request.Alike (r q : Request) : Prop where
  id : q.id = r.id
  name : q.name = r.name
  options : q.options = r.options
  context : q.context = r.context
  output : q.output = r.output
  chain : r.chain.Alike q.chain

theorem Chain.Alike.refl (c : Chain) : c.Alike c := ⟨rfl, rfl, rfl⟩

theorem Request.Alike.refl (r : Request) : r.Alike r := ⟨rfl, rfl, rfl, rfl, rfl, .refl _⟩

namespace Request.Alike

variable {r q : Request} (w : World)

theorem fault (h : r.Alike q) (message : String) : q.fault message = r.fault message := by
  rw [Request.fault, Request.fault, h.name]

-- Opening the output comes to the same.
theorem openOutput (h : r.Alike q) :
    (q.openOutput w).1 = (r.openOutput w).1 ∧
      (r.openOutput w).2.1.Alike (q.openOutput w).2.1 ∧
      (q.openOutput w).2.2 = (r.openOutput w).2.2 := by
  have hf := h.chain.formatter
  have hs := h.chain.sink
  unfold Request.openOutput
  rw [h.output]
  cases r.output with
  | some output => exact ⟨rfl, h, rfl⟩
  | none =>
    cases hrf : r.chain.formatter with
    | none =>
      rw [hrf, Option.map_none, Option.map_eq_none_iff] at hf
      rw [hf]
      exact ⟨rfl, h, congrArg some (h.fault _)⟩
    | some formatter =>
      rw [hrf, Option.map_some] at hf
      obtain ⟨formatter', hqf, hstage⟩ := Option.map_eq_some_iff.1 hf
      rw [hqf]
      cases hrs : r.chain.sink with
      | none =>
        rw [hrs, Option.map_none, Option.map_eq_none_iff] at hs
        rw [hs]
        exact ⟨rfl, ⟨h.id, h.name, h.options, h.context, rfl, h.chain.pipes, rfl, h.chain.sink⟩,
          congrArg some (h.fault _)⟩
      | some sink =>
        rw [hrs, Option.map_some] at hs
        obtain ⟨sink', hqs, htarget⟩ := Option.map_eq_some_iff.1 hs
        rw [hqs]
        dsimp only
        rw [htarget, h.context]
        generalize sink.stage.connect w r.context.path = connected
        obtain ⟨w', e | ⟨destination, writer⟩⟩ := connected
        · exact ⟨rfl, ⟨h.id, h.name, h.options, rfl, rfl, h.chain.pipes, rfl, rfl⟩, rfl⟩
        · dsimp only
          rw [h.chain.pipes, hstage]
          exact ⟨rfl, ⟨h.id, h.name, h.options, rfl, rfl, rfl, rfl, rfl⟩, rfl⟩

theorem write (h : r.Alike q) (f : Pipeline → Pipeline) :
    (q.write w f).1 = (r.write w f).1 ∧ (r.write w f).2.1.Alike (q.write w f).2.1 ∧
      (q.write w f).2.2 = (r.write w f).2.2 := by
  obtain ⟨hw, hr, hf⟩ := h.openOutput w
  unfold Request.write
  generalize r.openOutput w = opened at hw hr hf ⊢
  generalize q.openOutput w = opened' at hw hr hf ⊢
  obtain ⟨w, r, failure⟩ := opened
  obtain ⟨w', q, failure'⟩ := opened'
  dsimp only at hw hr hf
  subst hw hf
  cases failure' with
  | some e => exact ⟨rfl, hr, rfl⟩
  | none =>
    have ho := congrArg (Option.map fun o => (o.1, f o.2)) hr.output
    exact ⟨rfl, ⟨hr.id, hr.name, hr.options, hr.context, ho, hr.chain⟩, rfl⟩

theorem closeOutput (h : r.Alike q) :
    (q.closeOutput w).1 = (r.closeOutput w).1 ∧
      (r.closeOutput w).2.1.Alike (q.closeOutput w).2.1 ∧
      (q.closeOutput w).2.2 = (r.closeOutput w).2.2 := by
  unfold Request.closeOutput
  rw [h.output]
  cases r.output with
  | none => exact ⟨rfl, h, rfl⟩
  | some output => exact ⟨rfl, ⟨h.id, h.name, h.options, h.context, rfl, h.chain⟩, rfl⟩

end Request.Alike

end Session

namespace Handler

-- Views that differ in nothing but the places of a script.
structure View.Alike (v u : View) : Prop where
  request : v.request.Alike u.request
  hasBlock : u.hasBlock = v.hasBlock
  cancelled : u.cancelled = v.cancelled
  exiting : u.exiting = v.exiting
  context : u.context = v.context
  config : u.config = v.config
  world : u.world = v.world

theorem View.Alike.option {v u : View} (h : v.Alike u) (index : Nat) :
    u.option index = v.option index := by
  rw [View.option, h.request.options, View.option]

-- What is done does not depend on the places of the script.
def Body.Unplaced : Body → Prop
  | .ends _ => True
  | .look next => (∀ v u, v.Alike u → next u = next v) ∧ ∀ v, (next v).Unplaced
  | .change _ next => next.Unplaced
  | .output _ next | .closeOutput next | .block next => ∀ failure, (next failure).Unplaced

end Handler

namespace Session

theorem kept_apply (s : Session) (c : Handler.Change) : Kept s (s.apply c) := by
  cases c <;> exact ⟨rfl, rfl, rfl, rfl⟩

-- The same session with requests that are alike, in the course of what began in session `s₀`.
structure Activity.Twin (s₀ : Session) (a b : Activity) : Prop where
  kept : Kept s₀ a.session
  session : b.session = a.session
  request : a.request.Alike b.request

-- Blocks that do the same in every session that what began in `s₀` can come to.
inductive Block.Twin (s₀ : Session) : Option BlockRun → Option BlockRun → Prop where
  | none : Block.Twin s₀ none none
  | some {run run' : BlockRun}
      (h : ∀ s, Kept s₀ s → run' s = run s ∧ Kept s₀ (run s).1) :
      Block.Twin s₀ (some run) (some run')

namespace Block.Twin

variable {s₀ s : Session} {block block' : Option BlockRun}

theorem isSome (h : Block.Twin s₀ block block') : block'.isSome = block.isSome := by
  cases h <;> rfl

theorem run (h : Block.Twin s₀ block block') (hs : Kept s₀ s) :
    runOf block' s = runOf block s ∧ Kept s₀ (runOf block s).1 := by
  cases h with
  | none => exact ⟨rfl, hs⟩
  | some h => exact h s hs

end Block.Twin

namespace Activity

-- Twins again, and the same failure if any.
structure Ends (s₀ : Session) (r q : Activity × Option Failure) : Prop where
  twin : Twin s₀ r.1 q.1
  failure : q.2 = r.2

namespace Twin

variable {s₀ : Session} {a b : Activity} {block block' : Option BlockRun}

theorem view (h : Twin s₀ a b) (hb : Block.Twin s₀ block block') :
    (a.view block.isSome).Alike (b.view block'.isSome) := by
  have hs := h.session
  refine ⟨h.request, hb.isSome, ?_, ?_, ?_, ?_, ?_⟩
  · simp only [Activity.view, hs, h.request.id]
  · exact congrArg (·.exiting) hs
  · exact congrArg (·.context) hs
  · exact congrArg (·.config) hs
  · exact congrArg (·.world) hs

theorem write (h : Twin s₀ a b) (f : Pipeline → Pipeline) : Ends s₀ (a.write f) (b.write f) := by
  obtain ⟨hw, hr, hf⟩ := h.request.write a.session.world f
  refine ⟨⟨⟨h.kept.library, h.kept.scanner, h.kept.depth, h.kept.prompting⟩, ?_, ?_⟩, ?_⟩
  · simp only [Activity.write, h.session, hw]
  · simpa only [Activity.write, h.session] using hr
  · simpa only [Activity.write, h.session] using hf

theorem closeOutput (h : Twin s₀ a b) : Ends s₀ a.closeOutput b.closeOutput := by
  obtain ⟨hw, hr, hf⟩ := h.request.closeOutput a.session.world
  refine ⟨⟨⟨h.kept.library, h.kept.scanner, h.kept.depth, h.kept.prompting⟩, ?_, ?_⟩, ?_⟩
  · simp only [Activity.closeOutput, h.session, hw]
  · simpa only [Activity.closeOutput, h.session] using hr
  · simpa only [Activity.closeOutput, h.session] using hf

-- A body that does not look at the places of its script does the same for requests that are alike.
theorem follow (h : Twin s₀ a b) (hb : Block.Twin s₀ block block') {body : Handler.Body}
    (hu : body.Unplaced) :
    Ends s₀ (Activity.follow block body a) (Activity.follow block' body b) := by
  induction body generalizing a b with
  | ends failure => exact ⟨h, rfl⟩
  | look rest ih =>
    have same : rest (b.view block'.isSome) = rest (a.view block.isSome) :=
      hu.1 _ _ (h.view hb)
    rw [Activity.follow, Activity.follow, same]
    exact ih _ h (hu.2 _)
  | change c rest ih =>
    exact ih ⟨h.kept.trans (kept_apply _ c), congrArg (·.apply c) h.session, h.request⟩ hu
  | output use rest ih =>
    obtain ⟨ht, hf⟩ := h.write use
    simp only [Activity.follow, hf]
    exact ih _ ht (hu _)
  | closeOutput rest ih =>
    obtain ⟨ht, hf⟩ := h.closeOutput
    simp only [Activity.follow, hf]
    exact ih _ ht (hu _)
  | block rest ih =>
    obtain ⟨he, hk⟩ := hb.run h.kept
    simp only [Activity.follow, h.session, he]
    exact ih _ ⟨hk, rfl, h.request⟩ (hu _)

theorem recancel (h : Twin s₀ a b) (f : Cancellation → Nat → Cancellation) :
    Twin s₀
      { a with session := { a.session with cancellation := f a.session.cancellation a.request.id } }
      { b with session :=
        { b.session with cancellation := f b.session.cancellation b.request.id } } := by
  refine ⟨h.kept.trans ⟨rfl, rfl, rfl, rfl⟩, ?_, h.request⟩
  simp only [h.session, h.request.id]

-- Requests that are alike are carried out alike.
theorem carryOut (h : Twin s₀ a b) (hb : Block.Twin s₀ block block') {c : Handler.Command}
    (hc : c.body.Unplaced) :
    b.carryOut c block' = a.carryOut c block ∧ Kept s₀ (a.carryOut c block).1 := by
  have hperformed : Ends s₀ (Activity.perform _ c block) (Activity.perform _ c block') :=
    (h.recancel Cancellation.start).follow hb hc
  simp only [Activity.carryOut]
  generalize Activity.perform _ c block = r at hperformed ⊢
  generalize Activity.perform _ c block' = q at hperformed ⊢
  obtain ⟨a, failure⟩ := r
  obtain ⟨b, failure'⟩ := q
  obtain ⟨ht, hf⟩ := hperformed
  obtain rfl : failure' = failure := hf
  obtain ⟨hclosed, he⟩ := (ht.recancel fun c _ => c.finish).closeOutput
  exact ⟨Prod.ext hclosed.session (congrArg failure'.or he), hclosed.kept⟩

end Twin

end Activity

end Session

end CommandShell
