import CommandShell.Proofs.Threads.Machine

namespace CommandShell.Output.Threads

variable {σ φ : Type} {filter : Behaviour Token σ} {format : Behaviour String φ} {capacity : Nat}

-- The thread of a filter takes finitely many steps, whatever happens to its queues at their other
-- ends and to the rest of the pipeline in between.  What it reads is counted.
inductive FilterHalts (filter : Behaviour Token σ) (capacity : Nat) :
    FilterPhase σ → Boundary → Prop where
  | intro {phase : FilterPhase σ} {inlet : Boundary}
      (next : ∀ {outlet status v'}, FilterStep filter capacity ⟨phase, inlet, outlet, status⟩ v' →
        FilterHalts filter capacity v'.phase v'.inlet) :
      FilterHalts filter capacity phase inlet

namespace FilterHalts

variable {inlet : Boundary}

theorem exited (inlet : Boundary) : FilterHalts filter capacity .exited inlet :=
  .intro nofun

theorem dropping (inlet : Boundary) : FilterHalts filter capacity .dropping inlet := by
  refine .intro fun h => ?_
  cases h with
  | drop => exact exited _

theorem hangingUp (inlet : Boundary) : FilterHalts filter capacity .hangingUp inlet := by
  refine .intro fun h => ?_
  cases h with
  | hangUp => exact dropping _

theorem ending (inlet : Boundary) : FilterHalts filter capacity .ending inlet := by
  refine .intro fun h => ?_
  cases h with
  | finish => exact hangingUp _

-- By induction on what is still to be read.
theorem draining (inlet : Boundary) : FilterHalts filter capacity .draining inlet := by
  induction hn : inlet.unread using Nat.strongRecOn generalizing inlet with
  | ind n ih =>
    refine .intro fun h => ?_
    cases h with
    | discard h =>
      rcases Boundary.unread_of_receive? h with hlt | ⟨hg, -⟩
      · exact ih _ (hn ▸ hlt) _ rfl
      · cases hg
    | drained => exact ending _

theorem leaving (inlet : Boundary) : FilterHalts filter capacity .leaving inlet := by
  refine .intro fun h => ?_
  cases h with
  | leave => exact draining _

theorem recording (e : Failure) (inlet : Boundary) :
    FilterHalts filter capacity (.recording e) inlet := by
  refine .intro fun h => ?_
  cases h with
  | record => exact leaving _

theorem failing (e : Failure) (inlet : Boundary) :
    FilterHalts filter capacity (.failing e) inlet := by
  refine .intro fun h => ?_
  cases h with
  | failLate => exact leaving _
  | fail => exact recording _ _

theorem stopped (status : Status) (failure : Option Failure) (inlet : Boundary) :
    FilterHalts filter capacity (.stopped status failure) inlet := by
  unfold FilterPhase.stopped
  split
  · exact leaving _
  · split
    · exact failing _ _
    · exact leaving _
  · exact failing _ _

theorem stop (failure : Option Failure) (inlet : Boundary) :
    FilterHalts filter capacity (.running (.stop failure)) inlet := by
  refine .intro fun h => ?_
  cases h with
  | stop => exact stopped _ _ _

section Send

variable {t : Token} {next : Option Failure → Reaction Token σ}

theorem sending (hn : ∀ refusal, FilterHalts filter capacity (.running (next refusal)) inlet) :
    FilterHalts filter capacity (.sending t next) inlet := by
  refine .intro fun h => ?_
  cases h with
  | send => exact hn _

theorem asking (hn : ∀ refusal, FilterHalts filter capacity (.running (next refusal)) inlet) :
    FilterHalts filter capacity (.asking t next) inlet := by
  refine .intro fun h => ?_
  cases h with
  | turnBack => exact hn _
  | proceed => exact sending hn

theorem emit (hn : ∀ refusal, FilterHalts filter capacity (.running (next refusal)) inlet) :
    FilterHalts filter capacity (.running (.emit t next)) inlet := by
  refine .intro fun h => ?_
  cases h with
  | refuse => exact hn _
  | ask => exact asking hn

end Send

theorem closing (r : Reaction Token Empty) (inlet : Boundary) :
    FilterHalts filter capacity (.running r.closing) inlet := by
  induction r with
  | emit t next ih => exact emit ih
  | await state => cases state
  | stop failure => exact stop failure inlet

-- By induction on what is still to be read, and for that on the reaction.
theorem running (r : Reaction Token σ) (inlet : Boundary) :
    FilterHalts filter capacity (.running r) inlet := by
  induction hn : inlet.unread using Nat.strongRecOn generalizing r inlet with
  | ind n ih =>
    induction r with
    | emit t next ihr => exact emit ihr
    | await state =>
      refine .intro fun h => ?_
      cases h with
      | receive h =>
        rcases Boundary.unread_of_receive? h with hlt | ⟨rfl, rfl⟩
        · exact ih _ (hn ▸ hlt) _ _ rfl
        · exact closing _ _
    | stop failure => exact stop failure inlet

theorem all (phase : FilterPhase σ) (inlet : Boundary) :
    FilterHalts filter capacity phase inlet := by
  cases phase with
  | running r => exact running r inlet
  | asking t next => exact asking fun _ => running _ inlet
  | sending t next => exact sending fun _ => running _ inlet
  | failing e => exact failing e inlet
  | recording e => exact recording e inlet
  | leaving => exact leaving inlet
  | draining => exact draining inlet
  | ending => exact ending inlet
  | hangingUp => exact hangingUp inlet
  | dropping => exact dropping inlet
  | exited => exact exited inlet

end FilterHalts

inductive FormatHalts (format : Behaviour String φ) : FormatPhase φ → Boundary → Prop where
  | intro {phase : FormatPhase φ} {inlet : Boundary}
      (next : ∀ {writer status v'}, FormatStep format ⟨phase, inlet, writer, status⟩ v' →
        FormatHalts format v'.phase v'.inlet) :
      FormatHalts format phase inlet

namespace FormatHalts

theorem exited (inlet : Boundary) : FormatHalts format .exited inlet :=
  .intro nofun

theorem dropping (inlet : Boundary) : FormatHalts format .dropping inlet := by
  refine .intro fun h => ?_
  cases h with
  | drop => exact exited _

theorem draining (inlet : Boundary) : FormatHalts format .draining inlet := by
  induction hn : inlet.unread using Nat.strongRecOn generalizing inlet with
  | ind n ih =>
    refine .intro fun h => ?_
    cases h with
    | discard h =>
      rcases Boundary.unread_of_receive? h with hlt | ⟨hg, -⟩
      · exact ih _ (hn ▸ hlt) _ rfl
      · cases hg
    | drained => exact dropping _

theorem recording (e : Failure) (inlet : Boundary) : FormatHalts format (.recording e) inlet := by
  refine .intro fun h => ?_
  cases h with
  | record => exact draining _

theorem failing (e : Failure) (inlet : Boundary) : FormatHalts format (.failing e) inlet := by
  refine .intro fun h => ?_
  cases h with
  | failLate => exact draining _
  | fail => exact recording _ _

theorem stop (failure : Option Failure) (inlet : Boundary) :
    FormatHalts format (.running (.stop failure)) inlet := by
  refine .intro fun h => ?_
  cases h with
  | stop =>
    unfold FormatPhase.stopped
    split
    · exact failing _ _
    · exact draining _

theorem emit {text : String} {next : Option Failure → Reaction String φ} {inlet : Boundary}
    (hn : ∀ refusal, FormatHalts format (.running (next refusal)) inlet) :
    FormatHalts format (.running (.emit text next)) inlet := by
  refine .intro fun h => ?_
  cases h with
  | write => exact hn _

theorem closing (r : Reaction String Empty) (inlet : Boundary) :
    FormatHalts format (.running r.closing) inlet := by
  induction r with
  | emit text next ih => exact emit ih
  | await state => cases state
  | stop failure => exact stop failure inlet

theorem running (r : Reaction String φ) (inlet : Boundary) :
    FormatHalts format (.running r) inlet := by
  induction hn : inlet.unread using Nat.strongRecOn generalizing r inlet with
  | ind n ih =>
    induction r with
    | emit text next ihr => exact emit ihr
    | await state =>
      refine .intro fun h => ?_
      cases h with
      | receive h =>
        rcases Boundary.unread_of_receive? h with hlt | ⟨rfl, rfl⟩
        · exact ih _ (hn ▸ hlt) _ _ rfl
        · exact closing _ _
    | stop failure => exact stop failure inlet

theorem all (format : Behaviour String φ) (phase : FormatPhase φ) (inlet : Boundary) :
    FormatHalts format phase inlet := by
  cases phase with
  | running r => exact running r inlet
  | failing e => exact failing e inlet
  | recording e => exact recording e inlet
  | draining => exact draining inlet
  | dropping => exact dropping inlet
  | exited => exact exited inlet

end FormatHalts

-- All stages together take finitely many steps, whatever the producer does in between.
inductive ChainHalts (filter : Behaviour Token σ) (format : Behaviour String φ) (capacity : Nat) :
    Chain σ φ → Prop where
  | intro {chain : Chain σ φ}
      (next : ∀ {status chain' status'},
        ChainStep filter format capacity chain status chain' status' →
        ChainHalts filter format capacity chain') :
      ChainHalts filter format capacity chain

-- The number of filters.
def Chain.depth : Chain σ φ → Nat
  | .formatter _ _ _ => 0
  | .filter _ _ rest => rest.depth + 1

@[simp] theorem Chain.depth_withInlet (chain : Chain σ φ) (inlet : Boundary) :
    (chain.withInlet inlet).depth = chain.depth := by
  cases chain <;> rfl

theorem ChainStep.depth_eq {chain chain' : Chain σ φ} {status status' : Status}
    (h : ChainStep filter format capacity chain status chain' status') :
    chain'.depth = chain.depth := by
  induction h with
  | formatter => rfl
  | filter => simp [Chain.depth]
  | rest _ ih => simp [Chain.depth, ih]

-- A stage and those behind it: by induction on the steps of the stage, after each of which those
-- behind it may be anything, and for that on theirs.
theorem chainHalts_filter {phase : FilterPhase σ} {inlet : Boundary} {rest : Chain σ φ}
    (hf : FilterHalts filter capacity phase inlet)
    (hr : ∀ chain : Chain σ φ, chain.depth = rest.depth →
      ChainHalts filter format capacity chain) :
    ChainHalts filter format capacity (.filter inlet phase rest) := by
  induction hf generalizing rest with
  | intro _ ih =>
    have hrest := hr rest rfl
    induction hrest with
    | intro _ ihr =>
      refine .intro fun h => ?_
      cases h with
      | filter h => exact ih h (by simpa using hr)
      | rest h => exact ihr h (by rwa [h.depth_eq])

theorem chainHalts (filter : Behaviour Token σ) (format : Behaviour String φ) (capacity : Nat)
    (chain : Chain σ φ) : ChainHalts filter format capacity chain := by
  induction hn : chain.depth generalizing chain with
  | zero =>
    cases chain with
    | formatter inlet phase writer =>
      induction FormatHalts.all format phase inlet generalizing writer with
      | intro _ ih =>
        refine .intro fun h => ?_
        cases h with
        | formatter h => exact ih h _ rfl
    | filter => simp [Chain.depth] at hn
  | succ n ih =>
    cases chain with
    | formatter => simp [Chain.depth] at hn
    | filter inlet phase rest =>
      have hd : rest.depth = n := by simpa [Chain.depth] using hn
      exact chainHalts_filter (.all phase inlet) fun chain hc => ih chain (hc.trans hd)

-- How many steps the producer still takes, at most.
def Producer.steps : Producer → Nat
  | ready calls => 6 * calls.length + 4
  | asking _ calls => 6 * calls.length + 9
  | sending _ calls => 6 * calls.length + 8
  | failing _ calls => 6 * calls.length + 7
  | recording _ calls => 6 * calls.length + 6
  | ending => 3
  | hangingUp => 2
  | joining => 1
  | returned _ => 0

theorem ProducerStep.steps_lt {v v' : ProducerView} (h : ProducerStep capacity v v') :
    v'.producer.steps < v.producer.steps := by
  cases h <;> simp [Producer.steps] <;> omega

-- All threads together take finitely many steps, in whatever order they get to run.
theorem acc_step (filter : Behaviour Token σ) (format : Behaviour String φ) (capacity : Nat)
    (s : System σ φ) : Acc (fun s' s => Step filter format capacity s s') s := by
  induction hn : s.producer.steps using Nat.strongRecOn generalizing s with
  | ind n ih =>
    obtain ⟨producer, chain, status⟩ := s
    induction chainHalts filter format capacity chain
      generalizing status with
    | intro _ ihc =>
      refine .intro _ fun s' h => ?_
      cases h with
      | produce h => exact ih _ (hn ▸ h.steps_lt) _ rfl
      | report => exact ih _ (by rw [← hn]; simp [Producer.steps]) _ rfl
      | stage h => exact ihc h _ hn

theorem no_infinite_run {s : System σ φ} :
    ¬∃ run : Nat → System σ φ, run 0 = s ∧
      ∀ n, Step filter format capacity (run n) (run (n + 1)) := by
  induction acc_step filter format capacity s with
  | intro s _ ih =>
    rintro ⟨run, hz, hs⟩
    exact ih (run 1) (hz ▸ hs 0) ⟨fun n => run (n + 1), rfl, fun n => hs (n + 1)⟩

end CommandShell.Output.Threads
