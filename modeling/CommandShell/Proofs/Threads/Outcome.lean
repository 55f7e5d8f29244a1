import CommandShell.Proofs.Output.Pipeline
import CommandShell.Proofs.Threads.Progress
import CommandShell.Proofs.Threads.Stream

namespace CommandShell.Output

theorem Reaction.meek_closing {ω σ : Type} {Fit : ω → Prop} {Calm : σ → Prop}
    {r : Reaction ω Empty} (h : r.Meek Fit fun _ => True) :
    (r.closing : Reaction ω σ).Meek Fit Calm := by
  induction h with
  | emit fit _ stops ih => exact .emit fit ih (by rw [stops, closing])
  | @await state => cases state
  | stop => exact .stop

theorem Behaviour.outputs_closing {ω σ : Type} {b : Behaviour ω σ} {input : List Token}
    (r : Reaction ω Empty) : b.outputs input r.closing = r.emitted := by
  induction r with
  | emit output next ih => rw [Reaction.closing, outputs_emit, ih, Reaction.emitted]
  | await state => cases state
  | stop failure => exact outputs_stop failure

namespace Threads

variable {σ φ : Type} {filter : Behaviour Token σ} {format : Behaviour String φ} {capacity : Nat}

namespace FilterPhase

-- The end of the stream was not sent yet.
def isOpen : FilterPhase σ → Bool
  | hangingUp | dropping | exited => false
  | _ => true

-- The body has ended, and the next stage was not told of a failure.
def isPast : FilterPhase σ → Bool
  | leaving | draining | ending | hangingUp | dropping | exited => true
  | _ => false

-- The input was read to its end.
def isDrained : FilterPhase σ → Bool
  | ending | hangingUp | dropping | exited => true
  | _ => false

-- What is still done is meek, or it has been told that its output is closed.
def Meek (A : σ → Prop) : FilterPhase σ → Prop
  | running r => r.Meek (· ≠ .endOfStream) A ∨ r = .stop (some .outputClosed)
  | asking t next | sending t next =>
    (Reaction.emit t next).Meek (· ≠ .endOfStream) A
  | failing _ | recording _ => False
  | _ => True

-- Ending in this way is no failure.
theorem stopped_of_meek {A : σ → Prop} {failure : Option Failure}
    (h : (running (.stop failure)).Meek A) : (stopped {} failure : FilterPhase σ) = leaving := by
  rcases h with h | h
  · cases h
    rfl
  · cases h
    rfl

-- The tokens that will still be sent, when this is what is read.
def pending (filter : Behaviour Token σ) (input : List Token) : FilterPhase σ → List Token
  | running r => filter.outputs input r
  | asking t next | sending t next => filter.outputs input (.emit t next)
  | _ => []

theorem pending_of_isPast {phase : FilterPhase σ} (h : phase.isPast = true)
    (input : List Token) : phase.pending filter input = [] := by
  cases phase <;> first | rfl | cases h

end FilterPhase

namespace FormatPhase

def isDrained : FormatPhase φ → Bool
  | dropping | exited => true
  | _ => false

def Meek (B : φ → Prop) : FormatPhase φ → Prop
  | running r => r.Meek (fun _ => True) B
  | failing _ | recording _ => False
  | _ => True

def pending (format : Behaviour String φ) (input : List Token) : FormatPhase φ → List String
  | running r => format.outputs input r
  | _ => []

end FormatPhase

namespace Producer

def isOpen : Producer → Bool
  | hangingUp | joining | returned _ => false
  | _ => true

-- Only tokens are written, and none is the marker.
def Meek : Producer → Prop
  | ready calls => ∀ call ∈ calls, ∃ t, call = .write t ∧ t ≠ .endOfStream
  | asking t calls | sending t calls =>
    t ≠ .endOfStream ∧ ∀ call ∈ calls, ∃ t, call = .write t ∧ t ≠ .endOfStream
  | failing _ _ | recording _ _ => False
  | returned failure => failure = none
  | _ => True

def written : List Call → List Token
  | [] => []
  | .write t :: calls => t :: written calls
  | .fail _ :: calls => written calls

-- The tokens that will still be sent.
def pending : Producer → List Token
  | ready calls => written calls
  | asking t calls | sending t calls => t :: written calls
  | _ => []

end Producer

-- No thread fails, the stream into every queue goes on as long as its writer is there, and a
-- reader gives its queue up at the end of the stream and not before.
def undisturbed (A : σ → Prop) (B : φ → Prop) : Local σ φ where
  status status := status = {}
  boundary b := b.dropped = true → b.done = true
  producer producer outlet := producer.Meek ∧ (producer.isOpen = true → outlet.Open)
  filter phase inlet outlet :=
    phase.Meek A ∧ (phase.isOpen = true → outlet.Open) ∧
      (inlet.gone = true → phase.isPast = true) ∧ (phase.isDrained = true → inlet.done = true)
  formatter phase inlet writer :=
    phase.Meek B ∧ inlet.gone = false ∧ (phase.isDrained = true → inlet.done = true) ∧
      writer.room = none

variable {A : σ → Prop} {B : φ → Prop}

theorem undisturbed_produce {v v' : ProducerView} (h : ProducerStep capacity v v')
    (hs : v.status = {}) (hb : (undisturbed A B).boundary v.outlet)
    (hp : (undisturbed A B).producer v.producer v.outlet) :
    v'.status = {} ∧ (undisturbed A B).producer v'.producer v'.outlet := by
  obtain ⟨hm, ho⟩ := hp
  cases h with
  | skip h | failLate h =>
    subst hs
    cases h
  | ask =>
    obtain ⟨t, hc, ht⟩ := hm _ List.mem_cons_self
    cases hc
    exact ⟨hs, ⟨ht, fun call h => hm call (List.mem_cons_of_mem _ h)⟩, fun _ => ho rfl⟩
  | turnBack => exact ⟨hs, hm.2, fun _ => ho rfl⟩
  | proceed => exact ⟨hs, hm, fun _ => ho rfl⟩
  | send h =>
    obtain ⟨-, rfl⟩ := (ho rfl).send?_cases hb h
    exact ⟨hs, hm.2, fun _ => (ho rfl).push hm.1⟩
  | refused h =>
    obtain ⟨hr, -⟩ := (ho rfl).send?_cases hb h
    cases hr
  | giveUp =>
    obtain ⟨t, hc, -⟩ := hm _ List.mem_cons_self
    cases hc
  | fail | record => cases hm
  | close => exact ⟨hs, trivial, fun _ => ho rfl⟩
  | finish => exact ⟨hs, trivial, nofun⟩
  | hangUp => exact ⟨hs, trivial, nofun⟩

theorem meek_react {ω : Type} {b : Behaviour ω σ} {Fit : ω → Prop} (hb : b.Meek Fit A)
    {state : σ} (hs : A state) {inlet inlet' : Boundary} {got : Option Token}
    (h : inlet.receive? = some (got, inlet')) : (b.react state got).Meek Fit A := by
  cases got with
  | none => exact Reaction.meek_closing (hb.onEnd hs)
  | some t => exact hb.onToken hs (Boundary.of_receive?_some h).2.1

theorem undisturbed_filter (hf : filter.Meek (· ≠ .endOfStream) A) {v v' : FilterView σ}
    (h : FilterStep filter capacity v v') (hs : v.status = {})
    (hin : (undisturbed A B).boundary v.inlet) (hout : (undisturbed A B).boundary v.outlet)
    (hv : (undisturbed A B).filter v.phase v.inlet v.outlet) :
    v'.status = {} ∧ (undisturbed A B).boundary v'.inlet ∧
      (undisturbed A B).filter v'.phase v'.inlet v'.outlet := by
  obtain ⟨hm, ho, hg, hd⟩ := hv
  cases h with
  | receive h =>
    obtain ⟨-, hg', hd'⟩ := Boundary.flags_of_receive? h
    have hdone := Boundary.done_mono_of_receive? h
    rcases hm with hm | hm
    · cases hm with
      | await hs' =>
        refine ⟨hs, fun hc => hdone (hin (hd' ▸ hc)), .inl (meek_react hf hs' h), fun _ => ho rfl,
          fun hc => ?_, nofun⟩
        exact absurd (hg (hg' ▸ hc)) nofun
    · cases hm
  | refuse h | failLate h =>
    subst hs
    cases h
  | ask =>
    rcases hm with hm | hm
    · exact ⟨hs, hin, hm, fun _ => ho rfl, hg, nofun⟩
    · cases hm
  | turnBack =>
    cases hm with
    | emit _ _ stops => exact ⟨hs, hin, .inr stops, fun _ => ho rfl, hg, nofun⟩
  | proceed => exact ⟨hs, hin, hm, fun _ => ho rfl, hg, nofun⟩
  | send h =>
    obtain ⟨rfl, rfl⟩ := (ho rfl).send?_cases hout h
    cases hm with
    | emit fit goesOn => exact ⟨hs, hin, .inl goesOn, fun _ => (ho rfl).push fit, hg, nofun⟩
  | stop =>
    subst hs
    rw [FilterPhase.stopped_of_meek hm]
    exact ⟨rfl, hin, trivial, fun _ => ho rfl, fun _ => rfl, nofun⟩
  | fail | record => cases hm
  | leave => exact ⟨hs, hin, trivial, fun _ => ho rfl, fun _ => rfl, nofun⟩
  | discard h =>
    obtain ⟨-, -, hd'⟩ := Boundary.flags_of_receive? h
    have hdone := Boundary.done_mono_of_receive? h
    exact ⟨hs, fun hc => hdone (hin (hd' ▸ hc)), trivial, fun _ => ho rfl, fun _ => rfl, nofun⟩
  | drained h =>
    have hdone := Boundary.done_of_receive? h
    exact ⟨hs, fun _ => hdone, trivial, fun _ => ho rfl, fun _ => rfl, fun _ => hdone⟩
  | finish => exact ⟨hs, hin, trivial, nofun, fun _ => rfl, fun _ => hd rfl⟩
  | hangUp => exact ⟨hs, hin, trivial, nofun, fun _ => rfl, fun _ => hd rfl⟩
  | drop => exact ⟨hs, fun _ => hd rfl, trivial, nofun, fun _ => rfl, fun _ => hd rfl⟩

theorem undisturbed_formatter (hg : format.Meek (fun _ => True) B) {v v' : FormatView φ}
    (h : FormatStep format v v') (hs : v.status = {}) (hin : (undisturbed A B).boundary v.inlet)
    (hv : (undisturbed A B).formatter v.phase v.inlet v.writer) :
    v'.status = {} ∧ (undisturbed A B).boundary v'.inlet ∧
      (undisturbed A B).formatter v'.phase v'.inlet v'.writer := by
  obtain ⟨hm, hgone, hd, hroom⟩ := hv
  cases h with
  | receive h =>
    obtain ⟨-, hg', hd'⟩ := Boundary.flags_of_receive? h
    have hdone := Boundary.done_mono_of_receive? h
    cases hm with
    | await hs' =>
      exact ⟨hs, fun hc => hdone (hin (hd' ▸ hc)), meek_react hg hs' h, hg'.trans hgone, nofun,
        hroom⟩
  | @write text =>
    cases hm with
    | emit _ goesOn =>
      rw [Writer.write_of_room hroom]
      exact ⟨hs, hin, goesOn, hgone, nofun, hroom⟩
  | stop =>
    cases hm
    rw [FormatPhase.stopped, Writer.flush_of_room hroom]
    exact ⟨hs, hin, trivial, hgone, nofun, hroom⟩
  | failLate | fail | record => cases hm
  | discard h =>
    obtain ⟨-, hg', hd'⟩ := Boundary.flags_of_receive? h
    have hdone := Boundary.done_mono_of_receive? h
    exact ⟨hs, fun hc => hdone (hin (hd' ▸ hc)), trivial, hg'.trans hgone, nofun, hroom⟩
  | drained h =>
    have hdone := Boundary.done_of_receive? h
    exact ⟨hs, fun _ => hdone, trivial, (Boundary.flags_of_receive? h).2.1.trans hgone,
      fun _ => hdone, hroom⟩
  | drop => exact ⟨hs, fun _ => hd rfl, trivial, hgone, fun _ => hd rfl, hroom⟩

theorem undisturbed_kept (hf : filter.Meek (· ≠ .endOfStream) A)
    (hg : format.Meek (fun _ => True) B) : (undisturbed A B).Kept filter format capacity where
  report hs _ := by
    subst hs
    exact ⟨rfl, rfl, nofun⟩
  produce := undisturbed_produce
  filters := undisturbed_filter hf
  formats := undisturbed_formatter hg
  takesProducer ht hp := ⟨hp.1, fun ho => (hp.2 ho).of_takes ht⟩
  takesFilter ht hp := ⟨hp.1, fun ho => (hp.2.1 ho).of_takes ht, hp.2.2⟩
  puts hq hb := by
    obtain ⟨hdone, -, hdropped⟩ := hq.reader_eq
    exact fun hc => hdone.trans (hb (hdropped ▸ hc))
  putsFilter hq hp := by
    obtain ⟨hdone, hgone, -⟩ := hq.reader_eq
    exact ⟨hp.1, hp.2.1, fun hc => hp.2.2.1 (hgone ▸ hc), fun hc => hdone.trans (hp.2.2.2 hc)⟩
  putsFormatter hq hp := by
    obtain ⟨hdone, hgone, -⟩ := hq.reader_eq
    exact ⟨hp.1, hgone.trans hp.2.1, fun hc => hdone.trans (hp.2.2.1 hc), hp.2.2.2⟩

theorem Chain.withInlet_inlet (chain : Chain σ φ) : chain.withInlet chain.inlet = chain := by
  cases chain <;> rfl

-- The bytes that the writer has in the end, when this is what still comes.
def Chain.due (filter : Behaviour Token σ) (format : Behaviour String φ) :
    Chain σ φ → List Token → List UInt8
  | .formatter inlet phase writer, coming =>
    writer.bytes ++ (phase.pending format (inlet.future coming)).flatMap Text.encodeUtf8
  | .filter inlet phase rest, coming =>
    rest.due filter format (phase.pending filter (inlet.future coming))

theorem due_withInlet {chain : Chain σ φ} {inlet : Boundary} {coming coming' : List Token}
    (h : inlet.future coming' = chain.inlet.future coming) :
    (chain.withInlet inlet).due filter format coming' = chain.due filter format coming := by
  cases chain with
  | formatter => rw [Chain.withInlet, Chain.due, Chain.due, h]; rfl
  | filter => rw [Chain.withInlet, Chain.due, Chain.due, h]; rfl

-- What comes makes no difference to a stage that is gone.
theorem due_of_gone {chain : Chain σ φ} (hc : (undisturbed A B).OfChain chain)
    (hg : chain.inlet.gone = true) (coming coming' : List Token) :
    chain.due filter format coming = chain.due filter format coming' := by
  cases chain with
  | formatter =>
    have hf := hc.2.2.1
    rw [Chain.inlet] at hg
    rw [hg] at hf
    cases hf
  | filter =>
    have hp := hc.2.1.2.2.1 hg
    rw [Chain.due, Chain.due, FilterPhase.pending_of_isPast hp, FilterPhase.pending_of_isPast hp]

theorem outputs_of_receive? {ω : Type} {b : Behaviour ω σ} {state : σ} {got : Option Token}
    {inlet inlet' : Boundary} (h : inlet.receive? = some (got, inlet')) (coming : List Token) :
    b.outputs (inlet'.future coming) (b.react state got) =
      b.outputs (inlet.future coming) (.await state) := by
  cases got with
  | none =>
    obtain ⟨hn, hn'⟩ := Boundary.future_of_receive?_none coming h
    rw [hn, hn', Behaviour.react, Behaviour.outputs_closing, Behaviour.outputs_await_nil]
  | some t =>
    rw [Boundary.future_of_receive?_some h, Behaviour.outputs_await_cons]
    rfl

theorem due_of_filterStep {rest : Chain σ φ} {phase : FilterPhase σ} {inlet : Boundary}
    {v' : FilterView σ} (h : FilterStep filter capacity ⟨phase, inlet, rest.inlet, {}⟩ v')
    (hv : (undisturbed A B).filter phase inlet rest.inlet) (hr : (undisturbed A B).OfChain rest)
    (coming : List Token) :
    (rest.withInlet v'.outlet).due filter format
        (v'.phase.pending filter (v'.inlet.future coming)) =
      rest.due filter format (phase.pending filter (inlet.future coming)) := by
  obtain ⟨hm, ho, -⟩ := hv
  have hout := Local.Kept.boundary_of_chain hr
  cases h with
  | receive h =>
    rw [Chain.withInlet_inlet, FilterPhase.pending, FilterPhase.pending, outputs_of_receive? h]
  | refuse h | failLate h => cases h
  | ask => rw [Chain.withInlet_inlet]; rfl
  | turnBack h => rw [Chain.withInlet_inlet]; exact due_of_gone hr h _ _
  | proceed => rw [Chain.withInlet_inlet]; rfl
  | send h =>
    obtain ⟨rfl, rfl⟩ := (ho rfl).send?_cases hout h
    cases hm with
    | emit fit =>
      refine due_withInlet ?_
      rw [Boundary.future_push (ho rfl) fit, FilterPhase.pending, FilterPhase.pending,
        Behaviour.outputs_emit]
  | stop =>
    rw [Chain.withInlet_inlet, FilterPhase.stopped_of_meek hm]
    simp [FilterPhase.pending]
  | fail | record => cases hm
  | leave | discard | drained | drop => rw [Chain.withInlet_inlet]; rfl
  | finish h =>
    obtain ⟨-, rfl⟩ := (ho rfl).send?_cases hout h
    exact due_withInlet (Boundary.future_push_endOfStream (ho rfl))
  | hangUp => exact due_withInlet (Boundary.future_hangUp _)

theorem due_of_formatStep {v v' : FormatView φ} (h : FormatStep format v v')
    (hv : (undisturbed A B).formatter v.phase v.inlet v.writer) (coming : List Token) :
    v'.writer.bytes ++
        (v'.phase.pending format (v'.inlet.future coming)).flatMap Text.encodeUtf8 =
      v.writer.bytes ++
        (v.phase.pending format (v.inlet.future coming)).flatMap Text.encodeUtf8 := by
  obtain ⟨hm, -, -, hroom⟩ := hv
  cases h with
  | receive h => rw [FormatPhase.pending, FormatPhase.pending, outputs_of_receive? h]
  | write =>
    rw [Writer.bytes_write hroom, Writer.write_of_room hroom, FormatPhase.pending,
      FormatPhase.pending, Behaviour.outputs_emit, List.flatMap_cons, List.append_assoc]
  | stop =>
    cases hm
    rw [FormatPhase.stopped, Writer.flush_of_room hroom, FormatPhase.pending,
      Behaviour.outputs_stop]
    rfl
  | failLate | fail | record => cases hm
  | discard | drained | drop => rfl

-- No step of a stage changes what the writer will have in the end.
theorem due_of_chainStep {chain chain' : Chain σ φ} {status status' : Status}
    (h : ChainStep filter format capacity chain status chain' status') (hs : status = {})
    (hc : (undisturbed A B).OfChain chain) (coming : List Token) :
    chain'.due filter format coming = chain.due filter format coming := by
  induction h generalizing coming with
  | formatter h => exact due_of_formatStep h hc.2 coming
  | filter h =>
    subst hs
    exact due_of_filterStep h hc.2.1 hc.2.2 coming
  | rest _ ih => exact ih hs hc.2.2 _

-- No step of the producer does.
theorem due_of_producerStep {chain : Chain σ φ} {producer : Producer} {v' : ProducerView}
    (h : ProducerStep capacity ⟨producer, chain.inlet, {}⟩ v')
    (hp : (undisturbed A B).producer producer chain.inlet)
    (hc : (undisturbed A B).OfChain chain) :
    (chain.withInlet v'.outlet).due filter format v'.producer.pending =
      chain.due filter format producer.pending := by
  obtain ⟨hm, ho⟩ := hp
  have hout := Local.Kept.boundary_of_chain hc
  cases h with
  | skip h | failLate h => cases h
  | ask => rw [Chain.withInlet_inlet]; rfl
  | turnBack h => rw [Chain.withInlet_inlet]; exact due_of_gone hc h _ _
  | proceed => rw [Chain.withInlet_inlet]; rfl
  | send h =>
    obtain ⟨-, rfl⟩ := (ho rfl).send?_cases hout h
    exact due_withInlet (Boundary.future_push (ho rfl) hm.1)
  | refused h =>
    obtain ⟨hr, -⟩ := (ho rfl).send?_cases hout h
    cases hr
  | giveUp =>
    obtain ⟨t, hcall, -⟩ := hm _ List.mem_cons_self
    cases hcall
  | fail | record => cases hm
  | close => rw [Chain.withInlet_inlet]; rfl
  | finish h =>
    obtain ⟨-, rfl⟩ := (ho rfl).send?_cases hout h
    exact due_withInlet (Boundary.future_push_endOfStream (ho rfl))
  | hangUp => exact due_withInlet (Boundary.future_hangUp _)

def System.due (filter : Behaviour Token σ) (format : Behaviour String φ) (s : System σ φ) :
    List UInt8 :=
  s.chain.due filter format s.producer.pending

theorem due_of_step {s s' : System σ φ} (h : Step filter format capacity s s')
    (hu : (undisturbed A B).Of s) : s'.due filter format = s.due filter format := by
  obtain ⟨hs, hp, hc⟩ := hu
  cases h with
  | produce h =>
    cases hs
    exact due_of_producerStep h hp hc
  | report => rfl
  | stage h => exact due_of_chainStep h hs hc _

theorem bytes_of_isExited {chain : Chain σ φ} (h : chain.isExited = true)
    (coming : List Token) : chain.due filter format coming = chain.writer.bytes := by
  induction chain generalizing coming with
  | formatter inlet phase writer =>
    have hp : phase = .exited := by
      cases phase <;> first | rfl | cases h
    subst hp
    simp [Chain.due, FormatPhase.pending, Chain.writer]
  | filter inlet phase rest ih =>
    rw [Chain.isExited, Bool.and_eq_true] at h
    exact ih h.2 _

variable {writer : Writer} {last : Reaction String φ} {filters : List (Reaction Token σ)}
  {calls : List Call} {s : System σ φ}

theorem open_start (writer : Writer) (last : Reaction String φ)
    (filters : List (Reaction Token σ)) : (Chain.start writer last filters).inlet.Open := by
  cases filters <;> exact ⟨nofun, rfl, rfl⟩

theorem undisturbed_start (hw : writer.room = none) (hl : last.Meek (fun _ => True) B)
    (hr : ∀ r ∈ filters, r.Meek (· ≠ .endOfStream) A)
    (hc : ∀ call ∈ calls, ∃ t, call = .write t ∧ t ≠ .endOfStream) :
    (undisturbed A B).Of (System.start writer last filters calls) := by
  refine ⟨rfl, ⟨hc, fun _ => open_start writer last filters⟩, ?_⟩
  unfold System.start
  induction filters with
  | nil => exact ⟨nofun, hl, rfl, nofun, hw⟩
  | cons first filters ih =>
    have hrest := ih fun r h => hr r (List.mem_cons_of_mem _ h)
    exact ⟨nofun, ⟨.inl (hr first List.mem_cons_self), fun _ => open_start writer last filters,
      nofun, nofun⟩, hrest⟩

theorem due_start (coming : List Token) :
    (Chain.start writer last filters).due filter format coming =
      writer.bytes ++ (format.outputs
        (filters.foldl (fun coming r => filter.outputs coming r) coming) last).flatMap
          Text.encodeUtf8 := by
  induction filters generalizing coming with
  | nil => rfl
  | cons first filters ih => exact ih _

-- What is reached from there has the same bytes to come.
theorem undisturbed_of_reachable (hf : filter.Meek (· ≠ .endOfStream) A)
    (hg : format.Meek (fun _ => True) B) {s s' : System σ φ}
    (h : Relation.ReflTransGen (Step filter format capacity) s s')
    (hu : (undisturbed A B).Of s) :
    (undisturbed A B).Of s' ∧ s'.due filter format = s.due filter format := by
  induction h with
  | refl => exact ⟨hu, rfl⟩
  | tail _ hs ih =>
    exact ⟨(undisturbed_kept hf hg).of_step hs ih.1, (due_of_step hs ih.1).trans ih.2⟩

theorem written_map_write (tokens : List Token) :
    Producer.written (tokens.map .write) = tokens := by
  induction tokens with
  | nil => rfl
  | cons t rest ih => rw [List.map_cons, Producer.written, ih]

section Standard

variable {pipes : List Filter} {form : Format} {tokens : List Token}

theorem returned_of_standard (hf : ∀ f ∈ pipes, f.isStandard = true)
    (hg : form.isStandard = true) (ht : ∀ t ∈ tokens, t ≠ .endOfStream)
    {s : System FilterState FormatState} {failure : Option Failure}
    (h : Relation.ReflTransGen (Step FilterState.behaviour FormatState.behaviour capacity)
      (System.start .unlimited form.start (pipes.map Filter.start) (tokens.map .write)) s)
    (hr : s.producer = .returned failure) :
    failure = none ∧ s.chain.writer.bytes = rendered pipes form tokens := by
  have hstart : (undisturbed (·.isStandard = true) (·.isStandard = true)).Of
      (System.start .unlimited form.start (pipes.map Filter.start) (tokens.map .write)) := by
    refine undisturbed_start rfl (Format.meek_start hg) ?_ ?_
    · intro r hr
      obtain ⟨f, h, rfl⟩ := List.mem_map.1 hr
      exact Filter.meek_start (hf f h)
    · intro call hcall
      obtain ⟨t, h, rfl⟩ := List.mem_map.1 hcall
      exact ⟨t, rfl, ht t h⟩
  obtain ⟨⟨-, hp, -⟩, hdue⟩ := undisturbed_of_reachable FilterState.meek_behaviour
    FormatState.meek_behaviour h hstart
  rw [hr] at hp
  refine ⟨hp.1, ?_⟩
  calc s.chain.writer.bytes
      = s.due FilterState.behaviour FormatState.behaviour :=
        (bytes_of_isExited (isExited_of_reachable h hr) _).symm
    _ = (System.start .unlimited form.start (pipes.map Filter.start)
          (tokens.map .write)).due FilterState.behaviour FormatState.behaviour := hdue
    _ = rendered pipes form tokens := by
        rw [System.due, System.start, Producer.pending, written_map_write, due_start,
          List.foldl_map]
        rfl

-- However the threads get to run, closing reports no failure, and the writer then holds what the
-- stages give one after the other, each on all that the one before it gives.  That is also what
-- the stages give when they run in turns.
theorem inevitable_rendered (pipes : List Filter) (form : Format) (capacity : Nat)
    (tokens : List Token) (hf : ∀ f ∈ pipes, f.isStandard = true)
    (hg : form.isStandard = true) (ht : ∀ t ∈ tokens, t ≠ .endOfStream) :
    Inevitable (Step FilterState.behaviour FormatState.behaviour capacity)
      (fun s => s.producer = .returned none ∧
        s.chain.writer.bytes = rendered pipes form tokens)
      (System.start .unlimited form.start (pipes.map Filter.start) (tokens.map .write)) ∧
    let closed := (tokens.foldl Pipeline.write (Pipeline.start pipes form .unlimited)).close
    closed.2 = none ∧ closed.1.bytes = rendered pipes form tokens := by
  refine ⟨?_, Pipeline.close_foldl_write hf hg ht⟩
  refine inevitable_of_acc (acc_step _ _ capacity _) fun s h => ?_
  rcases step_or_returned h with hs | ⟨failure, hr, -⟩
  · exact .inl hs
  · obtain ⟨rfl, hb⟩ := returned_of_standard hf hg ht h hr
    exact .inr ⟨hr, hb⟩

-- Two filters, the first of which stops before the end of its input, with the smallest queues.
theorem inevitable_rendered_of_early_stop :
    let pipes := [Filter.limit 2, .grep "b" false false]
    let tokens := [Token.object none, .value (some "k") (.string "ab"), .close,
      .value none (.string "B"), .value none .null]
    (∀ f ∈ pipes, f.isStandard = true) ∧ Format.text.isStandard = true ∧
      (∀ t ∈ tokens, t ≠ .endOfStream) ∧
      rendered pipes .text tokens = Text.encodeUtf8 "k: ab\n" ∧
      Inevitable (Step FilterState.behaviour FormatState.behaviour 0)
        (fun s => s.producer = .returned none ∧
          s.chain.writer.bytes = rendered pipes .text tokens)
        (System.start .unlimited Format.text.start (pipes.map Filter.start)
          (tokens.map .write)) := by
  intro pipes tokens
  have hf : ∀ f ∈ pipes, f.isStandard = true := by decide
  have ht : ∀ t ∈ tokens, t ≠ .endOfStream := by simp [tokens]
  exact ⟨hf, rfl, ht, by decide +kernel, (inevitable_rendered pipes .text 0 tokens hf rfl ht).1⟩

end Standard

end Threads

end CommandShell.Output
