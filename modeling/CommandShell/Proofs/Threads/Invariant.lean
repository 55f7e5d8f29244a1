import CommandShell.Proofs.Threads.Machine
import Mathlib.Logic.Relation

namespace CommandShell.Output.Threads

variable {σ φ : Type} {filter : Behaviour Token σ} {format : Behaviour String φ} {capacity : Nat}

-- What is said of each thread and of the queues at its two ends, and what is said of every queue.
structure Local (σ φ : Type) where
  status : Status → Prop := fun _ => True
  boundary : Boundary → Prop := fun _ => True
  producer : Producer → Boundary → Prop
  filter : FilterPhase σ → Boundary → Boundary → Prop
  formatter : FormatPhase φ → Boundary → Writer → Prop

namespace Local

def OfChain (l : Local σ φ) : Chain σ φ → Prop
  | .formatter inlet phase writer => l.boundary inlet ∧ l.formatter phase inlet writer
  | .filter inlet phase rest =>
    l.boundary inlet ∧ l.filter phase inlet rest.inlet ∧ l.OfChain rest

def Of (l : Local σ φ) (s : System σ φ) : Prop :=
  l.status s.status ∧ l.producer s.producer s.chain.inlet ∧ l.OfChain s.chain

-- No thread breaks what is said of it, and none breaks what is said of its neighbours by what it
-- does to the queue that it shares with them.
structure Kept (l : Local σ φ) (filter : Behaviour Token σ) (format : Behaviour String φ)
    (capacity : Nat) : Prop where
  report : ∀ {status outlet}, l.status status → l.producer .joining outlet →
    l.status { status with failure := none } ∧ l.producer (.returned status.failure) outlet
  produce : ∀ {v v' : ProducerView}, ProducerStep capacity v v' → l.status v.status →
    l.boundary v.outlet → l.producer v.producer v.outlet →
    l.status v'.status ∧ l.producer v'.producer v'.outlet
  filters : ∀ {v v' : FilterView σ}, FilterStep filter capacity v v' → l.status v.status →
    l.boundary v.inlet → l.boundary v.outlet → l.filter v.phase v.inlet v.outlet →
    l.status v'.status ∧ l.boundary v'.inlet ∧ l.filter v'.phase v'.inlet v'.outlet
  formats : ∀ {v v' : FormatView φ}, FormatStep format v v' → l.status v.status →
    l.boundary v.inlet → l.formatter v.phase v.inlet v.writer →
    l.status v'.status ∧ l.boundary v'.inlet ∧ l.formatter v'.phase v'.inlet v'.writer
  takesProducer : ∀ {producer outlet outlet'}, outlet.Takes outlet' →
    l.producer producer outlet → l.producer producer outlet'
  takesFilter : ∀ {phase inlet outlet outlet'}, outlet.Takes outlet' →
    l.filter phase inlet outlet → l.filter phase inlet outlet'
  puts : ∀ {inlet inlet'}, inlet.Puts inlet' → l.boundary inlet → l.boundary inlet'
  putsFilter : ∀ {phase inlet inlet' outlet}, inlet.Puts inlet' →
    l.filter phase inlet outlet → l.filter phase inlet' outlet
  putsFormatter : ∀ {phase inlet inlet' writer}, inlet.Puts inlet' →
    l.formatter phase inlet writer → l.formatter phase inlet' writer

end Local

@[simp] theorem Chain.inlet_withInlet (chain : Chain σ φ) (inlet : Boundary) :
    (chain.withInlet inlet).inlet = inlet := by
  cases chain <;> rfl

theorem FilterStep.takes {v v' : FilterView σ} (h : FilterStep filter capacity v v') :
    v.inlet.Takes v'.inlet := by
  cases h with
  | receive h | discard h | drained h => exact .receive h
  | leave => exact .leave
  | drop => exact .drop
  | _ => exact .nothing

theorem FilterStep.puts {v v' : FilterView σ} (h : FilterStep filter capacity v v') :
    v.outlet.Puts v'.outlet := by
  cases h with
  | send h | finish h => exact .send h
  | hangUp => exact .hangUp
  | _ => exact .nothing

theorem FormatStep.takes {v v' : FormatView φ} (h : FormatStep format v v') :
    v.inlet.Takes v'.inlet := by
  cases h with
  | receive h | discard h | drained h => exact .receive h
  | drop => exact .drop
  | _ => exact .nothing

theorem ProducerStep.puts {v v' : ProducerView} (h : ProducerStep capacity v v') :
    v.outlet.Puts v'.outlet := by
  cases h with
  | send h | refused h | finish h => exact .send h
  | hangUp => exact .hangUp
  | _ => exact .nothing

theorem ChainStep.takes {chain chain' : Chain σ φ} {status status' : Status}
    (h : ChainStep filter format capacity chain status chain' status') :
    chain.inlet.Takes chain'.inlet := by
  cases h with
  | formatter h => exact h.takes
  | filter h => exact h.takes
  | rest => exact .nothing

namespace Local.Kept

variable {l : Local σ φ}

theorem boundary_of_chain {chain : Chain σ φ} (h : l.OfChain chain) : l.boundary chain.inlet := by
  cases chain with
  | formatter => exact h.1
  | filter => exact h.1

theorem ofChain_withInlet (k : l.Kept filter format capacity) {chain : Chain σ φ}
    {inlet : Boundary} (hp : chain.inlet.Puts inlet) (h : l.OfChain chain) :
    l.OfChain (chain.withInlet inlet) := by
  cases chain with
  | formatter => exact ⟨k.puts hp h.1, k.putsFormatter hp h.2⟩
  | filter => exact ⟨k.puts hp h.1, k.putsFilter hp h.2.1, h.2.2⟩

theorem ofChain (k : l.Kept filter format capacity) {chain chain' : Chain σ φ}
    {status status' : Status} (h : ChainStep filter format capacity chain status chain' status')
    (hs : l.status status) (hc : l.OfChain chain) : l.status status' ∧ l.OfChain chain' := by
  induction h with
  | formatter h => exact k.formats h hs hc.1 hc.2
  | filter h =>
    obtain ⟨hb, hf, hr⟩ := hc
    obtain ⟨hs', hb', hf'⟩ := k.filters h hs hb (boundary_of_chain hr) hf
    refine ⟨hs', hb', ?_, k.ofChain_withInlet h.puts hr⟩
    rw [Chain.inlet_withInlet]
    exact hf'
  | rest h ih =>
    obtain ⟨hb, hf, hr⟩ := hc
    obtain ⟨hs', hr'⟩ := ih hs hr
    exact ⟨hs', hb, k.takesFilter h.takes hf, hr'⟩

theorem of_step (k : l.Kept filter format capacity) {s s' : System σ φ}
    (h : Step filter format capacity s s') (hl : l.Of s) : l.Of s' := by
  obtain ⟨hs, hp, hc⟩ := hl
  cases h with
  | produce h =>
    obtain ⟨hs', hp'⟩ := k.produce h hs (boundary_of_chain hc) hp
    refine ⟨hs', ?_, k.ofChain_withInlet h.puts hc⟩
    rw [Chain.inlet_withInlet]
    exact hp'
  | report =>
    obtain ⟨hs', hp'⟩ := k.report hs hp
    exact ⟨hs', hp', hc⟩
  | stage h =>
    obtain ⟨hs', hc'⟩ := k.ofChain h hs hc
    exact ⟨hs', k.takesProducer h.takes hp, hc'⟩

theorem of_reachable (k : l.Kept filter format capacity) {s s' : System σ φ}
    (h : Relation.ReflTransGen (Step filter format capacity) s s') (hl : l.Of s) : l.Of s' := by
  induction h with
  | refl => exact hl
  | tail _ hs ih => exact k.of_step hs ih

end Local.Kept

end CommandShell.Output.Threads
