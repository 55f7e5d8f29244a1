import CommandShell.Proofs.Threads.Invariant
import CommandShell.Proofs.Threads.Termination

namespace CommandShell.Output.Threads

variable {σ φ : Type} {filter : Behaviour Token σ} {format : Behaviour String φ} {capacity : Nat}

-- A thread that cannot take a step has exited or waits at one of its queues.
theorem FilterStep.exists_or_waits (filter : Behaviour Token σ) (capacity : Nat)
    (v : FilterView σ) :
    (∃ v', FilterStep filter capacity v v') ∨ v.phase.isExited = true ∨
      v.inlet.receive? = none ∨ ∃ t, v.outlet.send? capacity t = none := by
  obtain ⟨phase, inlet, outlet, status⟩ := v
  cases phase with
  | running r =>
    cases r with
    | emit t next =>
      cases hs : status.failed with
      | true => exact .inl ⟨_, .refuse hs⟩
      | false => exact .inl ⟨_, .ask hs⟩
    | await state =>
      cases hr : inlet.receive? with
      | none => exact .inr (.inr (.inl rfl))
      | some got => exact .inl ⟨_, .receive hr⟩
    | stop failure => exact .inl ⟨_, .stop⟩
  | asking t next =>
    cases hg : outlet.gone with
    | true => exact .inl ⟨_, .turnBack hg⟩
    | false => exact .inl ⟨_, .proceed hg⟩
  | sending t next =>
    cases hs : outlet.send? capacity t with
    | none => exact .inr (.inr (.inr ⟨t, hs⟩))
    | some sent => exact .inl ⟨_, .send hs⟩
  | failing e =>
    cases hs : status.failed with
    | true => exact .inl ⟨_, .failLate hs⟩
    | false => exact .inl ⟨_, .fail hs⟩
  | recording e => exact .inl ⟨_, .record⟩
  | leaving => exact .inl ⟨_, .leave⟩
  | draining =>
    cases hr : inlet.receive? with
    | none => exact .inr (.inr (.inl rfl))
    | some got =>
      obtain ⟨_ | t, inlet'⟩ := got
      · exact .inl ⟨_, .drained hr⟩
      · exact .inl ⟨_, .discard hr⟩
  | ending =>
    cases hs : outlet.send? capacity .endOfStream with
    | none => exact .inr (.inr (.inr ⟨.endOfStream, hs⟩))
    | some sent => exact .inl ⟨_, .finish hs⟩
  | hangingUp => exact .inl ⟨_, .hangUp⟩
  | dropping => exact .inl ⟨_, .drop⟩
  | exited => exact .inr (.inl rfl)

theorem FormatStep.exists_or_waits (format : Behaviour String φ) (v : FormatView φ) :
    (∃ v', FormatStep format v v') ∨ v.phase.isExited = true ∨ v.inlet.receive? = none := by
  obtain ⟨phase, inlet, writer, status⟩ := v
  cases phase with
  | running r =>
    cases r with
    | emit text next => exact .inl ⟨_, .write⟩
    | await state =>
      cases hr : inlet.receive? with
      | none => exact .inr (.inr rfl)
      | some got => exact .inl ⟨_, .receive hr⟩
    | stop failure => exact .inl ⟨_, .stop⟩
  | failing e =>
    cases hs : status.failed with
    | true => exact .inl ⟨_, .failLate hs⟩
    | false => exact .inl ⟨_, .fail hs⟩
  | recording e => exact .inl ⟨_, .record⟩
  | draining =>
    cases hr : inlet.receive? with
    | none => exact .inr (.inr rfl)
    | some got =>
      obtain ⟨_ | t, inlet'⟩ := got
      · exact .inl ⟨_, .drained hr⟩
      · exact .inl ⟨_, .discard hr⟩
  | dropping => exact .inl ⟨_, .drop⟩
  | exited => exact .inr (.inl rfl)

theorem ProducerStep.exists_or_waits (capacity : Nat) (v : ProducerView) :
    (∃ v', ProducerStep capacity v v') ∨ (∃ t, v.outlet.send? capacity t = none) ∨
      v.producer = .joining ∨ ∃ failure, v.producer = .returned failure := by
  obtain ⟨producer, outlet, status⟩ := v
  cases producer with
  | ready calls =>
    cases calls with
    | nil => exact .inl ⟨_, .close⟩
    | cons call calls =>
      cases call with
      | write t =>
        cases hs : status.failed with
        | true => exact .inl ⟨_, .skip hs⟩
        | false => exact .inl ⟨_, .ask hs⟩
      | fail e => exact .inl ⟨_, .giveUp⟩
  | asking t calls =>
    cases hg : outlet.gone with
    | true => exact .inl ⟨_, .turnBack hg⟩
    | false => exact .inl ⟨_, .proceed hg⟩
  | sending t calls =>
    cases hs : outlet.send? capacity t with
    | none => exact .inr (.inl ⟨t, hs⟩)
    | some sent =>
      obtain ⟨_ | e, outlet'⟩ := sent
      · exact .inl ⟨_, .send hs⟩
      · exact .inl ⟨_, .refused hs⟩
  | failing e calls =>
    cases hs : status.failed with
    | true => exact .inl ⟨_, .failLate hs⟩
    | false => exact .inl ⟨_, .fail hs⟩
  | recording e calls => exact .inl ⟨_, .record⟩
  | ending =>
    cases hs : outlet.send? capacity .endOfStream with
    | none => exact .inr (.inl ⟨.endOfStream, hs⟩)
    | some sent => exact .inl ⟨_, .finish hs⟩
  | hangingUp => exact .inl ⟨_, .hangUp⟩
  | joining => exact .inr (.inr (.inl rfl))
  | returned failure => exact .inr (.inr (.inr ⟨failure, rfl⟩))

def FilterPhase.hasHungUp : FilterPhase σ → Bool
  | dropping | exited => true
  | _ => false

def Producer.hasHungUp : Producer → Bool
  | joining | returned _ => true
  | _ => false

-- Threads give up their queues before they exit: what they write into first, then what they read.
def tidy : Local σ φ where
  producer producer outlet := producer.hasHungUp = true → outlet.cut = true
  filter phase inlet outlet :=
    (phase.hasHungUp = true → outlet.cut = true) ∧ (phase.isExited = true → inlet.dropped = true)
  formatter phase inlet _ := phase.isExited = true → inlet.dropped = true

theorem FilterPhase.stopped_not_ended (status : Status) (failure : Option Failure) :
    (stopped status failure : FilterPhase σ).hasHungUp = false ∧
      (stopped status failure : FilterPhase σ).isExited = false := by
  unfold stopped
  split
  · exact ⟨rfl, rfl⟩
  · split <;> exact ⟨rfl, rfl⟩
  · exact ⟨rfl, rfl⟩

theorem FormatPhase.isExited_stopped (writer : Writer) (failure : Option Failure) :
    (stopped writer failure : FormatPhase φ).isExited = false := by
  unfold stopped
  split <;> rfl

theorem tidy_kept : (tidy : Local σ φ).Kept filter format capacity where
  report _ hp := ⟨trivial, fun _ => hp rfl⟩
  produce h _ _ hp := by
    refine ⟨trivial, ?_⟩
    cases h with
    | hangUp => exact fun _ => rfl
    | _ => exact nofun
  filters h _ _ _ hp := by
    refine ⟨trivial, trivial, ?_⟩
    cases h with
    | stop =>
      obtain ⟨hh, he⟩ := FilterPhase.stopped_not_ended (σ := σ) _ _
      exact ⟨fun hc => absurd hc (by rw [hh]; nofun), fun hc => absurd hc (by rw [he]; nofun)⟩
    | hangUp => exact ⟨fun _ => rfl, nofun⟩
    | drop => exact ⟨fun _ => hp.1 rfl, fun _ => rfl⟩
    | _ => exact ⟨nofun, nofun⟩
  formats h _ _ hp := by
    refine ⟨trivial, trivial, ?_⟩
    cases h with
    | stop => exact fun hc => absurd hc (by rw [FormatPhase.isExited_stopped]; nofun)
    | drop => exact fun _ => rfl
    | _ => exact nofun
  takesProducer ht hp hc := ht.cut_eq.trans (hp hc)
  takesFilter ht hp := ⟨fun hc => ht.cut_eq.trans (hp.1 hc), hp.2⟩
  puts _ _ := trivial
  putsFilter hq hp := ⟨hp.1, fun hc => hq.reader_eq.2.2.trans (hp.2 hc)⟩
  putsFormatter hq hp hc := hq.reader_eq.2.2.trans (hp hc)

namespace Chain

variable {chain : Chain σ φ} {status : Status}

-- The first stage has exited.
def headExited : Chain σ φ → Bool
  | .formatter _ phase _ => phase.isExited
  | .filter _ phase _ => phase.isExited

theorem dropped_of_headExited (ht : tidy.OfChain chain) (he : chain.headExited = true) :
    chain.inlet.dropped = true := by
  cases chain with
  | formatter => exact ht.2 he
  | filter => exact ht.2.1.2 he

-- When no stage can take a step, the first one waits for a token: it cannot wait for the next one
-- to take a token, as that one would do so or has exited.
theorem headExited_or_receive?_of_stuck (ht : tidy.OfChain chain)
    (hs : ∀ chain' status', ¬ChainStep filter format capacity chain status chain' status') :
    chain.headExited = true ∨ chain.inlet.receive? = none := by
  induction chain with
  | formatter inlet phase writer =>
    rcases FormatStep.exists_or_waits format ⟨phase, inlet, writer, status⟩ with ⟨v', h⟩ | h
    · exact absurd (.formatter h) (hs _ _)
    · exact h
  | filter inlet phase rest ih =>
    rcases FilterStep.exists_or_waits filter capacity ⟨phase, inlet, rest.inlet, status⟩ with
      ⟨v', h⟩ | h | h | ⟨t, h⟩
    · exact absurd (.filter h) (hs _ _)
    · exact .inl h
    · exact .inr h
    · have hrest := ih ht.2.2 fun _ _ h => hs _ _ (.rest h)
      obtain ⟨hq, hd⟩ := Boundary.of_send?_eq_none h
      rcases hrest with he | hr
      · rw [dropped_of_headExited ht.2.2 he] at hd
        cases hd
      · exact absurd (Boundary.of_receive?_eq_none hr).1 hq

-- When no stage can take a step and the producer has hung up, all have exited: each one sees that
-- the one before it has.
theorem isExited_of_stuck (ht : tidy.OfChain chain) (hc : chain.inlet.cut = true)
    (hs : ∀ chain' status', ¬ChainStep filter format capacity chain status chain' status') :
    chain.isExited = true := by
  induction chain with
  | formatter inlet phase writer =>
    rcases headExited_or_receive?_of_stuck ht hs with he | hr
    · exact he
    · rw [(Boundary.of_receive?_eq_none hr).2.2] at hc
      cases hc
  | filter inlet phase rest ih =>
    rcases headExited_or_receive?_of_stuck ht hs with he | hr
    · have hh : phase.hasHungUp = true := by
        cases phase <;> first | rfl | cases he
      have hr := ih ht.2.2 (ht.2.1.1 hh) fun _ _ h => hs _ _ (.rest h)
      rw [isExited, hr, Bool.and_true]
      exact he
    · rw [(Boundary.of_receive?_eq_none hr).2.2] at hc
      cases hc

end Chain

-- Some thread can take a step until the producer has returned.
theorem exists_step_or_returned {s : System σ φ} (ht : tidy.Of s) :
    (∃ s', Step filter format capacity s s') ∨ ∃ failure, s.producer = .returned failure := by
  obtain ⟨producer, chain, status⟩ := s
  obtain ⟨-, hp, hc⟩ := ht
  by_cases hs : ∃ chain' status', ChainStep filter format capacity chain status chain' status'
  · obtain ⟨chain', status', h⟩ := hs
    exact .inl ⟨_, .stage h⟩
  · have hstuck : ∀ chain' status', ¬ChainStep filter format capacity chain status chain' status' :=
      fun chain' status' h => hs ⟨chain', status', h⟩
    rcases ProducerStep.exists_or_waits capacity ⟨producer, chain.inlet, status⟩ with
      ⟨v', h⟩ | ⟨t, h⟩ | rfl | h
    · exact .inl ⟨_, .produce h⟩
    · obtain ⟨hq, hd⟩ := Boundary.of_send?_eq_none h
      rcases Chain.headExited_or_receive?_of_stuck hc hstuck with he | hr
      · rw [Chain.dropped_of_headExited hc he] at hd
        cases hd
      · exact absurd (Boundary.of_receive?_eq_none hr).1 hq
    · exact .inl ⟨_, .report (Chain.isExited_of_stuck hc (hp rfl) hstuck)⟩
    · exact .inr h

theorem not_chainStep_of_isExited {chain chain' : Chain σ φ} {status status' : Status}
    (he : chain.isExited = true) :
    ¬ChainStep filter format capacity chain status chain' status' := by
  intro h
  induction h with
  | formatter h => cases h <;> cases he
  | filter h =>
    rw [Chain.isExited, Bool.and_eq_true] at he
    cases h <;> cases he.1
  | rest _ ih =>
    rw [Chain.isExited, Bool.and_eq_true] at he
    exact ih he.2

-- The producer returns after all stages have exited, and nothing happens then.
theorem isExited_of_step {s s' : System σ φ} (h : Step filter format capacity s s')
    (hs : ∀ failure, s.producer = .returned failure → s.chain.isExited = true)
    (failure : Option Failure) (hr : s'.producer = .returned failure) :
    s'.chain.isExited = true := by
  cases h with
  | produce h =>
    cases hr
    cases h
  | report he => exact he
  | stage h => exact absurd h (not_chainStep_of_isExited (hs failure hr))

variable {writer : Writer} {last : Reaction String φ} {filters : List (Reaction Token σ)}
  {calls : List Call} {s : System σ φ}

theorem tidy_start : tidy.Of (System.start writer last filters calls) := by
  refine ⟨trivial, nofun, ?_⟩
  unfold System.start
  induction filters with
  | nil => exact ⟨trivial, nofun⟩
  | cons first filters ih => exact ⟨trivial, ⟨nofun, nofun⟩, ih⟩

theorem isExited_of_reachable {failure : Option Failure}
    (h : Relation.ReflTransGen (Step filter format capacity)
      (System.start writer last filters calls) s)
    (hr : s.producer = .returned failure) : s.chain.isExited = true := by
  induction h generalizing failure with
  | refl => cases hr
  | tail _ hs ih => exact isExited_of_step hs (fun _ => ih) failure hr

-- On every run there comes a state with this property.
inductive Inevitable {S : Type} (step : S → S → Prop) (P : S → Prop) : S → Prop where
  | now {s : S} (h : P s) : Inevitable step P s
  | later {s : S} (goesOn : ∃ s', step s s') (next : ∀ s', step s s' → Inevitable step P s') :
      Inevitable step P s

theorem inevitable_of_acc {S : Type} {step : S → S → Prop} {P : S → Prop} {s : S}
    (ha : Acc (fun s' s => step s s') s)
    (h : ∀ s', Relation.ReflTransGen step s s' → (∃ s'', step s' s'') ∨ P s') :
    Inevitable step P s := by
  induction ha with
  | intro s _ ih =>
    rcases h s .refl with hs | hp
    · exact .later hs fun s' hs' => ih s' hs' fun s'' hr => h s'' (.head hs' hr)
    · exact .now hp

theorem step_or_returned
    (h : Relation.ReflTransGen (Step filter format capacity)
      (System.start writer last filters calls) s) :
    (∃ s', Step filter format capacity s s') ∨
      ∃ failure, s.producer = .returned failure ∧ s.chain.isExited = true := by
  rcases exists_step_or_returned (tidy_kept.of_reachable h tidy_start) with hs | ⟨failure, hf⟩
  · exact .inl hs
  · exact .inr ⟨failure, hf, isExited_of_reachable h hf⟩

-- However the threads get to run and whatever the bodies of the stages do, some thread can take a
-- step until the producer has returned, which it does after all stages have exited.  No run goes
-- on for ever, so the producer does return.
theorem step_until_returned (filter : Behaviour Token σ) (format : Behaviour String φ)
    (capacity : Nat) (writer : Writer) (last : Reaction String φ)
    (filters : List (Reaction Token σ)) (calls : List Call) :
    let start := System.start writer last filters calls
    let returned (s : System σ φ) :=
      ∃ failure, s.producer = .returned failure ∧ s.chain.isExited = true
    (∀ s, Relation.ReflTransGen (Step filter format capacity) start s →
      (∃ s', Step filter format capacity s s') ∨ returned s) ∧
    (¬∃ run : Nat → System σ φ, run 0 = start ∧
      ∀ n, Step filter format capacity (run n) (run (n + 1))) ∧
    Inevitable (Step filter format capacity) returned start := by
  intro start returned
  refine ⟨fun s h => step_or_returned h, no_infinite_run, ?_⟩
  exact inevitable_of_acc (acc_step filter format capacity start) fun s h => step_or_returned h

end CommandShell.Output.Threads
