import CommandShell.Proofs.Threads.Outcome

namespace CommandShell.Output.Threads

variable {σ φ : Type} {filter : Behaviour Token σ} {format : Behaviour String φ} {capacity : Nat}

-- What a thread still has to do with failures: those that it comes to report unless it is too
-- late, the one that it is about to report, and the one that it was the first to report and has
-- not written down yet.
structure Account where
  raised : List Failure := []
  failing : List Failure := []
  recording : List Failure := []

-- What the step of a thread does to its account and to what all threads share.  A filter that
-- was turned away takes this for a failure only after another one was reported.
inductive Reports : Account → Status → Account → Status → Prop where
  | work {raised raised' status} (h : raised ⊆ raised') :
      Reports { raised } status { raised := raised' } status
  | raise {e raised status} :
      Reports { raised := e :: raised } status { raised, failing := [e] } status
  | echo {status : Status} (h : status.failed = true) :
      Reports {} status { failing := [.outputClosed] } status
  | failLate {e raised} {status : Status} (h : status.failed = true) :
      Reports { raised, failing := [e] } status { raised } status
  | fail {e raised} {status : Status} (h : status.failed = false) :
      Reports { raised, failing := [e] } status { raised, recording := [e] }
        { status with failed := true }
  | record {e raised} {status : Status} :
      Reports { raised, recording := [e] } status { raised } { status with failure := some e }

namespace FilterPhase

-- The failure that a body has ended with.  That nothing it sends is read any more is none of its
-- own.
def raised : FilterPhase σ → Option Failure
  | running (.stop (some .outputClosed)) => none
  | running (.stop failure) => failure
  | _ => none

def account : FilterPhase σ → Account
  | failing e => { failing := [e] }
  | recording e => { recording := [e] }
  | phase => { raised := phase.raised.toList }

theorem reports_stopped (status : Status) (failure : Option Failure) :
    Reports (running (.stop failure) : FilterPhase σ).account status
      (stopped status failure : FilterPhase σ).account status := by
  cases failure with
  | none => exact .work (List.Subset.refl _)
  | some e =>
    by_cases he : e = .outputClosed
    · subst he
      by_cases hs : status.failed = true
      · rw [stopped, if_pos hs]
        exact .echo hs
      · rw [stopped, if_neg hs]
        exact .work (List.Subset.refl _)
    · cases e with
      | outputClosed => exact absurd rfl he
      | _ => exact .raise

theorem isDrained_stopped (status : Status) (failure : Option Failure) :
    (stopped status failure : FilterPhase σ).isDrained = false := by
  unfold stopped
  split
  · rfl
  · split <;> rfl
  · rfl

end FilterPhase

namespace FormatPhase

-- The failure that a body has ended with, which also flushes the writer.
def raised (writer : Writer) : FormatPhase φ → Option Failure
  | running (.stop failure) => failure.or writer.flush
  | _ => none

def account (writer : Writer) : FormatPhase φ → Account
  | failing e => { failing := [e] }
  | recording e => { recording := [e] }
  | phase => { raised := (phase.raised writer).toList }

theorem reports_stopped (writer : Writer) (status : Status) (failure : Option Failure) :
    Reports ((running (.stop failure) : FormatPhase φ).account writer) status
      ((stopped writer failure : FormatPhase φ).account writer) status := by
  have ha : ((running (.stop failure) : FormatPhase φ).account writer) =
      { raised := (failure.or writer.flush).toList } := rfl
  rw [ha, stopped]
  cases failure.or writer.flush with
  | none => exact .work (List.Subset.refl _)
  | some e => exact .raise

theorem isDrained_stopped (writer : Writer) (failure : Option Failure) :
    (stopped writer failure : FormatPhase φ).isDrained = false := by
  unfold stopped
  split <;> rfl

end FormatPhase

namespace Producer

-- The calls that have not come to an end, apart from one that reports a failure.
def remaining : Producer → List Call
  | ready calls | failing _ calls | recording _ calls => calls
  | asking t calls | sending t calls => .write t :: calls
  | _ => []

def failures : List Call → List Failure
  | [] => []
  | .write _ :: calls => failures calls
  | .fail e :: calls => e :: failures calls

theorem mem_failures {e : Failure} {calls : List Call} : e ∈ failures calls ↔ .fail e ∈ calls := by
  induction calls with
  | nil => simp [failures]
  | cons call calls ih => cases call <;> simp [failures, ih]

def account (producer : Producer) : Account :=
  match producer with
  | failing e calls => { raised := failures calls, failing := [e] }
  | recording e calls => { raised := failures calls, recording := [e] }
  | producer => { raised := failures producer.remaining }

end Producer

def Chain.accounts : Chain σ φ → List Account
  | .formatter _ phase writer => [phase.account writer]
  | .filter _ phase rest => phase.account :: rest.accounts

-- The failures of their own that bodies have ended with and that are still to be reported.
def Chain.raised : Chain σ φ → List Failure
  | .formatter _ phase writer => (phase.raised writer).toList
  | .filter _ phase rest => phase.raised.toList ++ rest.raised

def System.accounts (s : System σ φ) : List Account := s.producer.account :: s.chain.accounts

theorem FilterStep.reports {v v' : FilterView σ} (h : FilterStep filter capacity v v') :
    Reports v.phase.account v.status v'.phase.account v'.status := by
  cases h with
  | stop => exact FilterPhase.reports_stopped _ _
  | failLate h => exact .failLate h
  | fail h => exact .fail h
  | record => exact .record
  | _ => exact .work (List.nil_subset _)

theorem FormatStep.reports {v v' : FormatView φ} (h : FormatStep format v v') :
    Reports (v.phase.account v.writer) v.status (v'.phase.account v'.writer) v'.status := by
  cases h with
  | stop => exact FormatPhase.reports_stopped _ _ _
  | failLate h => exact .failLate h
  | fail h => exact .fail h
  | record => exact .record
  | _ => exact .work (List.nil_subset _)

-- A write of the producer is never refused, as the first stage reads to the end of its input.
theorem ProducerStep.reports {v v' : ProducerView} (h : ProducerStep capacity v v')
    (hb : v.outlet.dropped = true → v.outlet.done = true)
    (ho : v.producer.isOpen = true → v.outlet.Open) :
    Reports v.producer.account v.status v'.producer.account v'.status := by
  cases h with
  | refused h =>
    obtain ⟨hr, -⟩ := (ho rfl).send?_cases hb h
    cases hr
  | giveUp => exact .raise
  | failLate h => exact .failLate h
  | fail h => exact .fail h
  | record => exact .record
  | _ => exact .work (List.Subset.refl _)

-- The producer has nothing to do but some of these calls, and the stream goes on until it closes
-- the output.  A stage that is on its way out has read its input to the end.
def attended (calls : List Call) : Local σ φ where
  boundary b := b.dropped = true → b.done = true
  producer producer outlet :=
    producer.remaining ⊆ calls ∧ (producer.isOpen = true → outlet.Open)
  filter phase inlet _ := phase.isDrained = true → inlet.done = true
  formatter phase inlet _ := phase.isDrained = true → inlet.done = true

variable {calls : List Call}

theorem attended_kept (hc : ∀ call ∈ calls, call ≠ .write .endOfStream) :
    (attended calls : Local σ φ).Kept filter format capacity where
  report _ hp := ⟨trivial, List.nil_subset _, nofun⟩
  produce h _ hb hp := by
    obtain ⟨hr, ho⟩ := hp
    refine ⟨trivial, ?_⟩
    cases h with
    | skip | turnBack => exact ⟨fun _ hm => hr (List.mem_cons_of_mem _ hm), ho⟩
    | giveUp => exact ⟨fun _ hm => hr (List.mem_cons_of_mem _ hm), ho⟩
    | send h =>
      obtain ⟨-, rfl⟩ := (ho rfl).send?_cases hb h
      have ht := hc _ (hr List.mem_cons_self)
      exact ⟨fun _ hm => hr (List.mem_cons_of_mem _ hm),
        fun _ => (ho rfl).push fun he => ht (congrArg Call.write he)⟩
    | refused h =>
      obtain ⟨hn, -⟩ := (ho rfl).send?_cases hb h
      cases hn
    | finish | hangUp => exact ⟨List.nil_subset _, nofun⟩
    | _ => exact ⟨hr, ho⟩
  filters h _ hin _ hp := by
    refine ⟨trivial, ?_⟩
    cases h with
    | receive h | discard h =>
      obtain ⟨-, -, hd⟩ := Boundary.flags_of_receive? h
      exact ⟨fun hc => Boundary.done_mono_of_receive? h (hin (hd ▸ hc)), nofun⟩
    | drained h =>
      have hdone := Boundary.done_of_receive? h
      exact ⟨fun _ => hdone, fun _ => hdone⟩
    | stop => exact ⟨hin, fun hc => absurd hc (by rw [FilterPhase.isDrained_stopped]; nofun)⟩
    | finish | hangUp => exact ⟨hin, hp⟩
    | drop => exact ⟨fun _ => hp rfl, hp⟩
    | _ => exact ⟨hin, nofun⟩
  formats h _ hin hp := by
    refine ⟨trivial, ?_⟩
    cases h with
    | receive h | discard h =>
      obtain ⟨-, -, hd⟩ := Boundary.flags_of_receive? h
      exact ⟨fun hc => Boundary.done_mono_of_receive? h (hin (hd ▸ hc)), nofun⟩
    | drained h =>
      have hdone := Boundary.done_of_receive? h
      exact ⟨fun _ => hdone, fun _ => hdone⟩
    | stop => exact ⟨hin, fun hc => absurd hc (by rw [FormatPhase.isDrained_stopped]; nofun)⟩
    | drop => exact ⟨fun _ => hp rfl, hp⟩
    | _ => exact ⟨hin, nofun⟩
  takesProducer ht hp := ⟨hp.1, fun ho => (hp.2 ho).of_takes ht⟩
  takesFilter _ hp := hp
  puts hq hb := by
    obtain ⟨hdone, -, hdropped⟩ := hq.reader_eq
    exact fun hc => hdone.trans (hb (hdropped ▸ hc))
  putsFilter hq hp hc := hq.reader_eq.1.trans (hp hc)
  putsFormatter hq hp hc := hq.reader_eq.1.trans (hp hc)

theorem attended_start {writer : Writer} {last : Reaction String φ}
    {filters : List (Reaction Token σ)} :
    (attended calls).Of (System.start writer last filters calls) := by
  refine ⟨trivial, ⟨List.Subset.refl _, fun _ => open_start writer last filters⟩, ?_⟩
  unfold System.start
  induction filters with
  | nil => exact ⟨nofun, nofun⟩
  | cons first filters ih => exact ⟨nofun, nofun, ih⟩

-- One thread gets on, and the accounts of the others stay as they are.
def Advances (s s' : System σ φ) : Prop :=
  ∃ before a a' after, s.accounts = before ++ a :: after ∧ s'.accounts = before ++ a' :: after ∧
    Reports a s.status a' s'.status

-- Every account but one is there before the step and after it.
theorem Advances.mem_accounts {s s' : System σ φ} (h : Advances s s') :
    ∃ a ∈ s.accounts, ∃ a' ∈ s'.accounts, Reports a s.status a' s'.status ∧
      (∀ b ∈ s.accounts, b = a ∨ b ∈ s'.accounts) ∧
      ∀ b ∈ s'.accounts, b = a' ∨ b ∈ s.accounts := by
  obtain ⟨before, a, a', after, ha, ha', hr⟩ := h
  refine ⟨a, by simp [ha], a', by simp [ha'], hr, fun b hb => ?_, fun b hb => ?_⟩
  · rw [ha, List.mem_append, List.mem_cons] at hb
    rcases hb with hb | rfl | hb
    · exact .inr (by simp [ha', hb])
    · exact .inl rfl
    · exact .inr (by simp [ha', hb])
  · rw [ha', List.mem_append, List.mem_cons] at hb
    rcases hb with hb | rfl | hb
    · exact .inr (by simp [ha, hb])
    · exact .inl rfl
    · exact .inr (by simp [ha, hb])

theorem accounts_withInlet (chain : Chain σ φ) (inlet : Boundary) :
    (chain.withInlet inlet).accounts = chain.accounts := by
  cases chain <;> rfl

theorem ChainStep.advances {chain chain' : Chain σ φ} {status status' : Status}
    (h : ChainStep filter format capacity chain status chain' status') :
    ∃ before a a' after, chain.accounts = before ++ a :: after ∧
      chain'.accounts = before ++ a' :: after ∧ Reports a status a' status' := by
  induction h with
  | formatter h => exact ⟨[], _, _, [], rfl, rfl, h.reports⟩
  | @filter _ _ _ _ _ _ _ rest h =>
    refine ⟨[], _, _, rest.accounts, rfl, ?_, h.reports⟩
    rw [Chain.accounts, accounts_withInlet, List.nil_append]
  | @rest _ phase _ _ _ _ _ ih =>
    obtain ⟨before, a, a', after, ha, ha', hr⟩ := ih
    refine ⟨phase.account :: before, a, a', after, ?_, ?_, hr⟩
    · rw [Chain.accounts, ha, List.cons_append]
    · rw [Chain.accounts, ha', List.cons_append]

-- A step is that of one thread, or the producer returns when all stages have exited.
theorem Step.advances_or_returns {s s' : System σ φ} (h : Step filter format capacity s s')
    (ha : (attended calls).Of s) :
    Advances s s' ∧ (∀ failure, s'.producer = .returned failure → s.producer = .returned failure) ∨
      s.producer = .joining ∧ s.chain.isExited = true ∧
        s' = ⟨.returned s.status.failure, s.chain, { s.status with failure := none }⟩ := by
  obtain ⟨-, hp, hc⟩ := ha
  cases h with
  | produce h =>
    refine .inl ⟨⟨[], _, _, _, rfl, ?_, h.reports (Local.Kept.boundary_of_chain hc) hp.2⟩, ?_⟩
    · rw [System.accounts, accounts_withInlet, List.nil_append]
    · rintro failure rfl
      cases h
  | report he => exact .inr ⟨rfl, he, rfl⟩
  | @stage producer _ _ _ _ h =>
    obtain ⟨before, a, a', after, ha, ha', hr⟩ := h.advances
    refine .inl ⟨⟨producer.account :: before, a, a', after, ?_, ?_, hr⟩, fun _ hf => hf⟩
    · rw [System.accounts, ha, List.cons_append]
    · rw [System.accounts, ha', List.cons_append]

-- Nothing happens once the producer has returned.
theorem not_step_of_returned {s s' : System σ φ} {failure : Option Failure}
    (hr : s.producer = .returned failure) (he : s.chain.isExited = true) :
    ¬Step filter format capacity s s' := by
  intro h
  cases h with
  | produce h =>
    cases hr
    cases h
  | report => cases hr
  | stage h => exact not_chainStep_of_isExited he h

end CommandShell.Output.Threads
