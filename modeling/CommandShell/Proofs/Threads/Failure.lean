import CommandShell.Proofs.Threads.Account
import Mathlib.Data.List.Chain

namespace CommandShell.Output.Threads

variable {σ φ : Type} {filter : Behaviour Token σ} {format : Behaviour String φ} {capacity : Nat}
  {calls : List Call}

-- What happens until the producer has returned with this.
inductive Closes : System σ φ → List (System σ φ) → Option Failure → Prop where
  | returns {chain : Chain σ φ} {status : Status} (h : chain.isExited = true) :
      Closes ⟨.joining, chain, status⟩
        [⟨.returned status.failure, chain, { status with failure := none }⟩] status.failure
  | advances {s s' : System σ φ} {run failure} (h : Advances s s') (rest : Closes s' run failure) :
      Closes s (s' :: run) failure

-- A run of the threads is one of their accounts, and it does not go on behind the return.
theorem closes_of_isChain (hc : ∀ call ∈ calls, call ≠ .write .endOfStream)
    {s last : System σ φ} {run : List (System σ φ)} {failure : Option Failure}
    (h : (s :: run).IsChain (Step filter format capacity)) (ha : (attended calls).Of s)
    (hs : ∀ failure, s.producer ≠ .returned failure) (hl : last ∈ (s :: run).getLast?)
    (hr : last.producer = .returned failure) : Closes s run failure := by
  induction run generalizing s with
  | nil =>
    cases hl
    exact absurd hr (hs failure)
  | cons s' run ih =>
    obtain ⟨hstep, hrest⟩ := List.isChain_cons_cons.1 h
    rcases hstep.advances_or_returns ha with ⟨hadv, hback⟩ | ⟨hj, he, rfl⟩
    · have hs' : ∀ failure, s'.producer ≠ .returned failure := fun failure hf =>
        hs failure (hback failure hf)
      exact .advances hadv (ih hrest ((attended_kept hc).of_step hstep ha) hs' hl)
    · cases run with
      | nil =>
        cases hl
        cases hr
        obtain ⟨producer, chain, status⟩ := s
        cases hj
        exact .returns he
      | cons => exact absurd (List.isChain_cons_cons.1 hrest).1 (not_step_of_returned rfl he)

def System.recording (s : System σ φ) : List Failure := s.accounts.flatMap (·.recording)

-- What was reported first, also while it is not written down yet.
def System.verdict (s : System σ φ) : List Failure := s.recording ++ s.status.failure.toList

-- There is one of these once something was reported.
def System.IsSettled (s : System σ φ) : Prop := s.verdict.length = s.status.failed.toNat

-- The failure that this step makes the first one, if it is one that does.
def won (s s' : System σ φ) : List Failure :=
  if s.status.failed || !s'.status.failed then [] else s'.recording

def winners : List (System σ φ) → List Failure
  | s :: s' :: run => won s s' ++ winners (s' :: run)
  | _ => []

-- A thread reports first only when nobody did, and writes down only what nobody else does.
theorem Reports.verdict {a a' : Account} {status status' : Status}
    (h : Reports a status a' status') (before after : List Failure)
    (hs : (before ++ a.recording ++ after ++ status.failure.toList).length =
      status.failed.toNat) :
    (before ++ a'.recording ++ after ++ status'.failure.toList).length = status'.failed.toNat ∧
      before ++ a.recording ++ after ++ status.failure.toList ++
          (if status.failed || !status'.failed then [] else before ++ a'.recording ++ after) =
        before ++ a'.recording ++ after ++ status'.failure.toList := by
  cases h with
  | work | raise | echo | failLate =>
    refine ⟨hs, ?_⟩
    cases status.failed <;> exact List.append_nil _
  | fail hf =>
    rw [hf] at hs ⊢
    have hnil := List.length_eq_zero_iff.1 hs
    simp only [List.append_eq_nil_iff] at hnil
    obtain ⟨⟨⟨rfl, -⟩, rfl⟩, hn⟩ := hnil
    simp [hn]
  | @record e =>
    have hle : status.failed.toNat ≤ 1 := Bool.toNat_le _
    simp only [List.length_append, List.length_singleton] at hs
    obtain rfl : before = [] := List.length_eq_zero_iff.1 (by omega)
    obtain rfl : after = [] := List.length_eq_zero_iff.1 (by omega)
    have hn : status.failure.toList = [] := List.length_eq_zero_iff.1 (by omega)
    have hf : status.failed.toNat = 1 := by omega
    exact ⟨hf.symm, by simp [hn]⟩

theorem Advances.verdict {s s' : System σ φ} (h : Advances s s') (hs : s.IsSettled) :
    s'.IsSettled ∧ s.verdict ++ won s s' = s'.verdict := by
  obtain ⟨before, a, a', after, ha, ha', hr⟩ := h
  have hrec : s.recording = before.flatMap (·.recording) ++ a.recording ++
      after.flatMap (·.recording) := by
    simp [System.recording, ha]
  have hrec' : s'.recording = before.flatMap (·.recording) ++ a'.recording ++
      after.flatMap (·.recording) := by
    simp [System.recording, ha']
  rw [System.IsSettled, System.verdict, hrec] at hs
  rw [System.IsSettled, won, System.verdict, System.verdict, hrec, hrec']
  exact hr.verdict _ _ hs

-- A thread that has exited has nothing to report.
theorem accounts_of_isExited {chain : Chain σ φ} (h : chain.isExited = true) :
    ∀ a ∈ chain.accounts, a = {} := by
  induction chain with
  | formatter inlet phase writer =>
    cases phase with
    | exited => simp [Chain.accounts, FormatPhase.account, FormatPhase.raised]
    | _ => cases h
  | filter inlet phase rest ih =>
    rw [Chain.isExited, Bool.and_eq_true] at h
    cases phase with
    | exited => simpa [Chain.accounts, FilterPhase.account, FilterPhase.raised] using ih h.2
    | _ => cases h.1

theorem accounts_of_joining {chain : Chain σ φ} {status : Status} (h : chain.isExited = true) :
    ∀ a ∈ (⟨.joining, chain, status⟩ : System σ φ).accounts, a = {} := by
  intro a ha
  rcases List.mem_cons.1 ha with rfl | ha
  · rfl
  · exact accounts_of_isExited h a ha

theorem verdict_of_joining {chain : Chain σ φ} {status : Status} (h : chain.isExited = true) :
    (⟨.joining, chain, status⟩ : System σ φ).verdict = status.failure.toList := by
  have hrec : (⟨.joining, chain, status⟩ : System σ φ).recording = [] := by
    refine List.flatMap_eq_nil_iff.2 fun a ha => ?_
    rw [accounts_of_joining h a ha]
  rw [System.verdict, hrec, List.nil_append]

-- Returning makes no failure the first one.
theorem winners_of_returns (chain : Chain σ φ) (status : Status) (failure : Option Failure) :
    winners [⟨.joining, chain, status⟩,
      ⟨.returned failure, chain, { status with failure := none }⟩] = [] := by
  simp [winners, won]

-- The failure that is the first to be reported is the one that the producer returns with.
theorem Closes.verdict {s : System σ φ} {run : List (System σ φ)} {failure : Option Failure}
    (h : Closes s run failure) (hs : s.IsSettled) :
    s.verdict ++ winners (s :: run) = failure.toList := by
  induction h with
  | returns he =>
    rw [winners_of_returns, verdict_of_joining he, List.append_nil]
  | advances hadv _ ih =>
    obtain ⟨hs', hv⟩ := hadv.verdict hs
    rw [winners, ← List.append_assoc, hv, ih hs']

-- Something was reported or is going to be.
def System.IsStirred (s : System σ φ) : Prop :=
  s.status.failed = true ∨ ∃ a ∈ s.accounts, a.raised ≠ [] ∨ a.failing ≠ []

theorem Chain.mem_raised {chain : Chain σ φ} {e : Failure} :
    e ∈ chain.raised ↔ ∃ a ∈ chain.accounts, e ∈ a.raised := by
  induction chain with
  | formatter inlet phase writer =>
    have ha : (phase.account writer).raised = (phase.raised writer).toList := by
      cases phase <;> rfl
    simp [Chain.raised, Chain.accounts, ha]
  | filter inlet phase rest ih =>
    have ha : phase.account.raised = phase.raised.toList := by
      cases phase <;> rfl
    simp [Chain.raised, Chain.accounts, ha, ih]

theorem System.stirred_of_raised {s : System σ φ} (h : s.chain.raised ≠ []) : s.IsStirred := by
  obtain ⟨e, he⟩ := List.exists_mem_of_ne_nil _ h
  obtain ⟨a, ha, he⟩ := Chain.mem_raised.1 he
  exact .inr ⟨a, List.mem_cons_of_mem _ ha, .inl (List.ne_nil_of_mem he)⟩

theorem Reports.failed_mono {a a' : Account} {status status' : Status}
    (h : Reports a status a' status') (hf : status.failed = true) : status'.failed = true := by
  cases h <;> first | exact hf | rfl

theorem Reports.stirred {a a' : Account} {status status' : Status}
    (h : Reports a status a' status') (ha : a.raised ≠ [] ∨ a.failing ≠ []) :
    status'.failed = true ∨ a'.raised ≠ [] ∨ a'.failing ≠ [] := by
  cases h with
  | work h =>
    rcases ha with ha | ha
    · exact .inr (.inl fun hn => ha (List.subset_nil.1 (hn ▸ h)))
    · exact absurd rfl ha
  | raise | echo => exact .inr (.inr nofun)
  | failLate hf => exact .inl hf
  | fail => exact .inl rfl
  | record =>
    rcases ha with ha | ha
    · exact .inr (.inl ha)
    · exact absurd rfl ha

theorem Advances.stirred {s s' : System σ φ} (h : Advances s s') (hs : s.IsStirred) :
    s'.IsStirred := by
  obtain ⟨a, -, a', ha', hr, hkept, -⟩ := h.mem_accounts
  rcases hs with hf | ⟨b, hb, hp⟩
  · exact .inl (hr.failed_mono hf)
  · rcases hkept b hb with rfl | hb'
    · rcases hr.stirred hp with hf | hp'
      · exact .inl hf
      · exact .inr ⟨a', ha', hp'⟩
    · exact .inr ⟨b, hb', hp⟩

-- What a body ends with on the way is reported before the producer returns.
theorem Closes.isSome {s : System σ φ} {run : List (System σ φ)} {failure : Option Failure}
    (h : Closes s run failure) (hs : s.IsSettled)
    (ht : s.IsStirred ∨ ∃ t ∈ run, t.chain.raised ≠ []) : failure.isSome = true := by
  induction h with
  | @returns chain status he =>
    have hf : status.failed = true := by
      rcases ht with (hf | ⟨a, ha, hp⟩) | ⟨t, ht, hp⟩
      · exact hf
      · rw [accounts_of_joining he a ha] at hp
        rcases hp with hp | hp <;> exact absurd rfl hp
      · rw [List.mem_singleton.1 ht] at hp
        obtain ⟨e, hm⟩ := List.exists_mem_of_ne_nil _ hp
        obtain ⟨a, ha, hm⟩ := Chain.mem_raised.1 hm
        rw [accounts_of_isExited he a ha] at hm
        cases hm
    rw [System.IsSettled, verdict_of_joining he, hf] at hs
    cases hfail : status.failure with
    | none =>
      rw [hfail] at hs
      cases hs
    | some e => rfl
  | advances hadv _ ih =>
    refine ih (hadv.verdict hs).1 ?_
    rcases ht with hstir | ⟨t, ht, hp⟩
    · exact .inl (hadv.stirred hstir)
    · rcases List.mem_cons.1 ht with rfl | ht
      · exact .inl (System.stirred_of_raised hp)
      · exact .inr ⟨t, ht, hp⟩

theorem Reports.recording_of_first {a a' : Account} {status status' : Status}
    (h : Reports a status a' status') (hf : status.failed = false) (hf' : status'.failed = true) :
    a'.recording = a.failing := by
  cases h with
  | fail => rfl
  | _ => exact absurd (hf.symm.trans hf') nofun

-- The failure that a step makes the first one was about to be reported.
theorem Advances.failing_of_won {s s' : System σ φ} (h : Advances s s') (hs : s.IsSettled)
    {e : Failure} (he : e ∈ won s s') : ∃ a ∈ s.accounts, e ∈ a.failing := by
  obtain ⟨a, ha, a', -, hr, -, hkept⟩ := h.mem_accounts
  rw [won] at he
  split at he
  · cases he
  · next hc =>
    obtain ⟨hf, hf'⟩ : s.status.failed = false ∧ s'.status.failed = true := by simpa using hc
    rw [System.IsSettled, hf] at hs
    have hnil := (List.append_eq_nil_iff.1 (List.length_eq_zero_iff.1 hs)).1
    obtain ⟨b, hb, hm⟩ := List.mem_flatMap.1 he
    rcases hkept b hb with rfl | hb
    · rw [hr.recording_of_first hf hf'] at hm
      exact ⟨a, ha, hm⟩
    · rw [List.flatMap_eq_nil_iff.1 hnil b hb] at hm
      cases hm

theorem Reports.failing {a a' : Account} {status status' : Status}
    (h : Reports a status a' status') {e : Failure} (he : e ∈ a'.failing) :
    status'.failed = true ∨ e ∈ a.failing ∨ e ∈ a.raised := by
  cases h with
  | raise =>
    rw [List.mem_singleton.1 he]
    exact .inr (.inr List.mem_cons_self)
  | echo hf => exact .inl hf
  | _ => cases he

-- What is about to be reported was so before the step, or a thread has just come to report it, or
-- it comes too late.
theorem Advances.failing {s s' : System σ φ} (h : Advances s s') {e : Failure}
    (he : ∃ a ∈ s'.accounts, e ∈ a.failing) :
    s'.status.failed = true ∨ ∃ a ∈ s.accounts, e ∈ a.failing ∨ e ∈ a.raised := by
  obtain ⟨a, ha, a', -, hr, -, hkept⟩ := h.mem_accounts
  obtain ⟨b, hb, hm⟩ := he
  rcases hkept b hb with rfl | hb
  · rcases hr.failing hm with hf | hm'
    · exact .inl hf
    · exact .inr ⟨a, ha, hm'⟩
  · exact .inr ⟨b, hb, .inl hm⟩

theorem winners_of_failed {s : System σ φ} {run : List (System σ φ)} {failure : Option Failure}
    (h : Closes s run failure) (hs : s.IsSettled) (hf : s.status.failed = true) :
    winners (s :: run) = [] := by
  have hv := congrArg List.length (h.verdict hs)
  have hle : failure.toList.length ≤ 1 := by cases failure <;> simp
  rw [List.length_append, hs, hf, Bool.toNat_true] at hv
  exact List.length_eq_zero_iff.1 (by omega)

-- A failure that is the first one was about to be reported, or some thread came to report it later.
theorem Closes.raised_of_winner {s : System σ φ} {run : List (System σ φ)}
    {failure : Option Failure} (h : Closes s run failure) (hs : s.IsSettled) {e : Failure}
    (he : e ∈ winners (s :: run)) :
    (∃ a ∈ s.accounts, e ∈ a.failing) ∨ ∃ t ∈ s :: run, ∃ a ∈ t.accounts, e ∈ a.raised := by
  induction h with
  | returns =>
    rw [winners_of_returns] at he
    cases he
  | @advances s s' run failure hadv hrest ih =>
    obtain ⟨hs', -⟩ := hadv.verdict hs
    rcases List.mem_append.1 he with he | he
    · exact .inl (hadv.failing_of_won hs he)
    · rcases ih hs' he with hfail | ⟨t, ht, hr⟩
      · rcases hadv.failing hfail with hf | ⟨a, ha, hm | hm⟩
        · rw [winners_of_failed hrest hs' hf] at he
          cases he
        · exact .inl ⟨a, ha, hm⟩
        · exact .inr ⟨s, List.mem_cons_self, a, ha, hm⟩
      · exact .inr ⟨t, List.mem_cons_of_mem _ ht, hr⟩

theorem Closes.at_end {s last : System σ φ} {run : List (System σ φ)} {failure : Option Failure}
    (h : Closes s run failure) (hl : last ∈ (s :: run).getLast?) :
    last.chain.isExited = true ∧ last.status.failure = none := by
  induction h with
  | returns he =>
    cases hl
    exact ⟨he, rfl⟩
  | advances _ _ ih => exact ih hl

variable {writer : Writer} {last : Reaction String φ} {filters : List (Reaction Token σ)}

theorem Chain.accounts_start :
    ∀ a ∈ (Chain.start writer last filters).accounts, a.failing = [] ∧ a.recording = [] := by
  induction filters with
  | nil => exact List.forall_mem_singleton.2 ⟨rfl, rfl⟩
  | cons first filters ih => exact List.forall_mem_cons.2 ⟨⟨rfl, rfl⟩, ih⟩

theorem accounts_start :
    ∀ a ∈ (System.start writer last filters calls).accounts, a.failing = [] ∧ a.recording = [] :=
  List.forall_mem_cons.2 ⟨⟨rfl, rfl⟩, Chain.accounts_start⟩

theorem verdict_start : (System.start writer last filters calls).verdict = [] := by
  have hrec : (System.start writer last filters calls).recording = [] :=
    List.flatMap_eq_nil_iff.2 fun a ha => (accounts_start a ha).2
  rw [System.verdict, hrec]
  rfl

theorem settled_start : (System.start writer last filters calls).IsSettled := by
  rw [System.IsSettled, verdict_start]
  rfl

theorem winners_start {run : List (System σ φ)} {failure : Option Failure}
    (h : Closes (System.start writer last filters calls) run failure) :
    winners (System.start writer last filters calls :: run) = failure.toList := by
  have hv := h.verdict settled_start
  rwa [verdict_start, List.nil_append] at hv

theorem mem_calls_of_raised {s : System σ φ} (h : (attended calls).Of s) {e : Failure}
    (he : e ∈ s.producer.account.raised) : .fail e ∈ calls := by
  have ha : s.producer.account.raised = Producer.failures s.producer.remaining := by
    cases s.producer <;> rfl
  rw [ha] at he
  exact h.2.1.1 (Producer.mem_failures.1 he)

-- The failure that the producer returns with was reported by the producer, or a body ended with it.
theorem mem_calls_or_raised (hc : ∀ call ∈ calls, call ≠ .write .endOfStream)
    {run : List (System σ φ)} {failure : Option Failure}
    (h : (System.start writer last filters calls :: run).IsChain (Step filter format capacity))
    (hcl : Closes (System.start writer last filters calls) run failure) {e : Failure}
    (he : e ∈ failure) :
    .fail e ∈ calls ∨ ∃ t ∈ System.start writer last filters calls :: run, e ∈ t.chain.raised := by
  have hatt : ∀ t ∈ System.start writer last filters calls :: run, (attended calls).Of t :=
    h.induction _ _ (fun _ _ hstep ha => (attended_kept hc).of_step hstep ha)
      fun _ => attended_start
  have hw : e ∈ winners (System.start writer last filters calls :: run) := by
    rw [winners_start hcl]
    exact Option.mem_toList.2 he
  rcases hcl.raised_of_winner settled_start hw with ⟨a, ha, hm⟩ | ⟨t, ht, a, ha, hm⟩
  · rw [(accounts_start a ha).1] at hm
    cases hm
  · rcases List.mem_cons.1 ha with rfl | ha
    · exact .inl (mem_calls_of_raised (hatt t ht) hm)
    · exact .inr ⟨t, ht, Chain.mem_raised.2 ⟨a, ha, hm⟩⟩

-- Closing the output once more finds no queue and no threads, and no failure that is left.
theorem step_joining_iff {s s' : System σ φ} (he : s.chain.isExited = true)
    (hn : s.status.failure = none) :
    Step filter format capacity { s with producer := .joining } s' ↔
      s' = { s with producer := .returned none } := by
  obtain ⟨producer, chain, failed, failure⟩ := s
  obtain rfl : failure = none := hn
  constructor
  · intro h
    cases h with
    | produce h => cases h
    | report => rfl
    | stage h => exact absurd h (not_chainStep_of_isExited he)
  · rintro rfl
    exact .report he

-- However the threads get to run and whatever the bodies of the stages do, the producer returns.
-- It returns with a failure just when it reported one or a body ended with one of its own, which is
-- not that it was turned away: a stage that only stops early raises nothing.  The failure is the
-- one that was there first, that of the only thread that found nothing reported before it.
-- Closing once more reports nothing.  Only closing writes the marker at the end of the stream.
theorem reports_first_failure (filter : Behaviour Token σ) (format : Behaviour String φ)
    (capacity : Nat) (writer : Writer) (last : Reaction String φ)
    (filters : List (Reaction Token σ)) (calls : List Call)
    (hc : ∀ call ∈ calls, call ≠ .write .endOfStream) :
    let start := System.start writer last filters calls
    Inevitable (Step filter format capacity) (fun s => ∃ failure, s.producer = .returned failure)
      start ∧
    ∀ run s failure, (start :: run).IsChain (Step filter format capacity) →
      s ∈ (start :: run).getLast? → s.producer = .returned failure →
      (failure.isSome = true ↔
        (∃ e, .fail e ∈ calls) ∨ ∃ t ∈ start :: run, t.chain.raised ≠ []) ∧
      winners (start :: run) = failure.toList ∧
      (∀ e ∈ failure, .fail e ∈ calls ∨ ∃ t ∈ start :: run, e ∈ t.chain.raised) ∧
      ∀ s', Step filter format capacity { s with producer := .joining } s' ↔
        s' = { s with producer := .returned none } := by
  intro start
  constructor
  · refine inevitable_of_acc (acc_step filter format capacity start) fun s h => ?_
    rcases step_or_returned h with hs | ⟨failure, hr, -⟩
    · exact .inl hs
    · exact .inr ⟨failure, hr⟩
  · intro run s failure hrun hs hr
    have hcl : Closes start run failure :=
      closes_of_isChain hc hrun attended_start nofun hs hr
    have hfrom : ∀ e ∈ failure, .fail e ∈ calls ∨ ∃ t ∈ start :: run, e ∈ t.chain.raised :=
      fun e => mem_calls_or_raised hc hrun hcl
    obtain ⟨he, hn⟩ := hcl.at_end hs
    refine ⟨⟨?_, ?_⟩, winners_start hcl, hfrom, fun s' => step_joining_iff he hn⟩
    · intro hsome
      obtain ⟨e, he⟩ := Option.isSome_iff_exists.1 hsome
      rcases hfrom e he with hcall | ⟨t, ht, hm⟩
      · exact .inl ⟨e, hcall⟩
      · exact .inr ⟨t, ht, List.ne_nil_of_mem hm⟩
    · intro h
      refine hcl.isSome settled_start ?_
      rcases h with ⟨e, hcall⟩ | ⟨t, ht, hm⟩
      · refine .inl (.inr ⟨_, List.mem_cons_self, .inl ?_⟩)
        exact List.ne_nil_of_mem (Producer.mem_failures.2 hcall)
      · rcases List.mem_cons.1 ht with rfl | ht
        · exact .inl (System.stirred_of_raised hm)
        · exact .inr ⟨t, ht, hm⟩

-- The formatter fails first.  The filter is turned away for it and ends with that, and what the
-- producer reports comes too late.
theorem reports_first_failure_of_refusal :
    let start : System FilterState FormatState :=
      System.start .unlimited (.stop (some (.failed "first"))) [.emit .close .stop]
        [.write .close, .fail (.failed "late")]
    let closed : System FilterState FormatState :=
      ⟨.returned (some (.failed "first")), .filter ⟨[], true, true, true, true⟩ .exited
        (.formatter ⟨[], true, true, false, true⟩ .exited .unlimited), { failed := true }⟩
    ∃ run, (start :: run).IsChain (Step FilterState.behaviour FormatState.behaviour 1) ∧
      closed ∈ (start :: run).getLast? ∧ winners (start :: run) = [.failed "first"] := by
  intro start closed
  have hreach : Relation.ReflTransGen (Step FilterState.behaviour FormatState.behaviour 1)
      start closed := by
    refine .head (.stage (.rest (.formatter .stop))) ?_
    refine .head (.stage (.rest (.formatter (.fail rfl)))) ?_
    refine .head (.produce (.skip rfl)) ?_
    refine .head (.produce .giveUp) ?_
    refine .head (.stage (.filter (.refuse rfl))) ?_
    refine .head (.stage (.filter .stop)) ?_
    refine .head (.stage (.filter (.failLate rfl))) ?_
    refine .head (.produce (.failLate rfl)) ?_
    refine .head (.stage (.rest (.formatter .record))) ?_
    refine .head (.produce .close) ?_
    refine .head (.produce (.finish rfl)) ?_
    refine .head (.produce .hangUp) ?_
    refine .head (.stage (.filter .leave)) ?_
    refine .head (.stage (.filter (.drained rfl))) ?_
    refine .head (.stage (.filter (.finish rfl))) ?_
    refine .head (.stage (.filter .hangUp)) ?_
    refine .head (.stage (.filter .drop)) ?_
    refine .head (.stage (.rest (.formatter (.drained rfl)))) ?_
    refine .head (.stage (.rest (.formatter .drop))) ?_
    exact .single (.report rfl)
  obtain ⟨run, hrun, hlast⟩ := List.exists_isChain_cons_of_relationReflTransGen hreach
  have hl : closed ∈ (start :: run).getLast? := hlast ▸ List.getLast_mem_getLast? _
  have hc : ∀ call ∈ [Call.write .close, .fail (.failed "late")],
      call ≠ .write .endOfStream := by simp
  have h := (reports_first_failure FilterState.behaviour FormatState.behaviour 1 .unlimited
    (.stop (some (.failed "first"))) [.emit .close .stop]
    [.write .close, .fail (.failed "late")] hc).2 run closed _ hrun hl rfl
  exact ⟨run, hrun, hl, h.2.1⟩

end CommandShell.Output.Threads
