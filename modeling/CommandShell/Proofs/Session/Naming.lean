import CommandShell.Handler.Library
import CommandShell.Proofs.Handler.Registering
import CommandShell.Proofs.Session.Redirecting
import CommandShell.Proofs.Session.Refusal
import CommandShell.Session.Completion
import Mathlib.Data.List.Sort
import Mathlib.Data.String.Basic

namespace CommandShell

-- Lists that are sorted, and that have no text twice in a row.
section Sorted

variable {x y : String} {xs before : List String}

theorem eraseReps_loop : List.eraseRepsBy.loop (· == ·) x xs before =
    before.reverse ++ (x :: xs).eraseReps := by
  induction xs generalizing x before with
  | nil => simp [List.eraseRepsBy.loop, List.eraseReps, List.eraseRepsBy]
  | cons y ys ih =>
    rw [List.eraseReps, List.eraseRepsBy, List.eraseRepsBy.loop, List.eraseRepsBy.loop]
    cases x == y <;> simp [ih]

theorem eraseReps_cons_self : (x :: x :: xs).eraseReps = (x :: xs).eraseReps := by
  rw [List.eraseReps, List.eraseRepsBy, List.eraseRepsBy.loop, beq_self_eq_true, eraseReps_loop]
  rfl

theorem eraseReps_cons_of_ne (h : x ≠ y) :
    (x :: y :: xs).eraseReps = x :: (y :: xs).eraseReps := by
  have hloop : List.eraseRepsBy.loop (· == ·) y xs [x] = x :: (y :: xs).eraseReps := eraseReps_loop
  rw [List.eraseReps, List.eraseRepsBy, List.eraseRepsBy.loop, beq_eq_false_iff_ne.2 h]
  exact hloop

theorem mem_eraseReps : y ∈ xs.eraseReps ↔ y ∈ xs := by
  induction xs with
  | nil => rfl
  | cons x xs ih =>
    cases xs with
    | nil => rfl
    | cons z zs =>
      by_cases h : x = z
      · subst h
        simp [eraseReps_cons_self, ih]
      · simp [eraseReps_cons_of_ne h, ih]

theorem pairwise_eraseReps (h : xs.Pairwise (· ≤ ·)) : xs.eraseReps.Pairwise (· < ·) := by
  induction xs with
  | nil => exact .nil
  | cons x xs ih =>
    obtain ⟨hle, hrest⟩ := List.pairwise_cons.1 h
    cases xs with
    | nil => exact List.pairwise_singleton ..
    | cons z zs =>
      by_cases hx : x = z
      · subst hx
        rw [eraseReps_cons_self]
        exact ih hrest
      · rw [eraseReps_cons_of_ne hx]
        refine List.pairwise_cons.2 ⟨fun y hy => ?_, ih hrest⟩
        have hz : z ≤ y := by
          rcases List.mem_cons.1 (mem_eraseReps.1 hy) with rfl | hy
          · exact le_rfl
          · exact (List.pairwise_cons.1 hrest).1 y hy
        exact lt_of_lt_of_le (lt_of_le_of_ne (hle z (List.mem_cons_self ..)) hx) hz

theorem pairwise_mergeSort (xs : List String) : xs.mergeSort.Pairwise (· ≤ ·) := by
  simpa using List.pairwise_mergeSort' (· ≤ ·) xs

end Sorted

-- A list of candidates as it is shown: each once, in order, and all of them extend the word.
structure Shown (word : String) (candidates : List String) : Prop where
  increasing : candidates.Pairwise (· < ·)
  extending : ∀ candidate ∈ candidates, Text.startsWith candidate word = true

theorem shown_nil (word : String) : Shown word [] := ⟨.nil, by simp⟩

namespace Handler

namespace CompletionRequest

variable {r : CompletionRequest} {candidate : String} {offers : List String}

theorem word_add (r : CompletionRequest) (candidate : String) :
    (r.add candidate).word = r.word := by
  unfold add
  split <;> rfl

-- What was offered so far: each text once, and nothing that does not extend the word.
structure Offered (r : CompletionRequest) : Prop where
  extending : ∀ candidate ∈ r.candidates, Text.startsWith candidate r.word = true
  nodup : r.candidates.Nodup

theorem Offered.add (h : r.Offered) (candidate : String) : (r.add candidate).Offered := by
  unfold CompletionRequest.add
  split
  · next hn =>
    refine ⟨?_, List.nodup_append.2 ⟨h.nodup, by simp, ?_⟩⟩
    · intro other ho
      rcases List.mem_append.1 ho with ho | ho
      · exact h.extending other ho
      · rw [List.mem_singleton.1 ho]
        exact hn.1
    · intro other ho last hl
      rw [List.mem_singleton.1 hl]
      rintro rfl
      exact hn.2 ho
  · exact h

theorem Offered.foldl (h : r.Offered) (offers : List String) :
    (offers.foldl CompletionRequest.add r).Offered ∧
      (offers.foldl CompletionRequest.add r).word = r.word := by
  induction offers generalizing r with
  | nil => exact ⟨h, rfl⟩
  | cons offer offers ih =>
    obtain ⟨ho, hw⟩ := ih (h.add offer)
    exact ⟨ho, hw.trans (word_add r offer)⟩

theorem shown_sorted (h : r.candidates = []) (offers : List String) :
    Shown r.word (r.sorted offers) := by
  have hnone : r.Offered := ⟨by simp [h], by simp [h]⟩
  obtain ⟨ho, hw⟩ := hnone.foldl offers
  refine ⟨?_, fun candidate hc => ?_⟩
  · have hnodup : (r.sorted offers).Nodup := (List.mergeSort_perm _ _).nodup_iff.2 ho.nodup
    exact (pairwise_mergeSort _).imp₂ (fun _ _ => lt_of_le_of_ne) hnodup
  · rw [← hw]
    exact ho.extending candidate (List.mem_mergeSort.1 hc)

end CompletionRequest

end Handler

namespace Session

open Handler (CompletionRequest Kind)
open Script (Token)

variable {s : Session} {word n : String} {kind : Kind} {kinds : List Kind} {script : Script}
  {c : Script.Command} {block : Option BlockRun} {inner : TextRun} {r : Script.Redirection}
  {chain : Chain} {at_ : Site} {args : Binding.Args}

-- There is a builtin or an applicable command of this name.
def Finds (s : Session) (name : String) : Prop :=
  name ∈ Builtin.all.map Builtin.name ∨
    ∃ handler, s.library.handler? .command name = some handler ∧
      handler.isApplicable s.context = true

-- There is a pipe, a formatter or a sink of this name.
def FindsRedirection (s : Session) (name : String) : Prop :=
  ∃ kind ∈ [Kind.pipe, .formatter, .sink], (s.library.handler? kind name).isSome = true

theorem isSome_ofName?_iff : (Builtin.ofName? n).isSome = true ↔
    n ∈ Builtin.all.map Builtin.name := by
  simp [Builtin.ofName?, List.find?_isSome]

theorem isSome_command?_iff : (command? s n).isSome = true ↔
    ∃ handler, s.library.handler? .command n = some handler ∧
      handler.isApplicable s.context = true := by
  rw [command?]
  cases s.library.handler? .command n <;> simp

theorem finds_iff : s.Finds n ↔
    (Builtin.ofName? n).isSome = true ∨ (command? s n).isSome = true := by
  rw [isSome_ofName?_iff, isSome_command?_iff]
  rfl

theorem mem_namesOf_command :
    n ∈ s.namesOf word .command ↔ Text.startsWith n word = true ∧ s.Finds n := by
  have hlisted : (command? s n).isSome = true → n ∈ s.library.names .command := by
    intro h
    obtain ⟨handler, hh, -⟩ := isSome_command?_iff.1 h
    exact Handler.Registry.isSome_handler?_iff.1 (by rw [hh]; rfl)
  rw [finds_iff, isSome_ofName?_iff]
  simp only [namesOf, if_true, List.mem_append, List.mem_filter, Bool.and_eq_true]
  constructor
  · rintro (⟨-, hc, hw⟩ | ⟨hb, hw⟩)
    · exact ⟨hw, .inr (by simpa using hc)⟩
    · exact ⟨hw, .inl hb⟩
  · rintro ⟨hw, hb | hc⟩
    · exact .inr ⟨hb, hw⟩
    · exact .inl ⟨hlisted hc, by simpa using hc, hw⟩

theorem mem_namesOf (hk : kind ≠ .command) : n ∈ s.namesOf word kind ↔
    Text.startsWith n word = true ∧ (s.library.handler? kind n).isSome = true := by
  rw [Handler.Registry.isSome_handler?_iff, and_comm]
  simp [namesOf, hk]

theorem shown_completeNames (s : Session) (kinds : List Kind) (word : String) :
    Shown word (s.completeNames kinds word) := by
  refine ⟨pairwise_eraseReps (pairwise_mergeSort _), fun n hn => ?_⟩
  rw [completeNames, mem_eraseReps, List.mem_mergeSort, List.mem_flatMap] at hn
  obtain ⟨kind, -, hn⟩ := hn
  by_cases hk : kind = .command
  · rw [hk] at hn
    exact (mem_namesOf_command.1 hn).1
  · exact ((mem_namesOf hk).1 hn).1

theorem mem_completeNames_command :
    n ∈ s.completeNames [.command] word ↔ Text.startsWith n word = true ∧ s.Finds n := by
  rw [completeNames, mem_eraseReps, List.mem_mergeSort, List.flatMap_singleton,
    mem_namesOf_command]

theorem mem_completeNames_redirection :
    n ∈ s.completeNames [.pipe, .formatter, .sink] word ↔
      Text.startsWith n word = true ∧ s.FindsRedirection n := by
  have hkinds {kind : Kind} (hk : kind ∈ [Kind.pipe, .formatter, .sink]) : kind ≠ .command := by
    rintro rfl
    simp at hk
  rw [completeNames, mem_eraseReps, List.mem_mergeSort, List.mem_flatMap]
  constructor
  · rintro ⟨kind, hk, hn⟩
    obtain ⟨hw, hh⟩ := (mem_namesOf (hkinds hk)).1 hn
    exact ⟨hw, kind, hk, hh⟩
  · rintro ⟨hw, kind, hk, hh⟩
    exact ⟨kind, hk, (mem_namesOf (hkinds hk)).2 ⟨hw, hh⟩⟩

-- A fault in a redirection is never that a command is not found.
theorem chainOf_ne_notFound (name : String) (token : Nat) :
    chainOf s script c ≠ .error (.dispatch ⟨name, .notFound, token⟩) := by
  intro h
  obtain ⟨before, r, after, links, -, -, hf⟩ := chainOf_eq_error_iff.1 h
  cases hf

-- A command fails with this cause exactly if nothing of its name is found.
theorem finds_iff_dispatch : s.Finds (script.token c.head).text ↔
    ∀ name token, (s.dispatch inner script c block).2 ≠
      some (.dispatch ⟨name, .notFound, token⟩) := by
  rw [finds_iff, dispatch]
  cases hb : Builtin.ofName? (script.token c.head).text with
  | some b =>
    refine ⟨fun _ name token he => ?_, fun _ => .inl rfl⟩
    obtain ⟨fault, -, hfault⟩ := error_bind_of_runBuiltin he trivial
    cases hfault
  | none =>
    cases hc : command? s (script.token c.head).text with
    | none => simp
    | some handler =>
      refine ⟨fun _ name token he => ?_, fun _ => .inr rfl⟩
      simp only [runRegistered] at he
      split at he
      · cases he
      · split at he
        · next hch =>
          obtain rfl := Option.some.inj he
          exact chainOf_ne_notFound name token hch
        · obtain ⟨failure, -, hf⟩ := Option.map_eq_some_iff.1 he
          cases hf

-- Where a handler is found, what is wrong is its place in the chain or its arguments.
theorem ne_unknown_of_bindAt {options : Handler.Options} {f : List Binding.Slot → Chain}
    (name : String) (token : Nat) : (do
      let slots ← bindAt s at_ options args
      return f slots) ≠ .error (.dispatch ⟨name, .unknownRedirection, token⟩) := by
  unfold bindAt
  cases options.bind at_.name args s.interpolation <;>
    simp [Except.mapError, bind, Except.bind, pure, Except.pure]

theorem attachNamed_of_finds (h : s.FindsRedirection at_.name) (name : String) (token : Nat) :
    attachNamed s at_ args chain ≠ .error (.dispatch ⟨name, .unknownRedirection, token⟩) := by
  have hmisplaced {kind previous : Kind} : (.error (at_.fault (.misplaced kind previous)) :
      Except Error Chain) ≠ .error (.dispatch ⟨name, .unknownRedirection, token⟩) := by
    simp [Site.fault]
  rw [attachNamed]
  split
  · rw [attachPipe]
    split
    · exact hmisplaced
    · exact ne_unknown_of_bindAt name token
  · rw [attachFormatter]
    split
    · exact hmisplaced
    · exact ne_unknown_of_bindAt name token
  · next hs =>
    simp only [attachSink, hs]
    split
    · exact hmisplaced
    · exact ne_unknown_of_bindAt name token
  · next hp hf hs =>
    obtain ⟨kind, hk, hh⟩ := h
    simp only [List.mem_cons, List.not_mem_nil, or_false] at hk
    rcases hk with rfl | rfl | rfl
    · simp [hp] at hh
    · simp [hf] at hh
    · simp [hs] at hh

theorem attachNamed_of_not_finds (h : ¬s.FindsRedirection at_.name) :
    attachNamed s at_ args chain = .error (at_.fault .unknownRedirection) := by
  have hnone {kind : Kind} (hk : kind ∈ [Kind.pipe, .formatter, .sink]) :
      s.library.handler? kind at_.name = none := by
    rw [← Option.not_isSome_iff_eq_none]
    exact fun hh => h ⟨kind, hk, hh⟩
  have hp : s.library.handler? .pipe at_.name = none := hnone (by simp)
  have hf : s.library.handler? .formatter at_.name = none := hnone (by simp)
  have hs : s.library.handler? .sink at_.name = none := hnone (by simp)
  simp only [attachNamed, hp, hf, hs]

-- A redirection without a block fails with this cause exactly if nothing of its name is found,
-- whatever it is attached to.
theorem findsRedirection_iff_attach (hk : (script.token r.head).kind = .redirection)
    (hb : r.node.blocks = []) : s.FindsRedirection (script.token r.head).text ↔
      ∀ name token, s.attach script chain r ≠
        .error (.dispatch ⟨name, .unknownRedirection, token⟩) := by
  have hattach : s.attach script chain r = attachNamed s ⟨(script.token r.head).text, r.head⟩
      ⟨script.argsOf r.node, r.node.firstArg⟩ chain := by
    simp only [attach, hk, hb]
  rw [hattach]
  refine ⟨fun h => attachNamed_of_finds h, fun h => ?_⟩
  by_contra hn
  exact h _ _ (attachNamed_of_not_finds hn)

namespace Typing

-- The name of a command is typed, or would be.
def AtCommand (t : Typing) : Prop :=
  ∀ head ∈ t.head?, head.kind.isStructural = true ∨ head.kind = .command ∧ t.isOnHead = true

-- The name of a redirection is typed.
def AtRedirection (t : Typing) : Prop :=
  ∃ head ∈ t.head?, head.kind = .redirection ∧ t.isOnHead = true

end Typing

variable {t : Typing}

theorem completeTyping_of_atCommand (h : t.AtCommand) :
    s.completeTyping t = s.completeNames [.command] t.word := by
  rw [completeTyping]
  cases hh : t.head? with
  | none => rfl
  | some head =>
    rcases h head hh with hs | ⟨hk, ho⟩
    · cases hk : head.kind <;> simp_all [Script.TokenKind.isStructural]
    · simp only [hk, ho]

theorem completeTyping_of_atRedirection (h : t.AtRedirection) :
    s.completeTyping t = s.completeNames [.pipe, .formatter, .sink] t.word := by
  obtain ⟨head, hh, hk, ho⟩ := h
  rw [Option.mem_def] at hh
  simp only [completeTyping, hh, hk, ho]

theorem shown_completeTimely {r : CompletionRequest} (s : Session) (h : r.candidates = [])
    (delay : Nat) (offers : List String) : Shown r.word (s.completeTimely r delay offers) := by
  unfold completeTimely
  split
  · exact shown_nil _
  · exact CompletionRequest.shown_sorted h offers

theorem shown_completeWith {r : CompletionRequest} (s : Session) (h : r.candidates = [])
    (table : Binding.Table) (delay : Nat) (offers : List String) :
    Shown r.word (s.completeWith r table delay offers) := by
  unfold completeWith
  split
  · exact CompletionRequest.shown_sorted h _
  · exact shown_completeTimely s h delay offers

theorem shown_completeCommand {r : CompletionRequest} (s : Session) (h : r.candidates = []) :
    Shown r.word (s.completeCommand r) := by
  unfold completeCommand
  split
  · exact shown_nil _
  · exact shown_completeWith s h _ _ _

theorem shown_completeRedirection {r : CompletionRequest} (s : Session) (h : r.candidates = []) :
    Shown r.word (s.completeRedirection r) := by
  unfold completeRedirection
  split
  · exact shown_completeWith s h _ _ _
  · exact shown_completeWith s h _ _ _
  · exact shown_completeWith s h _ _ _
  · exact shown_nil _

theorem shown_completeFile (s : Session) (word : String) : Shown word (s.completeFile word) := by
  unfold completeFile
  split
  · exact shown_nil _
  · next sink _ =>
    let r : CompletionRequest := { name := "file", word }
    exact shown_completeTimely (r := r) s rfl sink.delay (sink.offers s.world s.context r)

-- Whatever is completed.
theorem shown_completeTyping (s : Session) (t : Typing) : Shown t.word (s.completeTyping t) := by
  have hnames (kinds : List Kind) := shown_completeNames s kinds t.word
  unfold completeTyping
  split
  · exact hnames _
  · next head _ =>
    split
    · exact shown_completeCommand (r := t.request head) s rfl
    · exact hnames _
    · exact shown_completeRedirection (r := t.request head) s rfl
    · exact shown_completeFile s t.word
    · exact shown_nil _
    · exact shown_nil _
    · exact hnames _

theorem complete_of_ofLine? {line : String} (h : Typing.ofLine? line = some t) :
    s.complete line = s.completeTyping t := by
  rw [complete, h]
  rfl

-- Completion of names agrees with dispatch.  Where the name of a command is typed, what is listed is
-- exactly the names that extend the word and that a command can be dispatched by without a failure
-- for want of a handler: the builtins and the registered commands that can be used in the context.
-- Where the name of a redirection is typed, it is those that extend the word and that a redirection
-- can be attached by.  On every line, what is listed is in order, each once, and extends the word.
theorem complete_agrees (s : Session) (line : String) :
    (s.complete line).Pairwise (· < ·) ∧
    ∀ t, Typing.ofLine? line = some t →
      (∀ n ∈ s.complete line, Text.startsWith n t.word = true) ∧
      (t.AtCommand → ∀ n,
        (n ∈ s.complete line ↔ Text.startsWith n t.word = true ∧ s.Finds n) ∧
        ∀ inner script c block, (script.token c.head).text = n →
          (n ∈ s.complete line ↔ Text.startsWith n t.word = true ∧
            ∀ name token, (s.dispatch inner script c block).2 ≠
              some (.dispatch ⟨name, .notFound, token⟩))) ∧
      (t.AtRedirection → ∀ n,
        (n ∈ s.complete line ↔ Text.startsWith n t.word = true ∧ s.FindsRedirection n) ∧
        ∀ script chain r, (script.token r.head).kind = .redirection → r.node.blocks = [] →
          (script.token r.head).text = n →
          (n ∈ s.complete line ↔ Text.startsWith n t.word = true ∧
            ∀ name token, s.attach script chain r ≠
              .error (.dispatch ⟨name, .unknownRedirection, token⟩))) := by
  cases h : Typing.ofLine? line with
  | none =>
    refine ⟨?_, nofun⟩
    rw [complete, h]
    exact .nil
  | some t =>
    have hcomplete : s.complete line = s.completeTyping t := complete_of_ofLine? h
    rw [hcomplete]
    have hshown := shown_completeTyping s t
    refine ⟨hshown.increasing, fun t' ht => ?_⟩
    obtain rfl := Option.some.inj ht
    refine ⟨hshown.extending, fun hc n => ?_, fun hr n => ?_⟩
    · have hmem : n ∈ s.completeTyping t ↔ Text.startsWith n t.word = true ∧ s.Finds n := by
        rw [completeTyping_of_atCommand hc, mem_completeNames_command]
      refine ⟨hmem, ?_⟩
      rintro inner script c block rfl
      rw [hmem, finds_iff_dispatch]
    · have hmem : n ∈ s.completeTyping t ↔
          Text.startsWith n t.word = true ∧ s.FindsRedirection n := by
        rw [completeTyping_of_atRedirection hr, mem_completeNames_redirection]
      refine ⟨hmem, ?_⟩
      rintro script chain r hk hb rfl
      rw [hmem, findsRedirection_iff_attach hk hb]

-- A command that can be used in one place only, and the name of a formatter.
theorem complete_agrees_of_context :
    let s : Session := { library := .extended, context := ⟨["services", "a"], []⟩ }
    let node : Script.Node := .opened 0
    let named (kind : Script.TokenKind) (name : String) : Script :=
      ⟨name, #[⟨kind, name, ⟨0, name.utf8ByteSize⟩, 1, 1, some 0⟩], #[node]⟩
    "restart" ∈ s.complete "pwd; re" ∧ "pwd" ∉ s.complete "pwd; re" ∧
      "restart" ∉ Session.complete { library := .extended } "pwd; re" ∧
      (∀ name token, (s.dispatch (fun _ s => (s, none)) (named .command "restart")
        (.mk node [] []) none).2 ≠ some (.dispatch ⟨name, .notFound, token⟩)) ∧
      "raw" ∈ s.complete "pwd | ra" ∧
      ∀ name token, s.attach (named .redirection "raw") {} (.mk node []) ≠
        .error (.dispatch ⟨name, .unknownRedirection, token⟩) := by
  intro s node named
  let before : Token := ⟨.command, "pwd", ⟨0, 3⟩, 1, 1, some 0⟩
  let command : Typing :=
    ⟨[before, ⟨.separator, ";", ⟨3, 4⟩, 1, 0, none⟩, ⟨.command, "re", ⟨5, 7⟩, 1, 2, some 1⟩], false⟩
  let redirection : Typing := ⟨[before, ⟨.redirection, "ra", ⟨6, 8⟩, 1, 2, some 1⟩], false⟩
  have hc : Typing.ofLine? "pwd; re" = some command := by decide +kernel
  have hr : Typing.ofLine? "pwd | ra" = some redirection := by decide +kernel
  have hcommand : command.AtCommand := by
    intro head hh
    obtain rfl := Option.some.inj hh
    exact .inr ⟨rfl, rfl⟩
  have hredirection : redirection.AtRedirection := ⟨_, rfl, rfl, rfl⟩
  have hnames := ((complete_agrees s "pwd; re").2 command hc).2.1 hcommand
  have hroot := ((complete_agrees { library := .extended } "pwd; re").2 command hc).2.1 hcommand
  have hraw := ((complete_agrees s "pwd | ra").2 redirection hr).2.2 hredirection "raw"
  have hrestart : "restart" ∈ s.complete "pwd; re" :=
    (hnames "restart").1.2 ⟨by decide, .inr ⟨.restart, rfl, by decide⟩⟩
  have hlisted : "raw" ∈ s.complete "pwd | ra" :=
    hraw.1.2 ⟨by decide, .formatter, by simp, rfl⟩
  refine ⟨hrestart, fun hp => ?_, fun hn => ?_, ?_, hlisted, ?_⟩
  · have hw := ((hnames "pwd").1.1 hp).1
    revert hw
    decide
  · obtain ⟨-, hb | ⟨handler, hh, ha⟩⟩ := (hroot "restart").1.1 hn
    · revert hb
      decide
    · obtain rfl : Handler.Command.restart = handler := Option.some.inj hh
      revert ha
      decide
  · exact (((hnames "restart").2 _ (named .command "restart") (.mk node [] []) none rfl).1
      hrestart).2
  · exact ((hraw.2 (named .redirection "raw") {} (.mk node []) rfl rfl rfl).1 hlisted).2

end Session

end CommandShell
