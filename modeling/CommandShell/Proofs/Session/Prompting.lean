import CommandShell.Handler.Library
import CommandShell.Proofs.Scanner.Faults
import CommandShell.Proofs.Session.Interactive

namespace CommandShell

namespace Session

open Script (Scanner)

-- The sessions in which the loop asks for a line: one for each input that is taken, and one at the
-- end of the inputs.
def asked (s : Session) : List Input → List Session
  | [] => if s.exiting then [] else [s]
  | input :: rest =>
    if s.exiting then []
    else
      s :: match input with
        | .line text => (s.ask.takeLine text).asked rest
        | .interrupt => { s.ask with scanner := s.scanner.reset }.asked rest
        | .endOfInput | .failure _ => []

-- What an input makes of the session that asked for it, if the loop goes on.
inductive Hears (s : Session) : Input → Session → Prop
  | line (text : String) : Hears s (.line text) (s.ask.takeLine text)
  | interrupt : Hears s .interrupt { s.ask with scanner := s.scanner.reset }

variable {s s₀ s' s'' : Session} {inputs : List Input} {n m : Nat} {lines : List String}

theorem asked_cons (he : s.exiting = false) {input : Input} {rest : List Input} :
    s.asked (input :: rest) = s :: match input with
      | .line text => (s.ask.takeLine text).asked rest
      | .interrupt => { s.ask with scanner := s.scanner.reset }.asked rest
      | .endOfInput | .failure _ => [] := by
  cases input <;> simp [asked, he]

theorem asked_of_exiting (he : s.exiting = true) : s.asked inputs = [] := by
  cases inputs <;> simp [asked, he]

theorem asked_zero (h : (s.asked inputs)[0]? = some s') : s' = s ∧ s.exiting = false := by
  cases he : s.exiting with
  | true => simp [asked_of_exiting he] at h
  | false =>
    cases inputs with
    | nil =>
      rw [asked, he, if_neg (by decide)] at h
      exact ⟨(Option.some.inj h).symm, rfl⟩
    | cons input rest =>
      rw [asked_cons he] at h
      exact ⟨(Option.some.inj h).symm, rfl⟩

-- Behind the first ask the loop goes on with what the input made of the session.
theorem exists_of_asked_succ (h : (s.asked inputs)[n + 1]? = some s') :
    ∃ input rest next, inputs = input :: rest ∧ s.exiting = false ∧ s.Hears input next ∧
      s.asked inputs = s :: next.asked rest := by
  cases he : s.exiting with
  | true => simp [asked_of_exiting he] at h
  | false =>
    cases inputs with
    | nil => simp [asked, he] at h
    | cons input rest =>
      rw [asked_cons he] at h ⊢
      cases input with
      | line text => exact ⟨_, rest, _, rfl, rfl, .line text, rfl⟩
      | interrupt => exact ⟨_, rest, _, rfl, rfl, .interrupt, rfl⟩
      | endOfInput => cases h
      | failure message => cases h

-- Between two asks there is one input.
theorem hears_of_asked (h : (s.asked inputs)[n]? = some s')
    (hnext : (s.asked inputs)[n + 1]? = some s'') :
    ∃ input, inputs[n]? = some input ∧ s'.Hears input s'' := by
  induction n generalizing s inputs with
  | zero =>
    obtain ⟨input, rest, next, rfl, -, hh, ha⟩ := exists_of_asked_succ hnext
    rw [ha] at h hnext
    obtain rfl : s = s' := Option.some.inj h
    obtain ⟨rfl, -⟩ := asked_zero hnext
    exact ⟨input, rfl, hh⟩
  | succ n ih =>
    obtain ⟨input, rest, next, rfl, -, -, ha⟩ := exists_of_asked_succ h
    rw [ha] at h hnext
    exact ih h hnext

theorem exists_asked_of_succ (h : (s.asked inputs)[n + 1]? = some s'') :
    ∃ s', (s.asked inputs)[n]? = some s' := by
  have hlt := (List.getElem?_eq_some_iff.1 h).1
  exact ⟨_, List.getElem?_eq_getElem (Nat.lt_of_succ_lt hlt)⟩

-- The prompts are those of the sessions that were asked for an input.
theorem prompts_read (s : Session) (inputs : List Input) :
    (s.read inputs).prompts = ((s.asked inputs).take inputs.length).map prompt := by
  induction inputs generalizing s with
  | nil => simp [read]
  | cons input rest ih =>
    cases he : s.exiting with
    | true => simp [read, asked, he]
    | false =>
      rw [asked_cons he]
      cases input <;> simp [read, he, ih]

-- What is left of the inputs is read from the session that asks for the next one.
theorem read_of_asked (h : (s.asked inputs)[n]? = some s') :
    (s.read inputs).session = (s'.read (inputs.drop n)).session := by
  induction n generalizing s inputs with
  | zero =>
    obtain ⟨rfl, -⟩ := asked_zero h
    rfl
  | succ n ih =>
    obtain ⟨input, rest, next, rfl, he, hh, ha⟩ := exists_of_asked_succ h
    rw [ha] at h
    rw [List.drop_succ_cons, ← ih h]
    cases hh <;> simp [read, he]

@[simp] theorem scanner_ask (s : Session) : s.ask.scanner = s.scanner := by
  unfold ask
  split <;> rfl

-- A line is either kept as one more of an incomplete logical line, or nothing is left of it.
theorem takeLine_cases (s : Session) (text : String) :
    (∃ u, s.scanner.feed text = (u, none) ∧ u.expectMore = true ∧
      s.takeLine text = { s with scanner := u }) ∨
    (s.takeLine text).scanner = .starting s.scanner.mode := by
  have hmode := Scanner.mode_feed s.scanner text
  generalize hf : s.scanner.feed text = fed at hmode
  obtain ⟨u, e | e⟩ := fed
  · cases hm : u.expectMore with
    | true => exact .inl ⟨u, rfl, hm, takeLine_of_expectMore hf hm⟩
    | false =>
      refine .inr ?_
      rw [takeLine_of_complete hf hm,
        (kept_runScript (textKeeps_inner s) u.snapshot).scanner, ← hmode]
      rfl
  · refine .inr ?_
    rw [← hmode]
    simp [takeLine, hf, discardLine, Scanner.reset]

theorem intercalate_concat {lines : List String} (text : String) (h : lines ≠ []) :
    "\n".intercalate (lines ++ [text]) = "\n".intercalate lines ++ ("\n" ++ text) := by
  induction lines with
  | nil => exact absurd rfl h
  | cons line lines ih =>
    cases lines with
    | nil => simp [String.intercalate_cons_cons, String.append_assoc]
    | cons next lines =>
      have hrest := ih (List.cons_ne_nil _ _)
      simp only [List.cons_append] at hrest ⊢
      rw [String.intercalate_cons_cons, hrest, String.intercalate_cons_cons]
      simp only [String.append_assoc]

-- A session that has read lines and shown prompts, and has done nothing else.
def Waits (s₀ s' : Session) : Prop :=
  ∃ (u : Scanner) (shown : List UInt8), (s₀.prompting = false → shown = []) ∧
    s' = { s₀ with
      scanner := u
      world := { s₀.world with console := s₀.world.console ++ shown } }

theorem waits_refl (s : Session) : Waits s s := ⟨s.scanner, [], fun _ => rfl, by simp⟩

theorem Waits.ask (h : Waits s₀ s') (u : Scanner) : Waits s₀ { s'.ask with scanner := u } := by
  obtain ⟨v, shown, hq, hs⟩ := h
  have hp : s'.prompting = s₀.prompting := by rw [hs]
  unfold Session.ask
  by_cases hprompting : s'.prompting = true
  · rw [if_pos hprompting]
    refine ⟨u, shown ++ Text.encodeUtf8 s'.prompt, by simp [← hp, hprompting], ?_⟩
    simp [hs, World.deliver]
  · rw [if_neg hprompting]
    exact ⟨u, shown, hq, by rw [hs]⟩

-- A session that holds `lines`, which were read since ask `m`: there session `s₀` was between two
-- logical lines, every ask since then was for one line more, and nothing else has happened.
structure Gathers (s : Session) (inputs : List Input) (m : Nat) (s₀ : Session) (lines : List String)
    (s' : Session) : Prop where
  first : (s.asked inputs)[m]? = some s₀
  fresh : s₀.scanner = .new
  last : (s.asked inputs)[m + lines.length]? = some s'
  read : (inputs.drop m).take lines.length = lines.map .line
  between : ∀ k u, m < k → k ≤ m + lines.length → (s.asked inputs)[k]? = some u →
    u.scanner.expectMore = true
  fed : Scanner.new.feedLines lines = (s'.scanner, none)
  source : s'.scanner.source = "\n".intercalate lines
  waits : Waits s₀ s'

theorem gathers_of_new (h : (s.asked inputs)[m]? = some s') (hn : s'.scanner = .new) :
    Gathers s inputs m s' [] s' :=
  ⟨h, hn, h, by simp, fun k u hk hle => absurd hk (by simpa using hle), by rw [hn]; rfl,
    by rw [hn]; rfl, waits_refl s'⟩

namespace Gathers

theorem scanner_of_nil (h : Gathers s inputs m s₀ [] s') : s'.scanner = .new :=
  (congrArg Prod.fst h.fed).symm

theorem aligned (h : Gathers s inputs m s₀ lines s') :
    s'.scanner.Aligned ∧ s'.scanner.mode = .command :=
  Scanner.of_feedLines h.fed (.starting .command)

-- Lines are held as long as the logical line is incomplete.
theorem expectMore_iff (h : Gathers s inputs m s₀ lines s') :
    s'.scanner.expectMore = true ↔ lines ≠ [] := by
  constructor
  · rintro he rfl
    rw [h.scanner_of_nil] at he
    cases he
  · intro hn
    have hpos := List.length_pos_iff.2 hn
    exact h.between _ s' (by omega) (Nat.le_refl _) h.last

-- The source of what is held with one line more.
theorem source_concat (h : Gathers s inputs m s₀ lines s') (text : String) :
    s'.scanner.fedSource text = "\n".intercalate (lines ++ [text]) := by
  cases lines with
  | nil =>
    rw [h.scanner_of_nil]
    simp [Scanner.fedSource, Scanner.new, Scanner.starting]
  | cons line rest =>
    have hne := h.aligned.1.source_ne_empty (h.expectMore_iff.2 (List.cons_ne_nil _ _))
    rw [Scanner.fedSource, if_neg hne, h.source, intercalate_concat _ (List.cons_ne_nil _ _)]

-- The next ask is for one line more, or it begins a new logical line.
theorem next (h : Gathers s inputs m s₀ lines s')
    (hnext : (s.asked inputs)[m + lines.length + 1]? = some s'') :
    ∃ m' s₁ held, m + lines.length + 1 = m' + held.length ∧ Gathers s inputs m' s₁ held s'' := by
  have hnew (hn : s''.scanner = .new) :
      ∃ m' s₁ held, m + lines.length + 1 = m' + held.length ∧ Gathers s inputs m' s₁ held s'' :=
    ⟨_, s'', [], rfl, gathers_of_new hnext hn⟩
  obtain ⟨input, hinput, hears⟩ := hears_of_asked h.last hnext
  cases hears with
  | interrupt =>
    refine hnew ?_
    rw [Scanner.reset, h.aligned.2]
    rfl
  | line text =>
    rcases takeLine_cases s'.ask text with ⟨u, hf, hm, ht⟩ | ht
    · rw [ht] at hnext ⊢
      rw [scanner_ask] at hf
      refine ⟨m, s₀, lines ++ [text], by simp; omega, h.first, h.fresh, ?_, ?_, ?_, ?_, ?_, ?_⟩
      · simpa [Nat.add_assoc] using hnext
      · rw [List.length_append, List.length_singleton, List.take_add_one, h.read,
          List.getElem?_drop, hinput, List.map_append]
        rfl
      · intro k v hk hle hv
        rw [List.length_append, List.length_singleton, ← Nat.add_assoc] at hle
        rcases Nat.lt_or_eq_of_le hle with hlt | rfl
        · exact h.between k v hk (Nat.le_of_lt_succ hlt) hv
        · rw [hnext, Option.some.injEq] at hv
          rw [← hv]
          exact hm
      · rw [Scanner.feedLines_concat h.fed, hf]
      · have hs := Scanner.source_feed s'.scanner text
        rw [hf] at hs
        rw [← h.source_concat]
        exact hs
      · exact h.waits.ask u
    · refine hnew ?_
      rw [ht, scanner_ask, h.aligned.2]
      rfl

end Gathers

theorem exists_gathers (hs : s.scanner = .new) (h : (s.asked inputs)[n]? = some s') :
    ∃ m s₀ lines, n = m + lines.length ∧ Gathers s inputs m s₀ lines s' := by
  induction n generalizing s' with
  | zero =>
    obtain ⟨rfl, -⟩ := asked_zero h
    exact ⟨0, s', [], rfl, gathers_of_new h hs⟩
  | succ n ih =>
    obtain ⟨u, hu⟩ := exists_asked_of_succ h
    obtain ⟨m, s₀, lines, rfl, hh⟩ := ih hu
    exact hh.next h

theorem finish_of_ok {u v : Scanner} {script : Script} (h : u.finish = (v, .ok script)) :
    v = u.reset := by
  obtain ⟨hp, ho, -⟩ := Scanner.of_finish_ok (congrArg Prod.snd h)
  simp only [Scanner.finish, hp, ho] at h
  exact (congrArg Prod.fst h).symm

-- Closing a logical line leaves nothing of it, whether it could be run or not.
theorem scanner_finishLine (s : Session) : s.finishLine.scanner = .starting s.scanner.mode := by
  unfold finishLine
  split
  · next scanner script hf =>
    rw [(kept_runScript (textKeeps_inner _) script).scanner, finish_of_ok hf]
    rfl
  · rfl

theorem scanner_takeEnd (hm : s.scanner.mode = .command)
    (hn : s.scanner.expectMore = false → s.scanner = .new) : s.takeEnd.scanner = .new := by
  unfold takeEnd
  split
  · rw [scanner_finishLine, hm]
    rfl
  · next he => exact hn (by simpa using he)

-- A logical line that is incomplete at the end of the inputs is closed or dropped, and at an exit
-- there is none.
theorem scanner_read (hm : s.scanner.mode = .command)
    (hn : s.scanner.expectMore = false → s.scanner = .new)
    (he : s.exiting = true → s.scanner = .new) (hf : ∀ message, .failure message ∉ inputs) :
    (s.read inputs).session.scanner = .new := by
  have hend {s : Session} (hm : s.scanner.mode = .command)
      (hn : s.scanner.expectMore = false → s.scanner = .new) : s.ask.takeEnd.scanner = .new :=
    scanner_takeEnd (by simpa using hm) (by simpa using hn)
  induction inputs generalizing s with
  | nil =>
    rw [read]
    dsimp only
    split
    · next hexit => exact he hexit
    · exact hend hm hn
  | cons input rest ih =>
    have hrest : ∀ message, .failure message ∉ rest := fun message hmem =>
      hf message (List.mem_cons_of_mem _ hmem)
    have hnew {next : Session} (hs : next.scanner = .new) :
        (next.read rest).session.scanner = .new :=
      ih (by rw [hs]; rfl) (fun _ => hs) (fun _ => hs) hrest
    cases hexit : s.exiting with
    | true =>
      rw [read_of_exiting hexit]
      exact he hexit
    | false =>
      cases input with
      | line text =>
        have hread : (s.read (.line text :: rest)).session =
            ((s.ask.takeLine text).read rest).session := by simp [read, hexit]
        rw [hread]
        rcases takeLine_cases s.ask text with ⟨u, hu, hmore, ht⟩ | ht
        · have hmode := Scanner.mode_feed s.scanner text
          have hask : s.ask.exiting = false := by
            unfold ask
            split <;> exact hexit
          rw [scanner_ask] at hu
          rw [hu] at hmode
          rw [ht]
          refine ih (hmode.trans hm) (fun hc => ?_) (fun hc => ?_) hrest
          · exact absurd (hmore.symm.trans hc) (by decide)
          · exact absurd (hask.symm.trans hc) (by decide)
        · refine hnew ?_
          rw [ht, scanner_ask, hm]
          rfl
      | interrupt =>
        have hread : (s.read (.interrupt :: rest)).session =
            (({ s.ask with scanner := s.scanner.reset } : Session).read rest).session := by
          simp [read, hexit]
        rw [hread]
        refine hnew ?_
        rw [Scanner.reset, hm]
        rfl
      | endOfInput =>
        have hread : (s.read (.endOfInput :: rest)).session = s.ask.takeEnd := by
          simp [read, hexit]
        rw [hread]
        exact hend hm hn
      | failure message => exact absurd (List.mem_cons_self ..) (hf message)

-- What cannot be completed never leaks into a later line.  Whenever a session that began between
-- two logical lines asks for a line, its scanner is what a new scanner becomes that is fed the lines
-- since the last main prompt, all of them accepted, and the session has not run any of them.  With
-- the main prompt there are no such lines, so that nothing read before, run before or dropped before
-- makes a difference to how the next line is read.  When the input has ended there are none either.
theorem scanner_of_asked (hs : s.scanner = .new) (inputs : List Input) :
    (s.read inputs).prompts = ((s.asked inputs).take inputs.length).map prompt ∧
    (∀ n s', (s.asked inputs)[n]? = some s' →
      (s.read inputs).session = (s'.read (inputs.drop n)).session ∧
      ∃ m s₀ lines, n = m + lines.length ∧ Gathers s inputs m s₀ lines s' ∧
        (s'.scanner.expectMore = true ↔ lines ≠ []) ∧
        (s'.scanner.expectMore = false → s'.scanner = .new) ∧
        ∀ text, s'.scanner.feed text = Scanner.new.feedLines (lines ++ [text])) ∧
    ((∀ message, .failure message ∉ inputs) → (s.read inputs).session.scanner = .new) := by
  refine ⟨prompts_read s inputs, fun n s' h => ⟨read_of_asked h, ?_⟩, ?_⟩
  · obtain ⟨m, s₀, lines, hn, hh⟩ := exists_gathers hs h
    refine ⟨m, s₀, lines, hn, hh, hh.expectMore_iff, fun he => ?_, fun text => ?_⟩
    · have hlines : lines = [] := by
        by_contra hne
        exact absurd (hh.expectMore_iff.2 hne) (by simp [he])
      subst hlines
      exact hh.scanner_of_nil
    · exact (Scanner.feedLines_concat hh.fed text).symm
  · exact scanner_read (by rw [hs]; rfl) (fun _ => hs) fun _ => hs

-- A quote over two lines with an error behind it, a block that is interrupted, a command that fails,
-- and a quote that is still open at the end.
theorem scanner_of_asked_of_interrupt :
    let s : Session := { library := .captured "test" }
    let inputs : List Input :=
      [.line "echo 'a", .line "b' \x7d", .line "in c \x7b", .interrupt, .line "json", .line "pwd \"d"]
    s.scanner = .new ∧
      (s.read inputs).prompts = ["opsh> ", "...> ", "opsh> ", "...> ", "opsh> ", "opsh> "] ∧
      (s.asked inputs).length = 7 ∧ (s.read inputs).session.scanner = .new ∧
      ∃ s', (s.asked inputs)[6]? = some s' ∧ s'.scanner.expectMore = true ∧
        ∃ m s₀ lines, 6 = m + lines.length ∧ Gathers s inputs m s₀ lines s' := by
  intro s inputs
  obtain ⟨-, hasked, hend⟩ := scanner_of_asked (s := s) rfl inputs
  have hprompts : (s.read inputs).prompts =
      ["opsh> ", "...> ", "opsh> ", "...> ", "opsh> ", "opsh> "] := by decide +kernel
  have hlength : (s.asked inputs).length = 7 := by decide +kernel
  have hmore : ((s.asked inputs)[6]?.map (·.scanner.expectMore)) = some true := by decide +kernel
  refine ⟨rfl, hprompts, hlength, hend (by simp [inputs]), ?_⟩
  obtain ⟨s', hs', he⟩ := Option.map_eq_some_iff.1 hmore
  obtain ⟨-, m, s₀, lines, hn, hh, -⟩ := hasked 6 s' hs'
  exact ⟨s', hs', he, m, s₀, lines, hn, hh⟩

end Session

end CommandShell
