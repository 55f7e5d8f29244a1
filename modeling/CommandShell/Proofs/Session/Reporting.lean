import CommandShell.CommandLine.Program
import CommandShell.Proofs.Session.Events

namespace CommandShell

theorem World.diagnostics_diagnose_ne (w : World) {told : String} (h : told ≠ "") :
    (w.diagnose told).diagnostics ≠ w.diagnostics := by
  simpa [diagnose] using h

namespace Session

variable {inner : TextRun} {ofText : TextEvents} {script : Script} {s s' s'' : Session}
  {es es' : List Event} {ok ok' : Bool} {e : Option Error}

-- An error of a command is always told about.
theorem exists_report (s : Session) (script : Script) (c : Script.Command) (e : Error) :
    ∃ told, told ≠ "" ∧ s.report script c e = s.diagnose told := by
  have hunplaced (name message : String) : name ++ ": " ++ message ++ "\n" ≠ "" := by
    intro h
    have hlist := congrArg String.toList h
    simp at hlist
  cases e with
  | bind b => exact ⟨_, Script.render_ne_empty _ _ _ _, rfl⟩
  | dispatch d => exact ⟨_, Script.render_ne_empty _ _ _ _, rfl⟩
  | lex l => exact ⟨_, Script.renderLines_ne_empty _ _ _, rfl⟩
  | run e => exact ⟨_, hunplaced _ _, rfl⟩
  | config e => exact ⟨_, hunplaced _ _, rfl⟩

-- Something is told exactly if there was a failure, and where there was none every command that
-- was dispatched succeeded.
structure Reported (s : Session) (es : List Event) (s' : Session) (ok : Bool) : Prop where
  told : ∃ told, s'.world.diagnostics = s.world.diagnostics ++ told ∧ (ok = true ↔ told = "")
  succeeded : ok = true → ∀ event ∈ es, event.Succeeded

namespace Reported

theorem append (h : Reported s es s' ok) (h' : Reported s' es' s'' ok') :
    Reported s (es ++ es') s'' (ok && ok') := by
  obtain ⟨told, hd, ht⟩ := h.told
  obtain ⟨told', hd', ht'⟩ := h'.told
  refine ⟨⟨told ++ told', by rw [hd', hd, String.append_assoc], ?_⟩, fun hok => ?_⟩
  · rw [Bool.and_eq_true, ht, ht', String.append_eq_empty_iff]
  · rw [Bool.and_eq_true] at hok
    intro event hm
    rcases List.mem_append.1 hm with hm | hm
    · exact h.succeeded hok.1 event hm
    · exact h'.succeeded hok.2 event hm

theorem of_complaint {told : String} (h : told ≠ "") : Reported s [] (s.diagnose told) false :=
  ⟨⟨told, rfl, by simp [h]⟩, nofun⟩

theorem of_command {c : Script.Command} (h : Reported s es s' ok) (he : e = none → ok = true) :
    Reported s (.began script c s :: (es ++ [.ended script c s' e]))
      (e.elim s' (s'.report script c)) e.isNone := by
  cases e with
  | none =>
    obtain rfl := he rfl
    refine ⟨h.told, fun _ event hm => ?_⟩
    rcases List.mem_cons.1 hm with rfl | hm
    · exact trivial
    · rcases List.mem_append.1 hm with hm | hm
      · exact h.succeeded rfl event hm
      · obtain rfl := List.mem_singleton.1 hm
        rfl
  | some e =>
    obtain ⟨before, hd, -⟩ := h.told
    obtain ⟨told, hn, hr⟩ := exists_report s' script c e
    refine ⟨⟨before ++ told, ?_, ?_⟩, nofun⟩
    · show (s'.report script c e).world.diagnostics = _
      rw [hr, ← String.append_assoc, ← hd]
      rfl
    · simp [hn]

theorem diagnostics_eq_iff (h : Reported s es s' ok) :
    s'.world.diagnostics = s.world.diagnostics ↔ ok = true := by
  obtain ⟨told, hd, ht⟩ := h.told
  rw [hd, ht, String.append_eq_left_iff]

end Reported

-- The handlers stay the same, and if they are candid all is reported.
structure Accounted (s : Session) (es : List Event) (s' : Session) (ok : Bool) : Prop where
  library : s'.library = s.library
  reported : s.library.Candid → Reported s es s' ok

theorem Accounted.lawful : Lawful Accounted where
  quiet h := ⟨h.library, fun _ => ⟨⟨"", by simp [h.diagnostics], by simp⟩, fun _ _ => nofun⟩⟩
  append h h' := ⟨h'.library.trans h.library, fun hc =>
    (h.reported hc).append (h'.reported (h.library ▸ hc))⟩
  complaint h := ⟨rfl, fun _ => .of_complaint h⟩
  command {_ _ _ _ _ _ _ _ e} _ _ h he := by
    refine ⟨?_, fun hc => (h.reported hc).of_command (he hc)⟩
    cases e with
    | none => exact h.library
    | some e => exact h.library

-- A command fails with the error that its dispatch ended with.
theorem runCommand_of_succeeded {c : Script.Command}
    (h : ∀ event ∈ commandEvents inner ofText script c s, event.Succeeded) :
    (runCommand inner script c s).2 = true := by
  obtain ⟨node, blocks, redirections⟩ := c
  rw [commandEvents] at h
  rw [runCommand]
  generalize dispatch s inner script _ _ = done at h ⊢
  obtain ⟨s', e⟩ := done
  obtain rfl : e = none := h (.ended script (.mk node blocks redirections) s' e) (by simp)
  rfl

theorem runBlock_of_succeeded {commands : List Script.Command}
    (h : ∀ event ∈ blockEvents inner ofText script commands s, event.Succeeded) :
    (runBlock inner script commands s).2 = none := by
  induction commands generalizing s with
  | nil => rfl
  | cons c rest ih =>
    rw [blockEvents] at h
    rw [runBlock]
    split
    · rfl
    · next he =>
      rw [if_neg he] at h
      have hfirst := runCommand_of_succeeded fun event hm => h event (List.mem_append_left _ hm)
      have hrest := ih fun event hm => h event (List.mem_append_right _ hm)
      simp only [hfirst, hrest, if_true]

theorem runSource_eq_none_iff_told (hs : s.library.Candid) (text : String) :
    (s.runSource text).2 = none ↔ (s.runSource text).1.world.diagnostics = s.world.diagnostics := by
  have h := (Accounted.lawful.runSource s text).reported hs
  rw [h.diagnostics_eq_iff, Option.isNone_iff_eq_none]

theorem runSource_eq_none_iff_succeeded (hs : s.library.Candid) (text : String) :
    (s.runSource text).2 = none ↔ (∃ script, Script.tokenize text = .ok script) ∧
      ∀ event ∈ s.sourceEvents text, event.Succeeded := by
  constructor
  · intro h
    refine ⟨?_, ((Accounted.lawful.runSource s text).reported hs).succeeded (by simp [h])⟩
    cases ht : Script.tokenize text with
    | ok script => exact ⟨script, rfl⟩
    | error e => simp [runSource, runText, ht] at h
  · rintro ⟨⟨script, ht⟩, h⟩
    simp only [sourceEvents, textEvents, ht] at h
    simp only [runSource, runText, ht, runScript, runBlock_of_succeeded h, Option.map_none]

end Session

namespace CommandLine

theorem diagnostics_openLog (w : World) (path : Option String) :
    (openLog w path).diagnostics = w.diagnostics := by
  cases path <;> rfl

-- The program fails with a line or a script exactly if it told something.
theorem status_runOptions (w : World) {o : Options} (h : o.line.isSome ∨ o.script.isSome)
    (input : String) :
    (runOptions w o input).status ≠ 0 ↔
      (runOptions w o input).world.diagnostics ≠ w.diagnostics := by
  have hcomplaint (w' : World) (message : String) (hd : w'.diagnostics = w.diagnostics) :
      1 ≠ 0 ↔ (w'.diagnose ("opsh: " ++ message ++ "\n")).diagnostics ≠ w.diagnostics := by
    have hne : "opsh: " ++ message ++ "\n" ≠ "" := by simp
    simpa [← hd] using w'.diagnostics_diagnose_ne hne
  have hran (s : Session) (text : String) (hs : s.library = .standard)
      (hd : s.world.diagnostics = w.diagnostics) :
      (if (s.runSource text).2.isSome then 1 else 0) ≠ 0 ↔
        (s.runSource text).1.world.diagnostics ≠ w.diagnostics := by
    have candid : s.library.Candid := hs ▸ Handler.Library.candid_standard
    rw [← hd, ne_eq, ne_eq, ← Session.runSource_eq_none_iff_told candid]
    cases (s.runSource text).2 <;> simp
  unfold runOptions
  cases o.config.elim (Config.load w) (Config.loadFrom w) with
  | error e => exact hcomplaint w _ rfl
  | ok config =>
    have hd := diagnostics_openLog w (config.logPath w)
    dsimp only
    cases hl : o.line with
    | some line => exact hran _ line rfl hd
    | none =>
      cases hs : o.script with
      | none => simp [hl, hs] at h
      | some path =>
        dsimp only
        cases (openLog w (config.logPath w)).readText path with
        | error e => exact hcomplaint _ _ hd
        | ok text => exact hran _ text rfl hd

-- Where no command hides that its block failed, as with the standard handlers: running a text fails
-- exactly if something was told meanwhile, and nothing was told exactly if the text can be read and
-- every command that was dispatched for it succeeded, in blocks and in sourced files too.  The exit
-- status says the same of a line or a script.
theorem runSource_fails_iff_told (s : Session) (hs : s.library.Candid) (text : String) :
    ((s.runSource text).2 = none ↔
      (s.runSource text).1.world.diagnostics = s.world.diagnostics) ∧
    ((s.runSource text).2 = none ↔ (∃ script, Script.tokenize text = .ok script) ∧
      ∀ event ∈ s.sourceEvents text, event.Succeeded) ∧
    ∀ (w : World) (arguments : List String) (input : String) (o : Options),
      readArguments {} arguments = .ok (.run o) → o.line.isSome ∨ o.script.isSome →
      ((run w arguments input).status ≠ 0 ↔
        (run w arguments input).world.diagnostics ≠ w.diagnostics) := by
  refine ⟨Session.runSource_eq_none_iff_told hs text,
    Session.runSource_eq_none_iff_succeeded hs text, ?_⟩
  intro w arguments input o ha ho
  simp only [run, ha]
  exact status_runOptions w ho input

theorem runSource_fails_iff_told_of_nested :
    let text := "echo a; in b { cd c; nope }"
    let arguments := ["-c", text]
    Handler.Library.standard.Candid ∧
      readArguments {} arguments = .ok (.run { line := some text }) ∧
      (run {} arguments "").status = 1 ∧ (run {} arguments "").world.diagnostics ≠ "" := by
  intro text arguments
  have hread : (readArguments {} arguments).toOption = some (.run { line := some text }) := by
    decide +kernel
  have ha : readArguments {} arguments = .ok (.run { line := some text }) := by
    cases h : readArguments {} arguments with
    | error e =>
      rw [h] at hread
      cases hread
    | ok choice =>
      rw [h] at hread
      exact congrArg Except.ok (Option.some.inj hread)
  have hs : (run {} arguments "").status = 1 := by decide +kernel
  have hmain := runSource_fails_iff_told { library := .standard } Handler.Library.candid_standard
    text
  have hiff := hmain.2.2 {} arguments "" _ ha (.inl rfl)
  refine ⟨Handler.Library.candid_standard, ha, hs, hiff.1 ?_⟩
  rw [hs]
  decide

end CommandLine

end CommandShell
