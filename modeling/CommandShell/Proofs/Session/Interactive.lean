import CommandShell.Handler.Library
import CommandShell.Proofs.Session.Blocks
import CommandShell.Proofs.Text.Splitting
import CommandShell.Session.Reading

namespace CommandShell

namespace Handler.Command

theorem unplaced_countTo (first last step : Int) (cancelled : Bool) :
    (countTo first last step cancelled).Unplaced := by
  unfold countTo
  split
  · trivial
  · split
    · trivial
    · split
      · trivial
      · exact fun _ => trivial

theorem unplaced_seq : seq.body.Unplaced := by
  refine ⟨fun v u h => ?_, fun v => ?_⟩
  · simp only [h.option, h.cancelled]
  · exact unplaced_countTo _ _ _ _

theorem unplaced_set : set.body.Unplaced := by
  refine ⟨fun v u h => ?_, fun v => ?_⟩
  · simp only [h.option, h.context]
  · dsimp only
    split
    · trivial
    · split <;> trivial
    · trivial
    · split
      · exact fun _ => trivial
      · trivial
    · exact fun _ => trivial

theorem unplaced_within : within.body.Unplaced := by
  refine ⟨fun v u h => ?_, fun v => ?_⟩
  · simp only [h.option, h.context, h.hasBlock]
  · dsimp only
    split
    · exact fun _ => trivial
    · trivial

-- No command of the standard library looks at the places of its script.
theorem unplaced_of_mem_standard {c : Command} (h : c ∈ Library.standard.table .command) :
    c.body.Unplaced := by
  simp only [Library.table_standard, List.mem_cons, List.not_mem_nil, or_false] at h
  rcases h with rfl | rfl | rfl | rfl | rfl
  · exact ⟨fun v u h => by simp only [h.option], fun v _ => trivial⟩
  · exact unplaced_seq
  · exact unplaced_set
  · exact unplaced_within
  · exact ⟨fun v u h => by simp only [h.request.context], fun v _ => trivial⟩

end Handler.Command

namespace Session

open Script (Scanner tokenize)
open Script.Scanner (loaded)

variable {s : Session} {script : Script} {u : Scanner} {text line : String} {rest : List String}

-- A session between two logical lines, with no prompts to be shown, that no handler can tell from
-- another one by the places of its script.
structure Rested (s : Session) : Prop where
  scanner : s.scanner = .new
  prompting : s.prompting = false
  unplaced : Unplaced s.library

theorem Rested.of_kept {s s' : Session} (h : Rested s) (hk : Kept s s') : Rested s' :=
  ⟨hk.scanner.trans h.scanner, hk.prompting.trans h.prompting, hk.library ▸ h.unplaced⟩

theorem inner_of_kept {s s' : Session} (h : Kept s s') : s'.inner = s.inner := by
  rw [inner, inner, h.depth]

theorem ask_of_not_prompting (h : s.prompting = false) : s.ask = s := by
  simp [ask, h]

-- After an exit nothing of a script runs.
theorem runScript_of_exiting (inner : TextRun) (he : s.exiting = true) (script : Script) :
    (runScript inner s script).1 = s := by
  rw [runScript]
  cases script.commands with
  | nil => rfl
  | cons c rest => simp [runBlock, he]

theorem read_of_exiting (he : s.exiting = true) (inputs : List Input) :
    (s.read inputs).session = s := by
  cases inputs <;> simp [read, he]

theorem read_nil (h : Rested s) : (s.read []).session = s := by
  have hm : s.scanner.expectMore = false := by rw [h.scanner]; rfl
  rw [read]
  split
  · rfl
  · simp [ask_of_not_prompting h.prompting, takeEnd, hm]

theorem read_line (he : s.exiting = false) (hp : s.prompting = false) (line : String)
    (inputs : List Input) :
    (s.read (.line line :: inputs)).session = ((s.takeLine line).read inputs).session := by
  simp [read, he, ask_of_not_prompting hp]

-- An incomplete logical line waits for the next line.
theorem takeLine_of_expectMore (hf : s.scanner.feed line = (u, none))
    (hm : u.expectMore = true) : s.takeLine line = { s with scanner := u } := by
  simp [takeLine, hf, hm]

-- A complete logical line runs at once.
theorem takeLine_of_complete (hf : s.scanner.feed line = (u, none))
    (hm : u.expectMore = false) :
    s.takeLine line = (runScript s.inner { s with scanner := u.reset } u.snapshot).1 := by
  simp only [takeLine, hf, hm, finishLine, Scanner.finish_of_expectMore hm]
  rfl

theorem scan_of_tokenize_intercalate
    (ht : tokenize (String.intercalate "\n" (text :: rest)) = .ok script) :
    ∃ u, (loaded .command text).scan = (u, none) ∧ (u.expectMore = true → rest ≠ []) := by
  cases rest with
  | nil =>
    have htext : tokenize text = .ok script := ht
    obtain ⟨u, hu, hm, -⟩ := Script.scan_complete_of_tokenize htext
    exact ⟨u, hu, fun h => absurd (hm.symm.trans h) (by decide)⟩
  | cons line rest =>
    rw [String.intercalate_cons_cons] at ht
    obtain ⟨w, hw, -, -⟩ := Script.scan_complete_of_tokenize ht
    generalize hu : (loaded .command text).scan = x
    obtain ⟨u, e | e⟩ := x
    · exact ⟨u, rfl, fun _ => by simp⟩
    · have hr : ((loaded .command text).resume (String.intercalate "\n" (line :: rest))).scan.2 =
          some e := Scanner.scan_resume_of_error hu
      rw [Scanner.resume_loaded, hw] at hr
      cases hr

-- The scanner goes on in an incomplete logical line as it would in one text.
theorem feed_of_expectMore (hu : (loaded .command text).scan = (u, none))
    (hm : u.expectMore = true) (line : String) :
    u.feed line = (loaded .command (text ++ "\n" ++ line)).scan := by
  have hsource : u.source = text := Scanner.source_of_scan hu
  have hn : u.source ≠ "" := by
    rw [hsource]
    rintro rfl
    have hempty : (loaded .command "").scan = (loaded .command "", none) := by
      rw [Scanner.scan]
      rfl
    rw [hempty] at hu
    cases hu
    cases hm
  rw [Scanner.feed_eq_scan_resume hn, ← Scanner.scan_resume_of_scan hu, Scanner.resume_loaded]

theorem reset_of_scan (hu : (loaded .command text).scan = (u, none)) : u.reset = .new := by
  rw [Scanner.reset, Scanner.mode_of_scan hu]
  rfl

-- Reading on in a logical line of which `text` is there once `line` is fed: what is read then
-- runs as one script.
theorem read_from (he : s.exiting = false) (hs : Rested { s with scanner := .new })
    (hf : s.scanner.feed line = (loaded .command text).scan)
    (ht : tokenize (String.intercalate "\n" (text :: rest)) = .ok script) :
    (s.read ((line :: rest).map .line)).session =
      (runScript s.inner { s with scanner := .new } script).1 := by
  induction rest generalizing s line text script with
  | nil =>
    have htext : tokenize text = .ok script := ht
    obtain ⟨u, hu, hm, rfl⟩ := Script.scan_complete_of_tokenize htext
    have hkept := kept_runScript (textKeeps_inner s) (s := { s with scanner := .new }) u.snapshot
    rw [List.map_cons, read_line he hs.prompting, takeLine_of_complete (hf.trans hu) hm,
      reset_of_scan hu]
    exact read_nil (hs.of_kept hkept)
  | cons next rest ih =>
    obtain ⟨u, hu, -⟩ := scan_of_tokenize_intercalate ht
    rw [List.map_cons, read_line he hs.prompting]
    cases hm : u.expectMore with
    | true =>
      rw [takeLine_of_expectMore (hf.trans hu) hm]
      exact ih (s := { s with scanner := u }) he hs (feed_of_expectMore hu hm next) ht
    | false =>
      have hfirst := Script.tokenize_of_scan hu hm
      have hwhole := ht
      rw [String.intercalate_cons_cons] at hwhole
      obtain ⟨later, d, hlater, hj⟩ := Script.tokenize_lines hu hm hwhole
      have hjoined := runScript_joined hj (sound_of_tokenize hfirst) (sound_of_tokenize hlater)
        (sound_of_tokenize hwhole) (textKeeps_inner s) hs.unplaced
      have hkept := kept_runScript (textKeeps_inner s) (s := { s with scanner := .new }) u.snapshot
      rw [takeLine_of_complete (hf.trans hu) hm, reset_of_scan hu, hjoined]
      generalize (runScript s.inner { s with scanner := .new } u.snapshot).1 = s' at hkept ⊢
      have hrested := hs.of_kept hkept
      have hinner : s'.inner = s.inner := inner_of_kept (s := { s with scanner := .new }) hkept
      have hnew : ({ s' with scanner := .new } : Session) = s' := by
        rw [← hrested.scanner]
      cases he' : s'.exiting with
      | true => rw [read_of_exiting he', runScript_of_exiting _ he']
      | false =>
        have hfeed : s'.scanner.feed next = (loaded .command next).scan := by
          rw [hrested.scanner]
          exact Scanner.feed_starting .command next
        rw [ih he' (hnew.symm ▸ hrested) hfeed hlater, hnew, hinner]

theorem unplaced_captured (group : String) : Unplaced (Handler.Library.captured group) := by
  intro name handler h
  have hm := Handler.Registry.mem_table_of_handler? h
  rw [Handler.Library.table_captured] at hm
  exact Handler.Command.unplaced_of_mem_standard hm

-- With the standard handlers, a text that can be read has the same effect on a session between two
-- logical lines whether its lines are read one after the other, each logical line run as soon as
-- it is complete, or the text is run as a whole.
theorem read_splitString {group : String} (hl : s.library = .captured group)
    (hs : s.scanner = .new) (hp : s.prompting = false) (ht : tokenize text = .ok script) :
    (s.read ((Text.splitString '\n' text).map .line)).session = (s.runSource text).1 := by
  have hrested : Rested s := ⟨hs, hp, hl ▸ unplaced_captured group⟩
  have hnew : ({ s with scanner := .new } : Session) = s := by rw [← hs]
  have hsource : (s.runSource text).1 = (runScript s.inner s script).1 := by
    rw [runSource, runText, ht]
  have htext := Text.intercalate_splitString text
  rw [hsource]
  cases he : s.exiting with
  | true => rw [read_of_exiting he, runScript_of_exiting _ he]
  | false =>
    cases hlines : Text.splitString '\n' text with
    | nil => exact absurd hlines (Text.splitString_ne_nil '\n' text)
    | cons line rest =>
      rw [hlines] at htext
      have hfeed : s.scanner.feed line = (loaded .command line).scan := by
        rw [hs]
        exact Scanner.feed_starting .command line
      rw [read_from he (hnew.symm ▸ hrested) hfeed (htext.symm ▸ ht), hnew]

-- A block and a quoted argument over several lines, a redirection behind a newline, a command that
-- fails, and an exit with a command behind it.
theorem read_splitString_of_block :
    let s : Session := { library := .captured "test" }
    let text := "in a \x7b\n pwd # b\n\x7d\necho 'c\nd' |\n json; cd -x e\nexit\npwd"
    s.scanner = .new ∧ s.prompting = false ∧ (∃ script, tokenize text = .ok script ∧
      (s.read ((Text.splitString '\n' text).map .line)).session = (s.runSource text).1) ∧
      (s.runSource text).1.requests = 3 := by
  intro s text
  have hr : (s.runSource text).1.requests = 3 := by decide +kernel
  have hk : (tokenize text).toOption.isSome = true := by decide +kernel
  refine ⟨rfl, rfl, ?_, hr⟩
  cases h : tokenize text with
  | error e =>
    rw [h] at hk
    cases hk
  | ok script => exact ⟨script, rfl, read_splitString (s := s) rfl rfl rfl h⟩

-- A reader that failed within a logical line left it incomplete, and the next reader goes on in it.
theorem read_of_incomplete :
    let start : Session := { library := .captured "test" }
    let s := (start.read [.line "echo 'a", .failure "broken"]).session
    s.library = .captured "test" ∧ s.prompting = false ∧
      (tokenize "cd b").toOption.isSome = true ∧
      (s.read ((Text.splitString '\n' "cd b").map .line)).session.context.segments = [] ∧
      (s.runSource "cd b").1.context.segments = ["b"] := by
  intro start s
  have hf : (start.scanner.feed "echo 'a").2 = none := by decide +kernel
  have hm : (start.scanner.feed "echo 'a").1.expectMore = true := by decide +kernel
  have hs : s = { start with scanner := (start.scanner.feed "echo 'a").1 } := by
    show (start.read [.line "echo 'a", .failure "broken"]).session = _
    rw [read_line rfl rfl, takeLine_of_expectMore (Prod.ext rfl hf) hm]
    rfl
  rw [hs]
  refine ⟨rfl, rfl, ?_, ?_, ?_⟩
  · decide +kernel
  · decide +kernel
  · decide +kernel

end Session

end CommandShell
