import CommandShell.Proofs.Scanner.Word
import CommandShell.Script.Scanner

namespace CommandShell.Script

namespace Scanner

-- One more line behind what is left to read, with the newline in front of it.
def resume (s : Scanner) (line : String) : Scanner :=
  { s with
    source := s.source ++ ("\n" ++ line)
    rest := s.rest ++ '\n' :: line.toList
    pending := none }

namespace Step

def resume (line : String) : Step → Step
  | done s => done (s.resume line)
  | wait pending => wait pending
  | reject s error => reject (s.resume line) error

end Step

variable {s s' : Scanner} {line : String} {kind : TokenKind} {position : Position} {c : Char}
  {gap piece rest text front cs : List Char}

theorem emit_resume :
    (s.resume line).emit kind gap piece (rest ++ '\n' :: line.toList) text position =
      (s.emit kind gap piece rest text position).resume line := by
  have ht : (s.resume line).tokenAt kind gap piece text = s.tokenAt kind gap piece text := rfl
  have htree : (s.resume line).tree = s.tree := rfl
  have hm : (s.resume line).marked kind gap piece (rest ++ '\n' :: line.toList) =
      (s.marked kind gap piece rest).resume line := by
    rw [marked, ← List.append_assoc]
    rfl
  rw [emit_eq, emit_eq, ht, htree, hm]
  cases s.tree.insert (s.tokenAt kind gap piece text) <;> rfl

theorem emitDecoded_resume :
    (s.resume line).emitDecoded kind gap piece (rest ++ '\n' :: line.toList) position =
      (s.emitDecoded kind gap piece rest position).resume line := by
  have ho : (s.resume line).offset = s.offset := rfl
  simp only [emitDecoded, ho]
  cases decodeFrom none (s.offset + Text.width gap) piece with
  | error error => rfl
  | ok text => exact emit_resume

theorem unfinished_eq_wait (s : Scanner) (gap cs : List Char) (offset : Nat) :
    ∃ p, s.unfinished gap cs offset = .wait p := by
  simp only [unfinished]
  split <;> exact ⟨_, rfl⟩

theorem readCommand_resume (h : ∀ p, s.readCommand c cs ≠ .wait p) :
    (s.resume line).readCommand c (cs ++ '\n' :: line.toList) =
      (s.readCommand c cs).resume line := by
  simp only [readCommand] at h ⊢
  cases hw : word (c :: cs) with
  | none =>
    simp only [hw] at h
    obtain ⟨p, hp⟩ := unfinished_eq_wait s [] (c :: cs) s.offset
    exact absurd hp (h p)
  | some p =>
    have ha := word_append_newline line.toList hw
    rw [List.cons_append] at ha
    simp only [ha]
    exact emitDecoded_resume

theorem startsOption_append_newline :
    startsOption (cs ++ '\n' :: line.toList) = startsOption cs := by
  cases cs with
  | nil => simp [startsOption, endsWord]
  | cons c cs => rfl

theorem readArgument_resume {options : Bool} (h : ∀ p, s.readArgument options c cs ≠ .wait p) :
    (s.resume line).readArgument options c (cs ++ '\n' :: line.toList) =
      (s.readArgument options c cs).resume line := by
  have ho : startsOption (cs ++ '\n' :: line.toList) = startsOption cs :=
    startsOption_append_newline
  have hg : (s.resume line).isGlued = s.isGlued := rfl
  have hp : (s.resume line).position = s.position := rfl
  simp only [readArgument, ho, hg, hp] at h ⊢
  by_cases hc : isQuote c
  · rw [if_pos hc] at h ⊢
    rw [if_pos hc]
    cases hq : quoted c cs with
    | none =>
      simp only [hq] at h
      exact absurd rfl (h _)
    | some p =>
      simp only [quoted_append _ hq]
      exact emitDecoded_resume
  · rw [if_neg hc] at h ⊢
    rw [if_neg hc]
    cases hb : bare (c :: cs) with
    | none =>
      simp only [hb] at h
      exact absurd rfl (h _)
    | some p =>
      have ha := bare_append_newline line.toList hb
      rw [List.cons_append] at ha
      simp only [ha]
      split
      · split
        · rfl
        · exact emitDecoded_resume
      · exact emitDecoded_resume

theorem readWord_resume (h : ∀ p, s.readWord c cs ≠ .wait p) :
    (s.resume line).readWord c (cs ++ '\n' :: line.toList) = (s.readWord c cs).resume line := by
  have hp : (s.resume line).position = s.position := rfl
  simp only [readWord, hp] at h ⊢
  cases heq : s.position with
  | command =>
    simp only [heq] at h
    exact readCommand_resume h
  | argument options =>
    simp only [heq] at h
    exact readArgument_resume h

theorem readShell_resume :
    (s.resume line).readShell front (cs ++ '\n' :: line.toList) =
      (s.readShell front cs).resume line := by
  have ho : (s.resume line).offset = s.offset := rfl
  have htake := takeWhile_append_newline isBlank cs line.toList rfl
  have hdrop := dropWhile_append_newline isBlank cs line.toList rfl
  have hbody := takeWhile_append_newline (fun c => c ≠ ';' && c ≠ '\n') (cs.dropWhile isBlank)
    line.toList rfl
  have hlen : (Text.trimEnd ((cs.dropWhile isBlank).takeWhile
      fun c => c ≠ ';' && c ≠ '\n')).length ≤ (cs.dropWhile isBlank).length := by
    have hd := congrArg List.length (shellText_append_drop
      (fun c => c ≠ ';' && c ≠ '\n') (cs.dropWhile isBlank))
    rw [List.length_append] at hd
    omega
  simp only [readShell, ho, htake, hdrop, hbody]
  split
  · rfl
  · rw [List.drop_append_of_le_length hlen]
    exact emit_resume

theorem readRedirection_resume (h : ∀ p, s.readRedirection cs ≠ .wait p) :
    (s.resume line).readRedirection (cs ++ '\n' :: line.toList) =
      (s.readRedirection cs).resume line := by
  have ho : (s.resume line).offset = s.offset := rfl
  simp only [readRedirection, ho] at h ⊢
  cases hd : cs.dropWhile fun c => isBlank c || c = '\n' with
  | nil =>
    simp only [hd] at h
    exact absurd rfl (h _)
  | cons c rest =>
    have hdrop : (cs ++ '\n' :: line.toList).dropWhile (fun c => isBlank c || c = '\n') =
        c :: rest ++ '\n' :: line.toList := by
      rw [List.dropWhile_append, hd]
      rfl
    have htake : (cs ++ '\n' :: line.toList).takeWhile (fun c => isBlank c || c = '\n') =
        cs.takeWhile (fun c => isBlank c || c = '\n') := by
      have hlen := congrArg List.length (List.takeWhile_append_dropWhile
        (p := fun c => isBlank c || c = '\n') (l := cs))
      rw [hd, List.length_append, List.length_cons] at hlen
      rw [List.takeWhile_append, if_neg (by omega)]
    simp only [hd, List.cons_append] at h
    simp only [hdrop, htake, List.cons_append]
    by_cases hc : c = '!'
    · simp only [if_pos hc]
      exact readShell_resume
    simp only [if_neg hc] at h ⊢
    by_cases he : endsWord c = true
    · simp only [if_pos he]
      rfl
    simp only [if_neg he] at h ⊢
    cases hw : word (c :: rest) with
    | none =>
      simp only [hw] at h
      obtain ⟨p, hp⟩ := unfinished_eq_wait s _ (c :: rest) s.offset
      exact absurd hp (h p)
    | some p =>
      have ha := word_append_newline line.toList hw
      rw [List.cons_append] at ha
      simp only [ha]
      cases decodeFrom none _ p.1 with
      | error error => rfl
      | ok name =>
        dsimp only
        split
        · exact readShell_resume
        · exact emit_resume

theorem readFile_resume (h : ∀ p, s.readFile cs ≠ .wait p) :
    (s.resume line).readFile (cs ++ '\n' :: line.toList) = (s.readFile cs).resume line := by
  have ho : (s.resume line).offset = s.offset := rfl
  have htake := takeWhile_append_newline isBlank cs line.toList rfl
  have hdrop := dropWhile_append_newline isBlank cs line.toList rfl
  simp only [readFile, ho, htake, hdrop] at h ⊢
  cases hd : cs.dropWhile isBlank with
  | nil => simp [endsWord, Step.resume]
  | cons c rest =>
    simp only [hd] at h
    simp only [List.cons_append]
    by_cases he : endsWord c = true
    · simp only [if_pos he]
      rfl
    simp only [if_neg he] at h ⊢
    cases hw : word (c :: rest) with
    | none =>
      simp only [hw] at h
      obtain ⟨p, hp⟩ := unfinished_eq_wait s _ (c :: rest) _
      exact absurd hp (h p)
    | some p =>
      have ha := word_append_newline line.toList hw
      have hblank := takeWhile_append_newline isBlank p.2 line.toList rfl
      have hrest := dropWhile_append_newline isBlank p.2 line.toList rfl
      rw [List.cons_append] at ha
      simp only [ha, hblank, hrest]
      cases p.2.dropWhile isBlank with
      | nil => simpa using emitDecoded_resume
      | cons d tail =>
        simp only [List.cons_append]
        split
        · exact emitDecoded_resume
        · rfl

-- A construct that the input did not end in is read in the same way with one more line behind.
theorem step_resume (line : String) (h : ∀ p, s.step c cs ≠ .wait p) :
    (s.resume line).step c (cs ++ '\n' :: line.toList) = (s.step c cs).resume line := by
  have hg : (s.resume line).isGlued = s.isGlued := rfl
  have htake := takeWhile_append_newline (· ≠ '\n') cs line.toList rfl
  have hdrop := dropWhile_append_newline (· ≠ '\n') cs line.toList rfl
  have hhead : (cs ++ '\n' :: line.toList).head? = some ' ' ↔ cs.head? = some ' ' := by
    cases cs <;> simp
  have htab : (cs ++ '\n' :: line.toList).head? = some '\t' ↔ cs.head? = some '\t' := by
    cases cs <;> simp
  simp only [step, hg, htake, hdrop, hhead, htab] at h ⊢
  by_cases hblank : isBlank c = true
  · simp only [if_pos hblank]
    rfl
  simp only [if_neg hblank] at h ⊢
  by_cases hsep : c = '\n' ∨ c = ';'
  · simp only [if_pos hsep]
    exact emit_resume
  simp only [if_neg hsep] at h ⊢
  by_cases hcomment : c = '#' ∧ !s.isGlued
  · simp only [if_pos hcomment]
    rfl
  simp only [if_neg hcomment] at h ⊢
  by_cases hopen : c = '\x7b'
  · simp only [if_pos hopen]
    exact emit_resume
  simp only [if_neg hopen] at h ⊢
  by_cases hclose : c = '\x7d'
  · simp only [if_pos hclose]
    exact emit_resume
  simp only [if_neg hclose] at h ⊢
  by_cases hback : c = '\\' ∧ !s.isGlued
  · simp only [if_pos hback] at h ⊢
    cases hj : join cs with
    | joined gap rest =>
      simp only [join_append_of_joined _ hj]
      rfl
    | unfinished =>
      simp only [hj] at h
      exact absurd rfl (h _)
    | absent =>
      simp only [hj] at h
      simp only [join_append_of_absent _ hj]
      exact readWord_resume h
  simp only [if_neg hback] at h ⊢
  by_cases hpipe : c = '|'
  · simp only [if_pos hpipe] at h ⊢
    exact readRedirection_resume h
  simp only [if_neg hpipe] at h ⊢
  by_cases hbang : c = '!' ∧ !s.isGlued ∧ (cs.head? = some ' ' ∨ cs.head? = some '\t')
  · simp only [if_pos hbang]
    exact readShell_resume
  simp only [if_neg hbang] at h ⊢
  by_cases hfile : c = '>'
  · simp only [if_pos hfile] at h ⊢
    exact readFile_resume h
  simp only [if_neg hfile] at h ⊢
  exact readWord_resume h

theorem source_of_step_done (h : s.step c cs = .done s') : s'.source = s.source := by
  cases reads_of_step h <;> rfl

-- Scanning moves on in the text and does not change it.
theorem source_of_scan (h : s.scan = (s', none)) : s'.source = s.source := by
  fun_induction scan s with
  | case1 =>
    cases h
    rfl
  | case2 s c cs _ next hs _ ih => exact (ih h).trans (source_of_step_done hs)
  | case3 =>
    cases h
    rfl
  | case4 => cases h

theorem scan_of_cons (hr : s.rest = c :: cs) :
    s.scan =
      match s.step c cs with
      | .done next => next.scan
      | .wait pending => ({ s with pending := some pending }, none)
      | .reject next error => (next, some error) := by
  rw [scan]
  split
  · next hn => simp [hr] at hn
  · next hc =>
    rw [hr] at hc
    cases hc
    split <;> next hs => simp only [hs]

theorem scan_of_done (hr : s.rest = c :: cs) (h : s.step c cs = .done s') : s.scan = s'.scan := by
  rw [scan_of_cons hr, h]

theorem scan_of_rest_nil (h : s.rest = []) : s.scan = (s, none) := by
  rw [scan]
  split
  · rfl
  · next hs => simp [h] at hs

theorem step_of_isQuote (hc : isQuote c = true) (s : Scanner) (cs : List Char) :
    s.step c cs = s.readWord c cs := by
  have hc' : c = '\'' ∨ c = '"' := by simpa [isQuote] using hc
  rcases hc' with rfl | rfl <;> simp [step, isBlank]

-- A construct that was read to its end is read before what the longer input has behind it.
theorem scan_resume_of_done (line : String) (hr : s.rest = c :: cs)
    (h : s.step c cs = .done s') : (s.resume line).scan = (s'.resume line).scan := by
  have hrest : (s.resume line).rest = c :: (cs ++ '\n' :: line.toList) := by simp [resume, hr]
  have hstep := step_resume line (show ∀ p, s.step c cs ≠ .wait p by simp [h])
  rw [scan_of_cons hrest, hstep, h]
  rfl

theorem scan_resume_of_reject {error : LexError} (line : String) (hr : s.rest = c :: cs)
    (h : s.step c cs = .reject s' error) :
    (s.resume line).scan = (s'.resume line, some error) := by
  have hrest : (s.resume line).rest = c :: (cs ++ '\n' :: line.toList) := by simp [resume, hr]
  have hstep := step_resume line (show ∀ p, s.step c cs ≠ .wait p by simp [h])
  rw [scan_of_cons hrest, hstep, h]
  rfl

-- Going on from where scanning stopped gives what scanning the longer input gives: the constructs
-- before are read once more in the same way, and the one that was incomplete is started anew.
theorem scan_resume_of_scan (h : s.scan = (s', none)) :
    (s.resume line).scan = (s'.resume line).scan := by
  fun_induction scan s with
  | case1 =>
    cases h
    rfl
  | case2 s c cs hr next hs _ ih => exact (scan_resume_of_done line hr hs).trans (ih h)
  | case3 s c cs hr pending hs =>
    cases h
    rfl
  | case4 => cases h

theorem scan_resume_of_error {error : LexError} (h : s.scan = (s', some error)) :
    (s.resume line).scan.2 = some error := by
  fun_induction scan s with
  | case1 => cases h
  | case2 s c cs hr next hs _ ih =>
    rw [scan_resume_of_done line hr hs]
    exact ih h
  | case3 => cases h
  | case4 s c cs hr next e hs =>
    cases h
    rw [scan_resume_of_reject line hr hs]

theorem feed_eq_scan_resume (h : s.source ≠ "") : s.feed line = (s.resume line).scan := by
  simp [feed, resume, h]

-- Feed lines one after the other, up to the first error.
def feedLines (s : Scanner) : List String → Scanner × Option LexError
  | [] => (s, none)
  | line :: lines =>
    match s.feed line with
    | (next, none) => next.feedLines lines
    | (next, some error) => (next, some error)

def resumeAll (s : Scanner) : List String → Scanner
  | [] => s
  | line :: lines => (s.resume line).resumeAll lines

-- Two ways of feeding end alike: with the same error, or without one in the same state.
def Alike (a b : Scanner × Option LexError) : Prop :=
  a.2 = b.2 ∧ (a.2 = none → a.1 = b.1)

theorem scan_resumeAll_of_error {error : LexError} (lines : List String)
    (h : s.scan.2 = some error) : (s.resumeAll lines).scan.2 = some error := by
  induction lines generalizing s with
  | nil => exact h
  | cons line lines ih => exact ih (scan_resume_of_error (Prod.ext rfl h))

-- What is left of the lines is fed from where the scan of the first part ended.
theorem feedLines_alike_scan_resumeAll {lines : List String} (hs : s.source ≠ "")
    (h : s.scan = (s', none)) : Alike (s'.feedLines lines) (s.resumeAll lines).scan := by
  induction lines generalizing s s' with
  | nil =>
    rw [feedLines, resumeAll, h]
    exact ⟨rfl, fun _ => rfl⟩
  | cons line lines ih =>
    have hs' : s'.source ≠ "" := by rwa [source_of_scan h]
    have hfeed : s'.feed line = (s.resume line).scan := by
      rw [feed_eq_scan_resume hs', scan_resume_of_scan h]
    rw [feedLines, resumeAll, hfeed]
    split
    · next next hn => exact ih (by simp [resume]) hn
    · next next error he =>
      have hall : ((s.resume line).resumeAll lines).scan.2 = some error :=
        scan_resumeAll_of_error lines (congrArg Prod.snd he)
      exact ⟨hall.symm, by simp⟩

-- A scanner with a text to read and nothing read yet.
def loaded (mode : Mode) (text : String) : Scanner :=
  { starting mode with source := text, rest := text.toList }

theorem feed_starting (mode : Mode) (text : String) :
    (starting mode).feed text = (loaded mode text).scan := by
  simp [feed, starting, loaded]

theorem resume_loaded (mode : Mode) (text line : String) :
    (loaded mode text).resume line = loaded mode (text ++ "\n" ++ line) := by
  simp [loaded, resume, starting, String.append_assoc]

theorem resumeAll_loaded (mode : Mode) (text : String) (lines : List String) :
    (loaded mode text).resumeAll lines =
      loaded mode (String.intercalate "\n" (text :: lines)) := by
  induction lines generalizing text with
  | nil => rfl
  | cons line lines ih =>
    rw [resumeAll, resume_loaded, ih]
    rfl

end Scanner

-- Feeding the lines of a text one at a time is feeding the text as a whole: the first error is
-- the same, and without one so is everything about the scanner, in particular its source, its
-- tokens and nodes, whether it expects more and how it is closed.
theorem feedLines_eq_feed_intercalate (mode : Mode) (first : String) (lines : List String)
    (hf : first ≠ "") :
    let whole := (Scanner.starting mode).feed (String.intercalate "\n" (first :: lines))
    let pieces := (Scanner.starting mode).feedLines (first :: lines)
    pieces.2 = whole.2 ∧ (pieces.2 = none → pieces.1 = whole.1) := by
  intro whole pieces
  have hwhole : whole = ((Scanner.loaded mode first).resumeAll lines).scan := by
    rw [Scanner.resumeAll_loaded, ← Scanner.feed_starting]
  have hpieces : pieces = match (Scanner.loaded mode first).scan with
      | (next, none) => next.feedLines lines
      | (next, some error) => (next, some error) := by
    rw [← Scanner.feed_starting]
    rfl
  rw [hwhole, hpieces]
  split
  · next next hn => exact Scanner.feedLines_alike_scan_resumeAll hf hn
  · next next error he =>
    have hall := Scanner.scan_resumeAll_of_error lines (congrArg Prod.snd he)
    exact ⟨hall.symm, by simp⟩

-- A quote that runs on and a pipe at the end of its line.
theorem feedLines_of_open_quote :
    let lines := ["echo 'ab", "cd' |", "grep x"]
    let whole := (Scanner.starting .command).feed (String.intercalate "\n" lines)
    let pieces := (Scanner.starting .command).feedLines lines
    "echo 'ab" ≠ "" ∧ pieces.2 = none ∧ pieces.1 = whole.1 := by
  intro lines whole pieces
  have hf : "echo 'ab" ≠ "" := by decide
  have hn : ((Scanner.starting .command).feedLines ["echo 'ab", "cd' |", "grep x"]).2 = none := by
    decide +kernel
  exact ⟨hf, hn, (feedLines_eq_feed_intercalate .command "echo 'ab" ["cd' |", "grep x"] hf).2 hn⟩

end CommandShell.Script
