import CommandShell.Script.Escape
import CommandShell.Script.Marks
import CommandShell.Script.Tree
import CommandShell.Text.WhiteSpace

namespace CommandShell.Script

-- Where reading starts: at a command's name, or among the arguments of a command without one.
inductive Mode where
  | command
  | arguments
deriving DecidableEq, Repr

-- What the next bare word is.
inductive Position where
  | command
  | argument (options : Bool)
deriving DecidableEq, Repr

-- Which tokens are read there: a name only where a command may start, an argument only behind a
-- name.
def Position.Takes : Position → TokenKind → Prop
  | command, kind => kind ≠ .option ∧ kind.isArgument = false
  | argument _, kind => kind ≠ .command

-- The construct that the input ended in, with its byte offset.
inductive Pending where
  | quote (offset : Nat)
  | escape (offset : Nat)
  | pipe (offset : Nat)
deriving DecidableEq, Repr

-- What is incomplete starts in a text at a byte offset.
def Pending.Stands (offset : Nat) (cs : List Char) : Pending → Prop
  | quote start | escape start => Begins offset cs start
  | pipe start => ∃ before after, cs = before ++ '|' :: after ∧ start = offset + Text.width before

-- Reader of one logical line.  `source` is all of it so far and `rest`, from byte `offset` on,
-- is the part that is not in the tree yet.
structure Scanner where
  mode : Mode
  source : String
  rest : List Char
  offset : Nat
  line : Nat
  position : Position
  group : Nat
  -- the end of the last token if that was an argument piece
  pieceEnd : Option Nat
  pending : Option Pending
  tree : Tree
deriving DecidableEq, Repr

namespace Scanner

def starting (mode : Mode) : Scanner where
  mode := mode
  source := ""
  rest := []
  offset := 0
  line := 1
  position := match mode with
    | .command => .command
    | .arguments => .argument true
  group := 0
  pieceEnd := none
  pending := none
  tree := match mode with
    | .command => {}
    | .arguments => .headed

def new : Scanner := starting .command

def arguments : Scanner := starting .arguments

def reset (s : Scanner) : Scanner := starting s.mode

-- The logical line is incomplete.
def expectMore (s : Scanner) : Bool :=
  s.pending.isSome || s.tree.depth > 0

def snapshot (s : Scanner) : Script := s.tree.toScript s.source

-- The rest starts right after an argument piece.
def isGlued (s : Scanner) : Bool := s.pieceEnd = some s.offset

-- Pass over `front`, which leaves `rest`.
def advance (s : Scanner) (front rest : List Char) : Scanner :=
  { s with
    rest := rest
    offset := s.offset + Text.width front
    line := s.line + Text.countLines front }

def nextGroup (s : Scanner) (kind : TokenKind) (start : Nat) : Nat :=
  if kind.isStructural ∨ (kind.isArgument ∧ s.pieceEnd = some start) then s.group else s.group + 1

-- One construct read, or why not.
inductive Step where
  | done (s : Scanner)
  | wait (pending : Pending)
  | reject (s : Scanner) (error : LexError)

-- Pass over `gap`, read `piece` as a token and go on at `position`.  A token that the tree
-- refuses is left unread.
def emit (s : Scanner) (kind : TokenKind) (gap piece rest text : List Char)
    (position : Position) : Step :=
  let placed := s.advance gap (piece ++ rest)
  let span : Span := ⟨placed.offset, placed.offset + Text.width piece⟩
  let group := s.nextGroup kind span.start
  let token : Token :=
    ⟨kind, String.ofList text, span, placed.line, if kind.isStructural then 0 else group, none⟩
  let marked := { placed with group, pieceEnd := if kind.isArgument then some span.stop else none }
  match s.tree.insert token with
  | .error error => .reject marked error
  | .ok tree => .done { marked.advance piece rest with tree, position }

-- Read `piece`, decoded, as a token.
def emitDecoded (s : Scanner) (kind : TokenKind) (gap piece rest : List Char)
    (position : Position) : Step :=
  match decodeFrom none (s.offset + Text.width gap) piece with
  | .error error => .reject s error
  | .ok text => s.emit kind gap piece rest text position

-- Why the word after `gap` could not be completed.
def unfinished (s : Scanner) (gap word : List Char) (offset : Nat) : Step :=
  match openQuote none (s.offset + Text.width gap) word with
  | some start => .wait (.quote start)
  | none => .wait (.escape offset)

def readCommand (s : Scanner) (c : Char) (cs : List Char) : Step :=
  match word (c :: cs) with
  | none => s.unfinished [] (c :: cs) s.offset
  | some (piece, rest) => s.emitDecoded .command [] piece rest (.argument true)

-- A dash starts an option unless a digit, a point or the end of the word follows it.
def startsOption : List Char → Bool
  | [] => false
  | c :: _ => !(c.isDigit || c = '.' || endsWord c)

def readArgument (s : Scanner) (options : Bool) (c : Char) (cs : List Char) : Step :=
  if isQuote c then
    match quoted c cs with
    | none => .wait (.quote s.offset)
    | some (piece, rest) =>
      let kind := if c = '\'' then .singleQuoted else .doubleQuoted
      s.emitDecoded kind [] (c :: piece) rest s.position
  else
    match bare (c :: cs) with
    | none => .wait (.escape s.offset)
    | some (piece, rest) =>
      if c = '-' ∧ options ∧ !s.isGlued ∧ startsOption cs then
        if piece = ['-', '-'] then .done { s.advance piece rest with position := .argument false }
        else s.emitDecoded .option [] piece rest s.position
      else s.emitDecoded .bareArgument [] piece rest s.position

-- Everything up to the next separator, as written, after `front`.
def readShell (s : Scanner) (front cs : List Char) : Step :=
  let blanks := cs.takeWhile isBlank
  let body := (cs.dropWhile isBlank).takeWhile fun c => c ≠ ';' && c ≠ '\n'
  let text := Text.trimEnd body
  if text.isEmpty then
    let stop := s.offset + Text.width front + Text.width blanks + Text.width body
    .reject s ⟨.missingShellCommand, ⟨s.offset, max stop (s.offset + 1)⟩⟩
  else
    s.emit .shellRedirection (front ++ blanks) text ((cs.dropWhile isBlank).drop text.length) text
      (.argument false)

-- After a `|`.
def readRedirection (s : Scanner) (cs : List Char) : Step :=
  let gap := cs.takeWhile fun c => isBlank c || c = '\n'
  match cs.dropWhile fun c => isBlank c || c = '\n' with
  | [] => .wait (.pipe s.offset)
  | c :: rest =>
    if c = '!' then s.readShell ('|' :: gap ++ ['!']) rest
    else if endsWord c then
      .reject s ⟨.missingRedirection, ⟨s.offset, s.offset + 1⟩⟩
    else
      match word (c :: rest) with
      | none => s.unfinished ('|' :: gap) (c :: rest) s.offset
      | some (piece, rest) =>
        match decodeFrom none (s.offset + 1 + Text.width gap) piece with
        | .error error => .reject s error
        | .ok name =>
          if name = [] ∨ name = ['s', 'h'] then s.readShell ('|' :: gap ++ piece) rest
          else s.emit .redirection ('|' :: gap) piece rest name (.argument true)

-- After a `>`.
def readFile (s : Scanner) (cs : List Char) : Step :=
  let gap := '>' :: cs.takeWhile isBlank
  let missing := Step.reject s ⟨.missingFileName, ⟨s.offset, s.offset + 1⟩⟩
  match cs.dropWhile isBlank with
  | [] => missing
  | c :: rest =>
    if endsWord c then missing
    else
      match word (c :: rest) with
      | none => s.unfinished gap (c :: rest) (s.offset + Text.width gap)
      | some (piece, rest) =>
        let path := s.emitDecoded .fileRedirection gap piece rest (.argument false)
        match rest.dropWhile isBlank with
        | [] => path
        | d :: _ =>
          if d = ';' ∨ d = '\n' ∨ d = '\x7d' ∨ d = '#' then path
          else
            let start := s.offset + Text.width gap + Text.width piece +
              Text.width (rest.takeWhile isBlank)
            .reject s ⟨.strayAfterFile, ⟨start, start + d.utf8Size⟩⟩

def readWord (s : Scanner) (c : Char) (cs : List Char) : Step :=
  match s.position with
  | .command => s.readCommand c cs
  | .argument options => s.readArgument options c cs

-- Read the construct at `c :: cs`, which is the rest.
def step (s : Scanner) (c : Char) (cs : List Char) : Step :=
  if isBlank c then .done (s.advance [c] cs)
  else if c = '\n' ∨ c = ';' then s.emit .separator [] [c] cs [c] .command
  else if c = '#' ∧ !s.isGlued then
    .done (s.advance (c :: cs.takeWhile (· ≠ '\n')) (cs.dropWhile (· ≠ '\n')))
  else if c = '\x7b' then s.emit .blockBegin [] [c] cs [c] .command
  else if c = '\x7d' then s.emit .blockEnd [] [c] cs [c] .command
  else if c = '\\' ∧ !s.isGlued then
    match join cs with
    | .joined gap rest => .done (s.advance (c :: gap) rest)
    | .unfinished => .wait (.escape s.offset)
    | .absent => s.readWord c cs
  else if c = '|' then s.readRedirection cs
  else if c = '!' ∧ !s.isGlued ∧ (cs.head? = some ' ' ∨ cs.head? = some '\t') then
    s.readShell [c] cs
  else if c = '>' then s.readFile cs
  else s.readWord c cs

-- The token that is read from `piece` behind `gap`.
def tokenAt (s : Scanner) (kind : TokenKind) (gap piece text : List Char) : Token where
  kind := kind
  text := String.ofList text
  span := ⟨s.offset + Text.width gap, s.offset + Text.width gap + Text.width piece⟩
  line := s.line + Text.countLines gap
  group := if kind.isStructural then 0 else s.nextGroup kind (s.offset + Text.width gap)

-- The scanner in front of a token, with the token counted.
def marked (s : Scanner) (kind : TokenKind) (gap piece rest : List Char) : Scanner :=
  { s.advance gap (piece ++ rest) with
    group := s.nextGroup kind (s.offset + Text.width gap)
    pieceEnd :=
      if kind.isArgument then some (s.offset + Text.width gap + Text.width piece) else none }

-- What the next bare word is behind a token.
def positionAfter (position : Position) : TokenKind → Position
  | .separator | .blockBegin | .blockEnd => .command
  | .command | .redirection => .argument true
  | .shellRedirection | .fileRedirection => .argument false
  | .option | .bareArgument | .singleQuoted | .doubleQuoted => position

section Reads

variable {s s' : Scanner} {kind : TokenKind} {position : Position} {c : Char}
  {gap piece rest text front after cs : List Char}

theorem emit_eq :
    s.emit kind gap piece rest text position =
      match s.tree.insert (s.tokenAt kind gap piece text) with
      | .error error => .reject (s.marked kind gap piece rest) error
      | .ok tree =>
        .done { (s.marked kind gap piece rest).advance piece rest with tree, position } := rfl

-- A construct that leaves no token, in front of what follows it: a blank, a comment up to the end
-- of its line, joined lines, and the word `--`.
inductive Passes : List Char → List Char → Prop where
  | blank {c : Char} {after : List Char} (blank : isBlank c = true) : Passes [c] after
  | comment {text after : List Char} (within : ∀ c ∈ text, c ≠ '\n')
      (ends : ∀ c ∈ after.head?, c = '\n') : Passes ('#' :: text) after
  | join {blanks after : List Char} (blank : ∀ c ∈ blanks, isBlank c = true) :
      Passes ('\\' :: (blanks ++ ['\n'])) after
  | marker {after : List Char} (ends : ∀ c ∈ after.head?, endsBare c = true) :
      Passes ['-', '-'] after

-- What stands before a token and belongs to it.  Only redirections have something there.  A name
-- that makes a shell redirection is a word of its own.
inductive Introduces : TokenKind → List Char → List Char → Prop where
  | nothing {kind : TokenKind} {after : List Char} (plain : kind.isRedirection = false) :
      Introduces kind [] after
  | file {blanks after : List Char} (blank : ∀ c ∈ blanks, isBlank c = true) :
      Introduces .fileRedirection ('>' :: blanks) after
  | shell {blanks after : List Char} (blank : ∀ c ∈ blanks, isBlank c = true) :
      Introduces .shellRedirection ('!' :: blanks) after
  | pipe {gap after : List Char} (loose : ∀ c ∈ gap, isBlank c = true ∨ c = '\n') :
      Introduces .redirection ('|' :: gap) after
  | pipeShell {gap blanks after : List Char} (loose : ∀ c ∈ gap, isBlank c = true ∨ c = '\n')
      (blank : ∀ c ∈ blanks, isBlank c = true) :
      Introduces .shellRedirection ('|' :: (gap ++ '!' :: blanks)) after
  | pipeName {gap name blanks after text : List Char} {offset : Nat}
      (loose : ∀ c ∈ gap, isBlank c = true ∨ c = '\n') (blank : ∀ c ∈ blanks, isBlank c = true)
      (whole : word (name ++ (blanks ++ after)) = some (name, blanks ++ after))
      (decoded : decodeFrom none offset name = .ok text) (names : text = [] ∨ text = ['s', 'h']) :
      Introduces .shellRedirection ('|' :: (gap ++ (name ++ blanks))) after

-- The text of a token that is read from `piece` at a byte offset.
def Spells (kind : TokenKind) (offset : Nat) (piece text : List Char) : Prop :=
  if kind = .shellRedirection then text = piece else decodeFrom none offset piece = .ok text

-- Where the piece of a token ends.  Words and bare pieces go on as far as they can, and behind a
-- file's name nothing more of its command may stand.  A shell command goes up to the next
-- separator, without the white space in front of that.
inductive Delimited (kind : TokenKind) (piece rest : List Char) : Prop where
  | sign (structural : kind.isStructural = true)
  | name (names : kind = .command ∨ kind = .redirection)
      (whole : word (piece ++ rest) = some (piece, rest))
  | quote (c : Char) (body : List Char) (quotes : piece = c :: body) (opens : isQuote c = true)
      (kinds : kind = if c = '\'' then .singleQuoted else .doubleQuoted)
      (closed : quoted c (body ++ rest) = some (body, rest))
  | bare (plain : kind = .option ∨ kind = .bareArgument)
      (whole : Script.bare (piece ++ rest) = some (piece, rest))
  | file (operand : kind = .fileRedirection) (whole : word (piece ++ rest) = some (piece, rest))
      (closes : ∀ c ∈ (rest.dropWhile isBlank).head?, c = ';' ∨ c = '\n' ∨ c = '\x7d' ∨ c = '#')
  | shell (operand : kind = .shellRedirection) (within : ∀ c ∈ piece, c ≠ ';' ∧ c ≠ '\n')
      (spaces : ∀ c ∈ rest.takeWhile (fun c => c ≠ ';' && c ≠ '\n'), Text.isWhiteSpace c = true)

-- What a construct does that was read to its end: its characters are passed over, or they are
-- what introduces a token and the token.
inductive Reads (s : Scanner) (cs : List Char) : Scanner → Prop where
  | skip (front rest : List Char) (split : front ++ rest = cs) (passed : Passes front rest) :
      Reads s cs { s.advance front rest with
        position := if front = ['-', '-'] then .argument false else s.position }
  | token (kind : TokenKind) (gap piece text rest : List Char) (tree : Tree)
      (split : gap ++ piece ++ rest = cs) (taken : piece ≠ [])
      (introduced : Introduces kind gap (piece ++ rest))
      (spelled : Spells kind (s.offset + Text.width gap) piece text)
      (inserted : s.tree.insert (s.tokenAt kind gap piece text) = .ok tree)
      (starts : ∀ c ∈ piece.head?, isBlank c = false) (fits : s.position.Takes kind)
      (ended : Delimited kind piece rest) :
      Reads s cs { (s.marked kind gap piece rest).advance piece rest with
        tree, position := positionAfter s.position kind }

-- A part of the input, between `gap` and `rest`, that a token of this kind is made of.
structure Slice (s : Scanner) (cs : List Char) (kind : TokenKind) (gap piece rest : List Char) :
    Prop where
  split : gap ++ piece ++ rest = cs
  taken : piece ≠ []
  introduced : Introduces kind gap (piece ++ rest)
  starts : ∀ c ∈ piece.head?, isBlank c = false
  fits : s.position.Takes kind
  ended : Delimited kind piece rest
  signed : kind.isStructural = true → ∃ c ∈ kind.signs, piece = [c]

-- What the construct at `cs` comes to.  It is passed over, or a token is made of a slice of the input,
-- which may have to be decoded first.  Otherwise a part of it is wrong in itself, or incomplete.
inductive Outcome (s : Scanner) (cs : List Char) : Step → Prop where
  | skip (front rest : List Char) (split : front ++ rest = cs) (passed : Passes front rest)
      (options : front = ['-', '-'] → s.position = .argument true) :
      Outcome s cs (.done { s.advance front rest with
        position := if front = ['-', '-'] then .argument false else s.position })
  | token {kind : TokenKind} {gap piece rest text : List Char}
      (slice : s.Slice cs kind gap piece rest)
      (spelled : Spells kind (s.offset + Text.width gap) piece text) :
      Outcome s cs (s.emit kind gap piece rest text (positionAfter s.position kind))
  | undecoded {kind : TokenKind} {gap piece rest : List Char} {error : LexError}
      (decodes : kind.isDecoded = true) (slice : s.Slice cs kind gap piece rest)
      (failed : decodeFrom none (s.offset + Text.width gap) piece = .error error) :
      Outcome s cs (.reject s error)
  | malformed (error : LexError) (cause : error.cause ∈ LexCause.ofRedirections)
      (marks : Marks s.offset cs error.span) : Outcome s cs (.reject s error)
  | wait (pending : Pending) (stands : pending.Stands s.offset cs) : Outcome s cs (.wait pending)

theorem signed_of_plain (hk : kind.isStructural = false) :
    kind.isStructural = true → ∃ c ∈ kind.signs, piece = [c] :=
  fun h => absurd (hk.symm.trans h) Bool.false_ne_true

theorem Passes.ne_nil (h : Passes front after) : front ≠ [] := by
  cases h <;> exact List.cons_ne_nil _ _

theorem outcome_skip (hs : front ++ rest = cs) (hp : Passes front rest)
    (hm : front ≠ ['-', '-']) : Outcome s cs (.done (s.advance front rest)) := by
  have ho := Outcome.skip (s := s) front rest hs hp fun hf => absurd hf hm
  rw [if_neg hm] at ho
  exact ho

theorem reads_of_emit
    (h : s.emit kind gap piece rest text (positionAfter s.position kind) = .done s')
    (hs : s.Slice cs kind gap piece rest)
    (ht : Spells kind (s.offset + Text.width gap) piece text) : Reads s cs s' := by
  rw [emit_eq] at h
  cases hi : s.tree.insert (s.tokenAt kind gap piece text) with
  | error error =>
    simp only [hi] at h
    cases h
  | ok tree =>
    simp only [hi] at h
    cases h
    exact .token kind gap piece text rest tree hs.split hs.taken hs.introduced ht hi hs.starts
      hs.fits hs.ended

theorem takes_of_isStructural (hk : kind.isStructural = true) : position.Takes kind := by
  cases position with
  | command =>
    refine ⟨?_, ?_⟩
    · rintro rfl
      cases hk
    · cases kind <;> first | rfl | cases hk
  | argument options =>
    rintro rfl
    cases hk

theorem takes_of_isRedirection (hk : kind.isRedirection = true) : position.Takes kind := by
  cases position with
  | command =>
    refine ⟨?_, ?_⟩
    · rintro rfl
      cases hk
    · cases kind <;> first | rfl | cases hk
  | argument options =>
    rintro rfl
    cases hk

theorem outcome_emitDecoded (hk : kind.isDecoded = true) (hs : s.Slice cs kind gap piece rest) :
    Outcome s cs (s.emitDecoded kind gap piece rest (positionAfter s.position kind)) := by
  have hn : kind ≠ .shellRedirection := by
    rintro rfl
    cases hk
  rw [emitDecoded]
  split
  · next hd => exact .undecoded hk hs hd
  · next hd => exact .token hs (by rwa [Spells, if_neg hn])

-- A separator or a brace stands for itself.
theorem outcome_sign (hk : kind.isStructural = true) (hm : c ∈ kind.signs) (hq : isQuote c = false)
    (hb : c ≠ '\\') (hc : isBlank c = false) :
    Outcome s (c :: cs) (s.emit kind [] [c] cs [c] (positionAfter s.position kind)) := by
  refine .token ⟨rfl, List.cons_ne_nil _ _, .nothing ?_, by simpa using hc,
    takes_of_isStructural hk, .sign hk, fun _ => ⟨c, hm, rfl⟩⟩ ?_
  · cases kind <;> first | rfl | cases hk
  · have hn : kind ≠ .shellRedirection := by
      rintro rfl
      cases hk
    simp [Spells, hn, decodeFrom, hq, hb, bind, Except.bind, pure, Except.pure]

theorem outcome_unfinished {offset : Nat} (hs : gap ++ text = cs)
    (ho : Begins s.offset cs offset) : Outcome s cs (s.unfinished gap text offset) := by
  rw [unfinished]
  cases hq : openQuote none (s.offset + Text.width gap) text with
  | none => exact .wait _ ho
  | some start =>
    have hb : Begins (s.offset + Text.width gap) text start :=
      (begins_of_openQuote hq).resolve_left (by simp)
    exact .wait (.quote start) (hs ▸ hb.append_left)

theorem unfinished_ne_done {offset : Nat} : s.unfinished gap cs offset ≠ .done s' := by
  intro h
  simp only [unfinished] at h
  split at h <;> cases h

theorem trimEnd_append_spaces (cs : List Char) :
    ∃ spaces, Text.trimEnd cs ++ spaces = cs := by
  refine ⟨(cs.reverse.takeWhile Text.isWhiteSpace).reverse, ?_⟩
  rw [Text.trimEnd, ← List.reverse_append, List.takeWhile_append_dropWhile, List.reverse_reverse]

theorem isWhiteSpace_of_trimEnd {spaces : List Char} (h : Text.trimEnd cs ++ spaces = cs) :
    ∀ c ∈ spaces, Text.isWhiteSpace c = true := by
  have hs : spaces = (cs.reverse.takeWhile Text.isWhiteSpace).reverse := by
    refine List.append_cancel_left (h.trans ?_)
    rw [Text.trimEnd, ← List.reverse_append, List.takeWhile_append_dropWhile, List.reverse_reverse]
  intro c hc
  rw [hs, List.mem_reverse] at hc
  exact forall_mem_takeWhile _ _ c hc

-- The command of a shell redirection starts what is behind the blanks.
theorem shellText_append_drop (test : Char → Bool) (cs : List Char) :
    Text.trimEnd (cs.takeWhile test) ++ cs.drop (Text.trimEnd (cs.takeWhile test)).length = cs := by
  obtain ⟨spaces, hs⟩ := trimEnd_append_spaces (cs.takeWhile test)
  have hc : Text.trimEnd (cs.takeWhile test) ++ (spaces ++ cs.dropWhile test) = cs := by
    rw [← List.append_assoc, hs, List.takeWhile_append_dropWhile]
  have hd := congrArg (List.drop (Text.trimEnd (cs.takeWhile test)).length) hc
  rw [List.drop_left] at hd
  rw [← hd, hc]

-- Behind it up to the next separator there is only white space.
theorem delimited_of_shell (ht : Text.trimEnd (cs.takeWhile fun c => c ≠ ';' && c ≠ '\n') = text) :
    Delimited .shellRedirection text (cs.drop text.length) := by
  have hd := shellText_append_drop (fun c => c ≠ ';' && c ≠ '\n') cs
  obtain ⟨spaces, hs⟩ := trimEnd_append_spaces (cs.takeWhile fun c => c ≠ ';' && c ≠ '\n')
  have hspaces := isWhiteSpace_of_trimEnd hs
  rw [ht] at hd hs
  have hall := forall_mem_takeWhile (fun c => c ≠ ';' && c ≠ '\n') cs
  rw [← hs] at hall
  have hwithin : ∀ c ∈ text, (c ≠ ';' && c ≠ '\n') = true := fun c hc =>
    hall c (List.mem_append_left spaces hc)
  rw [← hd, List.takeWhile_append_of_pos hwithin] at hs
  refine .shell rfl (fun c hc => by simpa using hwithin c hc) ?_
  rwa [← List.append_cancel_left hs]

theorem outcome_readShell (hs : front ++ rest = cs) (hf : front ≠ [])
    (hi : Introduces .shellRedirection (front ++ rest.takeWhile isBlank) (rest.dropWhile isBlank)) :
    Outcome s cs (s.readShell front rest) := by
  have hblanks := List.takeWhile_append_dropWhile (p := isBlank) (l := rest)
  have hbody := List.takeWhile_append_dropWhile (p := fun c => c ≠ ';' && c ≠ '\n')
    (l := rest.dropWhile isBlank)
  have hd := shellText_append_drop (fun c => c ≠ ';' && c ≠ '\n') (rest.dropWhile isBlank)
  simp only [readShell]
  split
  · -- all that is there is marked, and it is at least what the construct begins with
    refine .malformed _ (by simp [LexCause.ofRedirections]) ⟨[], front ++ (rest.takeWhile isBlank ++
      (rest.dropWhile isBlank).takeWhile fun c => c ≠ ';' && c ≠ '\n'),
      (rest.dropWhile isBlank).dropWhile fun c => c ≠ ';' && c ≠ '\n', ?_, by simp [hf], rfl, ?_⟩
    · rw [List.nil_append, List.append_assoc, List.append_assoc, hbody, hblanks, hs]
    · have hpos := Text.width_pos hf
      simp only [Text.width_append]
      omega
  · next he =>
    have hn : Text.trimEnd ((rest.dropWhile isBlank).takeWhile fun c => c ≠ ';' && c ≠ '\n') ≠
        [] := by simpa using he
    refine .token ⟨?_, hn, by rwa [hd], ?_, takes_of_isRedirection rfl, delimited_of_shell rfl,
      signed_of_plain rfl⟩ rfl
    · rw [List.append_assoc, hd, List.append_assoc, hblanks, hs]
    · intro c hc
      have hh := List.head?_dropWhile_not isBlank rest
      rw [← hd, List.head?_append, Option.mem_def.1 hc] at hh
      simpa using hh

theorem outcome_readRedirection : Outcome s ('|' :: cs) (s.readRedirection cs) := by
  have hcs := List.takeWhile_append_dropWhile (p := fun c => isBlank c || c = '\n') (l := cs)
  have hgap : ∀ c ∈ cs.takeWhile (fun c => isBlank c || c = '\n'), isBlank c = true ∨ c = '\n' := by
    intro c hc
    simpa using forall_mem_takeWhile _ cs c hc
  rw [readRedirection]
  split
  · exact .wait (.pipe s.offset) ⟨[], cs, rfl, rfl⟩
  next c rest heq =>
  rw [heq] at hcs
  have hblank := forall_mem_takeWhile isBlank rest
  by_cases hc : c = '!'
  · rw [if_pos hc]
    refine outcome_readShell ?_ (by simp) ?_
    · simp only [List.append_assoc, List.cons_append, List.nil_append]
      rw [← hc, hcs]
    · simpa using Introduces.pipeShell hgap hblank
  rw [if_neg hc]
  by_cases he : endsWord c = true
  · rw [if_pos he]
    exact .malformed _ (by simp [LexCause.ofRedirections]) .head
  rw [if_neg he]
  have hrest : '|' :: (cs.takeWhile fun c => isBlank c || c = '\n') ++ c :: rest = '|' :: cs := by
    rw [List.cons_append, hcs]
  cases hw : word (c :: rest) with
  | none => exact outcome_unfinished hrest .head
  | some p =>
    obtain ⟨piece, rest'⟩ := p
    have hp : piece ≠ [] := word_ne_nil (by simpa using he) hw
    have ha : piece ++ rest' = c :: rest := append_of_word hw
    have hb : ∀ d ∈ piece.head?, isBlank d = false := fun d hd =>
      head_of_append hp ha d hd ▸ isBlank_of_endsWord (by simpa using he)
    have hs : '|' :: (cs.takeWhile fun c => isBlank c || c = '\n') ++ piece ++ rest' =
        '|' :: cs := by
      rw [List.append_assoc, ha, hrest]
    have hslice : s.Slice ('|' :: cs) .redirection
        ('|' :: cs.takeWhile fun c => isBlank c || c = '\n') piece rest' :=
      ⟨hs, hp, .pipe hgap, hb, takes_of_isRedirection rfl, .name (.inr rfl) (by rw [ha, hw]),
        signed_of_plain rfl⟩
    have hoffset : s.offset + 1 + Text.width (cs.takeWhile fun c => isBlank c || c = '\n') =
        s.offset + Text.width ('|' :: cs.takeWhile fun c => isBlank c || c = '\n') := by
      rw [Text.width_cons, Nat.add_assoc]
      rfl
    dsimp only
    rw [hoffset]
    split
    · next hd => exact .undecoded rfl hslice hd
    · next name hn =>
      split
      · next hname =>
        refine outcome_readShell hs (by simp) ?_
        have hwhole : word (piece ++ (rest'.takeWhile isBlank ++ rest'.dropWhile isBlank)) =
            some (piece, rest'.takeWhile isBlank ++ rest'.dropWhile isBlank) := by
          rw [List.takeWhile_append_dropWhile, ha, hw]
        simpa using Introduces.pipeName hgap (forall_mem_takeWhile isBlank rest') hwhole hn hname
      · exact .token hslice (by rwa [Spells, if_neg (by decide)])

theorem outcome_readFile : Outcome s ('>' :: cs) (s.readFile cs) := by
  have hcs := List.takeWhile_append_dropWhile (p := isBlank) (l := cs)
  have hi (after : List Char) : Introduces .fileRedirection ('>' :: cs.takeWhile isBlank) after :=
    .file (forall_mem_takeWhile isBlank cs)
  have hmissing : Outcome s ('>' :: cs)
      (.reject s ⟨.missingFileName, ⟨s.offset, s.offset + 1⟩⟩) :=
    .malformed _ (by simp [LexCause.ofRedirections]) .head
  rw [readFile]
  split
  · exact hmissing
  next c rest heq =>
  rw [heq] at hcs
  by_cases he : endsWord c = true
  · rw [if_pos he]
    exact hmissing
  rw [if_neg he]
  have hrest : '>' :: cs.takeWhile isBlank ++ c :: rest = '>' :: cs := by
    rw [List.cons_append, hcs]
  cases hw : word (c :: rest) with
  | none => exact outcome_unfinished hrest (hrest ▸ Begins.append_left .head)
  | some p =>
    obtain ⟨piece, rest'⟩ := p
    have hp : piece ≠ [] := word_ne_nil (by simpa using he) hw
    have ha : piece ++ rest' = c :: rest := append_of_word hw
    have hb : ∀ d ∈ piece.head?, isBlank d = false := fun d hd =>
      head_of_append hp ha d hd ▸ isBlank_of_endsWord (by simpa using he)
    have hs : '>' :: cs.takeWhile isBlank ++ piece ++ rest' = '>' :: cs := by
      rw [List.append_assoc, ha, hrest]
    have hwhole : word (piece ++ rest') = some (piece, rest') := by rw [ha, hw]
    have hpath (hc : ∀ c ∈ (rest'.dropWhile isBlank).head?,
        c = ';' ∨ c = '\n' ∨ c = '\x7d' ∨ c = '#') : Outcome s ('>' :: cs)
          (s.emitDecoded .fileRedirection ('>' :: cs.takeWhile isBlank) piece rest'
            (.argument false)) :=
      outcome_emitDecoded rfl
        ⟨hs, hp, hi _, hb, takes_of_isRedirection rfl, .file rfl hwhole hc, signed_of_plain rfl⟩
    dsimp only
    split
    · next hd => exact hpath (by simp [hd])
    · next d tail hd =>
      split
      · next hcloses => exact hpath (by simpa [hd] using hcloses)
      · refine .malformed _ (by simp [LexCause.ofRedirections]) ?_
        have hwhole : '>' :: cs.takeWhile isBlank ++ (piece ++ (rest'.takeWhile isBlank ++
            d :: tail)) = '>' :: cs := by
          rw [← hd, List.takeWhile_append_dropWhile, ← List.append_assoc, hs]
        rw [← hwhole]
        exact Marks.append_left (Marks.append_left (Marks.append_left Marks.head))

theorem outcome_readCommand (hf : s.position = .command) (hc : endsWord c = false) :
    Outcome s (c :: cs) (s.readCommand c cs) := by
  rw [readCommand]
  split
  · exact outcome_unfinished rfl .head
  · next hw =>
    have hp := word_ne_nil hc hw
    have ha := append_of_word hw
    refine outcome_emitDecoded rfl ⟨ha, hp, .nothing rfl, fun d hd => ?_, hf ▸ ⟨nofun, rfl⟩,
      .name (.inl rfl) (by rw [ha, hw]), signed_of_plain rfl⟩
    exact head_of_append hp ha d hd ▸ isBlank_of_endsWord hc

theorem outcome_readArgument {options : Bool} (hf : s.position = .argument options)
    (hc : endsWord c = false) : Outcome s (c :: cs) (s.readArgument options c cs) := by
  have hb : isBlank c = false := isBlank_of_endsWord hc
  have hnamed {kind : TokenKind} (hk : kind ≠ .command) : s.position.Takes kind := hf ▸ hk
  rw [readArgument]
  by_cases hq : isQuote c = true
  · rw [if_pos hq]
    split
    · exact .wait _ .head
    · next piece rest ha =>
      have hs : [] ++ (c :: piece) ++ rest = c :: cs := by
        rw [List.nil_append, List.cons_append, append_of_quoted ha]
      have hclosed : quoted c (piece ++ rest) = some (piece, rest) := by
        rw [append_of_quoted ha, ha]
      dsimp only
      split
      · next hc =>
        exact outcome_emitDecoded rfl ⟨hs, List.cons_ne_nil _ _, .nothing rfl, by simpa using hb,
          hnamed nofun, .quote c piece rfl hq (if_pos hc).symm hclosed, signed_of_plain rfl⟩
      · next hc =>
        exact outcome_emitDecoded rfl ⟨hs, List.cons_ne_nil _ _, .nothing rfl, by simpa using hb,
          hnamed nofun, .quote c piece rfl hq (if_neg hc).symm hclosed, signed_of_plain rfl⟩
  · rw [if_neg hq]
    split
    · exact .wait _ .head
    · next piece rest hbare =>
      have ha : piece ++ rest = c :: cs := append_of_bare hbare
      have hp : piece ≠ [] := bare_ne_nil (by simp [endsBare, hc, hq]) hbare
      have hh : ∀ d ∈ piece.head?, isBlank d = false := fun d hd =>
        head_of_append hp ha d hd ▸ isBlank_of_endsWord hc
      have hwhole : bare (piece ++ rest) = some (piece, rest) := by rw [ha, hbare]
      split
      · next hoption =>
        obtain rfl : options = true := hoption.2.1
        split
        · next hm =>
          subst hm
          exact .skip _ _ ha (.marker (endsBare_of_bare hbare)) fun _ => hf
        · exact outcome_emitDecoded rfl
            ⟨ha, hp, .nothing rfl, hh, hnamed nofun, .bare (.inl rfl) hwhole,
              signed_of_plain rfl⟩
      · exact outcome_emitDecoded rfl
          ⟨ha, hp, .nothing rfl, hh, hnamed nofun, .bare (.inr rfl) hwhole,
            signed_of_plain rfl⟩

theorem outcome_readWord (hc : endsWord c = false) : Outcome s (c :: cs) (s.readWord c cs) := by
  rw [readWord]
  split
  · next hf => exact outcome_readCommand hf hc
  · next hf => exact outcome_readArgument hf hc

theorem outcome_step (s : Scanner) (c : Char) (cs : List Char) :
    Outcome s (c :: cs) (s.step c cs) := by
  rw [step]
  by_cases hblank : isBlank c = true
  · rw [if_pos hblank]
    exact outcome_skip rfl (.blank hblank) (by simp)
  rw [if_neg hblank]
  by_cases hsep : c = '\n' ∨ c = ';'
  · rw [if_pos hsep]
    rcases hsep with rfl | rfl <;> exact outcome_sign rfl (by decide) rfl (by decide) rfl
  rw [if_neg hsep]
  by_cases hcomment : c = '#' ∧ !s.isGlued
  · rw [if_pos hcomment]
    obtain ⟨rfl, -⟩ := hcomment
    have hs : '#' :: cs.takeWhile (· ≠ '\n') ++ cs.dropWhile (· ≠ '\n') = '#' :: cs := by
      rw [List.cons_append, List.takeWhile_append_dropWhile]
    refine outcome_skip hs (.comment ?_ ?_) (by simp)
    · simpa using forall_mem_takeWhile (· ≠ '\n') cs
    · intro c hc
      have hd := List.head?_dropWhile_not (· ≠ '\n') cs
      rw [hc] at hd
      simpa using hd
  rw [if_neg hcomment]
  by_cases hopen : c = '\x7b'
  · rw [if_pos hopen]
    subst hopen
    exact outcome_sign rfl (by decide) rfl (by decide) rfl
  rw [if_neg hopen]
  by_cases hclose : c = '\x7d'
  · rw [if_pos hclose]
    subst hclose
    exact outcome_sign rfl (by decide) rfl (by decide) rfl
  rw [if_neg hclose]
  by_cases hback : c = '\\' ∧ !s.isGlued
  · rw [if_pos hback]
    obtain ⟨rfl, -⟩ := hback
    split
    · next hj =>
      obtain ⟨blanks, hb, rfl⟩ := blanks_of_join_joined hj
      refine outcome_skip ?_ (.join hb) (by simp)
      rw [List.cons_append, append_of_join_joined hj]
    · exact .wait _ .head
    · exact outcome_readWord rfl
  rw [if_neg hback]
  by_cases hpipe : c = '|'
  · rw [if_pos hpipe]
    exact hpipe ▸ outcome_readRedirection
  rw [if_neg hpipe]
  by_cases hbang : c = '!' ∧ !s.isGlued ∧ (cs.head? = some ' ' ∨ cs.head? = some '\t')
  · rw [if_pos hbang]
    obtain ⟨rfl, -⟩ := hbang
    exact outcome_readShell rfl (List.cons_ne_nil _ _) (.shell (forall_mem_takeWhile isBlank cs))
  rw [if_neg hbang]
  by_cases hfile : c = '>'
  · rw [if_pos hfile]
    exact hfile ▸ outcome_readFile
  rw [if_neg hfile]
  rw [not_or] at hsep
  have hc : endsWord c = false := by
    simp [endsWord, isDelimiter, hblank, hsep, hopen, hclose, hpipe, hfile]
  exact outcome_readWord hc

theorem reads_of_step (h : s.step c cs = .done s') : Reads s (c :: cs) s' := by
  have ho := outcome_step s c cs
  generalize s.step c cs = result at h ho
  cases ho with
  | skip front rest split passed =>
    cases h
    exact .skip front rest split passed
  | token slice spelled => exact reads_of_emit h slice spelled
  | undecoded => cases h
  | malformed => cases h
  | wait => cases h

-- Every construct takes at least one character.
theorem Reads.length_lt (h : Reads s cs s') : s'.rest.length < cs.length := by
  cases h with
  | skip front rest split passed =>
    have hl := List.length_pos_iff.2 passed.ne_nil
    rw [← split, List.length_append]
    dsimp only [advance]
    omega
  | token kind gap piece text rest tree split taken =>
    have hl := List.length_pos_iff.2 taken
    rw [← split, List.length_append, List.length_append]
    dsimp only [advance]
    omega

end Reads

-- Read as much of the rest as there is, up to a construct that is incomplete or wrong.
def scan (s : Scanner) : Scanner × Option LexError :=
  match hs : s.rest with
  | [] => (s, none)
  | c :: cs =>
    match h : s.step c cs with
    | .done next =>
      have : next.rest.length < s.rest.length := by
        rw [hs]
        exact (reads_of_step h).length_lt
      next.scan
    | .wait pending => ({ s with pending := some pending }, none)
    | .reject next error => (next, some error)
termination_by s.rest.length

-- One more physical line, without its newline.
def feed (s : Scanner) (line : String) : Scanner × Option LexError :=
  let more := if s.source = "" then line else "\n" ++ line
  scan { s with
    source := s.source ++ more
    rest := s.rest ++ more.toList
    pending := none }

-- Close the logical line.  On success the scanner starts afresh, on failure it stays as it is.
def finish (s : Scanner) : Scanner × Except LexError Script :=
  let stop := s.source.utf8ByteSize
  match s.pending with
  | some (.quote offset) => (s, .error ⟨.unterminatedQuote, ⟨offset, stop⟩⟩)
  | some (.escape offset) => (s, .error ⟨.danglingEscape, ⟨offset, stop⟩⟩)
  | some (.pipe offset) => (s, .error ⟨.missingRedirection, ⟨offset, offset + 1⟩⟩)
  | none =>
    match s.tree.innermostOpen? with
    | some token => (s, .error ⟨.unpairedBraces, token.span⟩)
    | none => (s.reset, .ok s.snapshot)

-- A logical line can be closed when nothing is pending and no block is open.
theorem of_finish_ok {s : Scanner} {script : Script} (h : s.finish.2 = .ok script) :
    s.pending = none ∧ s.tree.innermostOpen? = none ∧ script = s.snapshot := by
  simp only [finish] at h
  split at h
  · cases h
  · cases h
  · cases h
  · next hp =>
    split at h
    · cases h
    · next ho =>
      cases h
      exact ⟨hp, ho, rfl⟩

end Scanner

-- Read a complete text at once.
def read (mode : Mode) (text : String) : Except LexError Script :=
  match (Scanner.starting mode).feed text with
  | (_, some error) => .error error
  | (s, none) => s.finish.2

def tokenize (text : String) : Except LexError Script := read .command text

end CommandShell.Script
