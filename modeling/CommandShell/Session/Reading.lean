import CommandShell.Session.Run

namespace CommandShell.Session

-- What a reader gives when it is asked for a line.
inductive Input where
  | line (text : String)
  | interrupt
  | endOfInput
  | failure (message : String)
deriving DecidableEq, Repr

-- A session after reading, with the prompts in force at each input and the reader's failure.
structure Reading where
  session : Session
  prompts : List String
  failure : Option String

-- The prompt for the next line.
def prompt (s : Session) : String :=
  if s.scanner.expectMore then s.config.settings.continuationPrompt else s.config.settings.prompt

-- Show the prompt where prompts are shown.
def ask (s : Session) : Session :=
  if s.prompting then
    { s with world := s.world.deliver .console (Text.encodeUtf8 s.prompt) }
  else s

-- Forget the logical line that was being read and tell why.
def discardLine (s : Session) (e : Script.LexError) : Session :=
  let told := s.diagnose (Script.renderLines s.scanner.source e.span e.message)
  { told with scanner := s.scanner.reset }

-- Close the logical line and run it.
def finishLine (s : Session) : Session :=
  match s.scanner.finish with
  | (scanner, .ok script) =>
    let s := { s with scanner }
    (runScript s.inner s script).1
  | (_, .error e) => s.discardLine e

-- Take one more line; a complete logical line is run.
def takeLine (s : Session) (text : String) : Session :=
  match s.scanner.feed text with
  | (scanner, some e) => { s with scanner }.discardLine e
  | (scanner, none) =>
    let s := { s with scanner }
    if scanner.expectMore then s else s.finishLine

-- At the end of input an incomplete line is closed as it is.
def takeEnd (s : Session) : Session :=
  if s.scanner.expectMore then s.finishLine else s

-- Read until the input ends or fails, or the session exits.
def read (s : Session) : List Input → Reading
  | [] => ⟨if s.exiting then s else s.ask.takeEnd, [], none⟩
  | input :: rest =>
    if s.exiting then ⟨s, [], none⟩
    else
      let further (s' : Session) : Reading :=
        let reading := s'.read rest
        { reading with prompts := s.prompt :: reading.prompts }
      match input with
      | .line text => further (s.ask.takeLine text)
      | .interrupt => further { s.ask with scanner := s.scanner.reset }
      | .endOfInput => ⟨s.ask.takeEnd, [s.prompt], none⟩
      | .failure message => ⟨s.ask, [s.prompt], some message⟩

end CommandShell.Session
