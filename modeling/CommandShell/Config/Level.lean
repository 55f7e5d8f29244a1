import CommandShell.Text.WhiteSpace

namespace CommandShell.Config

-- How much is logged, from nothing to everything.
inductive Level where
  | off
  | error
  | warn
  | info
  | debug
  | trace
deriving DecidableEq, Repr

namespace Level

def all : List Level := [off, error, warn, info, debug, trace]

def label : Level → String
  | off => "OFF"
  | error => "ERROR"
  | warn => "WARN"
  | info => "INFO"
  | debug => "DEBUG"
  | trace => "TRACE"

-- A level by its name in any case, with white space around it.
def parse? (name : String) : Option Level :=
  let name := (Text.trim name).toList.map Char.toUpper
  all.find? fun level => level.label.toList = name

end Level

end CommandShell.Config
