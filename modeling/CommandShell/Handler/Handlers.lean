import CommandShell.Handler.Command
import CommandShell.Handler.Formatter
import CommandShell.Handler.Pipe
import CommandShell.Handler.Registry

namespace CommandShell.Handler

-- The handlers of each kind.
abbrev Handlers : Kind → Type
  | .command => Command
  | .pipe => Pipe
  | .formatter => Formatter
  | .sink => Sink

abbrev Library := Registry Handlers

end CommandShell.Handler
