import CommandShell.Handler.Completion
import CommandShell.Handler.Options
import CommandShell.Output.Format

namespace CommandShell.Handler

open Binding (Slot Table)
open Output (Format)

-- What can be registered as a formatter: its options, the format that it is once they are bound,
-- what it offers for a word, and the milliseconds that the offers take.
structure Formatter where
  options : Options
  format : List Slot → Format
  offers : CompletionRequest → List String := fun _ => []
  delay : Nat := 0

namespace Formatter

def table (f : Formatter) : Table := f.options.table

def text : Formatter where
  options := .declared []
  format _ := .text

def json : Formatter where
  options := .declared [⟨"compact", flagType, "*=c|compact"⟩]
  format slots := .json (valueAt slots 0).flag

end Formatter

end CommandShell.Handler
