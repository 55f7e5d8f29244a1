import CommandShell.Handler.Completion
import CommandShell.Handler.Options
import CommandShell.Output.Filter

namespace CommandShell.Handler

open Binding (Slot Table)
open Output (Filter)

-- What can be registered as a pipe: its options, the filter that it is once they are bound, what it
-- offers for a word, and the milliseconds that the offers take.
structure Pipe where
  options : Options
  filter : List Slot → Filter
  offers : CompletionRequest → List String := fun _ => []
  delay : Nat := 0

namespace Pipe

def table (p : Pipe) : Table := p.options.table

def limit : Pipe where
  options := .declared [⟨"count", countType .word, "*=#1"⟩]
  filter slots := .limit (valueAt slots 0).nat

def grep : Pipe where
  options := .declared [⟨"pattern", textType, "*=#1"⟩,
    ⟨"ignore_case", flagType, "*=i|ignore-case"⟩, ⟨"invert", flagType, "*=v|invert"⟩]
  filter slots := .grep (valueAt slots 0).text (valueAt slots 1).flag (valueAt slots 2).flag

end Pipe

end CommandShell.Handler
