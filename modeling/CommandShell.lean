import CommandShell.Config.Level
import CommandShell.Main
import CommandShell.Proofs.Binding.Exclusion
import CommandShell.Proofs.Binding.Operands
import CommandShell.Proofs.Scanner.Joining
import CommandShell.Proofs.Scanner.Replaying
import CommandShell.Proofs.Session.Watching
import CommandShell.Proofs.Session.Interactive
import CommandShell.Proofs.Threads.Failure
import CommandShell.Session.Completion
import CommandShell.Proofs.Session.Conduct
import CommandShell.Proofs.Session.Events
import CommandShell.Proofs.Session.Reporting
import CommandShell.Proofs.Session.Refusal
import CommandShell.Proofs.Session.Redirecting
import CommandShell.Proofs.Session.Exiting
import CommandShell.Proofs.Output.Assembly
import CommandShell.Proofs.Session.Calls
import CommandShell.Proofs.Session.Paths
import CommandShell.Proofs.Binding.Interleaving
import CommandShell.Proofs.Session.Prompting
import CommandShell.Proofs.Session.Positions
import CommandShell.Proofs.Session.FileOperand
import CommandShell.Proofs.Output.Entries
import CommandShell.Proofs.Output.Unfinished
import CommandShell.Proofs.Binding.Accounts
import CommandShell.Proofs.Scanner.Closing
import CommandShell.Proofs.Session.Naming
import CommandShell.Proofs.Scanner.Strays
import CommandShell.Proofs.Session.Completing
import CommandShell.Proofs.Binding.Literals
import CommandShell.Proofs.Session.Counting
import CommandShell.Proofs.Output.Indentation
import CommandShell.Proofs.Scanner.Rendering
import CommandShell.Proofs.Binding.Tags
import CommandShell.Proofs.Scanner.Headed
import CommandShell.Proofs.Scanner.Receiving
