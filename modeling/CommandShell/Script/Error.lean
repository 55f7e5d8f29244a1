import CommandShell.Script.Token
import CommandShell.Text.Quoted

namespace CommandShell.Script

inductive LexCause where
  | unterminatedQuote
  | unpairedBraces
  | invalidEscape (sequence : String)
  | strayAfterFile
  | missingFileName
  | missingRedirection
  | missingShellCommand
  | danglingEscape
  | blockUnderflow
  | emptyCommandHead
  | argumentAfterBlock
deriving DecidableEq, Repr

namespace LexCause

-- What is wrong with a redirection in itself.
def ofRedirections : List LexCause :=
  [missingRedirection, missingShellCommand, missingFileName, strayAfterFile]

-- What is wrong with the place of a token among the commands and blocks.
def ofPlaces : List LexCause := [blockUnderflow, emptyCommandHead, argumentAfterBlock]

-- What is not wrong as long as more input may follow.
def ofEnds : List LexCause := [unterminatedQuote, danglingEscape, unpairedBraces]

def message : LexCause → String
  | unterminatedQuote => "unterminated quote"
  | unpairedBraces => "unpaired braces"
  | invalidEscape sequence => "invalid escape sequence " ++ Text.quoted sequence
  | strayAfterFile => "unexpected characters after file redirection"
  | missingFileName => "missing file name after '>'"
  | missingRedirection => "missing redirection name after '|'"
  | missingShellCommand => "missing shell command"
  | danglingEscape => "unexpected end of input after '\\'"
  | blockUnderflow => "block underflow: '\x7d' without matching '\x7b'"
  | emptyCommandHead => "empty command head"
  | argumentAfterBlock => "argument after block"

end LexCause

structure LexError where
  cause : LexCause
  span : Span
deriving DecidableEq, Repr

namespace LexError

def message (e : LexError) : String := e.cause.message

end LexError

end CommandShell.Script
