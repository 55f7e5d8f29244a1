import CommandShell.Session.Dispatch

namespace CommandShell.Session

open Handler (CompletionRequest Kind)
open Script (Token)

-- The names of one kind that can be used now and extend a word.
def namesOf (s : Session) (word : String) (kind : Kind) : List String :=
  let usable (name : String) : Bool := kind ≠ .command || (command? s name).isSome
  let registered := (s.library.names kind).filter fun name =>
    usable name && Text.startsWith name word
  if kind = .command then
    registered ++ (Builtin.all.map Builtin.name).filter (Text.startsWith · word)
  else registered

-- The names of some kinds, each once and in order.
def completeNames (s : Session) (kinds : List Kind) (word : String) : List String :=
  (kinds.flatMap (s.namesOf word)).mergeSort.eraseReps

-- A handler that takes too long offers nothing.
def completeTimely (s : Session) (r : CompletionRequest) (delay : Nat) (offers : List String) :
    List String :=
  if s.config.settings.completionTimeout < delay then [] else r.sorted offers

-- Options for a word that starts with a dash, otherwise what the handler offers.
def completeWith (s : Session) (r : CompletionRequest) (table : Binding.Table) (delay : Nat)
    (offers : List String) : List String :=
  if Text.startsWith r.word "-" then r.sorted (table.optionNames r.name)
  else s.completeTimely r delay offers

def completeCommand (s : Session) (r : CompletionRequest) : List String :=
  match s.library.handler? .command r.name with
  | none => []
  | some c => s.completeWith r (c.options s.context).table c.delay (c.offers s.context r)

def completeRedirection (s : Session) (r : CompletionRequest) : List String :=
  match s.library.handler? .pipe r.name, s.library.handler? .formatter r.name,
    s.library.handler? .sink r.name with
  | some pipe, _, _ => s.completeWith r pipe.table pipe.delay (pipe.offers r)
  | none, some formatter, _ => s.completeWith r formatter.table formatter.delay (formatter.offers r)
  | none, none, some sink =>
    s.completeWith r (sink.options s.context).table sink.delay (sink.offers s.world s.context r)
  | none, none, none => []

def completeFile (s : Session) (word : String) : List String :=
  match s.library.handler? .sink "file" with
  | none => []
  | some sink =>
    let r : CompletionRequest := { name := "file", word }
    s.completeTimely r sink.delay (sink.offers s.world s.context r)

-- A line that is being typed, read as far as it goes.  It is fresh if a new word begins at its end.
structure Typing where
  tokens : List Token
  fresh : Bool
deriving DecidableEq, Repr

namespace Typing

-- Nothing can be said about a line with a lexical error.
def ofLine? (line : String) : Option Typing :=
  match Script.Scanner.new.feed line with
  | (_, some _) => none
  | (scanner, none) =>
    some ⟨scanner.tree.tokens.toList, (line.toList.getLast?).all (· ∈ [' ', '\t', '\n'])⟩

-- The word to complete.
def word (t : Typing) : String :=
  match t.tokens.getLast? with
  | some last => if t.fresh || last.kind.isStructural then "" else last.text
  | none => ""

def isHead (t : Token) : Bool :=
  t.kind = .command || t.kind.isRedirection || t.kind.isStructural

-- The last command, redirection or structural token.
def head? (t : Typing) : Option Token := t.tokens.reverse.find? isHead

-- The texts of the tokens after the head.
def following (t : Typing) : List String :=
  ((t.tokens.reverse.takeWhile fun u => !isHead u).reverse).map (·.text)

-- The head itself is being typed.
def isOnHead (t : Typing) : Bool := t.following.isEmpty && !t.fresh

-- What the handler of the head is asked.
def request (t : Typing) (head : Token) : CompletionRequest :=
  { name := head.text, word := t.word
    args := if t.fresh then t.following else t.following.dropLast }

end Typing

-- Candidates at the end of a line.
def completeTyping (s : Session) (t : Typing) : List String :=
  let commands := s.completeNames [.command] t.word
  match t.head? with
  | none => commands
  | some head =>
    match head.kind, t.isOnHead with
    | .command, false => s.completeCommand (t.request head)
    | .redirection, true => s.completeNames [.pipe, .formatter, .sink] t.word
    | .redirection, false => s.completeRedirection (t.request head)
    | .fileRedirection, true => s.completeFile t.word
    | .fileRedirection, false | .shellRedirection, _ => []
    | _, _ => commands

-- Candidates for the last word of a line that is being typed.
def complete (s : Session) (line : String) : List String :=
  (Typing.ofLine? line).elim [] s.completeTyping

end CommandShell.Session
