namespace CommandShell.Config

structure Settings where
  prompt : String := "opsh> "
  continuationPrompt : String := "...> "
  queueCapacity : Nat := 20
  defaultFormatter : String := "text"
  defaultSink : String := "stdout"
  -- Empty for no history.
  historyFile : String := "~/.local/share/opsh/history"
  -- Milliseconds.
  completionTimeout : Nat := 200
deriving DecidableEq, Repr

structure Logging where
  level : String := "warn"
  -- Empty for standard error only.
  file : String := ""
deriving DecidableEq, Repr

end CommandShell.Config

namespace CommandShell

structure Config where
  settings : Config.Settings := {}
  logging : Config.Logging := {}
deriving DecidableEq, Repr

end CommandShell
