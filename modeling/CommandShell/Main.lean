import CommandShell.CommandLine.Program

open CommandShell

-- The files at a path and below it.
partial def mirror (disk : World.Disk) (path : String) : IO World.Disk := do
  try
    let real ← IO.FS.realPath path
    if ← real.isDir then
      let mut disk := disk.create path .directory
      for entry in ← real.readDir do
        disk ← mirror disk (if path = "." then entry.fileName else path ++ "/" ++ entry.fileName)
      return disk
    else return disk.create path (.file (← IO.FS.readBinFile path).toList)
  catch _ => return disk

-- Files outside the working directory that the program may be told to read.
def outside (paths : List String) : List String :=
  paths.filter (Text.startsWith · "/")

-- Bring what a run changed to the real files.
def store (before after : World.Disk) : IO Unit := do
  for (path, entry) in after.entries do
    if Dictionary.get? path before.entries ≠ some entry then
      match entry with
      | .directory => IO.FS.createDirAll path
      | .file bytes => IO.FS.writeBinFile path ⟨bytes.toArray⟩

def readEnvironment : IO World.Environment := do
  try return World.Environment.ofBytes (← IO.FS.readBinFile "/proc/self/environ").toList
  catch _ => return []

def main (arguments : List String) : IO UInt32 := do
  let environment ← readEnvironment
  let configuration := environment.home?.map (· ++ "/.config/opsh/config.toml")
  let disk ← (outside (arguments ++ configuration.toList)).foldlM mirror (← mirror {} ".")
  let input ← if CommandLine.readsInput arguments then (← IO.getStdin).readToEnd else pure ""
  let outcome := CommandLine.run { environment, disk } arguments input
  store disk outcome.world.disk
  (← IO.getStdout).write ⟨outcome.world.console.toArray⟩
  IO.eprint outcome.world.diagnostics
  return UInt32.ofNat outcome.status
