import HttpContract.CommandLine.Command

/-!
# The program

Runs a command on an application without routes, which is known as `app:api`.
-/

open HttpContract

/-- Whether a path leads to a directory. -/
def leadsToDirectory (path : String) : IO Bool := do
  try
    let _ ← IO.FS.realPath (path ++ "/.")
    return !path.isEmpty
  catch _ => return false

/-- The names that references can use. -/
def knownReference (moduleName member : String) : Loaded :=
  if moduleName ≠ "app" then .noModule
  else if member = "api" then .application
  else .noAttribute

/-- Runs the command that the arguments ask for. -/
def main (arguments : List String) : IO UInt32 := do
  let directories ← arguments.filterM leadsToDirectory
  let surroundings : Surroundings := ⟨directories.contains, knownReference⟩
  let (outcome, _) := Command.run surroundings {} arguments
  for (path, text) in outcome.files do
    let parts := FileName.parts path
    if 1 < parts.length then
      IO.FS.createDirAll (FileName.root path ++ joinTexts "/" parts.dropLast)
    IO.FS.writeFile path text
  let stdout ← IO.getStdout
  stdout.putStr outcome.output
  return UInt32.ofNat outcome.exitCode
