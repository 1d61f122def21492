import PlainJs.Command.Run

namespace PlainJs

def faultOf : IO.Error → FileFault
  | .inappropriateType .. => .isDirectory
  | _ => .missing

def readText (path : String) : IO (Except FileFault String) := do
  try
    return .ok (← IO.FS.readFile path)
  catch e => return .error (faultOf e)

/-- Finds out whether a file can be written: the directory that it would lie in is there. -/
def findPlace (path : String) : IO (Except FileFault String) := do
  let directory := Command.directoryOf path
  if directory.isEmpty then return .ok path
  try
    let _ ← IO.FS.realPath directory
    return .ok path
  catch e => return .error (faultOf e)

def runCommand (c : Command) : IO UInt32 := do
  let texts ← c.files.mapM fun path => return (path, ← readText path)
  let places ← c.outputs.mapM fun path => return (path, ← findPlace path)
  let files : Files :=
    ⟨fun path => (texts.lookup path).getD (.error .missing),
      fun path => (places.lookup path).getD (.error .missing)⟩
  let outcome := c.run files
  for (path, text) in outcome.written do
    IO.FS.writeFile path text
  (← IO.getStdout).putStr outcome.out
  (← IO.getStderr).putStr outcome.err
  return outcome.status.toUInt32

end PlainJs

def main (args : List String) : IO UInt32 := do
  match PlainJs.Command.ofArgs? args with
  | some c => PlainJs.runCommand c
  | none =>
    (← IO.getStderr).putStr PlainJs.Command.usage
    return 2
