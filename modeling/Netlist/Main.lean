import Netlist.Command

/-!
# The program

Reads the files that the arguments speak of and prints what the command says.
-/

namespace Netlist

namespace Program

/-- The content of a file, if it can be read. -/
def readFile? (path : String) : IO (Option String) := do
  try
    return some (← IO.FS.readFile path)
  catch _ =>
    return none

/-- The steps from a directory to each file below it. -/
partial def filesBelow (path : String) : IO (List (List Text)) := do
  try
    let place ← IO.FS.realPath path
    let mut found := []
    for entry in ← place.readDir do
      let name := entry.fileName.toList
      if ← entry.path.isDir then
        let inner ← filesBelow (path ++ "/" ++ entry.fileName)
        found := found ++ inner.map (name :: ·)
      else found := found ++ [[name]]
    return found
  catch _ =>
    return []

/-- The files that a request speaks of. -/
def load : Option Command.Request → IO Files
  | some (.perform action options) => do
      let (operand, below) ← match action with
        | .expand file _ _ | .trace file | .list file _ => pure (file, [])
        | .check path => pure (path, ← filesBelow (String.ofList path))
      let found := below.map (Files.shown operand)
      let mut contents : List (Text × Text) := []
      for path in operand :: options.config.toList ++ found do
        match ← readFile? (String.ofList path) with
        | some content => contents := contents ++ [(path, content.toList)]
        | none => pure ()
      let files := contents
      return ⟨fun path => (files.find? fun file => file.1 == path).map Prod.snd, fun _ => below⟩
  | _ => return ⟨fun _ => none, fun _ => []⟩

def print (output : Command.Output) : IO Unit := do
  for line in output.lines do
    IO.println (String.ofList line)
  for note in output.notes do
    IO.eprintln (String.ofList note)
  match output.complaint with
  | some complaint => IO.eprintln (String.ofList complaint)
  | none => pure ()

end Program

end Netlist

def main (arguments : List String) : IO UInt32 := do
  let texts := arguments.map String.toList
  let files ← Netlist.Program.load (Netlist.Command.request? texts)
  let output := Netlist.Command.run files texts
  Netlist.Program.print output
  return output.code.toUInt32
