/-
# The program

Reads the files that a call names and prints what comes of it.
-/
import GrammarTree.Command

namespace GrammarTree

/-- The bytes of a file, or nothing if it cannot be read. -/
def fetch (name : String) : IO (Option ByteArray) := do
  try
    return some (← IO.FS.readBinFile name)
  catch _ =>
    return none

/-- Access to the files that were read beforehand. -/
def accessTo (found : List (String × Option ByteArray)) : FileAccess where
  hasFile name := ((found.lookup name).bind id).isSome
  read name :=
    match (found.lookup name).bind id with
    | some bytes => textOfBytes bytes
    | none => .error .notFound

end GrammarTree

/-- Runs the program. -/
def main (args : List String) : IO UInt32 := do
  let names := ((GrammarTree.Command.Request.read? args).map fun r => r.fileNames).getD []
  let found ← names.mapM fun name => return (name, ← GrammarTree.fetch name)
  let outcome := GrammarTree.Command.execute (GrammarTree.accessTo found) args
  IO.print outcome.output
  return outcome.ending.code.toUInt32
