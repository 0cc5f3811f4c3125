import KeyedQuery.CommandLine

/-!
# The program

Reads the files that an invocation names, and prints its output or its failure.
-/

namespace KeyedQuery

/-- The text of a file, if it can be read. -/
def readText? (file : String) : IO (Option String) := do
  try
    let text ← IO.FS.readFile file
    return some text
  catch _ =>
    return none

def runProgram (arguments : List String) : IO UInt32 := do
  match Invocation.ofArguments arguments with
  | .error e => do
      IO.eprintln ("error: " ++ e.message)
      return 2
  | .ok invocation => do
      let texts ← invocation.files.mapM fun file => do
        let text ← readText? file
        return (file, text)
      match (invocation.withTexts fun file => (texts.lookup file).join).output with
      | .ok text => do
          IO.println text
          return 0
      | .error e => do
          IO.eprintln ("Error: " ++ e.message)
          return 1

end KeyedQuery

def main (arguments : List String) : IO UInt32 :=
  KeyedQuery.runProgram arguments
