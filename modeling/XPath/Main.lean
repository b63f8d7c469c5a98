import XPath.CommandLine

/-!
# The program

Prints the result of an expression on an XML file, or the tokens of the expression.
-/

namespace XPath

def usage : String :=
  "Usage: xpath [--format text|json] [--tokens] [--max-depth N] [--strict] EXPR [FILE]"

def nestingVariable : String :=
  "PETTY_XPATH_MAX_DEPTH"

def readBytes (file : String) : IO (Except Command.FileError ByteArray) := do
  try
    return .ok (← IO.FS.readBinFile file)
  catch e =>
    match e with
    | .noFileOrDirectory .. => return .error .missing
    | e => return .error (.other (toString e))

def Command.execute (c : Command) : IO UInt32 := do
  let file ← match c.needed with
    | some name => readBytes name
    | none => pure (.error .missing)
  match c.run file with
  | .ok text =>
    IO.println text
    return 0
  | .error e =>
    IO.eprintln ("Error: " ++ e.message)
    return 1

end XPath

def main (args : List String) : IO UInt32 := do
  match XPath.Command.read (← IO.getEnv XPath.nestingVariable) args with
  | .ok c => c.execute
  | .error .misuse =>
    IO.eprintln XPath.usage
    return 2
  | .error .version =>
    IO.println "xpath 0.1.0"
    return 0
  | .error .help =>
    IO.println XPath.usage
    return 0
