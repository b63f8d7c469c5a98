import XPath.Query

/-!
# The command line

The arguments are an expression and a file, in this order, with options anywhere among them.  They
are read from left to right, and the first that asks for help or is wrong stops the program.

* `Command`: what the arguments ask for;
* `Command.read`: reads the arguments;
* `Command.run`: the text to print, given what the file contains.
-/

namespace XPath

/-! ### Commands -/

/-- How a result is written. -/
inductive Format
  | text
  | json
  deriving DecidableEq, Inhabited

/-- What the arguments ask for. -/
structure Command where
  /-- How the result is written. -/
  format : Format
  /-- Whether the tokens of the expression are wanted, not its value. -/
  tokens : Bool
  /-- How the expression is read and evaluated. -/
  options : Options
  /-- The expression. -/
  expr : String
  /-- The file with the document. -/
  file : Option String
  deriving DecidableEq, Inhabited

/-- Why the program stops before it starts. -/
inductive Stop
  /-- The arguments ask for help. -/
  | help
  /-- The arguments ask for the version. -/
  | version
  /-- The arguments are wrong. -/
  | misuse
  deriving DecidableEq, Inhabited

def Stop.exitCode : Stop → Nat
  | .help | .version => 0
  | .misuse => 2

/-! ### Reading arguments -/

/-- What has been read of the arguments. -/
structure Command.Draft where
  /-- The format, if it is given. -/
  format : Option Format := none
  /-- Whether the tokens are asked for. -/
  tokens : Bool := false
  /-- The limit on nesting, if it is given. -/
  nesting : Option Nat := none
  /-- Whether the evaluation is to be strict. -/
  strict : Bool := false
  /-- The expression, if it is given. -/
  expr : Option String := none
  /-- The file, if it is given. -/
  file : Option String := none
  deriving DecidableEq, Inhabited

namespace Command

/-- A number of at most sixty-four bits; a plus sign may stand before it. -/
def word? (s : String) : Option Nat :=
  let digits := match s.toList with
    | '+' :: cs => cs
    | cs => cs
  if digits.isEmpty || !digits.all Char.isDigit then none
  else
    let n := Number.ofDigits digits
    if n < Nat.pow 2 64 then some n else none

def format? (s : String) : Option Format :=
  if s = "text" then some .text else if s = "json" then some .json else none

/-- Adds an argument that is no option. -/
def Draft.addOperand (d : Draft) (s : String) : Except Stop Draft :=
  if d.expr.isNone then .ok { d with expr := some s }
  else if d.file.isNone && s != "" then .ok { d with file := some s }
  else .error .misuse

/-- Adds an option without a value, which may be given once. -/
def Draft.addFlag (d : Draft) (name : String) : Except Stop Draft :=
  if name = "tokens" ∧ !d.tokens then .ok { d with tokens := true }
  else if name = "strict" ∧ !d.strict then .ok { d with strict := true }
  else if name = "help" then .error .help
  else if name = "version" then .error .version
  else .error .misuse

/-- Adds an option with a value, which may be given once. -/
def Draft.addOption (d : Draft) (name value : String) : Except Stop Draft :=
  if name = "format" ∧ d.format.isNone then
    match format? value with
    | some f => .ok { d with format := some f }
    | none => .error .misuse
  else if name = "max-depth" ∧ d.nesting.isNone then
    match word? value with
    | some n => .ok { d with nesting := some n }
    | none => .error .misuse
  else .error .misuse

def takesValue (name : String) : Bool :=
  name == "format" || name == "max-depth"

/-- The stop that short options lead to: the first of them decides. -/
def shortStop : List Char → Stop
  | 'h' :: _ => .help
  | 'V' :: _ => .version
  | _ => .misuse

/-- Whether an argument is an option: it begins with a hyphen and is longer. -/
def isOption (s : String) : Bool :=
  match s.toList with
  | '-' :: _ :: _ => true
  | _ => false

/-- Reads arguments behind what has been read of them; two hyphens end the options. -/
def Draft.readAll (d : Draft) : List String → Except Stop Draft
  | [] => .ok d
  | arg :: args =>
    match arg.toList with
    | ['-', '-'] => args.foldlM Draft.addOperand d
    | '-' :: '-' :: cs =>
      let name := String.ofList (cs.takeWhile (· != '='))
      match cs.dropWhile (· != '=') with
      | _ :: value => do
        let d ← d.addOption name (String.ofList value)
        d.readAll args
      | [] =>
        if takesValue name then
          match args with
          | [] => .error .misuse
          | value :: args =>
            if isOption value then .error .misuse
            else do
              let d ← d.addOption name value
              d.readAll args
        else do
          let d ← d.addFlag name
          d.readAll args
    | '-' :: c :: cs => .error (shortStop (c :: cs))
    | _ => do
      let d ← d.addOperand arg
      d.readAll args

/-- Reads the arguments.  The environment may give a limit on nesting, which counts where the
arguments give none. -/
def read (environment : Option String) (args : List String) : Except Stop Command := do
  let d ← Draft.readAll {} args
  let nesting ← match d.nesting, environment with
    | some n, _ => .ok n
    | none, none => .ok defaultNesting
    | none, some s => (word? s).elim (.error .misuse) .ok
  match d.expr with
  | none => .error .misuse
  | some expr => return ⟨d.format.getD .text, d.tokens, ⟨nesting, d.strict⟩, expr, d.file⟩

/-! ### Running -/

/-- Why a file cannot be read. -/
inductive FileError
  /-- There is no such file. -/
  | missing
  /-- The file is not a text in UTF-8. -/
  | encoding
  /-- The system gives another reason. -/
  | other (reason : String)
  deriving DecidableEq, Inhabited

def FileError.message : FileError → String
  | .missing => "No such file or directory (os error 2)"
  | .encoding => "stream did not contain valid UTF-8"
  | .other reason => reason

/-- Why a command has no output. -/
inductive Error
  /-- The query has no result. -/
  | query (error : QueryError)
  /-- The file cannot be read. -/
  | file (error : FileError)
  /-- No file is given. -/
  | noFile
  deriving DecidableEq, Inhabited

def Error.message : Error → String
  | .query e => e.message
  | .file e => "I/O error: " ++ e.message
  | .noFile => "I/O error: an XML file is required unless --tokens is given"

/-- The text in the bytes of a file. -/
def decode (bytes : ByteArray) : Except FileError String :=
  match String.fromUTF8? bytes with
  | some s => .ok s
  | none => .error .encoding

/-- The file that has to be read for a command. -/
def needed (c : Command) : Option String :=
  if c.tokens then none else c.file

/-- The text that a command prints, given the bytes of the file that it needs. -/
def run (c : Command) (file : Except FileError ByteArray) : Except Error String :=
  if c.tokens then do
    let ts ← (queryTokens c.options c.expr).mapError .query
    return match c.format with
      | .text => tokenLines ts
      | .json => (tokensToJson ts).pretty
  else
    match c.file with
    | none => .error .noFile
    | some _ => do
      let document ← (file.bind decode).mapError .file
      let r ← (query c.options c.expr document).mapError .query
      return match c.format with
        | .text => r.toText
        | .json => r.toJson.pretty

end Command
end XPath
