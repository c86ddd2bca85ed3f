import SignLang.Expr.Render
import SignLang.Program
import SignLang.Tree.Export

/-!
# The command

What the command prints for a text: its tokens, its laid-out tokens, its tree, or the text rendered
anew. `run` does the work for one text and keeps a log of the stages; `Request.ofArguments` reads the
command line, and `Request.report` says what the command prints and how it ends.
-/

namespace SignLang

/-- What the command shows of a text. -/
inductive Mode where
  | tree
  | tokens
  | normalized
  | rendered
deriving DecidableEq, Repr

namespace Mode

/-- The name of a mode. -/
def name : Mode → String
  | tree => "tree"
  | tokens => "tokens"
  | normalized => "normalized"
  | rendered => "unparse"

/-- The mode of a name. -/
def ofName? (name : String) : Option Mode :=
  [tree, tokens, normalized, rendered].find? (·.name = name)

/-- The flag that asks for a mode; the tree is shown when there is none. -/
def flag? : Mode → Option String
  | tree => none
  | mode => some ("--" ++ mode.name)

/-- The mode that a flag asks for. -/
def ofFlag? (flag : String) : Option Mode :=
  [tokens, normalized, rendered].find? (·.flag? = some flag)

end Mode

/-- What a stage tells the log. -/
inductive Event where
  | scanned (tokens lines : Nat)
  | laidOut (lines blocks : Nat)
  | built (form : String) (tokens : Nat)
  | parsed (characters : Nat) (form : String)
deriving DecidableEq, Repr

/-- The line of an event in the log. -/
def Event.line : Event → String
  | scanned tokens lines =>
    s!"DEBUG sign_ref.lexer: scanned {tokens} tokens over {lines} lines"
  | laidOut lines blocks => s!"DEBUG sign_ref.layout: layout: {lines} lines, {blocks} blocks"
  | built form tokens => s!"DEBUG sign_ref.parser: built {form} from {tokens} tokens"
  | parsed characters form => s!"DEBUG sign_ref.runner: parsed {characters} characters into {form}"

/-- The wording of the refusal of a mode. -/
def Mode.unknownMessage (name : String) : String :=
  "unknown output mode " ++ Text.quoted name

/-- Why a run shows nothing. -/
inductive RunFault where
  | unknownMode (name : String)
  | refused (refusal : Refusal)
  | malformed (fault : RenderFault)
deriving DecidableEq, Repr

/-- What a run shows, and the log of the stages that came to an end. -/
structure Run where
  log : List Event
  shown : Except RunFault String

namespace Run

/-- A run that ends in a refusal. -/
def refuse (log : List Event) (refusal : Refusal) : Run :=
  { log, shown := .error (.refused refusal) }

/-- A laid-out token on a line with others. -/
def showToken (t : Token) : String :=
  if t.lexeme = "\n" then "<sep>" else t.lexeme

/-- The text without the line feeds at its end. -/
def dropFinalNewlines (text : String) : String :=
  String.ofList (text.toList.reverse.dropWhile (· = '\n')).reverse

/-- An expression, as a tree or rendered anew. -/
def showExpr (mode : Mode) (e : Expr) : Except RunFault String :=
  if mode = .rendered then e.render.mapError .malformed
  else .ok (dropFinalNewlines e.toTree.pretty)

end Run

/-- Runs the stages that a mode needs over a text. -/
def run (mode : Mode) (text : String) : Run :=
  match (Scanner.ofText text.toList).tokenize with
  | .error failure => Run.refuse [] (.lexical failure)
  | .ok scanner =>
    let tokens := scanner.tokens
    let log := [Event.scanned tokens.length scanner.line]
    if mode = .tokens then { log, shown := .ok ("\n".intercalate (tokens.map Token.dump)) }
    else
      match Layout.ofTokens tokens with
      | .error failure => Run.refuse log (.layout failure)
      | .ok layout =>
        let log := log ++ [Event.laidOut layout.lines.length layout.outline.blocks]
        if mode = .normalized then
          { log, shown := .ok (" ".intercalate (layout.tokens.dropLast.map Run.showToken)) }
        else
          match build layout.tokens with
          | .error failure => Run.refuse log (.parsing failure)
          | .ok e =>
            { log := log ++ [Event.built e.form layout.tokens.length,
                Event.parsed text.length e.form]
              shown := Run.showExpr mode e }

/-- Runs a mode that is given by its name. -/
def runNamed (mode text : String) : Run :=
  match Mode.ofName? mode with
  | some mode => run mode text
  | none => { log := [], shown := .error (.unknownMode mode) }

/-- What is wrong with a command line, or with the input that it names. -/
inductive UsageFault where
  | conflict (flag : String) (mode : Mode)
  | unexpected (argument : String)
  | noInput
deriving DecidableEq, Repr

/-- The wording of a usage fault. -/
def UsageFault.message : UsageFault → String
  | conflict flag mode => s!"{flag} conflicts with --{mode.name}"
  | unexpected argument => s!"Unexpected argument: {argument}"
  | noInput => "No input provided on stdin"

/-- What a command line asks for. Without an argument the text comes from the standard input. -/
structure Request where
  mode : Mode
  verbose : Bool
  argument : Option String
deriving DecidableEq, Repr

/-- How the command ends. -/
inductive Exit where
  | success
  | failure
  | usage (fault : UsageFault)
deriving DecidableEq, Repr

/-- What the command prints, and how it ends. -/
structure Report where
  stdout : String
  stderr : String
  exit : Exit
deriving DecidableEq, Repr

/-- A command that ends because of how it was called. -/
def Report.ofUsage (fault : UsageFault) : Report :=
  { stdout := "", stderr := "", exit := .usage fault }

namespace Request

/-- The request before any argument is read. -/
def initial : Request :=
  { mode := .tree, verbose := false, argument := none }

/-- The request after one more argument. -/
def add (request : Request) (argument : String) : Except UsageFault Request :=
  match Mode.ofFlag? argument with
  | some mode =>
    if request.mode = .tree then .ok { request with mode }
    else .error (.conflict argument request.mode)
  | none =>
    if argument = "--verbose" then .ok { request with verbose := true }
    else if request.argument = none then .ok { request with argument := some argument }
    else .error (.unexpected argument)

/-- The request that a command line makes. -/
def ofArguments (arguments : List String) : Except UsageFault Request :=
  arguments.foldlM add initial

/-- The argument to look up as a file name, or else to take as the text itself. A lone minus stands
for the standard input. -/
def source? (request : Request) : Option String :=
  request.argument.filter (· ≠ "-")

/-- The text of a standard input, which may not be empty. -/
def inputText (stdin : String) : Except UsageFault String :=
  if stdin.isEmpty then .error .noInput else .ok stdin

/-- The text of a file, if its bytes are encoded text. Line ends of every form are read as line
feeds. -/
def fileText? (bytes : ByteArray) : Option String :=
  (String.fromUTF8? bytes).map fun text => String.ofList (Text.unifyLineEnds text.toList)

/-- The log as lines of text, if it is asked for. -/
def logText (request : Request) (log : List Event) : String :=
  if request.verbose then String.join (log.map fun event => event.line ++ "\n") else ""

/-- What the command prints for a text. A tree that the parser has built is never malformed, so its
rendering does not fail. -/
def report (request : Request) (text : String) : Report :=
  let result := run request.mode text
  let log := request.logText result.log
  match result.shown with
  | .ok shown => { stdout := shown ++ "\n", stderr := log, exit := .success }
  | .error (.refused refusal) =>
    { stdout := "", stderr := log ++ refusal.diagnostic.report ++ "\n", exit := .failure }
  | .error _ => { stdout := "", stderr := log, exit := .failure }

end Request

end SignLang
