import SignLang.Command

/-!
# Command line

Reads the arguments, finds the text that they name, and prints what the command reports about it.
-/

namespace SignLang.Main

/-- The text that bytes encode. -/
def decoded (name : String) (text : Option String) : IO String :=
  match text with
  | some text => return text
  | none => throw (IO.userError s!"{name}: not encoded text")

/-- The bytes of a file, or nothing if there is no file of that name. -/
def fileBytes? (name : String) : IO (Option ByteArray) :=
  try some <$> IO.FS.readBinFile ⟨name⟩ catch _ => pure none

/-- All bytes that a stream still holds, after those already read. -/
partial def remainingBytes (stream : IO.FS.Stream) (read : ByteArray) : IO ByteArray := do
  let chunk ← stream.read 65536
  if chunk.isEmpty then return read else remainingBytes stream (read ++ chunk)

/-- The text that a request names: a file's, the argument itself, or the standard input. -/
def sourceText (request : Request) : IO (Except UsageFault String) := do
  match request.source? with
  | none =>
    let bytes ← remainingBytes (← IO.getStdin) ByteArray.empty
    return Request.inputText (← decoded "-" (String.fromUTF8? bytes))
  | some argument =>
    match ← fileBytes? argument with
    | none => return .ok argument
    | some bytes => return .ok (← decoded argument (Request.fileText? bytes))

/-- Prints a report and turns its ending into an exit code. -/
def printReport (report : Report) : IO UInt32 := do
  IO.print report.stdout
  IO.eprint report.stderr
  match report.exit with
  | .success => return 0
  | .failure => return 1
  | .usage fault =>
    IO.eprintln fault.message
    return 1

/-- Does what the arguments ask for, and returns the exit code. -/
def execute (arguments : List String) : IO UInt32 := do
  match Request.ofArguments arguments with
  | .error fault => printReport (Report.ofUsage fault)
  | .ok request =>
    match ← sourceText request with
    | .error fault => printReport (Report.ofUsage fault)
    | .ok text => printReport (request.report text)

end SignLang.Main

/-- The command. -/
def main (arguments : List String) : IO UInt32 :=
  SignLang.Main.execute arguments
