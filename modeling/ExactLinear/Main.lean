import ExactLinear.CommandLine

/- The program: arguments, files and the standard streams. What is written, and
   when the program ends, is decided by `CommandLine` and `Dialogue`. -/
namespace ExactLinear.CommandLine

/-- The number of a system error, which some calls report negated. -/
def errorNumber (code : UInt32) : Nat := (min code (0 - code)).toNat

/-- A system error that has no name among the file errors. -/
def systemError (code : UInt32) (reason : String) : FileError :=
  .other (reason ++ " (os error " ++ toString (errorNumber code) ++ ")")

def fileErrorOf : IO.Error → FileError
  | .noFileOrDirectory .. => .notFound
  | .inappropriateType _ code _ =>
    if errorNumber code = 21 then .isDirectory else .notDirectory
  | .invalidArgument _ code reason =>
    if errorNumber code = 36 then .nameTooLong else systemError code reason
  | .permissionDenied _ code _ => systemError code "Permission denied"
  | other => .other other.toString

/-- The text of a file. -/
def readFile (name : String) : IO (Except FileError String) := do
  match ← (IO.FS.readBinFile name).toBaseIO with
  | .error e => return .error (fileErrorOf e)
  | .ok bytes =>
    match Lines.decode? bytes.toList with
    | some text => return .ok text
    | none => return .error .notText

/-- The bytes up to and with the next line feed, or up to the end. -/
partial def readLine (stdin : IO.FS.Stream) (line : ByteArray) : IO ByteArray := do
  let byte ← stdin.read 1
  let line := line ++ byte
  if byte.isEmpty ∨ byte.toList = [10] then return line else readLine stdin line

/-- Writes what a program leaves behind and ends with its code. -/
def leave (e : Exit) : IO UInt32 := do
  (← IO.getStdout).putStr e.stdout
  (← IO.getStderr).putStr e.stderr
  return e.code.toUInt32

/-- Holds a dialogue on the standard streams, writing each answer as soon as it is known. -/
partial def converse (quiet : Bool) (s : Dialogue.State) : IO UInt32 := do
  let stdout ← IO.getStdout
  unless quiet do
    stdout.putStr (Dialogue.prompt s)
    stdout.flush
  match Lines.ofBytes (← readLine (← IO.getStdin) .empty).toList with
  | [] => return 0
  | none :: _ => leave (unreadableInput "")
  | some line :: _ =>
    if Dialogue.isExit s line then return 0
    let (written, next) := Dialogue.step s line
    stdout.putStr written
    stdout.flush
    converse quiet next

end ExactLinear.CommandLine

open ExactLinear ExactLinear.CommandLine in
def main (arguments : List String) : IO UInt32 := do
  match CommandLine.read arguments with
  | some (.evaluate ⟨_, _, quiet, none⟩) =>
    unless quiet do IO.println Dialogue.banner
    converse quiet (Dialogue.start Environment.empty)
  | some (.evaluate ⟨true, _, _, some name⟩) =>
    let file ← CommandLine.readFile name
    leave (CommandLine.run arguments (fun _ => file) [])
  | _ => leave (CommandLine.run arguments (fun _ => .error .notFound) [])
