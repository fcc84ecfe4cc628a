import ExactLinear.Dialogue

/- The command line: flags and at most one script, which is given as text or, with
   a flag, as the name of a file. Without a script a dialogue is held on the
   input. -/
namespace ExactLinear.CommandLine

structure Options where
  /-- The script is the name of a file. -/
  file : Bool
  /-- The last value of the script is printed. -/
  pipe : Bool
  /-- A dialogue writes no banner and no prompts. -/
  quiet : Bool
  script : Option String
  deriving DecidableEq, Repr

/-- What a command line asks for. -/
inductive Request where
  | version
  | help
  | evaluate (options : Options)
  deriving DecidableEq, Repr

inductive Flag where
  | file | pipe | quiet | version | help
  deriving DecidableEq, Repr

def Flag.ofLetter? : Char → Option Flag
  | 'f' => some .file
  | 'p' => some .pipe
  | 'q' => some .quiet
  | 'V' => some .version
  | 'h' => some .help
  | _ => none

def Flag.ofWord? : String → Option Flag
  | "file" => some .file
  | "pipe-mode" => some .pipe
  | "quiet" => some .quiet
  | "version" => some .version
  | "help" => some .help
  | _ => none

/-- Reading goes on with what has been given so far, or it is over: with a request, or with
`none` for a command line that is refused. -/
inductive Progress where
  | more (options : Options)
  | done (request : Option Request)

/-- A flag may be given once. Asking for the version or for help ends the reading. -/
def addFlag (o : Options) : Flag → Progress
  | .file => if o.file then .done none else .more { o with file := true }
  | .pipe => if o.pipe then .done none else .more { o with pipe := true }
  | .quiet => if o.quiet then .done none else .more { o with quiet := true }
  | .version => .done (some .version)
  | .help => .done (some .help)

/-- Flags written as one letter each. -/
def addLetters (o : Options) : List Char → Progress
  | [] => .more o
  | c :: rest =>
    match Flag.ofLetter? c with
    | none => .done none
    | some flag =>
      match addFlag o flag with
      | .more o' => addLetters o' rest
      | stop => stop

def addScript (o : Options) (text : String) : Progress :=
  if o.script.isSome then .done none else .more { o with script := some text }

/-- An argument that may be a flag: one that begins with a dash and goes on. -/
def addArgument (o : Options) (text : String) : Progress :=
  match text.toList with
  | '-' :: '-' :: word =>
    match Flag.ofWord? (String.ofList word) with
    | some flag => addFlag o flag
    | none => .done none
  | '-' :: c :: letters => addLetters o (c :: letters)
  | _ => addScript o text

/-- Reads arguments in order; after `--` none of them is a flag. -/
def readFrom (o : Options) (flags : Bool) : List String → Option Request
  | [] => some (.evaluate o)
  | a :: rest =>
    if flags ∧ a = "--" then readFrom o false rest
    else
      match if flags then addArgument o a else addScript o a with
      | .more o' => readFrom o' flags rest
      | .done request => request

/-- The request that a command line makes, `none` if it is refused. -/
def read (arguments : List String) : Option Request :=
  readFrom ⟨false, false, false, none⟩ true arguments

/-! What a request does. -/

/-- Why a script cannot be read from a file. -/
inductive FileError where
  | notFound
  | isDirectory
  | notDirectory
  | nameTooLong
  | notText
  | other (reason : String)
  deriving DecidableEq, Repr

def FileError.reason : FileError → String
  | .notFound => "No such file or directory (os error 2)"
  | .isDirectory => "Is a directory (os error 21)"
  | .notDirectory => "Not a directory (os error 20)"
  | .nameTooLong => "File name too long (os error 36)"
  | .notText => "stream did not contain valid UTF-8"
  | .other reason => reason

/-- What a program leaves behind when it ends. -/
structure Exit where
  stdout : String
  stderr : String
  code : Nat
  deriving DecidableEq, Repr

def versionText : String := "ratmat 0.1.0\n"

def usageText : String :=
  "Usage: ratmat [OPTIONS] [CONTENTS]\n\n" ++
  "Arguments:\n" ++
  "  [CONTENTS]  The script, or its path when `--file` is given\n\n" ++
  "Options:\n" ++
  "  -f, --file       Treat CONTENTS as the path of a script file instead of the script\n" ++
  "  -p, --pipe-mode  Print the last value the script produces\n" ++
  "  -q, --quiet      Do not print the banner or prompts in interactive mode\n" ++
  "  -h, --help       Print help\n" ++
  "  -V, --version    Print version\n"

/-- A script that could not be read. -/
def unreadable (name : String) (e : FileError) : Exit :=
  ⟨"", "Error: failed to read script '" ++ name ++ "'\n\nCaused by:\n    " ++ e.reason ++ "\n", 1⟩

/-- Runs a script on its own. -/
def runScript (pipe : Bool) (text : String) : Exit :=
  match valueOf text with
  | .ok (some value) => ⟨if pipe then value.text ++ "\n" else "", "", 0⟩
  | .ok none => ⟨"", "", 0⟩
  | .error e => ⟨"", e.message ++ "\n", 1⟩

/-- A dialogue that met a line that is not text, after what it had written. -/
def unreadableInput (written : String) : Exit :=
  ⟨written, "Error: " ++ FileError.notText.reason ++ "\n", 1⟩

/-- Holds a dialogue on the input. -/
def runDialogue (quiet : Bool) (input : List UInt8) : Exit :=
  let t := Dialogue.run quiet Environment.empty input
  if t.readable then ⟨t.output, "", 0⟩ else unreadableInput t.output

/-- What a command line does, given the files there are and the input. -/
def run (arguments : List String) (readFile : String → Except FileError String)
    (input : List UInt8) : Exit :=
  match read arguments with
  | none => ⟨"", usageText, 2⟩
  | some .version => ⟨versionText, "", 0⟩
  | some .help => ⟨usageText, "", 0⟩
  | some (.evaluate o) =>
    match o.script with
    | none => runDialogue o.quiet input
    | some contents =>
      if o.file then
        match readFile contents with
        | .ok text => runScript o.pipe text
        | .error e => unreadable contents e
      else runScript o.pipe contents

end ExactLinear.CommandLine
