import AtomicCss.Compile.Sheet
import AtomicCss.Decimal.Reader
import AtomicCss.Document.Load
import AtomicCss.Merge
import AtomicCss.Text.TopLevel

/-!
# The command line

Compiles a file of definitions, prints its stylesheet, and may merge a list of classes.
-/

namespace AtomicCss.CommandLine

def program : String := "tessera"

def version : String := "0.1.0"

def usage : String :=
  "Tessera " ++ version ++ " - An atomic CSS compiler\n\nUSAGE:\n    " ++ program
    ++ " [OPTIONS] <PATH>\n\nOPTIONS:\n    -h, --help          Print this help message\n"
    ++ "    -V, --version       Print version information\n"
    ++ "    --resolve <REFS>    After compiling, merge a comma-separated list of refs\n"
    ++ "                        (name, name(arg, ...), theme:namespace.name)\n\nEXAMPLES:\n    "
    ++ program ++ " styles.json\n    " ++ program
    ++ " styles.json --resolve \"button, fade(0.5), theme:colors.dark\"\n\n\n"

/-- What a run leaves: its exit code and what it printed. -/
structure Report where
  code : Nat
  out : String
  err : String
  deriving DecidableEq, Repr

/-- What the arguments ask for. -/
inductive Command
  | noArguments
  | help
  | version
  | missingRefs
  | unknownOption (text : String)
  | compile (path : String) (refs : Option String)
  deriving DecidableEq, Repr

def Command.ofArguments : List String → Command
  | [] => .noArguments
  | path :: options =>
    if path = "--help" ∨ path = "-h" then .help
    else if path = "--version" ∨ path = "-V" then .version
    else
      match options with
      | [] => .compile path none
      | option :: rest =>
        if option = "--resolve" then
          match rest with
          | refs :: _ => .compile path (some refs)
          | [] => .missingRefs
        else .unknownOption option

/-- Splits at commas outside parentheses and trims the parts; empty ones stay. -/
def partsFrom (depth : Nat) (current : List Char) : List Char → List (List Char)
  | [] => [Text.trim current]
  | c :: cs =>
    if c = ',' ∧ depth = 0 then Text.trim current :: partsFrom 0 [] cs
    else partsFrom (Text.depthAfter depth c) (current ++ [c]) cs

/-- An argument is a number if it reads as one. -/
def readArgument (text : List Char) : Scalar :=
  match Decimal.read? text with
  | some x => .number x
  | none => .text (String.ofList text)

def themeStart : List Char := "theme:".toList

/-- Reads `name`, `name(argument, ...)` or `theme:namespace.name`. -/
def readRef (text : List Char) : Except StyleError ClassRef :=
  match themeStart.isPrefixOf? text with
  | some theme =>
    match Text.splitOnce? '.' theme with
    | some (space, name) => .ok (.theme (String.ofList space) (String.ofList name))
    | none => .error (.resolve (String.ofList text) .malformedTheme)
  | none =>
    match Text.splitOnce? '(' text with
    | some (name, rest) =>
      match [')'].isSuffixOf? rest with
      | some inner =>
        .ok (.dynamic (String.ofList (Text.trim name)) ((partsFrom 0 [] inner).map readArgument))
      | none => .error (.resolve (String.ofList text) .missingParenthesis)
    | none => .ok (.staticClass (String.ofList text))

/-- Reads a list of references; empty parts are passed over. -/
def readRefs (text : String) : Except StyleError (List ClassRef) :=
  ((partsFrom 0 [] text.toList).filter fun part => !part.isEmpty).mapM readRef

def writeArgument : Scalar → List Char
  | .text text => text.toList
  | .number x => Decimal.plainText x
  | .ref target => target.text.toList

/-- A reference as it is given to the program. A skipped one is an empty part. -/
def writeRef : ClassRef → List Char
  | .staticClass name => name.toList
  | .dynamic name arguments =>
    name.toList ++ '(' :: ([',', ' '].intercalate (arguments.map writeArgument) ++ [')'])
  | .theme space name => themeStart ++ (qualified space name).toList
  | .skipped => []

def writeRefs (refs : List ClassRef) : String :=
  String.ofList ([',', ' '].intercalate (refs.map writeRef))

def failure (out err message : String) : Report :=
  ⟨1, out, err ++ "Error: " ++ message ++ "\n"⟩

/-- Compiles a document and merges references, if any are given. -/
def compileReport (path source : String) (refs : Option String) : Report :=
  match Document.load source path with
  | .error e => failure "" "" e.message
  | .ok (config, sheet) =>
    match sheet.compile config with
    | .error e => failure "" "" e.message
    | .ok styles =>
      let err := String.join (styles.warnings.map fun w => "warning: " ++ w.text ++ "\n")
      let out := styles.css ++ "\n"
      match refs with
      | none => ⟨0, out, err⟩
      | some text =>
        match readRefs text >>= styles.resolve with
        | .error e => failure out err e.message
        | .ok resolved =>
          let style :=
            match resolved.style with
            | some style => "style: " ++ style ++ "\n"
            | none => ""
          ⟨0, out ++ "\nclass: " ++ resolved.classes ++ "\n" ++ style, err⟩

/-- The file that a run reads. -/
def Command.path? : Command → Option String
  | .compile path _ => some path
  | _ => none

/-- Runs a command. `source` is the text of its file, or why it cannot be read. -/
def Command.run (source : Except String String) : Command → Report
  | .noArguments => ⟨1, usage, ""⟩
  | .help => ⟨0, usage, ""⟩
  | .version => ⟨0, "Tessera " ++ CommandLine.version ++ "\n", ""⟩
  | .missingRefs => ⟨1, "", "Usage: " ++ program ++ " <PATH> --resolve <REFS>\n"⟩
  | .unknownOption text => ⟨1, "", "Unknown option: " ++ text ++ "\n"⟩
  | .compile path refs =>
    match source with
    | .error reason => failure "" "" ("Failed to read " ++ path ++ ": " ++ reason)
    | .ok text => compileReport path text refs

end AtomicCss.CommandLine
