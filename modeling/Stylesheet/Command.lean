import Stylesheet.Classification
import Stylesheet.Diagnostic.Snippet
import Stylesheet.Sheet.Parser
import Stylesheet.Tree.Listing

/-!
# The command line

* `check PATH… [--deny-warnings]` shows what is wrong with style sheets, and counts it. It succeeds
  if there are no errors, and with `--deny-warnings` no warnings either.
* `classify PATH` lists the classified spans of a style sheet, lines and columns counted from one.
* `tree PATH` lists its tree, then what is wrong with it.
* `--version` names the program.

`--color` may stand anywhere; what is printed is plain. A file that cannot be read ends the program
at once, with what was printed up to there, and so does one that is too large to be parsed.
-/
namespace Stylesheet

/-- What the program is asked to do. -/
inductive Command where
  | check (paths : List String) (denyWarnings : Bool)
  | classify (path : String)
  | tree (path : String)
  | version
  deriving DecidableEq, Repr

inductive UsageError where
  | noCommand
  | noPath
  | noColor
  | unexpectedArgument (argument : String)
  deriving DecidableEq, Repr

def UsageError.message : UsageError → String
  | .noCommand => "error: no command given"
  | .noPath => "error: no path given"
  | .noColor => "error: --color is auto, always or never"
  | .unexpectedArgument argument => s!"error: unexpected argument '{argument}'"

/-! ## Arguments -/

namespace Command

def colors : List String := ["auto", "always", "never"]

/-- Whether an argument asks for more logging, `-v` any number of times. -/
def asksLogging (argument : String) : Bool :=
  argument = "--verbose" || match argument.toList with
    | '-' :: 'v' :: letters => letters.all (· = 'v')
    | _ => false

/-- Whether an argument asks for the program's version; letters behind `-V` are not looked at. -/
def asksVersion (argument : String) : Bool :=
  argument = "--version" || match argument.toList with
    | '-' :: letters => (letters.dropWhile (· = 'v')).head? = some 'V'
    | _ => false

/-- The arguments without the options that are allowed everywhere: without any of them, or only
without those in front. Behind `--` there are none. -/
def dropGlobal (everywhere : Bool) : List String → Except UsageError (List String)
  | [] => .ok []
  | "--" :: rest => .ok ("--" :: rest)
  | "--color" :: [] => .error .noColor
  | "--color" :: color :: rest =>
    if colors.contains color then dropGlobal everywhere rest else .error .noColor
  | argument :: rest =>
    if (colors.map ("--color=" ++ ·)).contains argument || asksLogging argument then
      dropGlobal everywhere rest
    else if everywhere then (dropGlobal everywhere rest).map (argument :: ·)
    else .ok (argument :: rest)

/-- Paths, and whether warnings are denied among them. -/
def pathsOf : List String → Except UsageError (List String × Bool)
  | [] => .ok ([], false)
  | "--" :: rest => .ok (rest, false)
  | "--deny-warnings" :: rest => (pathsOf rest).map fun (paths, _) => (paths, true)
  | argument :: rest =>
    if argument.startsWith "-" && argument ≠ "-" then .error (.unexpectedArgument argument)
    else (pathsOf rest).map fun (paths, deny) => (argument :: paths, deny)

/-- The only path among some arguments. -/
def pathOf (arguments : List String) : Except UsageError String := do
  match ← pathsOf arguments with
  | (_, true) => throw (.unexpectedArgument "--deny-warnings")
  | ([], false) => throw .noPath
  | ([path], false) => return path
  | (_ :: second :: _, false) => throw (.unexpectedArgument second)

/-- The command that arguments ask for. A request for the version is met at once, whatever comes
behind it. -/
def ofArguments (arguments : List String) : Except UsageError Command := do
  match ← dropGlobal false arguments with
  | [] => throw .noCommand
  | "check" :: rest =>
    match ← pathsOf (← dropGlobal true rest) with
    | ([], _) => throw .noPath
    | (paths, deny) => return .check paths deny
  | "classify" :: rest => return .classify (← pathOf (← dropGlobal true rest))
  | "tree" :: rest => return .tree (← pathOf (← dropGlobal true rest))
  | argument :: _ =>
    if asksVersion argument then return .version else throw (.unexpectedArgument argument)

/-- The files that a command reads. -/
def paths : Command → List String
  | .check paths _ => paths
  | .classify path | .tree path => [path]
  | .version => []

end Command

/-! ## Files -/

/-- What is found under a path. -/
inductive Source where
  | absent
  | directory
  /-- The path goes on behind a file. -/
  | behindFile
  | file (bytes : ByteArray)
  /-- Something that cannot be read for another reason. -/
  | unreadable (cause : String)

/-- The text of a file, or why there is none. Mirrors `SourceFile::load`. -/
def Source.text : Source → Except String Text
  | .absent => .error "No such file or directory (os error 2)"
  | .directory => .error "Is a directory (os error 21)"
  | .behindFile => .error "Not a directory (os error 20)"
  | .unreadable cause => .error cause
  | .file bytes =>
    match String.fromUTF8? bytes with
    | some text => .ok text.toList
    | none => .error "stream did not contain valid UTF-8"

/-! ## Running -/

/-- What a run of the program leaves. -/
structure Output where
  code : Nat
  stdout : String
  stderr : String
  deriving DecidableEq, Repr

namespace Command

/-- The lines, each with its ending. -/
def unlines (lines : List String) : String := String.join (lines.map (· ++ "\n"))

/-- The end of a run that could not read a file. -/
def unreadable (path cause printed : String) : Output :=
  let reason := [s!"Error: failed to read `{path}`", "", "Caused by:", "    " ++ cause]
  ⟨1, "", printed ++ unlines reason⟩

/-- The end of a run that a panic ended. -/
def aborted (panic : Panic) (printed : String) : Output :=
  ⟨101, "", printed ++ unlines [panic.message]⟩

/-- Shows what is wrong with files, one after the other. What was shown before, and the errors and
warnings in it, are given. Mirrors `check`. -/
def checkFrom (source : String → Source) (deny : Bool) (printed : String) (errors warnings : Nat) :
    List String → Output
  | [] =>
    let clean := errors = 0 && (!deny || warnings = 0)
    let summary :=
      if errors + warnings = 0 then [] else [s!"{errors} error(s), {warnings} warning(s)"]
    ⟨if clean then 0 else 1, "", printed ++ unlines summary⟩
  | path :: rest =>
    match (source path).text with
    | .error cause => unreadable path cause printed
    | .ok text =>
      match Parser.parse text with
      | .error panic => aborted panic printed
      | .ok read =>
        let found := read.diagnostics
        let shown := unlines (found.map fun d => d.render path text)
        checkFrom source deny (printed ++ shown) (errors + (Diagnostic.errors found).length)
          (warnings + (Diagnostic.warnings found).length) rest

/-- A place as people count: from one. -/
def displayPlace (place : LineColumn) : String := s!"{place.line + 1}:{place.column + 1}"

/-- A classified span in one line. The spans of a style sheet that was read fall between characters;
of one that does not, the offsets are given. -/
def displaySpan (tree : SyntaxTree) (s : ClassifiedSpan) : String :=
  let place :=
    match Text.lineSpan? tree.text s.span with
    | some (start, stop) => s!"{displayPlace start}-{displayPlace stop}"
    | none => s.span.display
  s!"{place} {s.role.name} {tree.quoted s.span}"

/-- What a command prints, given what is found under each path. Mirrors `main`. -/
def run (source : String → Source) : Command → Output
  | .version => ⟨0, unlines ["uvss 0.1.0"], ""⟩
  | .check paths deny => checkFrom source deny "" 0 0 paths
  | .classify path =>
    match (source path).text with
    | .error cause => unreadable path cause ""
    | .ok text =>
      match Parser.parse text with
      | .error panic => aborted panic ""
      | .ok read =>
        let tree := read.tree.tree
        ⟨0, unlines ((Stylesheet.classify tree.root).map (displaySpan tree)), ""⟩
  | .tree path =>
    match (source path).text with
    | .error cause => unreadable path cause ""
    | .ok text =>
      match Parser.parse text with
      | .error panic => aborted panic ""
      | .ok read =>
        let tree := read.tree.tree
        ⟨0, unlines (tree.listing tree.root ++ read.diagnostics.map (·.display)), ""⟩

/-- What the program prints for its arguments. -/
def execute (source : String → Source) (arguments : List String) : Output :=
  match ofArguments arguments with
  | .ok command => run source command
  | .error e => ⟨2, "", unlines [e.message]⟩

end Command

end Stylesheet
