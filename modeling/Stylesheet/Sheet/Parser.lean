import Stylesheet.Sheet.Parse
import Stylesheet.Tree.Arena

/-!
# Parsers

A parser reads a style sheet and makes the tree on the way: each production asks a builder for the
elements it makes and hands their numbers on. Nothing is repaired here. A lexeme that is not there,
a call that the builder refuses, a number with more than 32 bits: each of them ends the parse.

* `Parser`: the productions of the grammar, on a builder.
* `Parser.parse`: reads a text, from the check of its length to the finished tree.
-/
namespace Stylesheet

/-- What ends a parse. -/
inductive Panic where
  | build (error : BuildError)
  /-- A lexeme was asked for behind the final one. -/
  | pastEnd
  /-- A run was asked for of no lexeme, or of more than there are. -/
  | badRun
  /-- A step of a loop took no lexeme: the loop would go on for ever. -/
  | idle
  deriving DecidableEq, Repr

namespace Panic

def message : Panic → String
  | .build error => error.message
  | .pastEnd => "cannot advance past the end of input"
  | .badRun => "assertion failed: count > 0 && self.pos + count <= self.tokens.len()"
  | .idle => "the parse does not end"

end Panic

/-- How far a parser is. Mirrors `Parser`. -/
structure ParserState where
  cursor : Cursor
  /-- The final lexeme was taken too. It is still the one that is seen. -/
  ended : Bool
  builder : Builder
  diagnostics : List Diagnostic

namespace ParserState

/-- The lexemes that are left to be taken. -/
def coming (s : ParserState) : List Lexeme :=
  if s.ended then [] else s.cursor.ahead ++ [s.cursor.final]

/-- The state behind the next `count` lexemes. -/
def pass (s : ParserState) (count : Nat) : ParserState :=
  let behind := (s.coming.take count).getLast?.or s.cursor.behind
  { s with
    cursor := { s.cursor.advance count with behind := behind }
    ended := s.ended || s.cursor.ahead.length < count }

end ParserState

/-- Steps of a parser. -/
abbrev Parser : Type → Type := StateT ParserState (Except Panic)

namespace Parser

/-- Has the builder make an element. -/
def make (call : Builder → Except BuildError (ElementId × Builder)) : Parser ElementId := fun s =>
  match call s.builder with
  | .ok (id, b) => .ok (id, { s with builder := b })
  | .error error => .error (.build error)

/-- Makes one token of lexemes. It owns the trivia in front of the first one and behind the last. -/
def token (kind : Kind) (first : Lexeme) (more : List Lexeme) : Parser ElementId :=
  make fun b => b.token (first.leading.map Gap.trivia) kind
    (Text.width (Piece.joinedText first more)) ((Piece.lastOf first more).trailing.map Gap.trivia)

/-- Takes the next lexeme as a token of a kind. Mirrors `bump_as`. -/
def takeAs (kind : Kind) : Parser ElementId := fun s =>
  match s.coming with
  | [] => .error .pastEnd
  | l :: _ => token kind l [] (s.pass 1)

/-- Takes lexemes as one token of a kind. Mirrors `bump_merged`. -/
def takeRun (kind : Kind) (count : Nat) : Parser ElementId := fun s =>
  match s.coming.take count with
  | [] => .error .badRun
  | first :: more =>
    if count ≤ s.coming.length then token kind first more (s.pass count) else .error .badRun

/-- Notes what is wrong. -/
def diagnose (of : Cursor → Diagnostic) : Parser Unit := fun s =>
  .ok ((), { s with diagnostics := s.diagnostics ++ [of s.cursor] })

/-- A loop that goes on while its step answers something. -/
def many {α : Type} (step : Parser (Option α)) (s : ParserState) :
    Except Panic (List α × ParserState) :=
  match step s with
  | .error panic => .error panic
  | .ok (none, behind) => .ok ([], behind)
  | .ok (some a, behind) =>
    if behind.coming.length < s.coming.length then
      match many step behind with
      | .error panic => .error panic
      | .ok (more, last) => .ok (a :: more, last)
    else .error .idle
termination_by s.coming.length

instance : Parsing Parser ElementId where
  look view := fun s => .ok (view s.cursor, s)
  report p := diagnose fun c => p.reportAt c.span
  reportGap p := diagnose fun c => p.reportAt c.gap
  takeAs := takeAs
  takeRun := takeRun
  takeFinal := fun s => takeAs s.cursor.kind s
  missing kind := make (·.missing kind)
  node kind slots := make (·.node kind slots)
  many := many

/-- Mirrors `Parser::new`. -/
def start (lexemes : Lexemes) : ParserState :=
  ⟨Cursor.ofLexemes lexemes, false, Builder.empty, lexemes.reports⟩

/-- A tree, and what is wrong with its text. Mirrors `Parse`. -/
structure Result where
  tree : Arena
  diagnostics : List Diagnostic

/-- What a step of a builder comes to in a parse. -/
def ofBuild {α : Type} : Except BuildError α → Except Panic α := Except.mapError .build

/-- Reads a text. The length of the text is looked at first: nothing that is read is longer. Mirrors
`parse`. -/
def parse (text : Text) : Except Panic Result := do
  let _ ← ofBuild (fitting (Text.width text) .textTooLong)
  let (slots, s) ← (Parsing.document : Parser (List (Option ElementId))) (start (Lexemes.scan text))
  let (root, s) ← make (·.node .document slots) s
  let .node number := root | throw (.build (.noSuchElement root))
  let tree ← ofBuild (s.builder.finish text number)
  return ⟨tree, Diagnostic.sorted s.diagnostics⟩

end Parser

end Stylesheet
