import Stylesheet.Kind.Set
import Stylesheet.Lexeme.Basic

/-!
# Runs of lexemes

Three runs are taken without a look at what their lexemes mean; here is where each of them ends.

* A plain value ends at a semicolon, a closing brace or the end of the text, and further where its
  context says so.
* What stands between braces ends at the brace that closes them.
* What fits nowhere ends before something that starts an item, before a closing brace, or with a
  semicolon. A group in braces inside it is taken whole.
-/
namespace Stylesheet.Run

/-- Where a plain value stands. Mirrors `ValueContext`. -/
inductive Context where
  /-- In a rule or a transition: a qualifier ends it too. -/
  | declaration
  /-- In the evaluation of a property: so does a comma, an opening brace, and what reads as the
  next evaluation when its comma was forgotten. -/
  | evaluation
  | action
  deriving DecidableEq, Repr

/-- Whether what follows a name makes it the start of an evaluation: a comparison, or a period with
a comparison two places on. -/
def comparesNext (rest : List Lexeme) : Bool :=
  (Lexeme.kindAt rest 0).isComparison
    || (Lexeme.kindAt rest 0 = .period && (Lexeme.kindAt rest 2).isComparison)

/-- Whether a lexeme of a kind, the `rest` behind it, ends a plain value. Mirrors `ends_at`. -/
def endsValue (context : Context) (first : Bool) (kind : Kind) (rest : List Lexeme) : Bool :=
  match kind with
  | .eof | .semicolon | .rightBrace => true
  | .importantKeyword => context ≠ .action
  | .exclamationMark => context ≠ .action && Lexeme.kindAt rest 0 = .importantKeyword
  | .comma | .leftBrace => context = .evaluation
  | _ => context = .evaluation && !first && kind.isName && comparesNext rest

/-- The number of lexemes of a plain value, of which the next lexeme is the `first` or not. Mirrors
`value`. -/
def valueLength (context : Context) (first : Bool) : List Lexeme → Nat
  | [] => 0
  | l :: rest =>
    if endsValue context first l.kind rest then 0 else valueLength context false rest + 1

/-- The number of lexemes before the brace that closes `depth` open groups and the one around them.
Mirrors `value_with_braces`. -/
def bracedLength : Nat → List Lexeme → Nat
  | _, [] => 0
  | depth, l :: rest =>
    match l.kind, depth with
    | .rightBrace, 0 => 0
    | .rightBrace, depth + 1 => bracedLength depth rest + 1
    | .leftBrace, depth => bracedLength (depth + 1) rest + 1
    | _, depth => bracedLength depth rest + 1

/-- The number of lexemes that fit nowhere, `depth` groups being open. The `first` one is taken
whatever it is. Mirrors `error_until` and `skip_group`. -/
def unexpectedLength (starts : KindSet) (first : Bool) : Nat → List Lexeme → Nat
  | _, [] => 0
  | depth + 1, l :: rest =>
    match l.kind with
    | .leftBrace => unexpectedLength starts false (depth + 2) rest + 1
    | .rightBrace => unexpectedLength starts false depth rest + 1
    | _ => unexpectedLength starts false (depth + 1) rest + 1
  | 0, l :: rest =>
    if !first && (l.kind = .rightBrace || starts.contains l.kind) then 0
    else
      match l.kind with
      | .leftBrace => unexpectedLength starts false 1 rest + 1
      | .semicolon => 1
      | _ => unexpectedLength starts false 0 rest + 1

end Stylesheet.Run
