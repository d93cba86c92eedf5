import Stylesheet.Diagnostic.Basic
import Stylesheet.Kind.Basic
import Stylesheet.Text.Quoted

/-!
# Problems of a style sheet

What can be wrong with a style sheet, and how it is reported: each problem has a code, a severity
and a wording. An unknown loop behavior is a warning, everything else an error.
-/
namespace Stylesheet

/-- What a greedy list holds, where a comma announces one more. -/
inductive Listed where
  | selector
  | transitionArgument
  | evaluation
  | eventArgument
  deriving DecidableEq, Repr

def Listed.name : Listed → String
  | .selector => "selector"
  | .transitionArgument => "transition argument"
  | .evaluation => "property evaluation"
  | .eventArgument => "event trigger argument"

inductive Problem where
  | unknownCharacter (c : Char)
  | unterminatedString
  | unterminatedComment
  /-- A token of this kind should stand here. -/
  | expected (kind : Kind)
  | expectedSelector
  | expectedEvaluation
  | expectedComparison
  /-- Tokens that fit nowhere start with one of this kind. -/
  | unexpected (kind : Kind)
  /-- A list ends with a comma. -/
  | nothingAfterComma (listed : Listed)
  | misplacedTrigger
  | unknownEventArgument (text : Text)
  | unknownLoopBehavior (text : Text)
  deriving DecidableEq, Repr

namespace Problem

def code : Problem → Code
  | .unknownCharacter _ => .unknownCharacter
  | .unterminatedString => .unterminatedString
  | .unterminatedComment => .unterminatedComment
  | .expected _ | .expectedSelector | .expectedEvaluation | .expectedComparison => .missingToken
  | .unexpected _ | .nothingAfterComma _ | .misplacedTrigger | .unknownEventArgument _ =>
    .unexpectedToken
  | .unknownLoopBehavior _ => .unknownLoopBehavior

def severity : Problem → Severity
  | .unknownLoopBehavior _ => .warning
  | _ => .error

def message : Problem → String
  | .unknownCharacter c => s!"unknown character {Quoted.character c}"
  | .unterminatedString => "unterminated string"
  | .unterminatedComment => "unterminated multi-line comment"
  | .expected kind => s!"expected {kind.describe}"
  | .expectedSelector => "expected selector"
  | .expectedEvaluation => "expected property evaluation"
  | .expectedComparison => "expected comparison operator"
  | .unexpected kind => s!"unexpected {kind.describe}"
  | .nothingAfterComma listed => s!"expected {listed.name} after ','"
  | .misplacedTrigger => "triggers must appear inside a rule set"
  | .unknownEventArgument text =>
    s!"unexpected event trigger argument '{String.ofList text}', "
      ++ "expected 'handled' or 'set-handled'"
  | .unknownLoopBehavior text =>
    s!"unknown loop behavior '{String.ofList text}', expected 'none', 'loop' or 'reverse'"

/-- The report of a problem found at a span. -/
def reportAt (p : Problem) (span : Span) : Diagnostic := ⟨p.severity, p.code, p.message, span⟩

end Problem

end Stylesheet
