import Stylesheet.Text.Span

/-!
# Diagnostics

A diagnostic is a remark on a span of a style sheet. Its code identifies it whatever the wording.

* `Diagnostic.display`: the one-line form, `severity[code] start..stop: message`.
* `Diagnostic.sorted`: by where they start; those that start together keep their order.
-/
namespace Stylesheet

/-- Mirrors `Severity`. -/
inductive Severity where
  | error
  | warning
  deriving DecidableEq, Repr

namespace Severity

def name : Severity → String
  | .error => "error"
  | .warning => "warning"

end Severity

/-- What a diagnostic is about. Mirrors `DiagnosticCode`. -/
inductive Code where
  | unknownCharacter
  | unterminatedString
  | unterminatedComment
  | missingToken
  | unexpectedToken
  | unknownLoopBehavior
  deriving DecidableEq, Repr

namespace Code

/-- Mirrors `DiagnosticCode::key`. -/
def key : Code → String
  | .unknownCharacter => "unknown-character"
  | .unterminatedString => "unterminated-string"
  | .unterminatedComment => "unterminated-comment"
  | .missingToken => "missing-token"
  | .unexpectedToken => "unexpected-token"
  | .unknownLoopBehavior => "unknown-loop-behavior"

end Code

/-- Mirrors `Diagnostic`. -/
structure Diagnostic where
  severity : Severity
  code : Code
  message : String
  span : Span
  deriving DecidableEq, Repr

namespace Diagnostic

/-- Mirrors `Diagnostic::is_error`. -/
def isError (d : Diagnostic) : Bool := d.severity = .error

/-- Severity, code and message, as a rendering's first line has them: the span is shown below. An
empty message leaves no colon. -/
def heading (d : Diagnostic) : String :=
  let about := s!"{d.severity.name}[{d.code.key}]"
  if d.message.isEmpty then about else s!"{about}: {d.message}"

/-- Mirrors `Diagnostic::fmt`. -/
def display (d : Diagnostic) : String :=
  s!"{d.severity.name}[{d.code.key}] {d.span.display}: {d.message}"

/-- The diagnostic so many bytes further on. -/
def shift (d : Diagnostic) (bytes : Nat) : Diagnostic := { d with span := d.span.shift bytes }

/-- Mirrors `Diagnostics::errors`. -/
def errors (ds : List Diagnostic) : List Diagnostic := ds.filter isError

/-- Mirrors `Diagnostics::warnings`. -/
def warnings (ds : List Diagnostic) : List Diagnostic := ds.filter (!·.isError)

/-- Mirrors `Diagnostics::has_errors`. -/
def hasErrors (ds : List Diagnostic) : Bool := ds.any isError

/-- Mirrors `Diagnostics::sort`. -/
def sorted (ds : List Diagnostic) : List Diagnostic :=
  ds.mergeSort fun a b => a.span.start ≤ b.span.start

theorem sorted_perm (ds : List Diagnostic) : (sorted ds).Perm ds := List.mergeSort_perm ds _

end Diagnostic

end Stylesheet
