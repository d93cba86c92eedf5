import Stylesheet.Diagnostic.Problem
import Stylesheet.Kind.Set
import Stylesheet.Sheet.Cursor
import Stylesheet.Sheet.Draft

/-!
# Productions

A production reads lexemes at a cursor. It never fails: what the text lacks becomes a missing piece
and a report. Productions follow one another, and their reports do too.

What would be a mistake of a production, and not of the text, is recorded as a fault: a piece made
of no lexeme, lexemes read past the end, a step of a loop that reads nothing.

* `Production.many`: the one loop. It goes on while its step answers something, and each step that
  does so reads a lexeme at least; one that read nothing would end it.
* `Production.expect`, `Production.absent`: what is there, or a missing piece for what is not.
-/
namespace Stylesheet

/-- What a production must not do, whatever the text. -/
inductive Fault where
  /-- A piece made of no lexeme. -/
  | emptyPiece
  /-- More lexemes read than are ahead. The final one is never ahead. -/
  | pastEnd
  /-- A step of a loop that read nothing. -/
  | idleStep
  deriving DecidableEq, Repr

/-- What a production made, where it stopped, what it has to say, and what it did wrong. -/
structure Outcome (α : Type) where
  value : α
  rest : Cursor
  reports : List Diagnostic
  faults : List Fault

def Production (α : Type) : Type := Cursor → Outcome α

namespace Production

variable {α β : Type}

instance : Monad Production where
  pure a := fun c => ⟨a, c, [], []⟩
  bind m f := fun c =>
    let first := m c
    let second := f first.value first.rest
    ⟨second.value, second.rest, first.reports ++ second.reports, first.faults ++ second.faults⟩

@[simp] theorem pure_apply (a : α) (c : Cursor) :
    (pure a : Production α) c = ⟨a, c, [], []⟩ := rfl

@[simp] theorem bind_apply (m : Production α) (f : α → Production β) (c : Cursor) :
    (m >>= f) c
      = ⟨(f (m c).value (m c).rest).value, (f (m c).value (m c).rest).rest,
        (m c).reports ++ (f (m c).value (m c).rest).reports,
        (m c).faults ++ (f (m c).value (m c).rest).faults⟩ := rfl

@[simp] theorem map_apply (f : α → β) (m : Production α) (c : Cursor) :
    (f <$> m) c = ⟨f (m c).value, (m c).rest, (m c).reports, (m c).faults⟩ := by
  show ((m >>= fun a => pure (f a)) : Production β) c = _
  simp

/-! ## Looking -/

/-- What can be seen from where the cursor stands; nothing is read. -/
def look (view : Cursor → α) : Production α := fun c => ⟨view c, c, [], []⟩

/-- Whether a condition holds where the cursor stands. -/
def holds (condition : Cursor → Bool) : Production Bool := look condition

/-- Whether the next lexeme is of a kind. Mirrors `at`. -/
def sees (kind : Kind) : Production Bool := holds (·.kind = kind)

/-- Whether the next lexeme's kind is in a set. Mirrors `at_set`. -/
def seesAny (kinds : KindSet) : Production Bool := holds fun c => kinds.contains c.kind

/-! ## Reporting -/

/-- Reports a problem of the next lexeme. Mirrors `error`. -/
def report (p : Problem) : Production Unit := fun c => ⟨(), c, [p.reportAt c.span], []⟩

/-- Reports a problem of what should stand in front of the next lexeme. -/
def reportGap (p : Problem) : Production Unit := fun c => ⟨(), c, [p.reportAt c.gap], []⟩

/-! ## Reading -/

/-- What is wrong with reading `count` lexemes. -/
def pastEnd (count : Nat) (c : Cursor) : List Fault :=
  if count ≤ c.ahead.length then [] else [.pastEnd]

/-- Reads the next `count` lexemes as one piece; a piece of no lexemes is missing. Mirrors
`bump_merged`. -/
def takeRun (kind : Kind) (count : Nat) : Production Draft := fun c =>
  match c.ahead.take count with
  | first :: more => ⟨Tree.token (.run kind first more), c.advance count, [], pastEnd count c⟩
  | [] => ⟨.missing kind, c, [], .emptyPiece :: pastEnd count c⟩

/-- Reads the next lexeme as one of the given kind. Mirrors `bump_as`. -/
def takeAs (kind : Kind) : Production Draft := takeRun kind 1

/-- Reads the next lexeme. Mirrors `bump`. -/
def take : Production Draft := fun c => takeAs c.kind c

/-- Reads the next `count` lexemes, each as a piece of its own. -/
def takeEach (count : Nat) : Production (List Draft) := fun c =>
  ⟨(c.ahead.take count).map fun l => Draft.single l.kind l, c.advance count, [], pastEnd count c⟩

/-- A missing piece for something that the problem says is not there. Mirrors `Parser::missing`. -/
def lacking (kind : Kind) (p : Problem) : Production Draft := do
  reportGap p
  return .missing kind

/-- A missing piece of a kind, and a report of it. -/
def absent (kind : Kind) : Production Draft := lacking kind (.expected kind)

/-- Reads a lexeme of a kind. Mirrors `expect`. -/
def expect (kind : Kind) : Production Draft := do
  if ← sees kind then take else absent kind

/-- Reads a lexeme of a kind if it comes next. Mirrors `eat`. -/
def accept (kind : Kind) : Production (Option Draft) := do
  if ← sees kind then some <$> take else return none

/-- What a production makes, if a condition holds. -/
def optional (condition : Bool) (p : Production α) : Production (Option α) :=
  if condition then some <$> p else pure none

/-! ## Repeating -/

/-- What a step answers again and again, until it answers nothing. -/
def many (step : Production (Option α)) (c : Cursor) : Outcome (List α) :=
  let first := step c
  match first.value with
  | none => ⟨[], first.rest, first.reports, first.faults⟩
  | some a =>
    if first.rest.ahead.length < c.ahead.length then
      let tail := many step first.rest
      ⟨a :: tail.value, tail.rest, first.reports ++ tail.reports, first.faults ++ tail.faults⟩
    else ⟨[a], first.rest, first.reports, first.faults ++ [.idleStep]⟩
termination_by c.ahead.length

end Production

end Stylesheet
