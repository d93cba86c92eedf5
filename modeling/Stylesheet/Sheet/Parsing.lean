import Stylesheet.Sheet.Production

/-!
# Reading, whatever is made of it

The productions of the grammar look at lexemes, take them, and make tokens and nodes of them. What
a token or a node is they leave open, so the same productions make drafts and make the elements of
a builder.

* `Parsing`: what a production can do.
* The productions of drafts are one case of it; `Parser` is the other one.
-/
namespace Stylesheet

/-- What productions can do that make elements of type `ε`. -/
class Parsing (m : Type → Type) (ε : outParam Type) extends Monad m where
  /-- What can be seen from where the cursor stands. -/
  look {α : Type} (view : Cursor → α) : m α
  /-- Reports a problem of the next lexeme. Mirrors `error` and `warning`. -/
  report (p : Problem) : m Unit
  /-- Reports a problem of what should stand in front of the next lexeme. -/
  reportGap (p : Problem) : m Unit
  /-- Takes the next lexeme as a token of a kind. Mirrors `bump_as`. -/
  takeAs (kind : Kind) : m ε
  /-- Takes lexemes as one token of a kind. Mirrors `bump_merged`. -/
  takeRun (kind : Kind) (count : Nat) : m ε
  /-- Takes the final lexeme. -/
  takeFinal : m ε
  /-- Makes a token that the text lacks. Mirrors `missing_silent`. -/
  missing (kind : Kind) : m ε
  /-- Makes a node. Mirrors `Parser::node`. -/
  node (kind : Kind) (slots : List (Option ε)) : m ε
  /-- What a step answers again and again, until it answers nothing. -/
  many {α : Type} (step : m (Option α)) : m (List α)
  holds (condition : Cursor → Bool) : m Bool := look condition
  /-- Mirrors `at`. -/
  sees (kind : Kind) : m Bool := holds fun c => c.kind = kind
  /-- Mirrors `at_set`. -/
  seesAny (kinds : KindSet) : m Bool := holds fun c => kinds.contains c.kind
  /-- Takes the next lexeme. Mirrors `bump`. -/
  take : m ε := do
    takeAs (← look Cursor.kind)
  /-- Takes lexemes, each as a token of its own. -/
  takeEach (count : Nat) : m (List ε) := (List.range count).mapM fun _ => take
  /-- Makes a token that the text lacks, and reports it. Mirrors `Parser::missing`. -/
  lacking (kind : Kind) (p : Problem) : m ε := do
    reportGap p
    missing kind
  absent (kind : Kind) : m ε := lacking kind (.expected kind)
  /-- Mirrors `expect`. -/
  expect (kind : Kind) : m ε := do
    if ← sees kind then take else absent kind
  /-- Mirrors `eat`. -/
  accept (kind : Kind) : m (Option ε) := do
    if ← sees kind then some <$> take else return none
  /-- What is made where a condition holds. -/
  optional {α : Type} (condition : Bool) (p : m α) : m (Option α) :=
    if condition then some <$> p else pure none
  /-- Makes a list, unless it is empty. Mirrors `ListMarker::complete`. -/
  list (items : List ε) : m (Option ε) :=
    if items.isEmpty then pure none else some <$> node .list (items.map some)

namespace Production

variable {α : Type}

/-- Reads the final lexeme, which is behind all others. -/
def takeFinal : Production Draft := fun c => ⟨Draft.single .eof c.final, c, [], []⟩

instance : Parsing Production Draft where
  look := look
  report := report
  reportGap := reportGap
  takeAs := takeAs
  takeRun := takeRun
  takeFinal := takeFinal
  missing kind := pure (.missing kind)
  node kind slots := pure (.composite kind slots)
  many step := many step
  holds := holds
  sees := sees
  seesAny := seesAny
  take := take
  takeEach := takeEach
  lacking := lacking
  absent := absent
  expect := expect
  accept := accept
  optional := optional
  list items := pure (Draft.list items)

/-! ## What making drafts comes to -/

@[simp] theorem look_eq (view : Cursor → α) : (Parsing.look view : Production α) = look view := rfl

@[simp] theorem holds_eq (condition : Cursor → Bool) :
    (Parsing.holds condition : Production Bool) = holds condition := rfl

@[simp] theorem sees_eq (kind : Kind) : (Parsing.sees kind : Production Bool) = sees kind := rfl

@[simp] theorem seesAny_eq (kinds : KindSet) :
    (Parsing.seesAny kinds : Production Bool) = seesAny kinds := rfl

@[simp] theorem report_eq (p : Problem) : (Parsing.report p : Production Unit) = report p := rfl

@[simp] theorem reportGap_eq (p : Problem) :
    (Parsing.reportGap p : Production Unit) = reportGap p := rfl

@[simp] theorem take_eq : (Parsing.take : Production Draft) = take := rfl

@[simp] theorem takeAs_eq (kind : Kind) :
    (Parsing.takeAs kind : Production Draft) = takeAs kind := rfl

@[simp] theorem takeRun_eq (kind : Kind) (count : Nat) :
    (Parsing.takeRun kind count : Production Draft) = takeRun kind count := rfl

@[simp] theorem takeEach_eq (count : Nat) :
    (Parsing.takeEach count : Production (List Draft)) = takeEach count := rfl

@[simp] theorem takeFinal_eq : (Parsing.takeFinal : Production Draft) = takeFinal := rfl

@[simp] theorem missing_eq (kind : Kind) :
    (Parsing.missing kind : Production Draft) = pure (.missing kind) := rfl

@[simp] theorem lacking_eq (kind : Kind) (p : Problem) :
    (Parsing.lacking kind p : Production Draft) = lacking kind p := rfl

@[simp] theorem absent_eq (kind : Kind) :
    (Parsing.absent kind : Production Draft) = absent kind := rfl

@[simp] theorem expect_eq (kind : Kind) :
    (Parsing.expect kind : Production Draft) = expect kind := rfl

@[simp] theorem accept_eq (kind : Kind) :
    (Parsing.accept kind : Production (Option Draft)) = accept kind := rfl

@[simp] theorem optional_eq (condition : Bool) (p : Production α) :
    (Parsing.optional condition p : Production (Option α)) = optional condition p := rfl

@[simp] theorem node_eq (kind : Kind) (slots : List (Option Draft)) :
    (Parsing.node kind slots : Production Draft) = pure (.composite kind slots) := rfl

@[simp] theorem list_eq (items : List Draft) :
    (Parsing.list items : Production (Option Draft)) = pure (Draft.list items) := rfl

@[simp] theorem many_eq (step : Production (Option α)) :
    (Parsing.many step : Production (List α)) = many step := rfl

end Production

end Stylesheet
