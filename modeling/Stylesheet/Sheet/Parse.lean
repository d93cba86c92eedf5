import Stylesheet.Lexeme.Scan
import Stylesheet.Sheet.Drafting
import Stylesheet.Tree.Place

/-!
# Reading a style sheet

`parse` always gives a tree that spans the text, together with what is wrong with the text, in the
order of where it starts: at one offset the reports on lexemes come first, then those on structure,
each in the order they were made.
-/
namespace Stylesheet

/-- A style sheet that was read. -/
structure Parse where
  tree : SyntaxTree
  /-- What is wrong with it, by where it starts. -/
  diagnostics : List Diagnostic

namespace Cursor

/-- The cursor in front of all lexemes of a text. -/
def ofLexemes (ls : Lexemes) : Cursor := ⟨0, none, ls.body, ls.final⟩

end Cursor

/-- The draft of a whole text: its slots, and the reports on its structure. -/
def draftOf (ls : Lexemes) : Outcome (List (Option Draft)) :=
  Production.document (Cursor.ofLexemes ls)

def parse (text : Text) : Parse :=
  let lexemes := Lexemes.scan text
  let draft := draftOf lexemes
  let slots := (Slots.ofList draft.value).map id Piece.token
  ⟨⟨text, .document, slots⟩, Diagnostic.sorted (lexemes.reports ++ draft.reports)⟩

end Stylesheet
