import Mathlib.Computability.Language
import Stylesheet.Sheet.Cursor
import Stylesheet.Sheet.Run

/-!
# The grammar of style sheets

The grammar is about signs: the kinds of lexemes, and of each whether it touches the one before it.
A name is an identifier or any keyword.

    document   = (rule set | storyboard)*
    rule set   = selector path? (, selector path?)* { (rule | transition | trigger)* }
    path       = | property ([ number ])? as name
    property   = name | name . name
    rule       = property : value qualifier? ;
    transition = transition ( (name (, name)*)? ) : value qualifier? ;
    trigger    = trigger property evaluation (, evaluation)* qualifier? { action* }
               | trigger event property (( (argument (, argument)*)? ))? qualifier? { action* }
    storyboard = @ name name? { target* }
    target     = target name? (( selector ))? { animation* }
    animation  = animation property path? { keyframe* }
    keyframe   = keyframe number name? { value }

What is not regular about it is stated where it matters: which lexemes must touch, what a value may
hold, and what must not be taken for something else.

Results:
* `Grammar.selector`, `Grammar.plainValue`, `Grammar.bracedValue`: what is particular to them.
* `Grammar.document`: the language of whole style sheets.
-/
namespace Stylesheet

/-- A lexeme as the grammar sees it. -/
structure Sign where
  kind : Kind
  /-- No trivia stands between it and the lexeme before it. -/
  touching : Bool
  deriving DecidableEq, Repr

/-- The signs of lexemes, the first of which follows `behind`. -/
def Lexeme.signs (behind : Option Lexeme) : List Lexeme → List Sign
  | [] => []
  | l :: ls => ⟨l.kind, (behind.map (·.touches l)).getD false⟩ :: signs (some l) ls

namespace Grammar

open scoped Computability

/-- One sign that has a property. -/
def sign (P : Sign → Prop) : Language Sign := {ss | ∃ s, P s ∧ ss = [s]}

def one (kind : Kind) : Language Sign := sign (·.kind = kind)

def oneOf (kinds : List Kind) : Language Sign := sign (·.kind ∈ kinds)

def name : Language Sign := sign (·.kind.isName)

def maybe (L : Language Sign) : Language Sign := 1 + L

/-- What starts with a sign that has a property. -/
def starting (P : Sign → Prop) (L : Language Sign) : Language Sign :=
  {ss | ss ∈ L ∧ ∃ s rest, ss = s :: rest ∧ P s}

/-- What touches the lexeme before it. -/
def touching (L : Language Sign) : Language Sign := starting (·.touching) L

/-- Items with commas between them, one item at least. -/
def list (item : Language Sign) : Language Sign := item * (one .comma * item)∗

def braces (content : Language Sign) : Language Sign := one .leftBrace * content * one .rightBrace

def parentheses (content : Language Sign) : Language Sign :=
  one .leftParen * content * one .rightParen

def qualifiedName : Language Sign := name + name * one .period * name

/-! ## Selectors -/

def subPart : Language Sign :=
  (name + one .asterisk + oneOf [.period, .hash] * touching name)
      * maybe (touching (one .exclamationMark))
    + one .colon * touching name

/-- A sign that goes on with a part, and starts no new one. -/
def GoesOn (s : Sign) : Prop := s.touching ∧ s.kind ∈ [Kind.period, .hash, .colon]

def part : Language Sign := subPart * (starting GoesOn subPart)∗

def combinator : Language Sign := sign (·.kind.isCombinator)

/-- Parts and combinators, one at least. A part that follows a part is one of its own: it does not
start with a sign that goes on with the part before it. -/
def selector : Language Sign :=
  {ss | ∃ components : List (List Sign), components ≠ [] ∧
    (∀ x ∈ components, x ∈ part + combinator) ∧
    components.IsChain (fun a b => a ∈ part → b ∉ starting GoesOn part) ∧
    ss = components.flatten}

/-- A sign that a part can start with. -/
def StartsPart (s : Sign) : Prop :=
  s.kind.isName ∨ s.kind ∈ [Kind.asterisk, .period, .hash, .colon]

def parenthesizedSelector : Language Sign := parentheses selector

def indexer : Language Sign := one .leftBracket * one .number * one .rightBracket

def navigation : Language Sign :=
  one .pipe * qualifiedName * maybe indexer * one .asKeyword * name

/-- A selector of a rule set starts with a part. -/
def navigatedSelector : Language Sign := starting StartsPart selector * maybe navigation

/-! ## Values -/

/-- Kinds of lexemes among which each opening brace has a closing one. -/
inductive Balanced : List Kind → Prop
  | nil : Balanced []
  | other {k : Kind} {ks : List Kind} (hl : k ≠ .leftBrace) (hr : k ≠ .rightBrace)
      (h : Balanced ks) : Balanced (k :: ks)
  | group {inner rest : List Kind} (hi : Balanced inner) (hr : Balanced rest) :
      Balanced (.leftBrace :: inner ++ .rightBrace :: rest)

def balanced : Language Sign := {ss | ss ≠ [] ∧ Balanced (ss.map Sign.kind)}

def bracedValue : Language Sign := braces balanced

/-- What no plain value holds. -/
def stops : Run.Context → List Kind
  | .declaration => [.eof, .semicolon, .rightBrace, .importantKeyword]
  | .evaluation => [.eof, .semicolon, .rightBrace, .importantKeyword, .comma, .leftBrace]
  | .action => [.eof, .semicolon, .rightBrace]

/-- What follows makes a name in front of it the start of an evaluation. -/
def Compares (ks : List Kind) : Prop :=
  (∃ k rest, ks = k :: rest ∧ k.isComparison)
    ∨ ∃ x k rest, ks = .period :: x :: k :: rest ∧ k.isComparison

/-- The kinds of a plain value. In an evaluation only its first lexeme may read like the start of
another one. -/
structure IsPlain (context : Run.Context) (ks : List Kind) : Prop where
  starts : ∃ k rest, ks = k :: rest ∧ k ≠ .leftBrace
  goesOn : ∀ k ∈ ks, k ∉ stops context
  compares : context = .evaluation →
    ∀ before k after, ks = before ++ k :: after → before ≠ [] → k.isName → ¬Compares after

def plainValue (context : Run.Context) : Language Sign :=
  {ss | IsPlain context (ss.map Sign.kind)}

/-- A value in a rule or a transition. -/
def declared : Language Sign := plainValue .declaration + bracedValue

def qualifier : Language Sign :=
  one .importantKeyword + one .exclamationMark * one .importantKeyword

/-- What does not end with an exclamation mark. -/
def unmarked (L : Language Sign) : Language Sign :=
  {ss | ss ∈ L ∧ ∀ s ∈ ss.getLast?, s.kind ≠ .exclamationMark}

/-- Something with or without a qualifier. An exclamation mark in front of `important` belongs to
the qualifier. -/
def qualified (L : Language Sign) : Language Sign :=
  L + unmarked L * one .importantKeyword + L * (one .exclamationMark * one .importantKeyword)

/-! ## Rules -/

def rule : Language Sign :=
  starting (·.kind ≠ .triggerKeyword)
    (qualifiedName * one .colon * qualified declared * one .semicolon)

def transition : Language Sign :=
  one .transitionKeyword * parentheses (maybe (list name)) * one .colon
    * qualified declared * one .semicolon

/-! ## Triggers -/

/-- A value with or without a selector in front. Alone it does not start like one. -/
def targeted (value : Language Sign) : Language Sign :=
  parenthesizedSelector * value + starting (·.kind ≠ .leftParen) value

/-- What does not go on with a name in front of it. -/
def unowned (L : Language Sign) : Language Sign :=
  {ss | ss ∈ L ∧ ∀ p n rest, ss = p :: n :: rest → p.kind = .period → ¬n.kind.isName}

/-- A property in front of something. A name alone is not taken for the owner of what follows. -/
def property (L : Language Sign) : Language Sign :=
  name * one .period * name * L + name * unowned L

/-- An action that goes on with a value. -/
def action (value : Language Sign) : Language Sign :=
  one .playStoryboardKeyword * targeted value + one .playSfxKeyword * value
    + one .setKeyword * property (targeted value)

/-- A value with the semicolon that must follow a plain one if another action does. -/
def ended : Language Sign :=
  plainValue .action * one .semicolon + bracedValue * maybe (one .semicolon)

def actions : Language Sign := (action ended)∗ * maybe (action (plainValue .action))

def evaluation : Language Sign :=
  starting (·.kind ≠ .importantKeyword)
    (qualifiedName * sign (·.kind.isComparison) * plainValue .evaluation)

def propertyTrigger : Language Sign :=
  one .triggerKeyword * one .propertyKeyword * qualified (list evaluation) * braces actions

def eventArgument : Language Sign := oneOf [.handledKeyword, .setHandledKeyword]

def eventTrigger : Language Sign :=
  one .triggerKeyword * one .eventKeyword * qualifiedName
    * maybe (parentheses (maybe (list eventArgument))) * maybe qualifier
    * braces actions

def trigger : Language Sign := propertyTrigger + eventTrigger

/-! ## Style sheets -/

/-- A first selector that starts with `trigger` would read as a trigger. -/
def ruleSet : Language Sign :=
  starting (·.kind ≠ .triggerKeyword)
    (list navigatedSelector
      * braces (rule + transition + trigger)∗)

def keyframe : Language Sign :=
  one .keyframeKeyword * one .number * maybe name * bracedValue

def animation : Language Sign :=
  one .animationKeyword * qualifiedName * maybe navigation * braces keyframe∗

def target : Language Sign :=
  one .targetKeyword * maybe name * maybe parenthesizedSelector * braces animation∗

def storyboard : Language Sign := one .atSign * name * maybe name * braces target∗

def document : Language Sign := (ruleSet + storyboard)∗

end Grammar

end Stylesheet
