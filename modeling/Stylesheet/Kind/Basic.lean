/-!
# Kinds of syntax

A kind says what a piece of a style sheet is: trivia, a token, or a composite of other elements.
The kinds are ordered: trivia first, then tokens (punctuation, words, keywords, the unknown
character, the end of input), then composites. The order fixes each kind's index.

* `Kind.slotCount?`: how many slots a composite of that kind has; `none` where that is free.
* `Kind.ofKeyword?`: which words are keywords.
* `Kind.describe`: how a diagnostic names what it expected or found.
-/
namespace Stylesheet

/-- What a piece of a style sheet is. -/
inductive Kind where
  -- trivia
  | whitespaceTrivia
  | endOfLineTrivia
  | singleLineCommentTrivia
  | multiLineCommentTrivia
  -- punctuation
  | leftBrace
  | rightBrace
  | leftParen
  | rightParen
  | leftBracket
  | rightBracket
  | colon
  | semicolon
  | comma
  | period
  | hash
  | atSign
  | asterisk
  | exclamationMark
  | pipe
  | plus
  | minus
  | slash
  | percent
  | equals
  | notEquals
  | lessThan
  | lessThanEquals
  | greaterThan
  | greaterThanEquals
  | greaterThanGreaterThan
  | greaterThanQuestionMark
  -- words and values
  | identifier
  | number
  | string
  | propertyValueToken
  -- keywords
  | animationKeyword
  | asKeyword
  | eventKeyword
  | handledKeyword
  | importantKeyword
  | keyframeKeyword
  | playSfxKeyword
  | playStoryboardKeyword
  | propertyKeyword
  | setKeyword
  | setHandledKeyword
  | targetKeyword
  | transitionKeyword
  | triggerKeyword
  -- the rest of the text
  | unknown
  | eof
  -- composites
  | document
  | list
  | error
  | block
  | ruleSet
  | rule
  | selector
  | selectorPart
  | selectorSubPart
  | pseudoClass
  | selectorWithParentheses
  | selectorWithNavigationExpression
  | navigationExpression
  | navigationExpressionIndexer
  | propertyName
  | eventName
  | propertyValue
  | propertyValueWithBraces
  | propertyTrigger
  | propertyTriggerEvaluation
  | eventTrigger
  | eventTriggerArgumentList
  | playStoryboardTriggerAction
  | playSfxTriggerAction
  | setTriggerAction
  | transition
  | transitionArgumentList
  | storyboard
  | storyboardTarget
  | animation
  | animationKeyframe
  deriving DecidableEq, Repr, Inhabited

namespace Kind

/-- Every kind, in order. -/
def all : List Kind :=
  [.whitespaceTrivia, .endOfLineTrivia, .singleLineCommentTrivia, .multiLineCommentTrivia,
    .leftBrace, .rightBrace, .leftParen, .rightParen, .leftBracket, .rightBracket, .colon,
    .semicolon, .comma, .period, .hash, .atSign, .asterisk, .exclamationMark, .pipe, .plus,
    .minus, .slash, .percent, .equals, .notEquals, .lessThan, .lessThanEquals, .greaterThan,
    .greaterThanEquals, .greaterThanGreaterThan, .greaterThanQuestionMark, .identifier, .number,
    .string, .propertyValueToken, .animationKeyword, .asKeyword, .eventKeyword, .handledKeyword,
    .importantKeyword, .keyframeKeyword, .playSfxKeyword, .playStoryboardKeyword,
    .propertyKeyword, .setKeyword, .setHandledKeyword, .targetKeyword, .transitionKeyword,
    .triggerKeyword, .unknown, .eof, .document, .list, .error, .block, .ruleSet, .rule, .selector,
    .selectorPart, .selectorSubPart, .pseudoClass, .selectorWithParentheses,
    .selectorWithNavigationExpression, .navigationExpression, .navigationExpressionIndexer,
    .propertyName, .eventName, .propertyValue, .propertyValueWithBraces, .propertyTrigger,
    .propertyTriggerEvaluation, .eventTrigger, .eventTriggerArgumentList,
    .playStoryboardTriggerAction, .playSfxTriggerAction, .setTriggerAction, .transition,
    .transitionArgumentList, .storyboard, .storyboardTarget, .animation, .animationKeyframe]

/-- The place of a kind in the order, from zero. -/
def index (k : Kind) : Nat := k.ctorIdx

/-- The name a tree listing gives a kind. -/
def name : Kind → String
  | .whitespaceTrivia => "WHITESPACE_TRIVIA"
  | .endOfLineTrivia => "END_OF_LINE_TRIVIA"
  | .singleLineCommentTrivia => "SINGLE_LINE_COMMENT_TRIVIA"
  | .multiLineCommentTrivia => "MULTI_LINE_COMMENT_TRIVIA"
  | .leftBrace => "LEFT_BRACE"
  | .rightBrace => "RIGHT_BRACE"
  | .leftParen => "LEFT_PAREN"
  | .rightParen => "RIGHT_PAREN"
  | .leftBracket => "LEFT_BRACKET"
  | .rightBracket => "RIGHT_BRACKET"
  | .colon => "COLON"
  | .semicolon => "SEMICOLON"
  | .comma => "COMMA"
  | .period => "PERIOD"
  | .hash => "HASH"
  | .atSign => "AT_SIGN"
  | .asterisk => "ASTERISK"
  | .exclamationMark => "EXCLAMATION_MARK"
  | .pipe => "PIPE"
  | .plus => "PLUS"
  | .minus => "MINUS"
  | .slash => "SLASH"
  | .percent => "PERCENT"
  | .equals => "EQUALS"
  | .notEquals => "NOT_EQUALS"
  | .lessThan => "LESS_THAN"
  | .lessThanEquals => "LESS_THAN_EQUALS"
  | .greaterThan => "GREATER_THAN"
  | .greaterThanEquals => "GREATER_THAN_EQUALS"
  | .greaterThanGreaterThan => "GREATER_THAN_GREATER_THAN"
  | .greaterThanQuestionMark => "GREATER_THAN_QUESTION_MARK"
  | .identifier => "IDENTIFIER"
  | .number => "NUMBER"
  | .string => "STRING"
  | .propertyValueToken => "PROPERTY_VALUE_TOKEN"
  | .animationKeyword => "ANIMATION_KW"
  | .asKeyword => "AS_KW"
  | .eventKeyword => "EVENT_KW"
  | .handledKeyword => "HANDLED_KW"
  | .importantKeyword => "IMPORTANT_KW"
  | .keyframeKeyword => "KEYFRAME_KW"
  | .playSfxKeyword => "PLAY_SFX_KW"
  | .playStoryboardKeyword => "PLAY_STORYBOARD_KW"
  | .propertyKeyword => "PROPERTY_KW"
  | .setKeyword => "SET_KW"
  | .setHandledKeyword => "SET_HANDLED_KW"
  | .targetKeyword => "TARGET_KW"
  | .transitionKeyword => "TRANSITION_KW"
  | .triggerKeyword => "TRIGGER_KW"
  | .unknown => "UNKNOWN"
  | .eof => "EOF"
  | .document => "DOCUMENT"
  | .list => "LIST"
  | .error => "ERROR"
  | .block => "BLOCK"
  | .ruleSet => "RULE_SET"
  | .rule => "RULE"
  | .selector => "SELECTOR"
  | .selectorPart => "SELECTOR_PART"
  | .selectorSubPart => "SELECTOR_SUB_PART"
  | .pseudoClass => "PSEUDO_CLASS"
  | .selectorWithParentheses => "SELECTOR_WITH_PARENTHESES"
  | .selectorWithNavigationExpression => "SELECTOR_WITH_NAVIGATION_EXPRESSION"
  | .navigationExpression => "NAVIGATION_EXPRESSION"
  | .navigationExpressionIndexer => "NAVIGATION_EXPRESSION_INDEXER"
  | .propertyName => "PROPERTY_NAME"
  | .eventName => "EVENT_NAME"
  | .propertyValue => "PROPERTY_VALUE"
  | .propertyValueWithBraces => "PROPERTY_VALUE_WITH_BRACES"
  | .propertyTrigger => "PROPERTY_TRIGGER"
  | .propertyTriggerEvaluation => "PROPERTY_TRIGGER_EVALUATION"
  | .eventTrigger => "EVENT_TRIGGER"
  | .eventTriggerArgumentList => "EVENT_TRIGGER_ARGUMENT_LIST"
  | .playStoryboardTriggerAction => "PLAY_STORYBOARD_TRIGGER_ACTION"
  | .playSfxTriggerAction => "PLAY_SFX_TRIGGER_ACTION"
  | .setTriggerAction => "SET_TRIGGER_ACTION"
  | .transition => "TRANSITION"
  | .transitionArgumentList => "TRANSITION_ARGUMENT_LIST"
  | .storyboard => "STORYBOARD"
  | .storyboardTarget => "STORYBOARD_TARGET"
  | .animation => "ANIMATION"
  | .animationKeyframe => "ANIMATION_KEYFRAME"

/-! ## Categories -/

/-- White space, line ends and comments. Mirrors `is_trivia`. -/
def isTrivia : Kind → Bool
  | .whitespaceTrivia | .endOfLineTrivia => true
  | .singleLineCommentTrivia | .multiLineCommentTrivia => true
  | _ => false

/-- Mirrors `is_comment`. -/
def isComment : Kind → Bool
  | .singleLineCommentTrivia | .multiLineCommentTrivia => true
  | _ => false

/-- Mirrors `is_keyword`. -/
def isKeyword (k : Kind) : Bool :=
  Kind.animationKeyword.index ≤ k.index && k.index ≤ Kind.triggerKeyword.index

/-- Kinds that fill one token of a tree. Mirrors `is_token`. -/
def isToken (k : Kind) : Bool := !k.isTrivia && k.index < Kind.document.index

/-- Kinds of elements that are made of others. Mirrors `is_composite`. -/
def isComposite (k : Kind) : Bool := Kind.document.index ≤ k.index

/-- An identifier, or a keyword that stands for one where a name is expected. Mirrors `is_name`. -/
def isName (k : Kind) : Bool := k = .identifier || k.isKeyword

/-- Mirrors `is_comparison_operator`. -/
def isComparison : Kind → Bool
  | .equals | .notEquals | .lessThan | .lessThanEquals | .greaterThan | .greaterThanEquals => true
  | _ => false

/-- The marks between two parts of a selector. Mirrors `is_selector_combinator`. -/
def isCombinator : Kind → Bool
  | .greaterThan | .greaterThanGreaterThan | .greaterThanQuestionMark => true
  | _ => false

/-! ## Slots -/

/-- The number of slots of a composite of this kind; `none` for a list, for an error, and for what
is no composite. Mirrors `fixed_slot_count`. -/
def slotCount? : Kind → Option Nat
  | .document => some 2
  | .block => some 3
  | .ruleSet => some 2
  | .rule => some 5
  | .selector => some 1
  | .selectorPart => some 1
  | .selectorSubPart => some 3
  | .pseudoClass => some 2
  | .selectorWithParentheses => some 3
  | .selectorWithNavigationExpression => some 2
  | .navigationExpression => some 5
  | .navigationExpressionIndexer => some 3
  | .propertyName => some 3
  | .eventName => some 3
  | .propertyValue => some 1
  | .propertyValueWithBraces => some 3
  | .propertyTrigger => some 5
  | .propertyTriggerEvaluation => some 3
  | .eventTrigger => some 6
  | .eventTriggerArgumentList => some 3
  | .playStoryboardTriggerAction => some 4
  | .playSfxTriggerAction => some 3
  | .setTriggerAction => some 5
  | .transition => some 6
  | .transitionArgumentList => some 3
  | .storyboard => some 4
  | .storyboardTarget => some 4
  | .animation => some 4
  | .animationKeyframe => some 4
  | _ => none

/-! ## Words -/

/-- The keywords, each with its spelling. Letters count as written. -/
def keywords : List (String × Kind) :=
  [("animation", .animationKeyword), ("as", .asKeyword), ("event", .eventKeyword),
   ("handled", .handledKeyword), ("important", .importantKeyword),
   ("keyframe", .keyframeKeyword), ("play-sfx", .playSfxKeyword),
   ("play-storyboard", .playStoryboardKeyword), ("property", .propertyKeyword),
   ("set", .setKeyword), ("set-handled", .setHandledKeyword), ("target", .targetKeyword),
   ("transition", .transitionKeyword), ("trigger", .triggerKeyword)]

/-- The keyword that a word spells. Mirrors `from_keyword`. -/
def ofKeyword? (word : String) : Option Kind := keywords.lookup word

/-- What a diagnostic calls a kind. Mirrors `describe`. -/
def describe : Kind → String
  | .leftBrace => "'\x7b'"
  | .rightBrace => "'\x7d'"
  | .leftParen => "'('"
  | .rightParen => "')'"
  | .leftBracket => "'['"
  | .rightBracket => "']'"
  | .colon => "':'"
  | .semicolon => "';'"
  | .comma => "','"
  | .period => "'.'"
  | .hash => "'#'"
  | .atSign => "'@'"
  | .asterisk => "'*'"
  | .exclamationMark => "'!'"
  | .pipe => "'|'"
  | .plus => "'+'"
  | .minus => "'-'"
  | .slash => "'/'"
  | .percent => "'%'"
  | .equals => "'='"
  | .notEquals => "'<>'"
  | .lessThan => "'<'"
  | .lessThanEquals => "'<='"
  | .greaterThan => "'>'"
  | .greaterThanEquals => "'>='"
  | .greaterThanGreaterThan => "'>>'"
  | .greaterThanQuestionMark => "'>?'"
  | .identifier => "identifier"
  | .number => "number"
  | .string => "string"
  | .propertyValueToken => "property value"
  | .animationKeyword => "'animation'"
  | .asKeyword => "'as'"
  | .eventKeyword => "'event'"
  | .handledKeyword => "'handled'"
  | .importantKeyword => "'important'"
  | .keyframeKeyword => "'keyframe'"
  | .playSfxKeyword => "'play-sfx'"
  | .playStoryboardKeyword => "'play-storyboard'"
  | .propertyKeyword => "'property'"
  | .setKeyword => "'set'"
  | .setHandledKeyword => "'set-handled'"
  | .targetKeyword => "'target'"
  | .transitionKeyword => "'transition'"
  | .triggerKeyword => "'trigger'"
  | .unknown => "unknown character"
  | .eof => "end of input"
  | .whitespaceTrivia | .endOfLineTrivia => "whitespace"
  | .singleLineCommentTrivia | .multiLineCommentTrivia => "comment"
  | _ => "syntax node"

end Kind

end Stylesheet
