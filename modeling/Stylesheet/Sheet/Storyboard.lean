import Stylesheet.Sheet.Declaration
import Stylesheet.Sheet.Selector

/-!
# Storyboards

A storyboard, `@name loop { targets }`, animates properties of its targets. A target holds
animations, an animation holds keyframes, and a keyframe has a time and a value.
-/
namespace Stylesheet

namespace Production

/-- Mirrors `LOOP_BEHAVIORS`. -/
def loopBehaviors : List Text := ["none".toList, "loop".toList, "reverse".toList]

/-- Whether a word names a loop behavior, in capitals or not. -/
def isLoopBehavior (word : Text) : Bool := loopBehaviors.contains (word.map Char.toLower)

end Production

namespace Parsing

open Production

variable {m : Type → Type} {ε : Type} [Parsing m ε]

/-- Reads `keyframe time easing { value }`. Mirrors `keyframe`. -/
def keyframe : m ε := do
  let keyword ← expect .keyframeKeyword
  let time ← expect .number
  let easing ← optionalName
  let content ← bracedValue
  node .animationKeyframe [keyword, time, easing, content]

/-- Reads `animation owner.property | navigation { keyframes }`. Mirrors `animation`. -/
def animation : m ε := do
  let keyword ← expect .animationKeyword
  let property ← qualifiedName .propertyName
  let path ← optional (← sees .pipe) navigation
  let body ← block (KindSet.singleton .keyframeKeyword) keyframe
  node .animation [keyword, property, path, body]

/-- Reads `target Type (selector) { animations }`. Mirrors `target`. -/
def target : m ε := do
  let keyword ← expect .targetKeyword
  let type ← optionalName
  let inner ← optional (← sees .leftParen) parenthesizedSelector
  let body ← block (KindSet.singleton .animationKeyword) animation
  node .storyboardTarget [keyword, type, inner, body]

/-- Reads a loop behavior, known or not. -/
def loopBehavior : m ε := do
  let word ← look (·.next.text)
  if !isLoopBehavior word then report (.unknownLoopBehavior word)
  takeAs .identifier

/-- Mirrors `storyboard`. -/
def storyboard : m ε := do
  let atSign ← expect .atSign
  let name ← expectName
  let behavior ← optional (← seesAny nameStarts) loopBehavior
  let body ← block (KindSet.singleton .targetKeyword) target
  node .storyboard [atSign, name, behavior, body]

end Parsing

end Stylesheet
