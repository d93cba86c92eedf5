import Stylesheet.Sheet.Document

/-!
# The productions, making drafts

Each production of the grammar, as one that makes drafts.
-/
namespace Stylesheet.Production

abbrev expectName : Production Draft := Parsing.expectName

abbrev optionalName : Production (Option Draft) := Parsing.optionalName

abbrev qualifiedName (kind : Kind) : Production Draft := Parsing.qualifiedName kind

abbrev qualifier : Production (Option Draft) := Parsing.qualifier

abbrev unexpected (starts : KindSet) : Production Draft := Parsing.unexpected starts

abbrev block (starts : KindSet) (item : Production Draft) : Production Draft :=
  Parsing.block starts item

abbrev touchingName : Production Draft := Parsing.touchingName

abbrev touchingMark : Production (Option Draft) := Parsing.touchingMark

abbrev subPart : Production Draft := Parsing.subPart

abbrev selectorPart : Production Draft := Parsing.selectorPart

abbrev selector : Production Draft := Parsing.selector

abbrev parenthesizedSelector : Production Draft := Parsing.parenthesizedSelector

abbrev indexer : Production Draft := Parsing.indexer

abbrev navigation : Production Draft := Parsing.navigation

abbrev navigatedSelector : Production Draft := Parsing.navigatedSelector

abbrev bracedValue : Production Draft := Parsing.bracedValue

abbrev bracedValue.contentOf (count : Nat) : Production Draft := Parsing.bracedValue.contentOf count

abbrev separated (listed : Listed) (starts : Cursor → Bool) (item : Production Draft) :
    Production (List Draft) :=
  Parsing.separated listed starts item

abbrev value (context : Run.Context) : Production Draft := Parsing.value context

abbrev rule : Production Draft := Parsing.rule

abbrev transitionArguments : Production Draft := Parsing.transitionArguments

abbrev transition : Production Draft := Parsing.transition

abbrev actionSelector : Production (Option Draft) := Parsing.actionSelector

abbrev action : Production Draft := Parsing.action

abbrev comparison : Production Draft := Parsing.comparison

abbrev evaluation : Production Draft := Parsing.evaluation

abbrev propertyTrigger : Production Draft := Parsing.propertyTrigger

abbrev eventArgument : Production Draft := Parsing.eventArgument

abbrev eventArguments : Production Draft := Parsing.eventArguments

abbrev eventTrigger : Production Draft := Parsing.eventTrigger

abbrev trigger : Production Draft := Parsing.trigger

abbrev keyframe : Production Draft := Parsing.keyframe

abbrev animation : Production Draft := Parsing.animation

abbrev target : Production Draft := Parsing.target

abbrev loopBehavior : Production Draft := Parsing.loopBehavior

abbrev storyboard : Production Draft := Parsing.storyboard

abbrev ruleSetItem : Production Draft := Parsing.ruleSetItem

abbrev ruleSet : Production Draft := Parsing.ruleSet

abbrev misplacedTrigger : Production Draft := Parsing.misplacedTrigger

abbrev item : Production Draft := Parsing.item

abbrev document : Production (List (Option Draft)) := Parsing.document

end Stylesheet.Production
