import Stylesheet.Tree.Element

/-!
# Building trees by hand

A builder makes elements one at a time and numbers them, tokens and nodes apart. A node takes
elements made before it into its slots; an element goes into one slot at most, and knows from then
on which node holds it. Where an element stands is not known before the tree is finished.

Elements are kept in tables and refer to each other by number. The slots of a node are a range of
one table for all nodes. Numbers and sizes have 32 bits, and where one is made it is checked that it
fits.

* `Builder.token`, `Builder.missing`, `Builder.node`: make an element.
* `Builder.forest`: the tree below each node, as the slots tell it.
* `BuildError`: what can go wrong, in the order in which it is looked for.
-/
namespace Stylesheet

/-- The first number that has more than 32 bits. -/
def sizeLimit : Nat := UInt32.size

/-- The number of an element among those of its sort. -/
inductive ElementId where
  | token (number : Nat)
  | node (number : Nat)
  deriving DecidableEq, Repr

namespace ElementId

def displayToken (number : Nat) : String := s!"TokenId({number})"

def displayNode (number : Nat) : String := s!"NodeId({number})"

def display : ElementId → String
  | .token number => s!"Token({displayToken number})"
  | .node number => s!"Node({displayNode number})"

end ElementId

inductive BuildError where
  | notTokenKind (kind : Kind)
  | tooManyTokens
  | notCompositeKind (kind : Kind)
  | tooManyNodes
  | noSuchElement (id : ElementId)
  | alreadyAttached (child : ElementId) (node : Nat)
  /-- A sum of sizes has more than 32 bits. -/
  | overflow
  | slotCount (kind : Kind) (expected given : Nat)
  | tooManySlots
  | rootHasParent
  | detachedToken (number : Nat)
  | detachedNode (number : Nat)
  | textTooLong
  | spanMismatch (width textWidth : Nat)
  | splitCharacter (number : Nat)
  /-- More elements were met than there are. -/
  | endless
  deriving DecidableEq, Repr

namespace BuildError

/-- Two numbers that should agree, and do not. -/
def disagreement (what : String) (left right : Nat) : String :=
  s!"assertion `left == right` failed: {what}\n  left: {left}\n right: {right}"

/-- A number that does not fit where it should go. -/
def unfitting (what : String) : String := s!"{what}: TryFromIntError(())"

def message : BuildError → String
  | .notTokenKind kind => s!"`{kind.name}` is not a token kind"
  | .tooManyTokens => unfitting "too many tokens"
  | .notCompositeKind kind => s!"`{kind.name}` is not a composite kind"
  | .tooManyNodes => unfitting "too many nodes"
  | .noSuchElement id => s!"{id.display} was never made"
  | .alreadyAttached child node =>
    s!"{child.display} is already attached to {ElementId.displayNode node}"
  | .overflow => "attempt to add with overflow"
  | .slotCount kind expected given =>
    disagreement s!"`{kind.name}` has {expected} slots, {given} were given" given expected
  | .tooManySlots => unfitting "too many slots"
  | .rootHasParent => "the root must not have a parent"
  | .detachedToken number =>
    s!"{ElementId.displayToken number} was never attached to the tree"
  | .detachedNode number => s!"{ElementId.displayNode number} was never attached to the tree"
  | .textTooLong => unfitting "called `Result::unwrap()` on an `Err` value"
  | .spanMismatch width textWidth =>
    disagreement "the tree does not span the source text" width textWidth
  | .splitCharacter number =>
    s!"{ElementId.displayToken number} does not start and end on character boundaries"
  | .endless => "an element was met twice"

end BuildError

/-! ## Sizes -/

/-- A number, if it has 32 bits. -/
def fitting (n : Nat) (error : BuildError) : Except BuildError Nat :=
  if n < sizeLimit then .ok n else .error error

/-- A sum of sizes, if it has 32 bits. -/
def checkedAdd (a b : Nat) : Except BuildError Nat := fitting (a + b) .overflow

/-- The bytes of pieces of trivia. They are added one by one, and where the sum has 32 bits the sums
on the way have too. Mirrors `Trivia::new`. -/
def checkedTotal (pieces : List Trivia) : Except BuildError Nat :=
  fitting (Trivia.totalWidth pieces) .overflow

/-! ## Tables -/

/-- A row of the table of tokens. Mirrors `TokenData`. -/
structure TokenData where
  token : Token
  /-- The node that holds the token. None does before it is attached. -/
  parent : Option Nat
  /-- Where the token starts, trivia included. Not known before the tree is finished. -/
  position : Nat
  /-- The token's index in document order. Not known before the tree is finished. -/
  order : Nat

/-- The bytes of a token, trivia included. Mirrors `TokenData::full_width`. -/
def TokenData.checkedWidth (data : TokenData) : Except BuildError Nat := do
  let front ← checkedAdd data.token.leadingWidth data.token.width
  checkedAdd front data.token.trailingWidth

/-- A row of the table of nodes. Mirrors `NodeData`. -/
structure NodeData where
  kind : Kind
  /-- Where the node's slots start in the table of slots. -/
  slotsStart : Nat
  slotCount : Nat
  /-- The node that holds this one. The root is held by none. -/
  parent : Option Nat
  /-- The bytes of the node, trivia included. -/
  fullWidth : Nat
  /-- Where the node starts, trivia included. Not known before the tree is finished. -/
  position : Nat

/-- The elements made so far. An element's number is its index. Mirrors `Builder`. -/
structure Builder where
  tokens : Array TokenData
  nodes : Array NodeData
  slots : Array (Option ElementId)

/-- Slots of elements that know their numbers. -/
abbrev NumberedSlots := Slots (Nat × Kind) (Nat × Token)

abbrev Numbered := Tree (Nat × Kind) (Nat × Token)

namespace Builder

/-- Mirrors `Builder::new`. -/
def empty : Builder := ⟨#[], #[], #[]⟩

/-! ## Looking elements up -/

/-- Whether an element was made. -/
def made (b : Builder) : ElementId → Bool
  | .token number => number < b.tokens.size
  | .node number => number < b.nodes.size

/-- The node that holds an element. -/
def parent? (b : Builder) : ElementId → Option Nat
  | .token number => (b.tokens[number]?).bind (·.parent)
  | .node number => (b.nodes[number]?).bind (·.parent)

/-- Mirrors `Builder::kind`. -/
def kind? (b : Builder) : ElementId → Option Kind
  | .token number => (b.tokens[number]?).map (·.token.kind)
  | .node number => (b.nodes[number]?).map (·.kind)

/-- The bytes of an element, trivia included. Mirrors `Builder::full_width`. -/
def checkedWidth (b : Builder) (id : ElementId) : Except BuildError Nat :=
  match id with
  | .token number =>
    match b.tokens[number]? with
    | some data => data.checkedWidth
    | none => .error (.noSuchElement id)
  | .node number =>
    match b.nodes[number]? with
    | some data => .ok data.fullWidth
    | none => .error (.noSuchElement id)

/-- The slots of a row. Mirrors `NodeData::slot_range`. -/
def slotsIn (b : Builder) (data : NodeData) : List (Option ElementId) :=
  (b.slots.extract data.slotsStart (data.slotsStart + data.slotCount)).toList

/-- What stands in the slots of a node. Mirrors `SyntaxTree::slots_of`. -/
def slotsOf (b : Builder) (number : Nat) : List (Option ElementId) :=
  ((b.nodes[number]?).map b.slotsIn).getD []

/-! ## Trees below -/

/-- The kind of each node and what stands in its slots. -/
def shapes (b : Builder) : List (Kind × List (Option ElementId)) :=
  b.nodes.toList.map fun data => (data.kind, b.slotsIn data)

/-- The tokens, whoever holds them. -/
def madeTokens (b : Builder) : Array Token := b.tokens.map (·.token)

/-- The tree below an element, the trees below some nodes being known. -/
def treeBelow? (tokens : Array Token) (trees : Array Numbered) : ElementId → Option Numbered
  | .token number => (tokens[number]?).map fun t => .token (number, t)
  | .node number => trees[number]?

/-- The tree below each node. Nodes hold older ones only, so one pass over them is enough. -/
def forestOf (tokens : Array Token) (shapes : List (Kind × List (Option ElementId))) :
    Array Numbered :=
  shapes.foldl (fun trees (kind, slots) =>
    trees.push (.node (trees.size, kind)
      (Slots.ofList (slots.map (·.bind (treeBelow? tokens trees)))))) #[]

def forest (b : Builder) : Array Numbered := forestOf b.madeTokens b.shapes

/-- The tree below an element. -/
def element? (b : Builder) (id : ElementId) : Option Numbered :=
  treeBelow? b.madeTokens b.forest id

/-! ## Tokens -/

/-- Adds a token that no node holds. Mirrors `Builder::push_token`. -/
def addToken (b : Builder) (t : Token) : Except BuildError (ElementId × Builder) := do
  if !t.kind.isToken then throw (.notTokenKind t.kind)
  let number ← fitting b.tokens.size .tooManyTokens
  return (.token number, { b with tokens := b.tokens.push ⟨t, none, 0, 0⟩ })

/-- A token with the trivia around it. Mirrors `Builder::token`. -/
def token (b : Builder) (leading : List Trivia) (kind : Kind) (width : Nat)
    (trailing : List Trivia) : Except BuildError (ElementId × Builder) := do
  let _ ← checkedTotal leading
  let _ ← checkedTotal trailing
  b.addToken (.present kind leading width trailing)

/-- A token of no width for one that the text lacks. Mirrors `Builder::missing`. -/
def missing (b : Builder) (kind : Kind) : Except BuildError (ElementId × Builder) :=
  b.addToken (.missing kind)

/-! ## Nodes -/

/-- Records which node holds an element. -/
def setParent (b : Builder) (id : ElementId) (node : Nat) : Builder :=
  match id with
  | .token number =>
    { b with tokens := b.tokens.modify number fun data => { data with parent := some node } }
  | .node number =>
    { b with nodes := b.nodes.modify number fun data => { data with parent := some node } }

/-- Takes an element that no node holds yet into a node. Mirrors `Builder::attach`. -/
def attach (b : Builder) (id : ElementId) (node : Nat) : Except BuildError Builder :=
  if b.made id then
    match b.parent? id with
    | some parent => .error (.alreadyAttached id parent)
    | none => .ok (b.setParent id node)
  else .error (.noSuchElement id)

/-- Adds the slots of a node, first to last, `width` being the bytes of those before them. -/
def fill (b : Builder) (node width : Nat) :
    List (Option ElementId) → Except BuildError (Builder × Nat)
  | [] => .ok (b, width)
  | none :: rest => fill { b with slots := b.slots.push none } node width rest
  | some id :: rest => do
    let b ← b.attach id node
    let width ← checkedAdd width (← b.checkedWidth id)
    fill { b with slots := b.slots.push (some id) } node width rest

/-- Looks whether a node has the slots that its kind has to have. -/
def checkCount (kind : Kind) (count : Nat) : Except BuildError Unit :=
  match kind.slotCount? with
  | some expected => if count = expected then .ok () else .error (.slotCount kind expected count)
  | none => .ok ()

/-- Makes a node with the given elements in its slots. Mirrors `Builder::node`. -/
def node (b : Builder) (kind : Kind) (slots : List (Option ElementId)) :
    Except BuildError (ElementId × Builder) := do
  if !kind.isComposite then throw (.notCompositeKind kind)
  let number ← fitting b.nodes.size .tooManyNodes
  let (filled, width) ← b.fill number 0 slots
  let count := filled.slots.size - b.slots.size
  checkCount kind count
  let start ← fitting b.slots.size .tooManySlots
  let count ← fitting count .tooManySlots
  return (.node number,
    { filled with nodes := filled.nodes.push ⟨kind, start, count, none, width, 0⟩ })

end Builder

end Stylesheet
