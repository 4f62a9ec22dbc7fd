import ComponentMarkup.Text.Source
import ComponentMarkup.Tree.Kind

/-!
# Trees

A tree keeps every character of the text it was read from: its leaves, faults included, are stretches
of that text.  Every node knows its place in the whole text, also when it was read by a grammar that saw
only a part of it.  A parser counts places in characters; `Node.mapPlaces` turns them into byte offsets.

A branch carries two facts about its subtree that are computed once, when it is built: how many nodes
there are and whether one of them is a fault.  The functions `Node.branch`, `Node.empty`, `Node.hosting`
and `Node.withChildren` are the ways to build one.
-/

namespace ComponentMarkup.Tree

open ComponentMarkup.Text

/-- Which grammar, from which of its entry points, reads a stretch of text. -/
structure Choice where
  /-- The name of the grammar. -/
  grammar : String
  /-- The entry point. -/
  entry : String
  deriving DecidableEq, Repr

/-- A node of a tree. -/
inductive Node where
  /-- A stretch of text of one kind. -/
  | leaf (kind : Kind) (text : String) (span : Span)
  /-- A node with children.  `host` tells which grammar read the only child, if it was another one than
  that of the node itself; `count` and `faulty` are the facts computed when the node was built. -/
  | inner (kind : Kind) (span : Span) (host : Option Choice) (count : Nat) (faulty : Bool)
      (children : List Node)
  /-- A stretch of text that the grammar does not allow, with what is wrong and what may help. -/
  | fault (message : String) (hints : List String) (text : String) (span : Span)

/-- What is wrong with a stretch of text. -/
structure Fault where
  /-- The stretch. -/
  span : Span
  /-- What is wrong. -/
  message : String
  /-- What may help. -/
  hints : List String
  deriving DecidableEq, Repr

namespace Node

instance : Inhabited Node := ⟨.leaf (.script .endOfTokens) "" ⟨0, 0⟩⟩

/-! ## Parts of a node -/

/-- The kind of a node. -/
def kind : Node → Kind
  | leaf k _ _ => k
  | inner k _ _ _ _ _ => k
  | fault _ _ _ _ => .fault

/-- The stretch of text that a node covers. -/
def span : Node → Span
  | leaf _ _ s => s
  | inner _ s _ _ _ _ => s
  | fault _ _ _ s => s

/-- Where a node starts. -/
def start (n : Node) : Nat := n.span.start

/-- Where a node ends. -/
def stop (n : Node) : Nat := n.span.stop

/-- The text of a leaf or fault; a node with children has none of its own. -/
def text : Node → String
  | leaf _ t _ => t
  | inner _ _ _ _ _ _ => ""
  | fault _ _ t _ => t

/-- The children of a node. -/
def children : Node → List Node
  | inner _ _ _ _ _ cs => cs
  | _ => []

/-- The number of nodes of the subtree, the node itself included. -/
def count : Node → Nat
  | inner _ _ _ n _ _ => n
  | _ => 1

/-- Whether the subtree holds a fault. -/
def faulty : Node → Bool
  | leaf _ _ _ => false
  | inner _ _ _ _ b _ => b
  | fault _ _ _ _ => true

/-- Which grammar read the only child of the node, if it hosts another grammar. -/
def host? : Node → Option Choice
  | inner _ _ h _ _ _ => h
  | _ => none

/-- Whether a node is of the given document kind. -/
def isMarkup (n : Node) (k : MarkupKind) : Bool :=
  n.kind == .markup k

/-- Whether a node is of the given script kind. -/
def isScript (n : Node) (k : ScriptKind) : Bool :=
  n.kind == .script k

/-- Whether a node is a fault. -/
def isFault (n : Node) : Bool :=
  n.kind == .fault

/-- The first child of a kind. -/
def find? (n : Node) (k : Kind) : Option Node :=
  n.children.find? fun child => child.kind == k

/-- The first child of a document kind. -/
def child? (n : Node) (k : MarkupKind) : Option Node :=
  n.find? (.markup k)

/-- The tree of another grammar that the node hosts. -/
def hostedRoot? (n : Node) : Option Node :=
  n.host?.bind fun _ => n.children.head?

/-! ## Building nodes -/

/-- A node with children over a given stretch. -/
def spanning (kind : Kind) (span : Span) (host : Option Choice) (children : List Node) : Node :=
  inner kind span host (children.foldr (fun child n => child.count + n) 1) (children.any faulty) children

/-- A node that spans from its first child to its last. -/
def branch (kind : Kind) (children : List Node) : Node :=
  let start := (children.head?.map Node.start).getD 0
  let stop := (children.getLast?.map Node.stop).getD start
  spanning kind ⟨start, stop⟩ none children

/-- A node without children. -/
def empty (kind : Kind) (place : Nat) : Node :=
  spanning kind ⟨place, place⟩ none []

/-- A node with children, or one without at the given place if there are none. -/
def branchAt (kind : Kind) (place : Nat) (children : List Node) : Node :=
  if children.isEmpty then empty kind place else branch kind children

/-- A node of the given kind that hosts the tree of another grammar. -/
def hosting (kind : Kind) (span : Span) (choice : Choice) (root : Node) : Node :=
  spanning kind span (some choice) [root]

/-- The node with other children, its kind, place and host kept. -/
def withChildren (n : Node) (children : List Node) : Node :=
  match n with
  | inner k s h _ _ _ => spanning k s h children
  | n => n

/-- A document node that spans from its first child to its last. -/
def markup (kind : MarkupKind) (children : List Node) : Node :=
  branch (.markup kind) children

/-- A fault with one more hint; other nodes are left alone. -/
def hint (n : Node) (text : String) : Node :=
  match n with
  | fault m hs t s => fault m (hs ++ [text]) t s
  | n => n

/-- The node with another kind; a fault stays one. -/
def withKind (n : Node) (k : Kind) : Node :=
  match n with
  | leaf _ t s => leaf k t s
  | inner _ s h c b cs => inner k s h c b cs
  | n => n

/-! ## Subtrees -/

mutual

/-- The leaves and faults of a subtree, in the order of the text. -/
def leaves : Node → List Node
  | leaf k t s => [leaf k t s]
  | inner _ _ _ _ _ cs => leavesOf cs
  | fault m hs t s => [fault m hs t s]

/-- The leaves and faults of several subtrees. -/
def leavesOf : List Node → List Node
  | [] => []
  | c :: cs => leaves c ++ leavesOf cs

end

/-- The text that a subtree was read from. -/
def fullText (n : Node) : String :=
  String.join (n.leaves.map text)

mutual

/-- What is wrong in a subtree, in the order of the text.  A subtree known to hold no fault is not
entered. -/
def faults : Node → List Fault
  | leaf _ _ _ => []
  | inner _ _ _ _ b cs => if b then faultsOf cs else []
  | fault m hs _ s => [⟨s, m, hs⟩]

/-- What is wrong in several subtrees. -/
def faultsOf : List Node → List Fault
  | [] => []
  | c :: cs => (if c.faulty then faults c else []) ++ faultsOf cs

end

mutual

/-- The nodes of a subtree before their children, each with its depth. -/
def outline (depth : Nat) : Node → List (Nat × Node)
  | leaf k t s => [(depth, leaf k t s)]
  | inner k s h c b cs => (depth, inner k s h c b cs) :: outlineOf (depth + 1) cs
  | fault m hs t s => [(depth, fault m hs t s)]

/-- The nodes of several subtrees before their children, each with its depth. -/
def outlineOf (depth : Nat) : List Node → List (Nat × Node)
  | [] => []
  | c :: cs => outline depth c ++ outlineOf depth cs

end

mutual

/-- How many nodes the longest path down from a node holds. -/
def height : Node → Nat
  | leaf _ _ _ => 1
  | inner _ _ _ _ _ cs => heightOf cs + 1
  | fault _ _ _ _ => 1

/-- The greatest height of several nodes. -/
def heightOf : List Node → Nat
  | [] => 0
  | c :: cs => max (height c) (heightOf cs)

end

mutual

/-- The same tree with every place moved by a function. -/
def mapPlaces (f : Nat → Nat) : Node → Node
  | leaf k t s => leaf k t ⟨f s.start, f s.stop⟩
  | inner k s h c b cs => inner k ⟨f s.start, f s.stop⟩ h c b (mapPlacesOf f cs)
  | fault m hs t s => fault m hs t ⟨f s.start, f s.stop⟩

/-- The same trees with every place moved by a function. -/
def mapPlacesOf (f : Nat → Nat) : List Node → List Node
  | [] => []
  | c :: cs => mapPlaces f c :: mapPlacesOf f cs

end

mutual

/-- Whether two trees are equal. -/
def same : Node → Node → Bool
  | leaf k t s, leaf k' t' s' => k == k' && t == t' && s == s'
  | inner k s h c b cs, inner k' s' h' c' b' cs' =>
    k == k' && s == s' && h == h' && c == c' && b == b' && sameAll cs cs'
  | fault m hs t s, fault m' hs' t' s' => m == m' && hs == hs' && t == t' && s == s'
  | _, _ => false

/-- Whether two lists of trees are equal. -/
def sameAll : List Node → List Node → Bool
  | [], [] => true
  | c :: cs, d :: ds => same c d && sameAll cs ds
  | _, _ => false

end

/-! ## Nodes placed by byte offsets -/

/-- A leaf that starts at a byte offset. -/
def leafAt (kind : Kind) (text : String) (start : Nat) : Node :=
  leaf kind text ⟨start, start + text.utf8ByteSize⟩

/-- A fault that starts at a byte offset. -/
def faultAt (message : String) (text : String) (start : Nat) : Node :=
  fault message [] text ⟨start, start + text.utf8ByteSize⟩

/-- A tree whose places are counted in characters, with its places in bytes. -/
def inBytes (offsets : Array Nat) (n : Node) : Node :=
  n.mapPlaces (byteAt offsets)

end Node

/-- A document leaf over a stretch of a text. -/
def leafOf (src : Source) (kind : MarkupKind) (start stop : Nat) : Node :=
  .leaf (.markup kind) (src.text ⟨start, stop⟩) ⟨start, stop⟩

end ComponentMarkup.Tree
