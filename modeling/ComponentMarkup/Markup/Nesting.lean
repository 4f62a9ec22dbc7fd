import ComponentMarkup.Text.Bracket

/-!
# What surrounds a place in inline content

A nesting tells inside which command heads and bracketed bodies a place stands.  It is a list of frames,
innermost first, and changes as tokens are read and commands completed.  Every frame that is made carries
a stamp that no earlier frame of the same history has, so that a frame which was kept can be told from one
that was made anew with equal contents.
-/

namespace ComponentMarkup.Markup

open ComponentMarkup.Text

/-- How many literal brackets of each kind are open. -/
structure Pending where
  brace : Nat := 0
  square : Nat := 0
  paren : Nat := 0
  deriving DecidableEq, Repr

namespace Pending

/-- The open brackets of one kind. -/
def get (p : Pending) : Bracket → Nat
  | .brace => p.brace
  | .square => p.square
  | .paren => p.paren

/-- The same with another number for one kind. -/
def set (p : Pending) (b : Bracket) (n : Nat) : Pending :=
  match b with
  | .brace => { p with brace := n }
  | .square => { p with square := n }
  | .paren => { p with paren := n }

end Pending

/-- What a frame stands for. -/
inductive FrameForm where
  /-- A command head, in which structural characters are not text. -/
  | head
  /-- A body opened by a bracket, with the literal brackets open in it. -/
  | body (opener : Bracket) (pending : Pending)
  deriving DecidableEq, Repr

/-- A frame and its stamp. -/
structure Frame where
  /-- Tells the frame from all others of its history. -/
  stamp : Nat
  /-- What the frame stands for. -/
  form : FrameForm
  deriving DecidableEq, Repr

/-- The frames around a place. -/
structure Nesting where
  /-- The frames, innermost first. -/
  frames : List Frame
  /-- Whether a line end came last. -/
  lineStart : Bool
  /-- The first stamp not yet used. -/
  supply : Nat
  deriving DecidableEq, Repr

/-- A token that a nesting reacts to. -/
inductive Event where
  /-- A command introducer. -/
  | introducer
  /-- An opening bracket. -/
  | opening (bracket : Bracket)
  /-- A closing bracket. -/
  | closing (bracket : Bracket)
  /-- A line end. -/
  | newline
  /-- Any other token. -/
  | other
  deriving DecidableEq, Repr

namespace Nesting

/-- The nesting at the start of a region. -/
def root : Nesting := ⟨[], true, 0⟩

/-- What the innermost frame stands for. -/
def form? (n : Nesting) : Option FrameForm :=
  n.frames.head?.map Frame.form

/-- The nesting with one more frame. -/
def push (n : Nesting) (form : FrameForm) : Nesting :=
  { n with frames := ⟨n.supply, form⟩ :: n.frames, supply := n.supply + 1 }

/-- The nesting with another innermost frame. -/
def replace (n : Nesting) (form : FrameForm) : Nesting :=
  { n with frames := ⟨n.supply, form⟩ :: n.frames.tail, supply := n.supply + 1 }

/-- The nesting without its innermost frame. -/
def pop (n : Nesting) : Nesting :=
  { n with frames := n.frames.tail }

/-- How reading a token changes the frames. -/
def shiftFrames (n : Nesting) : Event → Nesting
  | .introducer => n.push .head
  | .opening b =>
    match n.form? with
    | some .head => n.push (.body b {})
    | some (.body opener p) => n.replace (.body opener (p.set b (p.get b + 1)))
    | none => n
  | .closing b =>
    match n.form? with
    | some (.body opener p) =>
      if 0 < p.get b then n.replace (.body opener (p.set b (p.get b - 1)))
      else if b = opener then n.pop
      else n
    | _ => n
  | .newline => n
  | .other => n

/-- The nesting after a token. -/
def shift (n : Nesting) (event : Event) : Nesting :=
  { n.shiftFrames event with lineStart := event = .newline }

/-- The frames outside the innermost command. -/
def outsideCommand : List Frame → List Frame
  | [] => []
  | frame :: frames => if frame.form = .head then frames else outsideCommand frames

/-- The nesting after a command is complete: all frames since its introducer are gone. -/
def completeCommand (n : Nesting) : Nesting :=
  { n with frames := outsideCommand n.frames, lineStart := false }

/-- Whether there is no frame. -/
def isRoot (n : Nesting) : Bool :=
  n.frames.isEmpty

/-- The number of frames. -/
def depth (n : Nesting) : Nat :=
  n.frames.length

/-- Whether the place is in a command head. -/
def inHead (n : Nesting) : Bool :=
  n.form? = some .head

/-- Whether the place is directly in a bracketed body. -/
def inBody (n : Nesting) : Bool :=
  match n.form? with
  | some (.body _ _) => true
  | _ => false

/-- Whether a closing bracket would end the innermost body. -/
def closes (n : Nesting) (b : Bracket) : Bool :=
  match n.form? with
  | some (.body opener p) => opener = b && p.get b = 0
  | _ => false

/-- Whether some body around the place was opened by the bracket. -/
def inside (n : Nesting) (b : Bracket) : Bool :=
  n.frames.any fun frame =>
    match frame.form with
    | .body opener _ => opener = b
    | .head => false

/-- Whether two nestings have the very same innermost frame, and agree on the line start. -/
def same (a b : Nesting) : Bool :=
  a.frames.head?.map Frame.stamp == b.frames.head?.map Frame.stamp && a.lineStart == b.lineStart

/-- An earlier nesting taken up again, with the stamps that the later one has left. -/
def resume (earlier later : Nesting) : Nesting :=
  { earlier with supply := later.supply }

end Nesting

end ComponentMarkup.Markup
