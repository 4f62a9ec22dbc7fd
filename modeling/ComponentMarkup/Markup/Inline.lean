import ComponentMarkup.Markup.Head
import ComponentMarkup.Markup.Nesting
import ComponentMarkup.Markup.PlainText
import ComponentMarkup.Tree.Depth

/-!
# Inline content

An inline region is a list of stretches of a text, usually one for each line of a block; what lies between
two of them is a line break.  The region is read from left to right onto a stack of parts: finished nodes
and delimiters that still wait for their partner.  A closing delimiter takes everything above its partner
as its content; delimiters that never find a partner become text again.

The rules are chosen by the character at the current place.  A rule claims the place, declines it, or finds
that nesting got too deep; a place that no rule claims is plain text.

A region inside another one is read by `Env.nested`, which `inlineNodes` ties to itself one level down.
-/

namespace ComponentMarkup.Markup

open ComponentMarkup.Text ComponentMarkup.Tree

/-- Which rules are active. -/
inductive Mode where
  /-- All of them. -/
  | full
  /-- Interpolations and escapes only, as in formulas. -/
  | template
  deriving DecidableEq, Repr

/-- What a delimiter that waits for its partner opens. -/
inductive Opener where
  /-- Emphasis, by one or two equal marks. -/
  | emphasis (mark : Char) (width : Nat)
  /-- Struck-out text. -/
  | strike
  /-- A link or an image. -/
  | link (image : Bool)
  /-- A command with a body still open. -/
  | command (kind : MarkupKind) (head : List Node)
  /-- A body of a command. -/
  | body

/-- Whether closing delimiters of other kinds must not look past the delimiter. -/
def Opener.isBarrier : Opener → Bool
  | .command _ _ | .body | .link _ => true
  | .emphasis _ _ | .strike => false

/-- A delimiter that waits for its partner. -/
structure Delimiter where
  /-- What it opens. -/
  opener : Opener
  /-- Where it stands. -/
  span : Span
  /-- How many delimiters were waiting when it was read. -/
  level : Nat

/-- A finished node or a waiting delimiter. -/
inductive Part where
  /-- A finished node. -/
  | done (node : Node)
  /-- A waiting delimiter. -/
  | waiting (delimiter : Delimiter)

/-- What stays the same while a region is read. -/
structure Env where
  /-- The whole text. -/
  source : Source
  /-- The active rules. -/
  mode : Mode
  /-- Where the region ends. -/
  stop : Nat
  /-- Whether nothing but white space follows the region. -/
  atEnd : Bool
  /-- Reads a stretch as a region of its own. -/
  nested : Span → Mode → Limited (List Node)

/-- How far a region has been read. -/
structure State where
  /-- The stretches not yet finished, the current one first. -/
  segments : List Span
  /-- The current place. -/
  place : Nat
  /-- What surrounds the place. -/
  nesting : Nesting
  /-- The parts so far, last first. -/
  parts : List Part
  /-- Where nesting first got too deep. -/
  overflow : Option Nat

/-- What a rule makes of a place. -/
inductive Verdict where
  /-- The rule took what stands there. -/
  | claimed (state : State)
  /-- The rule does not apply. -/
  | declined
  /-- The rule applies, but nesting is too deep. -/
  | tooDeep

/-! ## The stack of parts -/

/-- The parts above the last delimiter that `accept` takes, that delimiter, and the parts below it; the
search gives up at a delimiter that `blocks` it. -/
def findWaiting? (accept blocks : Opener → Bool) :
    List Part → Option (List Part × Delimiter × List Part)
  | [] => none
  | .done node :: parts =>
    (findWaiting? accept blocks parts).map fun (above, d, below) => (.done node :: above, d, below)
  | .waiting d :: parts =>
    if accept d.opener then some ([], d, parts)
    else if blocks d.opener then none
    else
      (findWaiting? accept blocks parts).map fun (above, e, below) => (.waiting d :: above, e, below)

/-- Accepts bodies of commands. -/
def Opener.isBody : Opener → Bool
  | .body => true
  | _ => false

/-- Accepts commands. -/
def Opener.isCommand : Opener → Bool
  | .command _ _ => true
  | _ => false

/-- Accepts links and images. -/
def Opener.isLink : Opener → Bool
  | .link _ => true
  | _ => false

/-- Accepts emphasis by the given marks. -/
def Opener.isEmphasis (mark : Char) (width : Nat) : Opener → Bool
  | .emphasis m w => m == mark && w == width
  | _ => false

/-- Accepts struck-out text. -/
def Opener.isStrike : Opener → Bool
  | .strike => true
  | _ => false

/-- The last body of a command that is still open. -/
def lastBody? (parts : List Part) : Option (List Part × Delimiter × List Part) :=
  findWaiting? Opener.isBody (fun _ => false) parts

/-- The last command that is still open. -/
def lastCommand? (parts : List Part) : Option (List Part × Delimiter × List Part) :=
  findWaiting? Opener.isCommand (fun _ => false) parts

/-- A part as a node: a delimiter without partner is text. -/
def Part.node (src : Source) : Part → Node
  | .done node => node
  | .waiting d => leafOf src .text d.span.start d.span.stop

/-- Puts a node in front of others, joining it with the first of them if both are text and touch. -/
def joinText (node : Node) (nodes : List Node) : List Node :=
  match node, nodes with
  | .leaf (.markup .text) t s, .leaf (.markup .text) t' s' :: rest =>
    if s.stop = s'.start then .leaf (.markup .text) (t ++ t') ⟨s.start, s'.stop⟩ :: rest
    else node :: nodes
  | _, _ => node :: nodes

/-- Parts, last first, as nodes in the order of the text, with texts that touch joined. -/
def settle (src : Source) (parts : List Part) : List Node :=
  (parts.reverse.map (Part.node src)).foldr joinText []

/-- The nodes of a braced body with its braces as text. -/
def unbrace (block : Node) : List Node :=
  block.children.map fun child =>
    if child.isMarkup .leftBrace || child.isMarkup .rightBrace then child.withKind (.markup .text)
    else child

namespace State

/-- The state at the start of a region. -/
def start (segments : List Span) : State where
  segments := segments
  place := (segments.head?.map Span.start).getD 0
  nesting := .root
  parts := []
  overflow := none

/-- Moves to another place. -/
def jump (s : State) (place : Nat) : State :=
  { s with place := place }

/-- Adds a finished node. -/
def push (s : State) (node : Node) : State :=
  { s with parts := .done node :: s.parts }

/-- Adds a leaf from the current place on and moves behind it. -/
def pushLeaf (s : State) (src : Source) (kind : MarkupKind) (stop : Nat) : State :=
  (s.push (leafOf src kind s.place stop)).jump stop

/-- Lets the nesting react to a token. -/
def shift (s : State) (event : Event) : State :=
  { s with nesting := s.nesting.shift event }

/-- Lets the nesting react to a complete command. -/
def completeCommand (s : State) : State :=
  { s with nesting := s.nesting.completeCommand }

/-- Records that nesting got too deep at a place, unless it did before. -/
def note (s : State) (place : Option Nat) : State :=
  { s with overflow := Limited.first s.overflow place }

/-- How many delimiters are waiting. -/
def level (s : State) : Nat :=
  (s.parts.findSome? fun
    | .waiting d => some (d.level + 1)
    | .done _ => none).getD 0

/-- Adds a delimiter that waits for its partner. -/
def pushWaiting (s : State) (opener : Opener) (span : Span) : State :=
  { s with parts := .waiting ⟨opener, span, s.level⟩ :: s.parts }

/-- Whether a mark, link or image may still be opened. -/
def hasRoom (s : State) : Bool :=
  s.level < 2 * maxDepth

/-- Opens a mark, link or image.  Past the limit it is text, and the place is recorded. -/
def openMark (s : State) (src : Source) (opener : Opener) (stop : Nat) : State :=
  if s.hasRoom then (s.pushWaiting opener ⟨s.place, stop⟩).jump stop
  else (s.note (some s.place)).pushLeaf src .text stop

/-- Opens a body of a command with the brace at the given place. -/
def openBody (s : State) (brace : Nat) : State :=
  ((s.shift (.opening .brace)).pushWaiting .body ⟨brace, brace + 1⟩).jump (brace + 1)

/-- Wraps the last open command and its bodies. -/
def finishCommand (s : State) (src : Source) : State :=
  match lastCommand? s.parts with
  | some (above, ⟨.command kind head, _, _⟩, below) =>
    completeCommand
      { s with parts := .done (.markup kind (head ++ settle src above)) :: below }
  | _ => s

/-- Turns the last open command with an unclosed body back into text. -/
def degradeCommand (s : State) (src : Source) : State :=
  match lastBody? s.parts with
  | none => s
  | some (above, body, below) =>
    match lastCommand? below with
    | none => s
    | some (between, command, rest) =>
      let text := fun (d : Delimiter) => Part.done (leafOf src .text d.span.start d.span.stop)
      let bodies := between.flatMap fun
        | .done node =>
          if node.isMarkup .contentBlock then (unbrace node).reverse.map .done else [.done node]
        | part => [part]
      completeCommand { s with parts := above ++ text body :: bodies ++ text command :: rest }

/-- Moves to a place in the current stretch or a later one. -/
def jumpAcross (s : State) (place : Nat) : State :=
  { s with segments := skip s.segments, place := place }
where
  /-- Leaves stretches that end before the place, but keeps the last. -/
  skip : List Span → List Span
    | a :: b :: rest => if a.stop < place then skip (b :: rest) else a :: b :: rest
    | segments => segments

end State

/-! ## Rules -/

/-- A place at which rules are tried: the current stretch, and the characters from the place to the end of
the stretch. -/
structure Site where
  /-- The current stretch. -/
  segment : Span
  /-- The characters from the place on. -/
  rest : List Char

/-- The character before the place, within its stretch. -/
def Site.before? (env : Env) (site : Site) (place : Nat) : Option Char :=
  if site.segment.start < place then env.source.before? place else none

/-- A backslash before punctuation that introduces no command. -/
def escapeRule (env : Env) (s : State) (site : Site) : Verdict :=
  match site.rest with
  | _ :: c :: _ =>
    if isPunctuation c && !isIntroducer c then
      .claimed (s.pushLeaf env.source .escape (s.place + 2))
    else .declined
  | _ => .declined

/-- The content of an inline component after its colon: leading white space, then a region of its own. -/
def lineContent (env : Env) (s : State) (limit start : Nat) : Limited (List Node) × Nat :=
  let insideBody := s.nesting.inside .brace
  let stop := start + lineContentLength insideBody 0 (env.source.slice start limit)
  let content := start + runLength isWhitespace (env.source.slice start stop)
  let space := if start < content then [leafOf env.source .space start content] else []
  if content < stop then
    let inner := env.nested ⟨content, stop⟩ .full
    (⟨space ++ [.markup .lineContent inner.value], inner.overflow⟩, stop)
  else (⟨space, none⟩, stop)

/-- A component, by `@` or `.@`, or an interpolation, by `#`. -/
def commandRule (env : Env) (s : State) (site : Site) (kind : MarkupKind) (width : Nat) : Verdict :=
  let src := env.source
  let limit := site.segment.stop
  if (site.before? env s.place).any isWordy then .declined
  else
    match Head.read? src s.place width limit with
    | none => .declined
    | some head =>
      if head.name.isNone && kind != .inlineComponent then .declined
      else
        let rest := src.slice head.stop limit
        let opensBody := rest.head? == some '{'
        if opensBody && 2 * maxDepth ≤ s.nesting.depth then .tooDeep
        else
          let verbatim :=
            if rest.take 2 == ['{', '|'] then
              (verbatimLength? (src.after (head.stop + 2))).bind fun n =>
                let close := head.stop + 2 + n
                if close + 2 ≤ env.stop then some close else none
            else none
          match verbatim with
          | some close =>
            let node := Node.markup kind (head.nodes src ++ [verbatimNode src head.stop close])
            .claimed ((s.push node).jumpAcross (close + 2))
          | none =>
            if opensBody then
              let opener := Opener.command kind (head.nodes src)
              .claimed (((s.shift .introducer).pushWaiting opener ⟨s.place, head.stop⟩).openBody
                head.stop)
            else if head.name.isNone then .declined
            else if kind == .inlineComponent && rest.head? == some ':' &&
                (rest[1]?).all isWhitespace then
              let colon := leafOf src .colon head.stop (head.stop + 1)
              let (content, stop) := lineContent env s limit (head.stop + 1)
              let node := Node.markup kind (head.nodes src ++ colon :: content.value)
              .claimed (((((s.note content.overflow).jump stop).shift .introducer).completeCommand).push
                node)
            else
              let node := Node.markup kind (head.nodes src)
              .claimed ((((s.jump head.stop).shift .introducer).completeCommand).push node)

/-- A reference, by `&`. -/
def referenceRule (env : Env) (s : State) (site : Site) : Verdict :=
  match Head.read? env.source s.place 1 site.segment.stop with
  | none => .declined
  | some head =>
    if head.name.isNone then .declined
    else
      let node := Node.markup .reference (head.nodes env.source)
      .claimed ((((s.shift .introducer).completeCommand).push node).jump head.stop)

/-- A formula between single dollar signs, without white space next to them. -/
def mathRule (env : Env) (s : State) (site : Site) : Verdict :=
  match site.rest with
  | _ :: c :: cs =>
    if c == '$' || isWhitespace c then .declined
    else
      match mathLength? false (c :: cs) with
      | none => .declined
      | some n =>
        let close := s.place + 1 + n
        if (env.source.before? close).any isWhitespace then .declined
        else
          let inner := env.nested ⟨s.place + 1, close⟩ .template
          let node := Node.markup .mathInline
            [leafOf env.source .mathDelim s.place (s.place + 1),
              .markup .mathContent inner.value,
              leafOf env.source .mathDelim close (close + 1)]
          .claimed (((s.note inner.overflow).push node).jump (close + 1))
  | _ => .declined

/-- Code between equal runs of backticks.  A run without partner is text. -/
def codeRule (env : Env) (s : State) (site : Site) : Verdict :=
  let src := env.source
  let width := runLength (· == '\x60') site.rest
  let inside := s.place + width
  match codeLength? width 0 (site.rest.drop width) with
  | none => .claimed (s.pushLeaf src .text inside)
  | some n =>
    let close := inside + n - width
    let node := Node.markup .inlineCode <|
      leafOf src .codeMark s.place inside ::
        (if inside < close then [leafOf src .codeText inside close] else []) ++
        [leafOf src .codeMark close (close + width)]
    .claimed ((s.push node).jump (close + width))

/-- Whether marks up to `stop` can open and close: content must touch them, and underscores must not stand
inside a word. -/
def flanks (env : Env) (s : State) (site : Site) (mark : Char) (stop : Nat) : Bool × Bool :=
  let previous := site.before? env s.place
  let next := (env.source.slice stop site.segment.stop).head?
  if mark == '_' && previous.any isWordy && next.any isWordy then (false, false)
  else (next.any fun c => !isWhitespace c, previous.any fun c => !isWhitespace c)

/-- Closes the last mark that `accept` takes, if one is waiting. -/
def resolve? (env : Env) (s : State) (accept : Opener → Bool) (kind : MarkupKind) (stop : Nat) :
    Option State :=
  (findWaiting? accept Opener.isBarrier s.parts).map fun (above, d, below) =>
    let node := Node.markup kind <|
      leafOf env.source .emphMark d.span.start d.span.stop :: settle env.source above ++
        [leafOf env.source .emphMark s.place stop]
    ({ s with parts := .done node :: below }).jump stop

/-- Emphasis, by one or two stars or underscores.  A longer run is text. -/
def emphasisRule (env : Env) (s : State) (site : Site) (mark : Char) : Verdict :=
  let width := runLength (· == mark) site.rest
  let stop := s.place + width
  if 2 < width then .claimed (s.pushLeaf env.source .text stop)
  else
    let (canOpen, canClose) := flanks env s site mark stop
    let kind := if width == 2 then MarkupKind.strong else .emph
    let closed := if canClose then resolve? env s (Opener.isEmphasis mark width) kind stop else none
    match closed with
    | some s => .claimed s
    | none =>
      if canOpen then .claimed (s.openMark env.source (.emphasis mark width) stop)
      else .claimed (s.pushLeaf env.source .text stop)

/-- Struck-out text, by two tildes. -/
def strikeRule (env : Env) (s : State) (site : Site) : Verdict :=
  if runLength (· == '~') site.rest != 2 then .declined
  else
    let stop := s.place + 2
    let (canOpen, canClose) := flanks env s site '~' stop
    let closed := if canClose then resolve? env s Opener.isStrike .strikethrough stop else none
    match closed with
    | some s => .claimed s
    | none => if canOpen then .claimed (s.openMark env.source .strike stop) else .declined

/-- The start of a link or image. -/
def linkOpenRule (env : Env) (s : State) (image : Bool) : Verdict :=
  let opened := s.openMark env.source (.link image) (s.place + if image then 2 else 1)
  .claimed (if s.hasRoom then opened.shift (.opening .square) else opened)

/-- The end of a link or image, with its destination. -/
def linkCloseRule (env : Env) (s : State) (site : Site) : Verdict :=
  let src := env.source
  match site.rest with
  | _ :: '(' :: cs =>
    match groupLength? .paren cs with
    | none => .declined
    | some n =>
      match findWaiting? Opener.isLink Opener.isBarrier s.parts with
      | none => .declined
      | some (above, d, below) =>
        let close := s.place
        let stop := close + 2 + n
        let url := if close + 2 < stop then [leafOf src .url (close + 2) stop] else []
        let kind := if d.opener matches .link true then MarkupKind.image else .link
        let node := Node.markup kind <|
          leafOf src .linkMark d.span.start d.span.stop :: settle src above ++
            [leafOf src .linkMark close (close + 1), leafOf src .linkMark (close + 1) (close + 2)] ++
            url ++ [leafOf src .linkMark stop (stop + 1)]
        .claimed ((({ s with parts := below }.shift (.closing .square)).push node).jump (stop + 1))
  | _ => .declined

/-- An address in angle brackets. -/
def addressRule (env : Env) (s : State) (site : Site) : Verdict :=
  match addressLength? site.rest.tail with
  | none => .declined
  | some n =>
    let stop := s.place + 1 + n
    let node := Node.markup .autolink
      [leafOf env.source .linkMark s.place (s.place + 1),
        leafOf env.source .url (s.place + 1) stop,
        leafOf env.source .linkMark stop (stop + 1)]
    .claimed ((s.push node).jump (stop + 1))

/-- Three hyphens. -/
def dashRule (env : Env) (s : State) (site : Site) : Verdict :=
  if runLength (· == '-') site.rest == 3 then
    .claimed (s.pushLeaf env.source .special (s.place + 3))
  else .declined

/-- A comment to the end of the line, at its start or after white space. -/
def commentRule (env : Env) (s : State) (site : Site) : Verdict :=
  if site.rest.take 2 == ['/', '/'] &&
      (s.place == site.segment.start || (site.before? env s.place).any isWhitespace) then
    .claimed (s.pushLeaf env.source .lineComment site.segment.stop)
  else .declined

/-- The end of a body of a command.  Another body may follow at once. -/
def closeBodyRule (env : Env) (s : State) (site : Site) : Verdict :=
  let src := env.source
  if !s.nesting.closes .brace then .declined
  else
    match lastBody? s.parts with
    | none => .declined
    | some (above, d, below) =>
      let close := s.place
      let block := Node.markup .contentBlock <|
        leafOf src .leftBrace d.span.start d.span.stop :: settle src above ++
          [leafOf src .rightBrace close (close + 1)]
      let s := ({ s with parts := .done block :: below }.shift (.closing .brace)).jump (close + 1)
      match site.rest.tail with
      | '{' :: '|' :: _ => .claimed (s.finishCommand src)
      | '{' :: _ => .claimed (s.openBody (close + 1))
      | _ => .claimed (s.finishCommand src)

/-- The rule for a character where all rules are active. -/
def fullRule (env : Env) (s : State) (site : Site) (c : Char) : Verdict :=
  let next := site.rest[1]?
  if c == '\\' then escapeRule env s site
  else if c == '@' then commandRule env s site .inlineComponent 1
  else if c == '.' then
    if next == some '@' then commandRule env s site .inlineComponent 2 else .declined
  else if c == '#' then commandRule env s site .interpolation 1
  else if c == '&' then referenceRule env s site
  else if c == '$' then mathRule env s site
  else if c == '\x60' then codeRule env s site
  else if c == '*' || c == '_' then emphasisRule env s site c
  else if c == '~' then strikeRule env s site
  else if c == '[' then linkOpenRule env s false
  else if c == '!' then if next == some '[' then linkOpenRule env s true else .declined
  else if c == ']' then linkCloseRule env s site
  else if c == '<' then addressRule env s site
  else if c == '-' then dashRule env s site
  else if c == '/' then commentRule env s site
  else if c == '}' then closeBodyRule env s site
  else .declined

/-- The rule for a character in a formula. -/
def templateRule (env : Env) (s : State) (site : Site) (c : Char) : Verdict :=
  let next := site.rest[1]?
  if c == '\\' then
    if next == some '$' || next == some '#' then
      .claimed (s.pushLeaf env.source .escape (s.place + 2))
    else .declined
  else if c == '#' then commandRule env s site .interpolation 1
  else if c == '}' then closeBodyRule env s site
  else .declined

/-- The token that a character of plain text is to the nesting. -/
def literalEvent (c : Char) : Event :=
  match Bracket.openedBy? c, Bracket.closedBy? c with
  | some b, _ => .opening b
  | none, some b => .closing b
  | none, none => .other

/-- Lets the nesting react to literal braces left open by plain text. -/
def openBraces : Nat → State → State
  | 0, s => s
  | n + 1, s => openBraces n (s.shift (.opening .brace))

/-- Takes plain text: as much as possible, but at least the character at the place. -/
def plainText (env : Env) (s : State) (site : Site) (c : Char) : State :=
  let (n, opened) := plainRun s.nesting.inHead s.nesting.inBody 0 site.rest
  if 0 < n then
    ((openBraces opened s).pushLeaf env.source .text (s.place + n)).shift .other
  else (s.shift (literalEvent c)).pushLeaf env.source .text (s.place + 1)

/-! ## Reading a region -/

/-- Moves on to the next stretch.  What lies between the two is a line break. -/
def nextSegment (env : Env) (s : State) (segment : Span) (later : List Span) : State :=
  match later with
  | [] => { s with segments := [] }
  | next :: _ =>
    let s := { s with segments := later }
    let s := if segment.stop < next.start then
      s.push (leafOf env.source .newline segment.stop next.start) else s
    (s.shift .newline).jump next.start

/-- Reads what stands at the current place. -/
def step (env : Env) (s : State) (segment : Span) (later : List Span) : State :=
  if segment.stop ≤ s.place then nextSegment env s segment later
  else if s.overflow.isSome then s.pushLeaf env.source .text segment.stop
  else
    let rest := env.source.slice s.place segment.stop
    match rest with
    | [] => { s with segments := [] }
    | c :: _ =>
      let site : Site := ⟨segment, rest⟩
      let verdict :=
        match env.mode with
        | .full => fullRule env s site c
        | .template => templateRule env s site c
      match verdict with
      | .claimed s => if c == '}' || c == '{' then s else s.shift .other
      | .declined => plainText env s site c
      | .tooDeep => plainText env (s.note (some s.place)) site c

/-- Reads the region to its end. -/
def readRegion (env : Env) : Nat → State → State
  | 0, s => s
  | fuel + 1, s =>
    match s.segments with
    | [] => s
    | segment :: later => readRegion env fuel (step env s segment later)

/-- Closes the commands left open: at the end of the text an unclosed body is kept as it is, elsewhere the
command becomes text. -/
def closeCommands (env : Env) : Nat → State → State
  | 0, s => s
  | fuel + 1, s =>
    match lastBody? s.parts with
    | none => s
    | some (above, d, below) =>
      if env.atEnd then
        let block := Node.markup .contentBlock <|
          leafOf env.source .leftBrace d.span.start d.span.stop :: settle env.source above
        closeCommands env fuel
          (({ s with parts := .done block :: below } : State).finishCommand env.source)
      else closeCommands env fuel (s.degradeCommand env.source)

/-- How many steps are enough to read stretches: one for each place of each of them, and one to leave it. -/
def regionSteps : List Span → Nat
  | [] => 1
  | segment :: later => segment.stop + 1 + regionSteps later

/-- Reads a region, given how regions inside it are read. -/
def readInline (src : Source) (nested : Span → Mode → Limited (List Node)) (segments : List Span)
    (mode : Mode) : Limited (List Node) :=
  let stop := (segments.getLast?.map Span.stop).getD 0
  let env : Env :=
    { source := src, mode := mode, stop := stop, atEnd := isAllWhite (src.after stop), nested := nested }
  let s := readRegion env (regionSteps segments) (.start segments)
  let s := closeCommands env s.parts.length s
  ⟨settle src s.parts, s.overflow⟩

/-- Reads a region that may hold `levels` more levels of regions inside each other. -/
def inlineNodes (src : Source) : (levels : Nat) → List Span → Mode → Limited (List Node)
  | 0 => readInline src fun s _ => ⟨[leafOf src .text s.start s.stop], some s.start⟩
  | levels + 1 => readInline src fun s mode => inlineNodes src levels [s] mode

end ComponentMarkup.Markup
