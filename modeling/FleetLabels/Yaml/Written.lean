import FleetLabels.Yaml.Cursor

/-!
    The written forms of scalars.

    A scalar is written plainly, between quotes, or as a block of lines. Line breaks inside the first
    two fold: a single one is a space, and of several all but the first stay. A block keeps its lines
    (`literal`) or folds those that do not start with a space (`folded`); its header tells how much
    it is indented and what becomes of the line breaks at its end.

    Every reader counts its steps down from the length of the text that is left, and each step
    passes at least one character. -/

namespace FleetLabels.Yaml

/-- A line break and the further ones after it, folded. -/
def folding (first further : List Char) : List Char :=
  if first != ['\n'] then first ++ further
  else if further.isEmpty then [' '] else further

/-- The characters that have a meaning of their own inside flow collections. -/
def isFlowMark (c : Char) : Bool :=
  c == ',' || c == '[' || c == ']' || c == '\x7b' || c == '\x7d'

/-- Whether a plain scalar stops before `x`, which `y` follows. -/
def stopsPlain (flow : Bool) (x y : Char) : Bool :=
  isGap x || (x == ':' && (isGap y || (flow && isFlowMark y))) ||
    (flow && (isFlowMark x || x == '?'))

/-- The length of the run of characters that belong to a plain scalar. -/
def plainLength (flow : Bool) : List Char → Nat
  | [] => 0
  | x :: rest => if stopsPlain flow x (rest.headD '\x00') then 0 else plainLength flow rest + 1

/-- The line breaks between two lines of a plain scalar, unless a mark between documents follows. -/
def plainBreaks : Nat → List Char → Cursor → Option (List Char) × Cursor
  | 0, acc, c => (some acc, c)
  | fuel + 1, acc, c =>
    if c.head == ' ' then plainBreaks fuel acc c.next
    else if isBreak c.head then
      let (b, c) := c.lineBreak
      if c.atSeparator then (none, c) else plainBreaks fuel (acc ++ b) c
    else (some acc, c)

/-- What stands between two runs of a plain scalar, whether a line ends there, and the cursor behind
    it. -/
def plainSpaces (c : Cursor) : List Char × Bool × Cursor :=
  let (spaces, c) := c.takeWhile (· == ' ')
  if isBreak c.head then
    let (first, c) := c.lineBreak
    if c.atSeparator then ([], true, c)
    else
      match plainBreaks (c.rest.length + 1) [] c with
      | (some further, c) => (folding first further, true, c)
      | (none, c) => ([], true, c)
  else (spaces, false, c)

/-- The runs of a plain scalar. Outside flow collections the lines after the first are indented by
    at least `indent`. The flag tells whether the scalar ended behind a line break. -/
def plainRuns (flow : Bool) (indent : Int) :
    Nat → List Char → List Char → Bool → Cursor → List Char × Bool × Cursor
  | 0, acc, _, crossed, c => (acc, crossed, c)
  | fuel + 1, acc, spaces, crossed, c =>
    let n := if c.head == '#' then 0 else plainLength flow c.rest
    if n == 0 then (acc, crossed, c)
    else
      let acc := acc ++ spaces ++ c.rest.take n
      let (spaces, crossed, c) := plainSpaces (c.skip n)
      if spaces.isEmpty || c.head == '#' || (!flow && (c.column : Int) < indent) then
        (acc, crossed, c)
      else plainRuns flow indent fuel acc spaces crossed c

/-- A plain scalar, with whether it ended behind a line break. -/
def readPlain (flow : Bool) (indent : Int) (c : Cursor) : List Char × Bool × Cursor :=
  plainRuns flow indent (c.rest.length + 1) [] [] false c

/-- The line breaks between two lines of a quoted scalar; a mark between documents is an error. -/
def quotedBreaks : Nat → List Char → Cursor → Option (List Char × Cursor)
  | 0, acc, c => some (acc, c)
  | fuel + 1, acc, c =>
    if c.atSeparator then none
    else
      let c := c.skipWhile fun x => x == ' ' || x == '\t'
      if isBreak c.head then
        let (b, c) := c.lineBreak
        quotedBreaks fuel (acc ++ b) c
      else some (acc, c)

/-- The characters that one letter after a backslash stands for. -/
def escaped? (c : Char) : Option Char :=
  match c with
  | '0' => some '\x00'
  | 'a' => some '\x07'
  | 'b' => some '\x08'
  | 't' => some '\t'
  | '\t' => some '\t'
  | 'n' => some '\n'
  | 'v' => some '\x0b'
  | 'f' => some '\x0c'
  | 'r' => some '\r'
  | 'e' => some '\x1b'
  | ' ' => some ' '
  | '"' => some '"'
  | '\\' => some '\\'
  | '/' => some '/'
  | 'N' => some '\u0085'
  | '_' => some '\u00a0'
  | 'L' => some '\u2028'
  | 'P' => some '\u2029'
  | _ => none

/-- The number of hexadecimal digits that follow a letter after a backslash. -/
def escapeLength? (c : Char) : Option Nat :=
  match c with
  | 'x' => some 2
  | 'u' => some 4
  | 'U' => some 8
  | _ => none

def hexValue? (c : Char) : Option Nat :=
  if '0' ≤ c && c ≤ '9' then some (c.toNat - 48)
  else if 'a' ≤ c && c ≤ 'f' then some (c.toNat - 87)
  else if 'A' ≤ c && c ≤ 'F' then some (c.toNat - 55)
  else none

/-- The number that hexadecimal digits spell. -/
def hexNumber? (cs : List Char) : Option Nat :=
  cs.foldlM (fun n c => (hexValue? c).map (n * 16 + ·)) 0

/-- What an escape stands for, and the cursor behind it; the backslash is passed already. -/
def readEscape (c : Cursor) : Option (List Char × Cursor) :=
  if isBreak c.head then
    let c := c.lineBreak.2
    quotedBreaks (c.rest.length + 1) [] c
  else
    match escaped? c.head, escapeLength? c.head with
    | some x, _ => some ([x], c.next)
    | none, some n =>
      let ds := (c.next.rest).take n
      if ds.length == n then
        (hexNumber? ds).map fun code => ([Char.ofNat code], c.next.skip n)
      else none
    | none, none => none

/-- The text up to the closing quote, and the cursor behind it. -/
def quotedText (double : Bool) : Nat → List Char → Cursor → Option (List Char × Cursor)
  | 0, _, _ => none
  | fuel + 1, acc, c =>
    let x := c.head
    if c.rest.isEmpty then none
    else if double && x == '"' then some (acc, c.next)
    else if !double && x == '\'' then
      if c.peek 1 == '\'' then quotedText double fuel (acc ++ [x]) (c.skip 2)
      else some (acc, c.next)
    else if double && x == '\\' then
      match readEscape c.next with
      | some (cs, c) => quotedText double fuel (acc ++ cs) c
      | none => none
    else if x == ' ' || x == '\t' || isBreak x then
      let (spaces, c) := c.takeWhile fun x => x == ' ' || x == '\t'
      if isBreak c.head then
        let (first, c) := c.lineBreak
        match quotedBreaks (c.rest.length + 1) [] c with
        | some (further, c) => quotedText double fuel (acc ++ folding first further) c
        | none => none
      else quotedText double fuel (acc ++ spaces) c
    else quotedText double fuel (acc ++ [x]) c.next

/-- A quoted scalar; the cursor stands before the opening quote. -/
def readQuoted (c : Cursor) : Option (List Char × Cursor) :=
  quotedText (c.head == '"') (c.rest.length + 1) [] c.next

/-- What becomes of the line breaks at the end of a block. -/
inductive Chomping where
  | strip
  | clip
  | keep
  deriving DecidableEq

/-- A sign for the line breaks at the end, if there is one. -/
def readChomping (c : Cursor) : Option Chomping × Cursor :=
  if c.head == '+' then (some .keep, c.next)
  else if c.head == '-' then (some .strip, c.next)
  else (none, c)

/-- A digit for the indentation, if there is one; zero is an error. -/
def readIncrement (c : Cursor) : Option (Option Nat × Cursor) :=
  if c.head == '0' then none
  else if '1' ≤ c.head && c.head ≤ '9' then some (some (c.head.toNat - 48), c.next)
  else some (none, c)

/-- The rest of a header: spaces, a comment and the end of the line. -/
def endHeader (c : Cursor) : Option Cursor :=
  let c := c.skipWhile (· == ' ')
  let c := if c.head == '#' then c.skipWhile fun x => !isBreak x else c
  if isBreakOrEnd c.head then some c.lineBreak.2 else none

/-- The header of a block, its sign before or after its digit. -/
def readHeader (c : Cursor) : Option (Chomping × Option Nat × Cursor) := do
  let (early, c) := readChomping c
  let (increment, c) ← readIncrement c
  let (late, c) := if early.isNone && increment.isSome then readChomping c else (none, c)
  if isBreakOrEnd c.head || c.head == ' ' then
    return ((early.orElse fun _ => late).getD .clip, increment, ← endHeader c)
  else none

/-- The empty lines before a block, and the greatest indentation among them and the first line. -/
def blockIndentation : Nat → List Char → Nat → Cursor → List Char × Nat × Cursor
  | 0, acc, deepest, c => (acc, deepest, c)
  | fuel + 1, acc, deepest, c =>
    if c.head == ' ' then
      let c := c.next
      blockIndentation fuel acc (max deepest c.column) c
    else if isBreak c.head then
      let (b, c) := c.lineBreak
      blockIndentation fuel (acc ++ b) deepest c
    else (acc, deepest, c)

/-- Up to `n` spaces passed. -/
def skipSpaces : Nat → Cursor → Cursor
  | 0, c => c
  | n + 1, c => if c.head == ' ' then skipSpaces n c.next else c

/-- The empty lines inside a block, with the indentation of the next line passed. -/
def blockBreaks (indent : Nat) : Nat → List Char → Cursor → List Char × Cursor
  | 0, acc, c => (acc, c)
  | fuel + 1, acc, c =>
    let c := skipSpaces (indent - c.column) c
    if isBreak c.head then
      let (b, c) := c.lineBreak
      blockBreaks indent fuel (acc ++ b) c
    else (acc, c)

/-- The lines of a block: the text so far, the last line break and the empty lines after it. -/
def blockLines (folded : Bool) (indent : Nat) :
    Nat → List Char → List Char → List Char → Cursor → List Char × List Char × List Char × Cursor
  | 0, acc, last, breaks, c => (acc, last, breaks, c)
  | fuel + 1, acc, last, breaks, c =>
    if c.column != indent || c.rest.isEmpty then (acc, last, breaks, c)
    else
      let starts := c.head != ' ' && c.head != '\t'
      let (line, c) := c.takeWhile fun x => !isBreak x
      let (last, c) := c.lineBreak
      let text := acc ++ breaks ++ line
      let (breaks, c) := blockBreaks indent (c.rest.length + 1) [] c
      if c.column == indent && !c.rest.isEmpty then
        let joint :=
          if folded && last == ['\n'] && starts && c.head != ' ' && c.head != '\t' then
            (if breaks.isEmpty then [' '] else [])
          else last
        blockLines folded indent fuel (text ++ joint) last breaks c
      else (text, last, breaks, c)

/-- A block scalar inside a block that is indented by `outer`; the cursor stands before its mark. -/
def readBlock (outer : Int) (c : Cursor) : Option (List Char × Cursor) := do
  let folded := c.head == '>'
  let (chomping, increment, c) ← readHeader c.next
  let least := (max 1 (outer + 1)).toNat
  let (indent, breaks, c) := match increment with
    | some n =>
      let indent := least + n - 1
      let (breaks, c) := blockBreaks indent (c.rest.length + 1) [] c
      (indent, breaks, c)
    | none =>
      let (breaks, deepest, c) := blockIndentation (c.rest.length + 1) [] 0 c
      (max least deepest, breaks, c)
  let (text, last, breaks, c) := blockLines folded indent (c.rest.length + 1) [] [] breaks c
  let tail := match chomping with
    | .strip => []
    | .clip => last
    | .keep => last ++ breaks
  return (text ++ tail, c)

end FleetLabels.Yaml
