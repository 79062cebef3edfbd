import FleetLabels.Yaml.Plain

/-!
    Tokens of YAML text.

    Block collections have no marks of their own: they start where something is indented further
    than what surrounds it, and end where the indentation goes back. A mapping key is known as one
    only by the colon after it, so everything that may be a key is remembered until the colon comes
    or cannot come any more, and the colon puts the key token before it.

    `Token.scan` gives the tokens up to the end of the text or to the first place where there is no
    token. -/

namespace FleetLabels.Yaml

inductive Token where
  /-- a directive, and whether it tells the version of the language -/
  | directive (version : Bool)
  | documentStart
  | documentEnd
  | streamEnd
  | blockSequence
  | blockMapping
  | blockEnd
  | flowSequence
  | flowSequenceEnd
  | flowMapping
  | flowMappingEnd
  | flowEntry
  | blockEntry
  | key
  | value
  | alias (name : List Char)
  | anchor (name : List Char)
  | tag (name : String)
  | scalar (text : List Char) (plain : Bool)
  deriving DecidableEq, Repr

/-- Something that a colon may make a key. -/
structure PossibleKey where
  /-- how many tokens stand before it -/
  number : Nat
  /-- whether nothing but a key can stand at its place -/
  required : Bool
  line : Nat
  index : Nat
  column : Nat

structure Scanner where
  cursor : Cursor
  /-- how many flow collections are open -/
  flow : Nat
  /-- the indentation of the innermost block collection, -1 outside of all -/
  indent : Int
  /-- the indentations of the outer ones, innermost first -/
  outer : List Int
  /-- whether a key may start at the cursor -/
  allowKey : Bool
  /-- the possible keys by the number of open flow collections -/
  keys : List (Nat × PossibleKey)
  /-- the tokens so far, newest first -/
  tokens : List Token
  count : Nat

namespace Scanner

def ofText (cs : List Char) : Scanner := ⟨.ofText cs, 0, -1, [], true, [], [], 0⟩

def push (t : Token) (s : Scanner) : Scanner :=
  { s with tokens := t :: s.tokens, count := s.count + 1 }

/-- Tokens put where only `number` tokens stood before. -/
def insertAt (number : Nat) (ts : List Token) (s : Scanner) : Scanner :=
  let later := s.count - number
  { s with
    tokens := s.tokens.take later ++ ts.reverse ++ s.tokens.drop later
    count := s.count + ts.length }

def forward (n : Nat) (s : Scanner) : Scanner := { s with cursor := s.cursor.skip n }

/-- The column, as indentations are counted. -/
def column (s : Scanner) : Int := s.cursor.column

/-- Spaces, comments and line breaks passed. A key may start on a new line of a block. -/
def skipBlank : Nat → Scanner → Scanner
  | 0, s => s
  | fuel + 1, s =>
    let c := s.cursor.skipWhile (· == ' ')
    let c := if c.head == '#' then c.skipWhile fun x => !isBreak x else c
    if isBreak c.head then
      skipBlank fuel { s with cursor := c.lineBreak.2, allowKey := s.allowKey || s.flow == 0 }
    else { s with cursor := c }

/-- Keys whose colon cannot come any more are given up: it has to come on the same line, and not too
    far away. -/
def dropStaleKeys (s : Scanner) : Option Scanner :=
  let stale (k : PossibleKey) := k.line != s.cursor.line || 1024 < s.cursor.index - k.index
  if s.keys.any fun k => stale k.2 && k.2.required then none
  else some { s with keys := s.keys.filter fun k => !stale k.2 }

/-- The possible key among what is open now is given up. -/
def removeKey (s : Scanner) : Option Scanner :=
  if s.keys.any fun k => k.1 == s.flow && k.2.required then none
  else some { s with keys := s.keys.filter fun k => k.1 != s.flow }

/-- What comes next is remembered as a possible key. -/
def saveKey (s : Scanner) : Option Scanner :=
  if s.allowKey then do
    let s ← s.removeKey
    let required := s.flow == 0 && s.indent == s.column
    let key : PossibleKey := ⟨s.count, required, s.cursor.line, s.cursor.index, s.cursor.column⟩
    return { s with keys := (s.flow, key) :: s.keys }
  else some s

/-- Block collections that are indented further than a column end. -/
def unwindFrom (column : Int) : Int → List Int → Scanner → Scanner
  | indent, [], s => { s with indent, outer := [] }
  | indent, i :: rest, s =>
    if column < indent then unwindFrom column i rest (s.push .blockEnd)
    else { s with indent, outer := i :: rest }

def unwind (column : Int) (s : Scanner) : Scanner :=
  if s.flow == 0 then unwindFrom column s.indent s.outer s else s

/-- Whether a block collection starts at a column, and the indentation from then on. -/
def addIndent (column : Int) (s : Scanner) : Bool × Scanner :=
  if s.indent < column then (true, { s with indent := column, outer := s.indent :: s.outer })
  else (false, s)

/-- A block collection that starts here, if it does. -/
def openBlock (t : Token) (s : Scanner) : Scanner :=
  let (added, s) := s.addIndent s.column
  if added then s.push t else s

def withAllowKey (b : Bool) (s : Scanner) : Scanner := { s with allowKey := b }

/-- A mark between documents. -/
def documentMark (t : Token) (s : Scanner) : Option Scanner := do
  let s ← (s.unwind (-1)).removeKey
  return ((s.withAllowKey false).push t).forward 3

def streamEnd (s : Scanner) : Option Scanner := do
  let s ← (s.unwind (-1)).removeKey
  return { s.push .streamEnd with allowKey := false, keys := [] }

def flowStart (t : Token) (s : Scanner) : Option Scanner := do
  let s ← s.saveKey
  return (({ s with flow := s.flow + 1, allowKey := true }).push t).forward 1

def flowEnd (t : Token) (s : Scanner) : Option Scanner := do
  let s ← s.removeKey
  return (({ s with flow := s.flow - 1, allowKey := false }).push t).forward 1

def flowEntry (s : Scanner) : Option Scanner := do
  let s ← s.removeKey
  return ((s.withAllowKey true).push .flowEntry).forward 1

def blockEntry (s : Scanner) : Option Scanner := do
  let s ← if s.flow == 0 then
    (if s.allowKey then some (s.openBlock .blockSequence) else none) else some s
  let s ← (s.withAllowKey true).removeKey
  return (s.push .blockEntry).forward 1

def keyMark (s : Scanner) : Option Scanner := do
  let s ← if s.flow == 0 then
    (if s.allowKey then some (s.openBlock .blockMapping) else none) else some s
  let s ← (s.withAllowKey (s.flow == 0)).removeKey
  return (s.push .key).forward 1

/-- The colon after a key that was remembered, or after nothing. -/
def valueMark (s : Scanner) : Option Scanner :=
  match s.keys.find? fun k => k.1 == s.flow with
  | some (_, k) =>
    let s := { s with keys := s.keys.filter fun k => k.1 != s.flow }
    let s := s.insertAt k.number [.key]
    let (added, s) := if s.flow == 0 then s.addIndent k.column else (false, s)
    let s := if added then s.insertAt k.number [.blockMapping] else s
    some (((s.withAllowKey false).push .value).forward 1)
  | none => do
    let s ← if s.flow == 0 then
      (if s.allowKey then some (s.openBlock .blockMapping) else none) else some s
    let s ← (s.withAllowKey (s.flow == 0)).removeKey
    return (s.push .value).forward 1

def isNameChar (c : Char) : Bool :=
  ('0' ≤ c && c ≤ '9') || ('A' ≤ c && c ≤ 'Z') || ('a' ≤ c && c ≤ 'z') || c == '-' || c == '_'

/-- A name that refers to a node, or that a node is referred to by. -/
def named (t : List Char → Token) (s : Scanner) : Option Scanner := do
  let s ← s.saveKey
  let (name, c) := s.cursor.next.takeWhile isNameChar
  let ends := isGap c.head || "?:,]\x7d%@\u0060".toList.contains c.head
  if name.isEmpty || !ends then none
  else some { (s.withAllowKey false).push (t name) with cursor := c }

/-- The characters of the tags of nodes. -/
def isTagChar (c : Char) : Bool := isNameChar c || "-;/?:@&=+$,_.!~*'()[]".toList.contains c

/-- A tag, written out. -/
def readTag (c : Cursor) : Option (String × Cursor) :=
  if c.peek 1 == '<' then
    let (name, c) := (c.skip 2).takeWhile isTagChar
    if name.isEmpty || c.head != '>' then none else some (String.ofList name, c.next)
  else if isGap (c.peek 1) then some ("!", c.next)
  else if c.peek 1 == '!' then
    let (name, c) := (c.skip 2).takeWhile isTagChar
    if name.isEmpty then none else some (coreTag ++ String.ofList name, c)
  else
    let (name, c) := c.next.takeWhile isTagChar
    if name.isEmpty || name.contains '!' then none else some ("!" ++ String.ofList name, c)

def tagged (s : Scanner) : Option Scanner := do
  let s ← s.saveKey
  let (name, c) ← readTag s.cursor
  if isBreakOrEnd c.head || c.head == ' ' then
    some { (s.withAllowKey false).push (.tag name) with cursor := c }
  else none

def blockScalar (s : Scanner) : Option Scanner := do
  let s ← (s.withAllowKey true).removeKey
  let (text, c) ← readBlock s.indent s.cursor
  return { s.push (.scalar text false) with cursor := c }

def quotedScalar (s : Scanner) : Option Scanner := do
  let s ← s.saveKey
  let (text, c) ← readQuoted s.cursor
  return { (s.withAllowKey false).push (.scalar text false) with cursor := c }

def plainScalar (s : Scanner) : Option Scanner := do
  let s ← s.saveKey
  let (text, crossed, c) := readPlain (s.flow != 0) (s.indent + 1) s.cursor
  return { (s.withAllowKey crossed).push (.scalar text true) with cursor := c }

/-- A version of the language that is read, passed. -/
def readVersion (c : Cursor) : Option Cursor :=
  let (major, c) := (c.skipWhile (· == ' ')).takeWhile Calendar.isDigit
  let (minor, c') := c.next.takeWhile Calendar.isDigit
  let ends := isBreakOrEnd c'.head || c'.head == ' '
  if major == ['1'] && c.head == '.' && !minor.isEmpty && ends then some c' else none

/-- A directive line. When it tells the version, that has to be known. -/
def directive (s : Scanner) : Option Scanner := do
  let s ← (s.unwind (-1)).removeKey
  let (name, c) := s.cursor.next.takeWhile isNameChar
  if name.isEmpty || !(isBreakOrEnd c.head || c.head == ' ') then none
  else
    let version := name == "YAML".toList
    let c ← if version then (readVersion c).bind endHeader
      else some (c.skipWhile fun x => !isBreak x)
    return { (s.withAllowKey false).push (.directive version) with cursor := c }

/-- Whether a plain scalar starts at the cursor. -/
def startsPlain (s : Scanner) : Bool :=
  let x := s.cursor.head
  let y := s.cursor.peek 1
  if x == '-' then !isGap y
  else if x == '?' || x == ':' then !isGap y && s.flow == 0
  else !isGap x && !",[]\x7b\x7d#&*!|>'\"%@\u0060".toList.contains x

/-- The next token; the flag tells that it is the last one. -/
def fetch (s : Scanner) : Option (Bool × Scanner) := do
  let s ← (s.skipBlank (s.cursor.rest.length + 1)).dropStaleKeys
  let s := s.unwind s.column
  let c := s.cursor
  let more (r : Option Scanner) : Option (Bool × Scanner) := r.map fun s => (false, s)
  let x := c.head
  if c.rest.isEmpty then return (true, ← s.streamEnd)
  else if x == '%' && c.column == 0 then more s.directive
  else if c.column == 0 && c.atMark '-' then more (s.documentMark .documentStart)
  else if c.column == 0 && c.atMark '.' then more (s.documentMark .documentEnd)
  else if x == '[' then more (s.flowStart .flowSequence)
  else if x == '\x7b' then more (s.flowStart .flowMapping)
  else if x == ']' then more (s.flowEnd .flowSequenceEnd)
  else if x == '\x7d' then more (s.flowEnd .flowMappingEnd)
  else if x == ',' then more s.flowEntry
  else if x == '-' && isGap (c.peek 1) then more s.blockEntry
  else if x == '?' && (s.flow != 0 || isGap (c.peek 1)) then more s.keyMark
  else if x == ':' && (s.flow != 0 || isGap (c.peek 1)) then more s.valueMark
  else if x == '*' then more (s.named .alias)
  else if x == '&' then more (s.named .anchor)
  else if x == '!' then more s.tagged
  else if (x == '|' || x == '>') && s.flow == 0 then more s.blockScalar
  else if x == '\'' || x == '"' then more s.quotedScalar
  else if s.startsPlain then more s.plainScalar
  else none

/-- The tokens that are certain, newest first: behind a possible key nothing is, because a colon may
    still put tokens before it. -/
def certain (s : Scanner) : List Token :=
  match (s.keys.map fun k => k.2.number).min? with
  | some number => s.tokens.drop (s.count - number)
  | none => s.tokens

/-- All tokens from here on, newest first. -/
def run : Nat → Scanner → List Token
  | 0, s => s.certain
  | fuel + 1, s =>
    match s.fetch with
    | none => (s.dropStaleKeys.getD s).certain
    | some (true, s) => s.tokens
    | some (false, s) => run fuel s

end Scanner

/-- The tokens of a text; the last one is `streamEnd` when the whole text was read. A byte order
    mark at the start is passed over, and a text with a character that is not allowed has no
    tokens. -/
def Token.scan (cs : List Char) : List Token :=
  if cs.all isAllowed then
    let cs := if cs.head? == some '\ufeff' then cs.tail else cs
    ((Scanner.ofText cs).run (cs.length + 1)).reverse
  else []

end FleetLabels.Yaml
