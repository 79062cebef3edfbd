/-!
    Cursors into YAML text.

    A cursor knows the text that is left and its place by line and column. Behind the end it shows
    NUL, which no text holds. -/

namespace FleetLabels.Yaml

/-- Whether a character ends a line; a carriage return and the line feed after it end one line. -/
def isBreak (c : Char) : Bool :=
  c == '\n' || c == '\r' || c == '\u0085' || c == '\u2028' || c == '\u2029'

def isBreakOrEnd (c : Char) : Bool := isBreak c || c == '\x00'

/-- Whether a character is space, ends a line, or stands for the end. -/
def isGap (c : Char) : Bool := isBreakOrEnd c || c == ' ' || c == '\t'

/-- The characters that a text may hold. -/
def isAllowed (c : Char) : Bool :=
  let n := c.toNat
  n == 9 || n == 10 || n == 13 || (0x20 ≤ n && n ≤ 0x7E) || n == 0x85 ||
    (0xA0 ≤ n && n ≤ 0xD7FF) || (0xE000 ≤ n && n ≤ 0xFFFD) || 0x10000 ≤ n

structure Cursor where
  rest : List Char
  index : Nat
  line : Nat
  column : Nat

namespace Cursor

def ofText (cs : List Char) : Cursor := ⟨cs, 0, 0, 0⟩

/-- The character a number of places ahead. -/
def peek (n : Nat) (c : Cursor) : Char := c.rest.getD n '\x00'

def head (c : Cursor) : Char := c.peek 0

/-- One character on. A byte order mark takes no column. -/
def next (c : Cursor) : Cursor :=
  match c.rest with
  | [] => c
  | x :: rest =>
    if isBreak x && !(x == '\r' && rest.head? == some '\n') then ⟨rest, c.index + 1, c.line + 1, 0⟩
    else if x == '\ufeff' then ⟨rest, c.index + 1, c.line, c.column⟩
    else ⟨rest, c.index + 1, c.line, c.column + 1⟩

def skip : Nat → Cursor → Cursor
  | 0, c => c
  | n + 1, c => c.next.skip n

/-- The characters up to the first that does not satisfy `p`. -/
def takeWhile (p : Char → Bool) (c : Cursor) : List Char × Cursor :=
  let cs := c.rest.takeWhile p
  (cs, c.skip cs.length)

def skipWhile (p : Char → Bool) (c : Cursor) : Cursor := (c.takeWhile p).2

/-- The line break at the cursor, as the text takes it over, and the cursor behind it. -/
def lineBreak (c : Cursor) : List Char × Cursor :=
  let x := c.head
  if x == '\u2028' || x == '\u2029' then ([x], c.next)
  else if x == '\r' && c.peek 1 == '\n' then (['\n'], c.skip 2)
  else if isBreak x then (['\n'], c.next)
  else ([], c)

/-- Whether three marks of a kind stand at the cursor, with a gap after them. -/
def atMark (mark : Char) (c : Cursor) : Bool :=
  c.peek 0 == mark && c.peek 1 == mark && c.peek 2 == mark && isGap (c.peek 3)

/-- Whether a mark between documents stands at the cursor. -/
def atSeparator (c : Cursor) : Bool := c.atMark '-' || c.atMark '.'

end Cursor

end FleetLabels.Yaml
