import FleetLabels.Json.Basic
import FleetLabels.Text.Quoted

/-!
    Canonical JSON text.

    Members stand in the order of their keys by code point, and everything outside the visible ASCII
    characters and the space is escaped, so a document has one text in each of two layouts: `compact`
    without any space, and `indented` with one item to a line and two spaces to a level. -/

namespace FleetLabels.Json

/-- The UTF-16 units of a character as `\u` escapes. -/
def unitEscape (n : Nat) : List Char := '\\' :: 'u' :: Text.hexDigits 4 n

/-- One character of a JSON string. -/
def escapeChar (c : Char) : List Char :=
  let n := c.toNat
  if c = '"' ∨ c = '\\' then ['\\', c]
  else if c = '\n' then ['\\', 'n']
  else if c = '\r' then ['\\', 'r']
  else if c = '\t' then ['\\', 't']
  else if n = 8 then ['\\', 'b']
  else if n = 12 then ['\\', 'f']
  else if 32 ≤ n ∧ n < 127 then [c]
  else if n < 0x10000 then unitEscape n
  else unitEscape (0xD800 + (n - 0x10000) / 0x400) ++ unitEscape (0xDC00 + (n - 0x10000) % 0x400)

def stringText (s : String) : List Char := '"' :: s.toList.flatMap escapeChar ++ ['"']

def intText (n : Int) : List Char :=
  if n < 0 then '-' :: Nat.toDigits 10 n.natAbs else Nat.toDigits 10 n.natAbs

/-- Keys in code point order. -/
def sortMembers {α : Type} (ms : List (String × α)) : List (String × α) :=
  ms.mergeSort fun a b => decide (a.1 ≤ b.1)

/-- The texts with `sep` between them. -/
def joined (sep : List Char) (xs : List (List Char)) : List Char := (xs.intersperse sep).flatten

mutual

/-- The text without spaces. -/
def compact : Json → List Char
  | .null => "null".toList
  | .bool b => if b then "true".toList else "false".toList
  | .int n => intText n
  | .text s => stringText s
  | .list items => '[' :: joined [','] (compactItems items) ++ [']']
  | .object members =>
    '\x7b' :: joined [',']
      ((sortMembers (compactMembers members)).map fun m => stringText m.1 ++ ':' :: m.2) ++ ['\x7d']

def compactItems : List Json → List (List Char)
  | [] => []
  | x :: rest => x.compact :: compactItems rest

def compactMembers : List (String × Json) → List (String × List Char)
  | [] => []
  | (k, x) :: rest => (k, x.compact) :: compactMembers rest

end

/-- A line break and the indentation of a level. -/
def newline (level : Nat) : List Char := '\n' :: List.replicate (2 * level) ' '

/-- Brackets around items, each on a line of its own one level further in. -/
def block (opening closing : Char) (level : Nat) (items : List (List Char)) : List Char :=
  if items.isEmpty then [opening, closing]
  else opening :: newline (level + 1) ++ joined (',' :: newline (level + 1)) items ++
    newline level ++ [closing]

mutual

/-- The text with one item to a line, from a level of indentation on. -/
def indentedAt (level : Nat) : Json → List Char
  | .list items => block '[' ']' level (indentedItems (level + 1) items)
  | .object members =>
    block '\x7b' '\x7d' level
      ((sortMembers (indentedMembers (level + 1) members)).map fun m =>
        stringText m.1 ++ ':' :: ' ' :: m.2)
  | .null => "null".toList
  | .bool b => if b then "true".toList else "false".toList
  | .int n => intText n
  | .text s => stringText s

def indentedItems (level : Nat) : List Json → List (List Char)
  | [] => []
  | x :: rest => indentedAt level x :: indentedItems level rest

def indentedMembers (level : Nat) : List (String × Json) → List (String × List Char)
  | [] => []
  | (k, x) :: rest => (k, indentedAt level x) :: indentedMembers level rest

end

def indented (j : Json) : List Char := indentedAt 0 j

end FleetLabels.Json
