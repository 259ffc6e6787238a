/-
JSON string literals. Two styles are written here: `plain` escapes only
what must be escaped, `ascii` also writes every character that is not
printable ASCII as escapes of its UTF-16 units.
-/

namespace GitPersona.Json

-- ============================================================== hex digits

/-- A lower case hexadecimal digit. -/
def hexDigit (n : Nat) : Char :=
  if n < 10 then Char.ofNat (0x30 + n) else Char.ofNat (0x57 + n)

/-- Four hexadecimal digits. -/
def hex4 (n : Nat) : List Char :=
  [hexDigit (n / 0x1000 % 16), hexDigit (n / 0x100 % 16),
    hexDigit (n / 0x10 % 16), hexDigit (n % 16)]

/-- The escape that spells a UTF-16 unit. -/
def unitEscape (n : Nat) : List Char :=
  '\\' :: 'u' :: hex4 n

-- ================================================================= escapes

/-- The escape of a character that no style writes as it is. -/
def shortEscape? (c : Char) : Option (List Char) :=
  if c = '"' then some ['\\', '"']
  else if c = '\\' then some ['\\', '\\']
  else if c = '\n' then some ['\\', 'n']
  else if c = '\r' then some ['\\', 'r']
  else if c = '\t' then some ['\\', 't']
  else if c.toNat = 0x08 then some ['\\', 'b']
  else if c.toNat = 0x0C then some ['\\', 'f']
  else if c.toNat < 0x20 then some (unitEscape c.toNat)
  else none

/-- A character in the style that escapes only what must be. -/
def plainChar (c : Char) : List Char :=
  (shortEscape? c).getD [c]

/-- The UTF-16 units of a code point, each as an escape. -/
def unitEscapes (n : Nat) : List Char :=
  if n < 0x10000 then unitEscape n
  else
    unitEscape (0xD800 + (n - 0x10000) / 0x400)
      ++ unitEscape (0xDC00 + (n - 0x10000) % 0x400)

/-- A character in the style that writes printable ASCII only. -/
def asciiChar (c : Char) : List Char :=
  match shortEscape? c with
  | some e => e
  | none => if c.toNat < 0x7F then [c] else unitEscapes c.toNat

-- ================================================================ literals

/-- A text as a string literal, escaping only what must be. -/
def plain (cs : List Char) : List Char :=
  '"' :: cs.flatMap plainChar ++ ['"']

/-- A text as a string literal of printable ASCII characters. -/
def ascii (cs : List Char) : List Char :=
  '"' :: cs.flatMap asciiChar ++ ['"']

end GitPersona.Json
