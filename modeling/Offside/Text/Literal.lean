import Offside.Number.Int128

/-!
# Character and string literals of Haskell

A literal holds printable ASCII only. Other characters are written as escapes: by a letter, by their
name in ASCII, or by their code in decimal. The escape `\&`, which stands for nothing, keeps a code
apart from a digit after it, and the name `SO` apart from an `H`.
-/
namespace Offside.Text

/-- The names of the control characters, in the order of their codes. -/
def controlNames : List String :=
  ["NUL", "SOH", "STX", "ETX", "EOT", "ENQ", "ACK", "BEL", "BS", "HT", "LF", "VT", "FF",
    "CR", "SO", "SI", "DLE", "DC1", "DC2", "DC3", "DC4", "NAK", "SYN", "ETB", "CAN", "EM", "SUB",
    "ESC", "FS", "GS", "RS", "US"]

/-- One character of a literal. The character after it decides whether a separator is needed. -/
def escape (c : Char) (next : Option Char) : List Char :=
  if c = '\\' then ['\\', '\\']
  else if c = '\x7f' then ['\\', 'D', 'E', 'L']
  else if '\x7f' < c then
    '\\' :: Nat.toDigits 10 c.toNat ++ (if next.any Char.isDigit then ['\\', '&'] else [])
  else if ' ' ≤ c then [c]
  else if c = '\x07' then ['\\', 'a']
  else if c = '\x08' then ['\\', 'b']
  else if c = '\x0c' then ['\\', 'f']
  else if c = '\n' then ['\\', 'n']
  else if c = '\r' then ['\\', 'r']
  else if c = '\t' then ['\\', 't']
  else if c = '\x0b' then ['\\', 'v']
  else if c = '\x0e' then ['\\', 'S', 'O'] ++ (if next = some 'H' then ['\\', '&'] else [])
  else '\\' :: (controlNames.getD c.toNat "").toList

def charLiteral (c : Char) : String :=
  if c = '\'' then "'\\''" else String.ofList ('\'' :: escape c none ++ ['\''])

/-- The characters of a string literal between its quotes. -/
def stringBody : List Char → List Char
  | [] => []
  | c :: cs => (if c = '"' then ['\\', '"'] else escape c cs.head?) ++ stringBody cs

def stringLiteral (s : String) : String :=
  String.ofList ('"' :: stringBody s.toList ++ ['"'])

end Offside.Text
