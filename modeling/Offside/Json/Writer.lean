import Offside.Json.Basic

/-!
# The text of a JSON value
-/
namespace Offside.Json

open Offside.Number

/-- A character of a string: quotes, backslashes and control characters are escaped. -/
def escapeChar (c : Char) : List Char :=
  if c = '"' then ['\\', '"']
  else if c = '\\' then ['\\', '\\']
  else if c < ' ' then
    let digits := Nat.toDigits 16 c.toNat
    ['\\', 'u'] ++ List.replicate (4 - digits.length) '0' ++ digits
  else [c]

def quote (s : String) : String :=
  String.ofList ('"' :: s.toList.flatMap escapeChar ++ ['"'])

def decimal (d : Decimal) : String :=
  (if d.negative then "-" else "") ++ decimalText d.digits ++ "e" ++ decimalText d.exponent

mutual

def toText : Json → String
  | .null => "null"
  | .bool b => if b then "true" else "false"
  | .int n => decimalText n
  | .real d => decimal d
  | .string s => quote s
  | .unpaired => quote "\ufffd"
  | .array items => "[" ++ ",".intercalate (itemTexts items) ++ "]"
  | .object members => "\x7b" ++ ",".intercalate (memberTexts members) ++ "\x7d"

def itemTexts : List Json → List String
  | [] => []
  | j :: js => j.toText :: itemTexts js

def memberTexts : List (String × Json) → List String
  | [] => []
  | (key, j) :: ms => (quote key ++ ":" ++ j.toText) :: memberTexts ms

end

end Offside.Json
