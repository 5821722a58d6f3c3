import Offside.Json.Reader
import Offside.Settings.Entry

/-!
# Settings in TOML

The part of TOML in which settings are written, line by line: bare and quoted keys, whole numbers,
booleans and strings of one line, comments, and sections. What stands in a section is no setting.
-/
namespace Offside.Settings.Toml

open Offside.Number

def skipBlanks (cs : List Char) : List Char := cs.dropWhile fun c => c = ' ' || c = '\t'

/-- Control characters have no place in comments and strings, except for the tab. -/
def isControl (c : Char) : Bool := (c < ' ' && c != '\t') || c = '\x7f'

/-- Whether a line ends here, but for blanks and a comment. -/
def isEnd (cs : List Char) : Bool :=
  match skipBlanks cs with
  | [] => true
  | '#' :: comment => !comment.any isControl
  | _ => false

/-- The character that an escape by code stands for. -/
def codeEscape? (hex : List Char) : Option Char := do
  let n ← Json.hexValue? hex
  if n.isValidChar then some (Char.ofNat n) else none

/-- The character that an escape by letter stands for. -/
def letterEscape? (c : Char) : Option Char :=
  if c = 'e' then some '\x1b' else if c = '/' then none else Json.letterEscape? c

/-- The rest of a string in double quotes, and what follows it. -/
def basicString? : List Char → Option (List Char × List Char)
  | [] => none
  | '"' :: rest => some ([], rest)
  | '\\' :: 'x' :: a :: b :: rest => do
    let ch ← codeEscape? [a, b]
    let (cs, rest) ← basicString? rest
    return (ch :: cs, rest)
  | '\\' :: 'u' :: a :: b :: c :: d :: rest => do
    let ch ← codeEscape? [a, b, c, d]
    let (cs, rest) ← basicString? rest
    return (ch :: cs, rest)
  | '\\' :: 'U' :: a :: b :: c :: d :: e :: f :: g :: h :: rest => do
    let ch ← codeEscape? [a, b, c, d, e, f, g, h]
    let (cs, rest) ← basicString? rest
    return (ch :: cs, rest)
  | '\\' :: c :: rest => do
    let ch ← letterEscape? c
    let (cs, rest) ← basicString? rest
    return (ch :: cs, rest)
  | c :: rest =>
    if isControl c then none
    else do
      let (cs, rest) ← basicString? rest
      return (c :: cs, rest)

/-- The rest of a string in single quotes, and what follows it. -/
def literalString? : List Char → Option (List Char × List Char)
  | [] => none
  | '\'' :: rest => some ([], rest)
  | c :: rest =>
    if isControl c then none
    else do
      let (cs, rest) ← literalString? rest
      return (c :: cs, rest)

def isBare (c : Char) : Bool := c.isAlphanum || c = '_' || c = '-'

def key? (cs : List Char) : Option (String × List Char) :=
  match cs with
  | '"' :: rest => (basicString? rest).map fun (s, rest) => (String.ofList s, rest)
  | '\'' :: rest => (literalString? rest).map fun (s, rest) => (String.ofList s, rest)
  | _ =>
    match cs.takeWhile isBare with
    | [] => none
    | s => some (String.ofList s, cs.dropWhile isBare)

/-- Digits of a base, single underscores between them passed over. -/
def digits? (isDigit : Char → Bool) : List Char → Option (List Char)
  | [] => none
  | [c] => if isDigit c then some [c] else none
  | c :: '_' :: rest => if isDigit c then (digits? isDigit rest).map (c :: ·) else none
  | c :: rest => if isDigit c then (digits? isDigit rest).map (c :: ·) else none

/-- The value of digits in a base. -/
def baseValue? (base : Nat) (cs : List Char) : Option Nat := do
  let isDigit (c : Char) : Bool := (Json.hexDigit? c).any (· < base)
  let ds ← digits? isDigit cs
  return ds.foldl (fun n c => base * n + (Json.hexDigit? c).getD 0) 0

/-- Decimal digits without a zero before others. -/
def decimal? (cs : List Char) : Option Nat :=
  match cs with
  | '0' :: _ :: _ => none
  | _ => baseValue? 10 cs

def signed? (cs : List Char) : Option Int :=
  match cs with
  | '0' :: 'x' :: ds => (baseValue? 16 ds).map fun n => (n : Int)
  | '0' :: 'o' :: ds => (baseValue? 8 ds).map fun n => (n : Int)
  | '0' :: 'b' :: ds => (baseValue? 2 ds).map fun n => (n : Int)
  | '+' :: ds => (decimal? ds).map fun n => (n : Int)
  | '-' :: ds => (decimal? ds).map fun n => -(n : Int)
  | ds => (decimal? ds).map fun n => (n : Int)

/-- A whole number that fits 128 bits, signed or not. -/
def int? (cs : List Char) : Option Int :=
  (signed? cs).filter fun n =>
    -0x80000000000000000000000000000000 ≤ n && n < 0x100000000000000000000000000000000

/-- A value, and what follows it on the line. -/
def value? (cs : List Char) : Option (Scalar × List Char) :=
  match cs with
  | '"' :: rest => (basicString? rest).map fun (s, rest) => (.text (String.ofList s), rest)
  | '\'' :: rest => (literalString? rest).map fun (s, rest) => (.text (String.ofList s), rest)
  | _ =>
    let isWord (c : Char) : Bool := isBare c || c = '+'
    let rest := cs.dropWhile isWord
    match String.ofList (cs.takeWhile isWord) with
    | "true" => some (.bool true, rest)
    | "false" => some (.bool false, rest)
    | word => (int? word.toList).map fun n => (.int n, rest)

/-- What a line says. -/
inductive Line where
  | blank
  | header (name : String)
  | entry (key : String) (value : Scalar)
deriving DecidableEq, Repr

def line? (cs : List Char) : Option Line :=
  if isEnd cs then some .blank
  else
    match skipBlanks cs with
    | '[' :: rest => do
      let (name, rest) ← key? (skipBlanks rest)
      match skipBlanks rest with
      | ']' :: rest => if isEnd rest then some (.header name) else none
      | _ => none
    | cs => do
      let (key, rest) ← key? cs
      match skipBlanks rest with
      | '=' :: rest =>
        let (v, rest) ← value? (skipBlanks rest)
        if isEnd rest then some (.entry key v) else none
      | _ => none

/-- The lines of a text. A line may end in a carriage return before its line feed, but not the last
one, which has no line feed. -/
def splitLines (cs : List Char) : List (List Char) :=
  let ls := cs.splitOn '\n'
  ls.dropLast.map (fun l => if l.getLast? = some '\r' then l.dropLast else l) ++ ls.getLast?.toList

/-- The keys of a text with the section each stands in, and their values. A section is a key
itself. -/
def entries (section? : Option String) : List Line → List ((Option String × String) × Scalar)
  | [] => []
  | .blank :: ls => entries section? ls
  | .header name :: ls => ((none, name), .other) :: entries (some name) ls
  | .entry key v :: ls => ((section?, key), v) :: entries section? ls

/-- The entries outside of sections, if the text is well formed and no key is repeated. -/
def parse? (s : String) : Option (List (String × Scalar)) := do
  let cs := match s.toList with
    | '\ufeff' :: cs => cs
    | cs => cs
  let ls ← (splitLines cs).mapM line?
  let es := entries none ls
  if (es.map Prod.fst).Nodup then
    some (es.filterMap fun ((section?, key), v) => if section?.isNone then some (key, v) else none)
  else none

end Offside.Settings.Toml
