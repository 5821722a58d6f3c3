import Offside.Doc.Basic
import Offside.Number.Ratio
import Offside.Number.RealText

/-!
# Sequences, brackets and literals as documents
-/
namespace Offside.Doc

open Offside.Number

def hsep (ds : List Doc) : Doc := ds.foldl appendSpace empty

def vcat (ds : List Doc) : Doc := ds.foldl above empty

/-- `hsep` where it fits, otherwise `vcat`. -/
def sep (ds : List Doc) : Doc := group false true ds

/-- `hcat` where it fits, otherwise `vcat`. -/
def cat (ds : List Doc) : Doc := group false false ds

/-- As many members on each line as fit, with spaces between them. -/
def fsep (ds : List Doc) : Doc := group true true ds

/-- As many members on each line as fit. -/
def fcat (ds : List Doc) : Doc := group true false ds

def hang (d : Doc) (k : Int) (rest : Doc) : Doc := sep [d, nest k rest]

def char (c : Char) : Doc := text (String.singleton c)

def semi : Doc := text ";"
def comma : Doc := text ","
def colon : Doc := text ":"
def space : Doc := text " "
def equals : Doc := text "="
def lparen : Doc := text "("
def rparen : Doc := text ")"
def lbrack : Doc := text "["
def rbrack : Doc := text "]"
def lbrace : Doc := text "\x7b"
def rbrace : Doc := text "\x7d"

def parens (d : Doc) : Doc := lparen ++ d ++ rparen
def brackets (d : Doc) : Doc := lbrack ++ d ++ rbrack
def braces (d : Doc) : Doc := lbrace ++ d ++ rbrace
def quotes (d : Doc) : Doc := char '\'' ++ d ++ char '\''
def doubleQuotes (d : Doc) : Doc := char '"' ++ d ++ char '"'

def parensIf (b : Bool) (d : Doc) : Doc := if b then d.parens else d

/-- The separator after every document but the last. -/
def punctuate (separator : Doc) : List Doc → List Doc
  | [] => []
  | [d] => [d]
  | d :: ds => (d ++ separator) :: punctuate separator ds

def int (n : Int) : Doc := text (decimalText n)

def real {f : Format} (x : Binary f) : Doc := text (realText x)

def ratio (r : Ratio) : Doc := text r.text

end Offside.Doc
