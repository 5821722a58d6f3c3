import Offside.Doc.Basic
import Offside.Number.Int128
import Offside.Text.Quoted

/-!
# The outline of a document

One line of text that shows how a document is built.
-/
namespace Offside.Doc

open Offside.Number Offside.Text

def boolText (b : Bool) : String := if b then "true" else "false"

mutual

def outline : Doc → String
  | .empty => "Empty"
  | .text s => "Text(" ++ quoted s ++ ")"
  | .nested k d => "Nest(" ++ decimalText k ++ ", " ++ d.outline ++ ")"
  | .joined l spaced r =>
    "Beside \x7b left: " ++ l.outline ++ ", spaced: " ++ boolText spaced ++ ", right: " ++
      r.outline ++ " \x7d"
  | .stacked u overlap l =>
    "Above \x7b upper: " ++ u.outline ++ ", overlap: " ++ boolText overlap ++ ", lower: " ++
      l.outline ++ " \x7d"
  | .grouped fill spaced ds =>
    "Group \x7b fill: " ++ boolText fill ++ ", spaced: " ++ boolText spaced ++ ", elems: ["
      ++ ", ".intercalate (outlines ds) ++ "] \x7d"

def outlines : List Doc → List String
  | [] => []
  | d :: ds => d.outline :: outlines ds

end

end Offside.Doc
