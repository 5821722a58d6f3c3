import Offside.Settings.Basic

/-!
# Settings from entries

What the file formats share: entries with a key and a plain value. A key may be written with
underscores or with capitals inside; an entry with any other key is passed over, and no setting may
be given twice.
-/
namespace Offside.Settings

/-- A value as a settings file gives it. -/
inductive Scalar where
  | int (n : Int)
  | bool (b : Bool)
  | text (s : String)
  /-- Anything that is no setting's value. -/
  | other
deriving DecidableEq, Repr

inductive Key where
  | classIndent
  | doIndent
  | caseIndent
  | letIndent
  | whereIndent
  | onsideIndent
  | spacing
  | layout
  | linePragmas
  | comments
deriving DecidableEq, Repr

namespace Key

def ofText? : String → Option Key
  | "class_indent" | "classIndent" => some .classIndent
  | "do_indent" | "doIndent" => some .doIndent
  | "case_indent" | "caseIndent" => some .caseIndent
  | "let_indent" | "letIndent" => some .letIndent
  | "where_indent" | "whereIndent" => some .whereIndent
  | "onside_indent" | "onsideIndent" => some .onsideIndent
  | "spacing" => some .spacing
  | "layout" => some .layout
  | "line_pragmas" | "linePragmas" => some .linePragmas
  | "comments" => some .comments
  | _ => none

/-- The keys in the order of a list of settings. -/
def all : List Key :=
  [.classIndent, .doIndent, .caseIndent, .letIndent, .whereIndent, .onsideIndent, .spacing, .layout,
    .linePragmas, .comments]

end Key

/-- A whole number that fits a signed word of 64 bits. -/
def int64? : Scalar → Option Int
  | .int n => if -0x8000000000000000 ≤ n ∧ n < 0x8000000000000000 then some n else none
  | _ => none

def bool? : Scalar → Option Bool
  | .bool b => some b
  | _ => none

def text? : Scalar → Option String
  | .text s => some s
  | _ => none

/-- The settings with one of them set, if the value is of its kind. -/
def set? (s : Settings) (key : Key) (v : Scalar) : Option Settings :=
  match key with
  | .classIndent => (int64? v).map fun n => { s with classIndent := n }
  | .doIndent => (int64? v).map fun n => { s with doIndent := n }
  | .caseIndent => (int64? v).map fun n => { s with caseIndent := n }
  | .letIndent => (int64? v).map fun n => { s with letIndent := n }
  | .whereIndent => (int64? v).map fun n => { s with whereIndent := n }
  | .onsideIndent => (int64? v).map fun n => { s with onsideIndent := n }
  | .spacing => (bool? v).map fun b => { s with spacing := b }
  | .layout => (text? v).map fun t => { s with layout := t }
  | .linePragmas => (bool? v).map fun b => { s with linePragmas := b }
  | .comments => (bool? v).map fun b => { s with comments := b }

def setAll? (s : Settings) : List (Key × Scalar) → Option Settings
  | [] => some s
  | (key, v) :: entries => do
    let s ← s.set? key v
    s.setAll? entries

/-- The settings with those of the entries, none of which may be repeated. -/
def ofEntries? (entries : List (String × Scalar)) : Option Settings :=
  let known := entries.filterMap fun (text, v) => (Key.ofText? text).map (·, v)
  if (known.map Prod.fst).Nodup then defaults.setAll? known else none

/-- The first settings by their values alone, in the order of the keys. -/
def ofValues? (values : List Scalar) : Option Settings :=
  if values.length ≤ Key.all.length then defaults.setAll? (Key.all.zip values) else none

end Offside.Settings
