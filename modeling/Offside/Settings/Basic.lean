import Offside.Json.Basic
import Offside.Settings.Mode
import Offside.Text.Blank

/-!
# Settings

Settings are a mode as a file gives it, before it is checked: indents may be negative and the layout
is any text. `Settings.toMode` checks them, and `Settings.ofMode` goes back.
-/
namespace Offside

open Offside.Number

inductive SettingsError where
  | negativeIndent (field : String) (value : Int)
  | unknownLayout (text : String)
  /-- There is no file, or it is not text. -/
  | unreadable
  | badToml
  | badJson
deriving DecidableEq, Repr

/-- The wording of an error that has one. -/
def SettingsError.message? : SettingsError → Option String
  | .negativeIndent field value =>
    some ("indentation width `" ++ field ++ "` must be non-negative, got " ++ decimalText value)
  | .unknownLayout text =>
    some ("unknown layout style `" ++ text ++
      "` (expected offside, semicolon, inline or no-layout)")
  | .unreadable | .badToml | .badJson => none

namespace Layout

/-- The names of the layouts, in lower case. -/
def ofName? : String → Option Layout
  | "offside" | "offside-rule" => some .offside
  | "semicolon" | "semi-colon" | "explicit-semicolon" => some .semicolon
  | "inline" | "in-line" => some .inline
  | "no-layout" | "nolayout" | "none" => some .none
  | _ => Option.none

/-- The layout that a text names, in any case and with blanks around it. -/
def parse (s : String) : Except SettingsError Layout :=
  match ofName? (String.ofList ((Text.trim s.toList).map Char.toLower)) with
  | some l => .ok l
  | Option.none => .error (.unknownLayout s)

end Layout

structure Settings where
  classIndent : Int
  doIndent : Int
  caseIndent : Int
  letIndent : Int
  whereIndent : Int
  onsideIndent : Int
  spacing : Bool
  layout : String
  linePragmas : Bool
  comments : Bool
deriving DecidableEq, Repr

namespace Settings

def ofMode (m : Mode) : Settings :=
  { classIndent := m.classIndent
    doIndent := m.doIndent
    caseIndent := m.caseIndent
    letIndent := m.letIndent
    whereIndent := m.whereIndent
    onsideIndent := m.onsideIndent
    spacing := m.spacing
    layout := m.layout.name
    linePragmas := m.linePragmas
    comments := m.comments }

def defaults : Settings := ofMode {}

/-- An indent that is not negative. -/
def width (field : String) (value : Int) : Except SettingsError Nat :=
  if 0 ≤ value then .ok value.toNat else .error (.negativeIndent field value)

/-- The mode that the settings ask for. The indents are checked in order, and the layout after
them. -/
def toMode (s : Settings) : Except SettingsError Mode := do
  return {
    classIndent := ← width "class_indent" s.classIndent
    doIndent := ← width "do_indent" s.doIndent
    caseIndent := ← width "case_indent" s.caseIndent
    letIndent := ← width "let_indent" s.letIndent
    whereIndent := ← width "where_indent" s.whereIndent
    onsideIndent := ← width "onside_indent" s.onsideIndent
    spacing := s.spacing
    layout := ← Layout.parse s.layout
    linePragmas := s.linePragmas
    comments := s.comments }

def toJson (s : Settings) : Json :=
  .object
    [("class_indent", .int s.classIndent), ("do_indent", .int s.doIndent),
      ("case_indent", .int s.caseIndent), ("let_indent", .int s.letIndent),
      ("where_indent", .int s.whereIndent), ("onside_indent", .int s.onsideIndent),
      ("spacing", .bool s.spacing), ("layout", .string s.layout),
      ("line_pragmas", .bool s.linePragmas), ("comments", .bool s.comments)]

end Settings

end Offside
