import Offside.Doc.Combinators
import Offside.Settings.Mode
import Offside.Syntax.Location
import Offside.Text.Literal

/-!
# Blocks under each layout

The combinators whose result depends on the mode. Everything that differs between the layouts is
here.
-/
namespace Offside.Mode

open Offside.Doc Offside.Number Offside.Text Offside.Syntax

/-- The second below the first where blocks are stacked, otherwise after it. -/
def aboveOrBeside (m : Mode) (upper lower : Doc) : Doc :=
  if m.isVertical then upper.above lower else upper.appendSpace lower

/-- The first, and the others filling the lines to its right. -/
def sepFirst (m : Mode) (ds : List Doc) : Doc :=
  if m.isVertical then
    match ds.filter fun d => !d.isEmpty with
    | [] => .empty
    | d :: ds => d.appendSpace (fsep ds)
  else hsep ds

/-- One below the other where blocks are stacked. -/
def lines (m : Mode) (ds : List Doc) : Doc :=
  if m.isVertical then vcat ds else hsep ds

/-- As many on a line as fit. -/
def fill (m : Mode) (ds : List Doc) : Doc :=
  if m.isVertical then fsep ds else hsep ds

/-- As many on a line as fit, the later lines to the right of the first. -/
def fillOnside (m : Mode) (ds : List Doc) : Doc :=
  if m.isVertical then
    match ds.filter fun d => !d.isEmpty with
    | [] => .empty
    | d :: ds => nest (columns m.onsideIndent) (fsep (nest (-columns m.onsideIndent) d :: ds))
  else hsep ds

/-- The header of a module and its members. -/
def topLevel (m : Mode) (header : Doc) (members : List Doc) : Doc :=
  match m.layout with
  | .offside => header.above (vcat members)
  | .semicolon | .inline => header.above (vcat (punctuate semi members)).braces
  | .none => header.appendSpace (hsep (punctuate semi members)).braces

/-- The members of a block. -/
def block (m : Mode) (indent : Nat) (members : List Doc) : Doc :=
  match m.layout with
  | .offside => nest (columns indent) (vcat members)
  | .semicolon => nest (columns indent) (space ++ vcat (punctuate semi members)).braces
  | .inline | .none => (space ++ hsep (punctuate semi members)).braces

/-- The clauses of a function. -/
def clauses (m : Mode) (ds : List Doc) : Doc :=
  match m.layout with
  | .offside => vcat ds
  | .semicolon => vcat (punctuate semi ds)
  | .inline | .none => hsep (punctuate semi ds)

/-- An empty line before a declaration, where the mode asks for one. -/
def blankLine (m : Mode) (d : Doc) : Doc :=
  if m.spacing && m.layout != .none then (text "").above d else d

/-- The pragma that sets the number of the next line. -/
def linePragma (line : Int) (file : String) : Doc :=
  text ("\x7b-# LINE " ++ decimalText line ++ " " ++ stringLiteral file ++ " #-\x7d")

/-- The place of a node before it, where the mode asks for it and the place is known. On a line of
its own the pragma names the line before. -/
def markLine (m : Mode) (loc : Location) (d : Doc) : Doc :=
  if !m.linePragmas || loc.isUnknown then d
  else if m.isVertical then (linePragma (loc.line.toNat - 1) loc.file).above d
  else (linePragma loc.line.toNat loc.file).appendSpace d

/-- The declarations that belong to a binding or an alternative, if there are any. -/
def whereClause (m : Mode) (decls : List Doc) : Doc :=
  if decls.isEmpty then .empty
  else nest 2 (m.aboveOrBeside (text "where") (m.block m.whereIndent decls))

def parenList (m : Mode) (ds : List Doc) : Doc := (m.fill (punctuate comma ds)).parens

def braceList (m : Mode) (ds : List Doc) : Doc := (m.fill (punctuate comma ds)).braces

/-- In brackets, with the separators already in place. -/
def bracketList (m : Mode) (ds : List Doc) : Doc := (m.fill ds).brackets

end Offside.Mode
