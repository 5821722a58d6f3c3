import Offside.Pretty.Expr
import Offside.Syntax.Module

/-!
# Modules as documents
-/
namespace Offside.Syntax

open Offside.Doc

def ExportSpec.doc (m : Mode) : ExportSpec → Doc
  | .var name => name.doc
  | .abs name => name.doc
  | .thingAll name => name.doc ++ text "(..)"
  | .thingWith name items => name.doc ++ m.parenList (items.map CName.doc)
  | .moduleContents module => (text "module").appendSpace module.doc

def ImportSpec.doc (m : Mode) : ImportSpec → Doc
  | .var name => name.doc
  | .abs name => name.doc
  | .thingAll name => name.doc ++ text "(..)"
  | .thingWith name items => name.doc ++ m.parenList (items.map CName.doc)

def ImportSpecs.doc (m : Mode) (s : ImportSpecs) : Doc :=
  let items := m.parenList (s.items.map (ImportSpec.doc m))
  if s.hides then (text "hiding").appendSpace items else items

def ImportDecl.doc (m : Mode) (i : ImportDecl) : Doc :=
  let qualified := if i.qualified then text "qualified" else .empty
  let asName := i.asName.elim .empty fun a => (text "as").appendSpace a.doc
  let specs := i.specs.elim .empty (ImportSpecs.doc m)
  m.markLine i.loc (m.sepFirst [text "import", qualified, i.module.doc, asName, specs])

/-- The first line of a module. -/
def Module.header (m : Mode) (mod : Module) : Doc :=
  let exports := mod.exports.elim .empty fun specs => m.parenList (specs.map (ExportSpec.doc m))
  m.sepFirst [text "module", mod.name.doc, exports, text "where"]

def Module.pretty (m : Mode) (mod : Module) : Checked Doc := do
  let decls ← Decl.pretties m mod.decls
  return m.markLine mod.loc (m.topLevel (mod.header m)
    (mod.imports.map (ImportDecl.doc m) ++ decls))

end Offside.Syntax
