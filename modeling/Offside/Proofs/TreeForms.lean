import Offside.Proofs.ReadBack

/-!
# The forms of trees in JSON

A tree in JSON is an object with certain parts, some of which have a default. The tables here say
which parts each record and each kind of a node has. Two values differ in edits if the second comes
from the first by leaving out parts that have their default and by adding members with keys of no
part, in any objects of the tree at once.
-/
namespace Offside.Syntax

/-- What can stand in the place of a part. -/
inductive Form where
  | text
  | number
  | flag
  | list (items : Form)
  | option (value : Form)
  | location
  | ratio
  | node (category : Category)

/-- Where a part of an object can stand, and whether it has a default. -/
structure Slot where
  form : Form
  hasDefault : Bool

def Slot.required (form : Form) : Slot := ⟨form, false⟩

def Slot.defaulted (form : Form) : Slot := ⟨form, true⟩

/-- The parts of an object by their keys. -/
abbrev Slots := List (String × Slot)

/-- The parts of a node by its kind, in the order of the numbers of the kinds. -/
abbrev Table := List (String × Slots)

/-- How the values of a form are built. -/
inductive Shape where
  /-- Nothing is inside that has parts. -/
  | leaf
  | items (form : Form)
  | optional (form : Form)
  | record (slots : Slots)
  | tagged (table : Table)
  /-- An object with one key, which decides about its value. -/
  | variant (forms : List (String × Form))

/-! ### The tables -/

section

open Slot

def locationSlots : Slots :=
  [("filename", defaulted .text), ("line", defaulted .number), ("column", defaulted .number)]

def ratioSlots : Slots := [("numerator", required .number), ("denominator", required .number)]

/-- The part that tells where a node was found. -/
def locSlot : String × Slot := ("loc", defaulted .location)

def guardSlots : Slots :=
  [locSlot, ("guard", required (.node .expr)), ("expr", required (.node .expr))]

def QName.table : Table :=
  [("qual", [("module", required (.node .moduleName)), ("name", required (.node .name))]),
    ("unQual", [("name", required (.node .name))])]

def Ty.table : Table :=
  [("fun", [("from", required (.node .ty)), ("to", required (.node .ty))]),
    ("tuple", [("elems", required (.list (.node .ty)))]),
    ("app", [("fun", required (.node .ty)), ("arg", required (.node .ty))]),
    ("var", [("name", required (.node .name))]),
    ("con", [("name", required (.node .qname))])]

def Pat.table : Table :=
  [("var", [("name", required (.node .name))]),
    ("lit", [("lit", required (.node .literal))]),
    ("neg", [("pat", required (.node .pat))]),
    ("infixApp", [("left", required (.node .pat)), ("op", required (.node .qname)),
    ("right", required (.node .pat))]),
    ("app", [("con", required (.node .qname)), ("args", required (.list (.node .pat)))]),
    ("tuple", [("elems", required (.list (.node .pat)))]),
    ("list", [("elems", required (.list (.node .pat)))]),
    ("paren", [("pat", required (.node .pat))]),
    ("rec", [("con", required (.node .qname)), ("fields", required (.list (.node .patField)))]),
    ("asPat", [("name", required (.node .name)), ("pat", required (.node .pat))]),
    ("wildCard", []),
    ("irrPat", [("pat", required (.node .pat))])]

def ConDecl.table : Table :=
  [("conDecl", [locSlot, ("name", required (.node .name)),
    ("args", defaulted (.list (.node .bangType)))]),
    ("recDecl", [locSlot, ("name", required (.node .name)),
    ("fields", required (.list (.node .fieldDecl)))])]

def Stmt.table : Table :=
  [("generator", [locSlot, ("pat", required (.node .pat)), ("expr", required (.node .expr))]),
    ("qualifier", [("expr", required (.node .expr))]),
    ("letStmt", [("decls", required (.list (.node .decl)))])]

def GuardedAlts.table : Table :=
  [("unGuarded", [("expr", required (.node .expr))]),
    ("guarded", [("alts", required (.list (.node .guardedAlt)))])]

def Rhs.table : Table :=
  [("unGuarded", [("expr", required (.node .expr))]),
    ("guarded", [("rhss", required (.list (.node .guardedRhs)))])]

def Expr.table : Table :=
  [("var", [("name", required (.node .qname))]),
    ("con", [("name", required (.node .qname))]),
    ("lit", [("lit", required (.node .literal))]),
    ("infixApp", [("left", required (.node .expr)), ("op", required (.node .qop)),
    ("right", required (.node .expr))]),
    ("app", [("fun", required (.node .expr)), ("arg", required (.node .expr))]),
    ("negApp", [("expr", required (.node .expr))]),
    ("lambda", [locSlot, ("pats", required (.list (.node .pat))),
    ("body", required (.node .expr))]),
    ("let", [("decls", required (.list (.node .decl))), ("body", required (.node .expr))]),
    ("if", [("cond", required (.node .expr)), ("then_expr", required (.node .expr)),
    ("else_expr", required (.node .expr))]),
    ("case", [("scrutinee", required (.node .expr)), ("alts", required (.list (.node .alt)))]),
    ("do", [("stmts", required (.list (.node .stmt)))]),
    ("tuple", [("elems", required (.list (.node .expr)))]),
    ("list", [("elems", required (.list (.node .expr)))]),
    ("paren", [("expr", required (.node .expr))]),
    ("leftSection", [("expr", required (.node .expr)), ("op", required (.node .qop))]),
    ("rightSection", [("op", required (.node .qop)), ("expr", required (.node .expr))]),
    ("recConstr", [("con", required (.node .qname)),
    ("fields", required (.list (.node .fieldUpdate)))]),
    ("recUpdate", [("expr", required (.node .expr)),
    ("fields", required (.list (.node .fieldUpdate)))]),
    ("enumFrom", [("from", required (.node .expr))]),
    ("enumFromTo", [("from", required (.node .expr)), ("to", required (.node .expr))]),
    ("enumFromThen", [("from", required (.node .expr)), ("then", required (.node .expr))]),
    ("enumFromThenTo", [("from", required (.node .expr)), ("then", required (.node .expr)),
    ("to", required (.node .expr))]),
    ("listComp", [("expr", required (.node .expr)), ("quals", required (.list (.node .stmt)))]),
    ("expTypeSig", [locSlot, ("expr", required (.node .expr)), ("ty", required (.node .qualType))]),
    ("asPat", [("name", required (.node .name)), ("expr", required (.node .expr))]),
    ("wildCard", []),
    ("irrPat", [("expr", required (.node .expr))])]

def Decl.table : Table :=
  let name := ("name", required (.node .name))
  let vars := ("vars", defaulted (.list (.node .name)))
  let context := ("context", defaulted (.list (.node .assertion)))
  let derivings := ("deriving", defaulted (.list (.node .qname)))
  let members := ("decls", defaulted (.list (.node .decl)))
  let callConv := ("call_conv", required .text)
  let entity := ("entity", defaulted .text)
  let ty := ("ty", required (.node .ty))
  [("typeDecl", [locSlot, name, vars, ty]),
    ("dataDecl", [locSlot, context, name, vars,
    ("cons", required (.list (.node .conDecl))), derivings]),
    ("newTypeDecl", [locSlot, context, name, vars, ("con", required (.node .conDecl)), derivings]),
    ("infixDecl", [locSlot, ("assoc", required (.node .assoc)), ("prec", required .number),
      ("ops", required (.list (.node .op)))]),
    ("classDecl", [locSlot, context, name, vars, members]),
    ("instDecl", [locSlot, context, ("class", required (.node .qname)),
    ("types", required (.list (.node .ty))), members]),
    ("defaultDecl", [locSlot, ("types", required (.list (.node .ty)))]),
    ("typeSig", [locSlot, ("names", required (.list (.node .name))),
    ("ty", required (.node .qualType))]),
    ("foreignImport", [locSlot, callConv, ("safety", required (.node .safety)), entity, name, ty]),
    ("foreignExport", [locSlot, callConv, entity, name, ty]),
    ("funBind", [("matches", required (.list (.node .clause)))]),
    ("patBind", [locSlot, ("pat", required (.node .pat)), ("rhs", required (.node .rhs)),
      ("wheres", defaulted (.list (.node .decl)))])]

def ExportSpec.table : Table :=
  [("var", [("name", required (.node .qname))]),
    ("abs", [("name", required (.node .qname))]),
    ("thingAll", [("name", required (.node .qname))]),
    ("thingWith", [("name", required (.node .qname)), ("items", required (.list (.node .cname)))]),
    ("moduleContents", [("module", required (.node .moduleName))])]

def ImportSpec.table : Table :=
  [("var", [("name", required (.node .name))]),
    ("abs", [("name", required (.node .name))]),
    ("thingAll", [("name", required (.node .name))]),
    ("thingWith", [("name", required (.node .name)), ("items", required (.list (.node .cname)))])]

def Category.shape : Category → Shape
  | .module => .record [locSlot, ("name", required (.node .moduleName)),
      ("exports", defaulted (.option (.list (.node .exportSpec)))),
      ("imports", defaulted (.list (.node .importDecl))),
      ("decls", defaulted (.list (.node .decl)))]
  | .exportSpec => .tagged ExportSpec.table
  | .importDecl =>
    .record [locSlot, ("module", required (.node .moduleName)), ("qualified", defaulted .flag),
      ("alias", defaulted (.option (.node .moduleName))),
      ("specs", defaulted (.option (.node .importSpecs)))]
  | .importSpecs =>
    .record [("hiding", defaulted .flag), ("items", required (.list (.node .importSpec)))]
  | .importSpec => .tagged ImportSpec.table
  | .decl => .tagged Decl.table
  | .conDecl => .tagged ConDecl.table
  | .fieldDecl =>
    .record [("names", required (.list (.node .name))), ("ty", required (.node .bangType))]
  | .bangType => .variant [("banged", .node .ty), ("unBanged", .node .ty)]
  | .clause =>
    .record [locSlot, ("name", required (.node .name)), ("pats", defaulted (.list (.node .pat))),
      ("rhs", required (.node .rhs)), ("wheres", defaulted (.list (.node .decl)))]
  | .rhs => .tagged Rhs.table
  | .guardedRhs => .record guardSlots
  | .ty => .tagged Ty.table
  | .qualType =>
    .record [("context", defaulted (.list (.node .assertion))), ("ty", required (.node .ty))]
  | .assertion =>
    .record [("class", required (.node .qname)), ("types", defaulted (.list (.node .ty)))]
  | .qname => .tagged QName.table
  | .qop => .variant [("qVarOp", .node .qname), ("qConOp", .node .qname)]
  | .literal => .variant [("frac", .ratio), ("floatPrim", .ratio), ("doublePrim", .ratio)]
  | .pat => .tagged Pat.table
  | .patField => .record [("field", required (.node .qname)), ("pat", required (.node .pat))]
  | .expr => .tagged Expr.table
  | .stmt => .tagged Stmt.table
  | .fieldUpdate => .record [("field", required (.node .qname)), ("expr", required (.node .expr))]
  | .alt =>
    .record [locSlot, ("pat", required (.node .pat)), ("alts", required (.node .guardedAlts)),
      ("wheres", defaulted (.list (.node .decl)))]
  | .guardedAlts => .tagged GuardedAlts.table
  | .guardedAlt => .record guardSlots
  | .assoc | .safety | .name | .moduleName | .op | .cname => .leaf

end

def Form.shape : Form → Shape
  | .text | .number | .flag => .leaf
  | .list items => .items items
  | .option value => .optional value
  | .location => .record locationSlots
  | .ratio => .record ratioSlots
  | .node c => c.shape

/-- The parts of a kind. -/
def Table.slots (table : Table) (kind : String) : Slots := (table.lookup kind).getD []

/-- The kind that a value names, by its text or by its number. -/
def Table.kind? (table : Table) : Json → Option String
  | .string s => some s
  | .int n => if 0 ≤ n then (table.map Prod.fst)[n.toNat]? else none
  | _ => none

/-- The parts of an object of this form with these members. -/
def Form.slots? (form : Form) (members : List (String × Json)) : Option Slots :=
  match form.shape with
  | .record slots => some slots
  | .tagged table => ((members.lookup "kind").bind table.kind?).map table.slots
  | _ => none

/-! ### Defaults and edits -/

/-- The forms of the defaults. What is there of an unknown place has its default. -/
def Form.IsDefault : Form → Json → Prop
  | .text, .string s => s = ""
  | .number, .int n => n = 0
  | .flag, .bool b => b = false
  | .list _, .array items => items = []
  | .option _, .null => True
  | .location, .object members =>
    (∀ v ∈ members.lookup "filename", v = .string "") ∧ (∀ v ∈ members.lookup "line", v = .int 0) ∧
      ∀ v ∈ members.lookup "column", v = .int 0
  | _, _ => False

/-- The second value is the first after edits in objects of a tree of this form. In each object the
kind is the same, a part that is left out had its default, no part is new and the other parts are
edited in turn; the members that are no part can be any. In an array that stands for an object the
items are edited in turn. -/
inductive Edited : Form → Json → Json → Prop where
  | same (form : Form) (j : Json) : Edited form j j
  | items {form f : Form} {js js' : List Json} (shape : form.shape = .items f)
      (length : js.length = js'.length)
      (each : ∀ {j j' : Json}, (j, j') ∈ js.zip js' →
        Edited f j j') : Edited form (.array js) (.array js')
  | optional {form f : Form} {j j' : Json} (shape : form.shape = .optional f)
      (value : Edited f j j') : Edited form j j'
  | variant {form f : Form} {forms : List (String × Form)} {key : String} {v v' : Json}
      (shape : form.shape = .variant forms) (choice : forms.lookup key =
        some f) (value : Edited f v v') :
      Edited form (.object [(key, v)]) (.object [(key, v')])
  | object {form : Form} {slots : Slots} {ms ms' : List (String × Json)}
      (parts : form.slots? ms = some slots)
      (kind : ms'.lookup "kind" = ms.lookup "kind")
      (kept : ∀ {key : String} {slot : Slot} {v v' : Json}, slots.lookup key = some slot →
        ms.lookup key = some v →
        ms'.lookup key = some v' → Edited slot.form v v')
      (leftOut : ∀ {key : String} {slot : Slot} {v : Json}, slots.lookup key = some slot →
        ms.lookup key = some v →
        ms'.lookup key = none → slot.hasDefault = true ∧ slot.form.IsDefault v)
      (absent : ∀ {key : String} {slot : Slot}, slots.lookup key = some slot →
        ms.lookup key = none →
        ms'.lookup key = none) : Edited form (.object ms) (.object ms')
  | positions {form : Form} {slots : Slots} {js js' : List Json}
      (shape : form.shape = .record slots)
      (length : js.length = js'.length)
      (each : ∀ {part : String × Slot} {j j' : Json}, (part, j, j') ∈ slots.zip (js.zip js') →
        Edited part.2.form j j') :
      Edited form (.array js) (.array js')
  | kindPositions {form : Form} {table : Table} {kind : String} {v : Json} {js js' : List Json}
      (shape : form.shape = .tagged table) (named : table.kind? v = some kind)
      (length : js.length = js'.length)
      (each : ∀ {part : String × Slot} {j j' : Json}, (part, j, j') ∈
        (table.slots kind).zip (js.zip js') →
        Edited part.2.form j j') : Edited form (.array (v :: js)) (.array (v :: js'))

/-- A part of an object before and after the edits. -/
inductive EditedPart (slot : Slot) : Option Json → Option Json → Prop where
  | there {v v' : Json} (value : Edited slot.form v v') : EditedPart slot (some v) (some v')
  | leftOut {v : Json} (hasDefault : slot.hasDefault = true) (value : slot.form.IsDefault v) :
      EditedPart slot (some v) none
  | absent : EditedPart slot none none

theorem EditedPart.refl (slot : Slot) (part : Option Json) : EditedPart slot part part := by
  cases part with
  | none => exact .absent
  | some v => exact .there (.same _ v)

section

variable {form : Form} {slots : Slots} {ms ms' : List (String × Json)}

/-- An object is edited if each of its parts is. -/
theorem Edited.ofParts (hparts : form.slots? ms = some slots)
    (hkind : ms'.lookup "kind" = ms.lookup "kind")
    (h : ∀ key slot, slots.lookup key = some slot →
      EditedPart slot (ms.lookup key) (ms'.lookup key)) :
    Edited form (.object ms) (.object ms') := by
  refine .object hparts hkind ?_ ?_ ?_
  · intro key slot v v' hslot hv hv'
    have hpart := h key slot hslot
    rw [hv, hv'] at hpart
    cases hpart with
    | there value => exact value
  · intro key slot v hslot hv hv'
    have hpart := h key slot hslot
    rw [hv, hv'] at hpart
    cases hpart with
    | leftOut hasDefault value => exact ⟨hasDefault, value⟩
  · intro key slot hslot hv
    have hpart := h key slot hslot
    rw [hv] at hpart
    generalize ms'.lookup key = part at hpart
    cases hpart with
    | absent => rfl

theorem Edited.ofSlots (hparts : form.slots? ms = some slots)
    (hkind : ms'.lookup "kind" = ms.lookup "kind")
    (h : ∀ part ∈ slots, EditedPart part.2 (ms.lookup part.1) (ms'.lookup part.1)) :
    Edited form (.object ms) (.object ms') := by
  refine .ofParts hparts hkind fun key slot hslot => ?_
  obtain ⟨before, behind, rfl, -⟩ := List.lookup_eq_some_iff.mp hslot
  exact h (key, slot) (by simp)

end

/-! ### Single edits -/

section

variable {form : Form} {slots : Slots} {key : String} {before behind : List (String × Json)}

theorem lookup_insert (v : Json) {key' : String} (hkey : key' ≠ key) :
    (before ++ (key, v) :: behind).lookup key' = (before ++ behind).lookup key' := by
  rw [List.lookup_append, List.lookup_append, List.lookup_cons, beq_false_of_ne hkey]

/-- A part that has its default can be left out. -/
theorem Edited.leaveOut {slot : Slot} {v : Json}
    (hparts : form.slots? (before ++ (key, v) :: behind) = some slots)
    (hslot : slots.lookup key = some slot) (hdefault : slot.hasDefault = true)
    (hv : slot.form.IsDefault v) (hkind : key ≠ "kind")
    (honce : (before ++ behind).lookup key = none) :
    Edited form (.object (before ++ (key, v) :: behind)) (.object (before ++ behind)) := by
  refine .ofParts hparts (lookup_insert v hkind.symm).symm fun key' slot' hslot' => ?_
  by_cases hkey : key' = key
  · subst hkey
    rw [hslot] at hslot'
    obtain rfl := Option.some.inj hslot'
    have hbefore : before.lookup key' = none := by
      rw [List.lookup_append, Option.or_eq_none_iff] at honce
      exact honce.1
    rw [honce, List.lookup_append, hbefore, List.lookup_cons_self, Option.none_or]
    exact .leftOut hdefault hv
  · rw [lookup_insert v hkey]
    exact .refl _ _

/-- A member that is no part can be added. -/
theorem Edited.add (v : Json) (hparts : form.slots? (before ++ behind) = some slots)
    (hslot : slots.lookup key = none) (hkind : key ≠ "kind") :
    Edited form (.object (before ++ behind)) (.object (before ++ (key, v) :: behind)) := by
  refine .ofParts hparts (lookup_insert v hkind.symm) fun key' slot hslot' => ?_
  have hkey : key' ≠ key := by
    rintro rfl
    rw [hslot] at hslot'
    cases hslot'
  rw [lookup_insert v hkey]
  exact .refl _ _

end

end Offside.Syntax
