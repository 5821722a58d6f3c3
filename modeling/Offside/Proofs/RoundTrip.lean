import Offside.Proofs.AbsentParts

/-!
# The JSON form round-trips

What is written for a tree is a proper value, and the standard library reads it back. So every
library does that reads values of its depth.
-/
namespace Offside

namespace Json

section

variable (s : String) (b : Bool) (items : List Json) (key : String) (j : Json)
  (ms : List (String × Json))

@[simp] theorem proper_null : null.proper = true := rfl

@[simp] theorem proper_string : (string s).proper = true := rfl

@[simp] theorem proper_bool : (bool b).proper = true := rfl

@[simp] theorem proper_array : (array items).proper = itemsProper items := rfl

@[simp] theorem proper_object : (object ms).proper = membersProper ms := rfl

@[simp] theorem membersProper_nil : membersProper [] = true := rfl

@[simp] theorem membersProper_cons :
    membersProper ((key, j) :: ms) = ((ms.lookup key).isNone && j.proper && membersProper ms) := rfl

@[simp] theorem itemsProper_map {α : Type} (f : α → Json) (xs : List α) :
    itemsProper (xs.map f) = true ↔ ∀ x ∈ xs, (f x).proper = true := by
  induction xs with
  | nil => simp [itemsProper]
  | cons x xs ih => simp [itemsProper, ih]

theorem proper_int {n : Int} (h : n.natAbs < 2 ^ 64) : (int n).proper = true := by
  have hlength : (Nat.toDigits 10 n.natAbs).length ≤ 64 :=
    (Nat.length_toDigits_le_iff (by decide) (by decide)).mpr
      (Nat.lt_of_lt_of_le h (Nat.pow_le_pow_left (by decide) 64))
  rw [Json.proper, decide_eq_true_eq]
  exact Nat.le_trans hlength (by decide)

end

end Json

namespace Syntax

open Read Number Json

/-! ### What is written is proper -/

@[simp] theorem proper_wideJson (n : Int) : (wideJson n).proper = true := by
  have hword (hn : -0x8000000000000000 ≤ n ∧ n < 0x8000000000000000) : n.natAbs < 2 ^ 64 := by omega
  unfold wideJson
  split
  · next hn => exact proper_int (hword hn)
  · exact proper_string _

@[simp] theorem proper_ratioJson (r : Ratio) : (ratioJson r).proper = true := by
  have hparts {num den : Json} (hnum : num.proper = true) (hden : den.proper = true) :
      (object [("numerator", num), ("denominator", den)]).proper = true := by
    simp [List.lookup, hnum, hden]
  exact hparts (proper_wideJson _) (proper_wideJson _)

@[simp] theorem Location.proper_toJson (l : Location) : l.toJson.proper = true := by
  have hline : (Json.int l.line.toNat).proper = true :=
    proper_int (by have := l.line.toNat_lt; omega)
  have hcolumn : (Json.int l.column.toNat).proper = true :=
    proper_int (by have := l.column.toNat_lt; omega)
  simp [toJson, List.lookup, hline, hcolumn]

@[simp] theorem SpecialCon.proper_toJson (con : SpecialCon) : con.toJson.proper = true := by
  cases con with
  | tuple arity =>
    have harity : (Json.int arity.toNat).proper = true :=
      proper_int (by have := arity.toNat_lt; omega)
    simp [toJson, harity]
  | _ => rfl

/-- A function that writes the members of a list in turn. -/
theorem jsons_eq {α : Type} {f : α → Json} {g : List α → List Json} (hnil : g [] = [])
    (hcons : ∀ x xs, g (x :: xs) = f x :: g xs) (xs : List α) : g xs = xs.map f := by
  induction xs with
  | nil => exact hnil
  | cons x xs ih => rw [hcons, ih, List.map_cons]

theorem Expr.proper_toJson {e : Expr} (ih : ∀ c ∈ e.children, c.toJson.proper = true) :
    e.toJson.proper = true := by
  have hexprs := jsons_eq (f := toJson) (g := jsons) rfl fun _ _ => rfl
  have hstmts := jsons_eq (f := Stmt.toJson) (g := Stmt.jsons) rfl fun _ _ => rfl
  have hfields := jsons_eq (f := FieldUpdate.toJson) (g := FieldUpdate.jsons) rfl fun _ _ => rfl
  have halts := jsons_eq (f := Alt.toJson) (g := Alt.jsons) rfl fun _ _ => rfl
  have hdecls := jsons_eq (f := Decl.toJson) (g := Decl.jsons) rfl fun _ _ => rfl
  cases e with
  | wildcard => rfl
  | rightSection op e =>
    simp only [children, List.forall_mem_cons] at ih
    simpa [toJson, kindJson, List.lookup] using ⟨ih.2.1, ih.1⟩
  | _ =>
    simpa [toJson, kindJson, listJson, List.lookup, hexprs, hstmts, hfields, halts,
      hdecls, children, Node.toJson, or_imp, forall_and] using ih

theorem Decl.proper_toJson {d : Decl} (ih : ∀ c ∈ d.children, c.toJson.proper = true) :
    d.toJson.proper = true := by
  have hdecls := jsons_eq (f := toJson) (g := jsons) rfl fun _ _ => rfl
  have hclauses := jsons_eq (f := Match.toJson) (g := Match.jsons) rfl fun _ _ => rfl
  cases d with
  | infixDecl loc assoc prec ops =>
    have hprec : (Json.int prec.toNat).proper = true := proper_int (by have := prec.toNat_lt; omega)
    simpa [toJson, kindJson, listJson, List.lookup, hprec, children, Node.toJson] using ih
  | _ =>
    simpa [toJson, kindJson, listJson, Context.toJson, List.lookup, hdecls, hclauses,
      children, Node.toJson, or_imp, forall_and, and_assoc] using ih

theorem Node.proper_toJson (t : Node) : t.toJson.proper = true := by
  have htys := jsons_eq (f := Ty.toJson) (g := Ty.jsons) rfl fun _ _ => rfl
  have hpats := jsons_eq (f := Pat.toJson) (g := Pat.jsons) rfl fun _ _ => rfl
  have hpatFields := jsons_eq (f := PatField.toJson) (g := PatField.jsons) rfl fun _ _ => rfl
  have hguardedAlts := jsons_eq (f := GuardedAlt.toJson) (g := GuardedAlt.jsons) rfl fun _ _ => rfl
  have hdecls := jsons_eq (f := Decl.toJson) (g := Decl.jsons) rfl fun _ _ => rfl
  have hguardedRhss := jsons_eq (f := GuardedRhs.toJson) (g := GuardedRhs.jsons) rfl fun _ _ => rfl
  induction t using inductOn with
  | step t ih =>
    cases t with
    | expr e => exact e.proper_toJson ih
    | decl d => exact d.proper_toJson ih
    | name n => cases n <;> simp [Node.toJson, Name.toJson]
    | literal l => cases l <;> simp [Node.toJson, Literal.toJson]
    | moduleName m => rfl
    | assoc a => cases a <;> rfl
    | safety s => cases s <;> rfl
    | op o => cases o <;> simpa [Node.toJson, Op.toJson, Op.name, children] using ih
    | qop o => cases o <;> simpa [Node.toJson, QOp.toJson, QOp.name, children] using ih
    | cname c => cases c <;> simpa [Node.toJson, CName.toJson, CName.name, children] using ih
    | qname q =>
      obtain ⟨qualifier, name⟩ := q
      cases qualifier <;> simpa [Node.toJson, QName.toJson, kindJson, List.lookup, children,
        QName.children] using ih
    | ty t =>
      cases t <;> simpa [Node.toJson, Ty.toJson, kindJson, List.lookup, htys, children,
        Ty.children] using ih
    | bangType t =>
      cases t <;> simpa [Node.toJson, BangType.toJson, children, BangType.children] using ih
    | pat p =>
      cases p with
      | wildcard => rfl
      | _ =>
        simpa [Node.toJson, Pat.toJson, kindJson, List.lookup, hpats, hpatFields, children,
          Pat.children] using ih
    | conDecl c =>
      cases c <;> simpa [Node.toJson, ConDecl.toJson, kindJson, listJson, List.lookup, children,
        ConDecl.children] using ih
    | stmt s =>
      cases s <;> simpa [Node.toJson, Stmt.toJson, kindJson, List.lookup, hdecls, children,
        Stmt.children] using ih
    | guardedAlts a =>
      cases a <;> simpa [Node.toJson, GuardedAlts.toJson, kindJson, List.lookup,
        hguardedAlts, children, GuardedAlts.children] using ih
    | rhs r =>
      cases r <;> simpa [Node.toJson, Rhs.toJson, kindJson, List.lookup, hguardedRhss, children,
        Rhs.children] using ih
    | exportSpec s =>
      cases s <;> simpa [Node.toJson, ExportSpec.toJson, kindJson, listJson, List.lookup, children,
        ExportSpec.children] using ih
    | importSpec s =>
      cases s <;> simpa [Node.toJson, ImportSpec.toJson, kindJson, listJson, List.lookup, children,
        ImportSpec.children] using ih
    | patField f =>
      obtain ⟨field, p⟩ := f
      simpa [Node.toJson, PatField.toJson, List.lookup, children, PatField.children] using ih
    | fieldUpdate f =>
      obtain ⟨field, e⟩ := f
      simpa [Node.toJson, FieldUpdate.toJson, List.lookup, children, FieldUpdate.children] using ih
    | guardedAlt a =>
      obtain ⟨loc, guard, e⟩ := a
      simpa [Node.toJson, GuardedAlt.toJson, List.lookup, children, GuardedAlt.children] using ih
    | guardedRhs r =>
      obtain ⟨loc, guard, e⟩ := r
      simpa [Node.toJson, GuardedRhs.toJson, List.lookup, children, GuardedRhs.children] using ih
    | alt a =>
      obtain ⟨loc, pat, alts, wheres⟩ := a
      simpa [Node.toJson, Alt.toJson, List.lookup, hdecls, children, Alt.children] using ih
    | clause c =>
      obtain ⟨loc, name, pats, rhs, wheres⟩ := c
      simpa [Node.toJson, Match.toJson, listJson, List.lookup, hdecls, children, Match.children,
        or_imp, forall_and, and_assoc] using ih
    | fieldDecl f =>
      simpa [Node.toJson, FieldDecl.toJson, listJson, List.lookup, children, or_imp,
        forall_and] using ih
    | assertion a => simpa [Node.toJson, Assertion.toJson, listJson, List.lookup, children] using ih
    | qualType q =>
      simpa [Node.toJson, QualType.toJson, Context.toJson, listJson, List.lookup, children, or_imp,
        forall_and] using ih
    | importSpecs s =>
      simpa [Node.toJson, ImportSpecs.toJson, listJson, List.lookup, children] using ih
    | importDecl i =>
      obtain ⟨loc, module, qualified, asName, specs⟩ := i
      cases asName <;> cases specs <;>
        simpa [Node.toJson, ImportDecl.toJson, optionJson, List.lookup, children,
          and_assoc] using ih
    | module m =>
      obtain ⟨loc, name, exports, imports, decls⟩ := m
      cases exports <;>
        simpa [Node.toJson, Module.toJson, optionJson, listJson, List.lookup, children, or_imp,
          forall_and, and_assoc] using ih

/-! ### Reading with any library -/

section

variable {L : Library}

theorem Library.within_standard {j : Json} (hj : j.proper = true) : j.Within standard.limit :=
  ⟨hj, fun _ hn => nomatch hn⟩

/-- What a library reads of a value is what it is read as by the standard one. -/
theorem Read.Matches.restores {α : Type} {read read' : Read α} {write : α → Json} {a : α}
    (h : Matches .standard L read read') (hread : read.Restores write a)
    (hproper : (write a).proper = true) (hdepth : ∀ n ∈ L.limit, (write a).depth ≤ n) (p : Place) :
    read' p (write a) = .ok a :=
  h (Library.within_standard hproper) ⟨hproper, hdepth⟩ p a (hread p)

theorem Read.Follows.matches {α : Type} {form : Form} {read read' : Read α}
    (h : ∀ n, Follows .standard L n form read read') : Matches .standard L read read' :=
  fun j hj hj' p => h j.depth (.same form j) hj hj' (Nat.le_refl _) p

theorem Node.category_of_read {c : Category} {p : Place} {j : Json} {t : Node}
    (h : Node.read L c p j = .ok t) : t.category = c := by
  cases c with
  | _ =>
    obtain ⟨node, -, rfl⟩ := of_map_eq_ok h
    rfl

/-- A fraction is read as the value of the two numbers that are written for it. -/
theorem value_of_readRatio {p : Place} {j : Json} {r : Ratio} (h : readRatio L p j = .ok r) :
    ∃ n d : Int128, readRatioParts L p j = .ok (n, d) ∧ d.val ≠ 0 ∧
      r.num * d.val = n.val * r.den := by
  obtain ⟨⟨n, d⟩, hparts, h⟩ := of_bind_eq_ok h
  cases hr : Ratio.ofFraction? n.val d.val with
  | none => simp [hr] at h
  | some s =>
    obtain rfl : s = r := by simpa [hr] using h
    exact ⟨n, d, hparts, Ratio.cross_mul_of_ofFraction? hr⟩

end

/-- The fraction that a literal is written with. -/
def Literal.ratio? : Literal → Option Ratio
  | .frac r | .floatPrim r | .doublePrim r => some r
  | _ => none

/-- The JSON form round-trips, with every library up to its limit on the depth. What is written for
a tree of any category, a location, a fraction or a special constructor is read as the same; and
whatever is read has the category that was asked for, has all its fractions in lowest terms over a
positive denominator, and is what its own JSON form is read as, so that reading and writing once
more changes nothing. A fraction keeps the value of the two numbers it is read from. -/
theorem json_form_round_trips (L : Library) :
    (∀ (t : Node) (p : Place), (∀ n ∈ L.limit, t.toJson.depth ≤ n) →
      Node.read L t.category p t.toJson = .ok t) ∧
    (∀ (l : Location) (p : Place), (∀ n ∈ L.limit, l.toJson.depth ≤ n) →
      Location.read L p l.toJson = .ok l) ∧
    (∀ (r : Ratio) (p : Place), (∀ n ∈ L.limit, (ratioJson r).depth ≤ n) →
      readRatio L p (ratioJson r) = .ok r) ∧
    (∀ (con : SpecialCon) (p : Place), (∀ n ∈ L.limit, con.toJson.depth ≤ n) →
      SpecialCon.read L p con.toJson = .ok con) ∧
    (∀ (c : Category) (p : Place) (j : Json) (t : Node), Node.read L c p j = .ok t →
      t.category = c ∧
        (∀ l : Literal, Node.Inside (.literal l) t → ∀ r ∈ l.ratio?, 0 < r.den ∧
          Nat.Coprime r.num.natAbs r.den) ∧
        ((∀ n ∈ L.limit, t.toJson.depth ≤ n) → ∀ q : Place, Node.read L c q t.toJson = .ok t ∧
          Node.toJson <$> Node.read L c q t.toJson = Node.toJson <$> Node.read L c p j)) ∧
    ∀ (p : Place) (j : Json) (r : Ratio), readRatio L p j = .ok r →
      0 < r.den ∧ Nat.Coprime r.num.natAbs r.den ∧
        ∃ n d : Int128, readRatioParts L p j = .ok (n, d) ∧ d.val ≠ 0 ∧
          r.num * d.val = n.val * r.den := by
  have hnode (t : Node) (p : Place) (hdepth : ∀ n ∈ L.limit, t.toJson.depth ≤ n) :
      Node.read L t.category p t.toJson = .ok t :=
    (Follows.matches fun _ => Node.follows t.category).restores t.restores t.proper_toJson hdepth p
  refine ⟨hnode, fun l p hdepth => ?_, fun r p hdepth => ?_, fun con p hdepth => ?_, ?_, ?_⟩
  · exact (Follows.matches fun _ => Location.follows).restores l.restores l.proper_toJson hdepth p
  · exact (Follows.matches fun _ => readRatio_follows).restores (ratio_restores r)
      (proper_ratioJson r) hdepth p
  · exact SpecialCon.matches_read.restores con.restores con.proper_toJson hdepth p
  · intro c p j t h
    have hcategory := Node.category_of_read h
    refine ⟨hcategory, fun l _ r _ => ⟨r.den_pos, r.coprime⟩, fun hdepth q => ?_⟩
    have hread : Node.read L c q t.toJson = .ok t := hcategory ▸ hnode t q hdepth
    exact ⟨hread, by rw [hread, h]⟩
  · intro p j r h
    exact ⟨r.den_pos, r.coprime, value_of_readRatio h⟩

/-- Four over minus six is read as minus two over three, and then stays. -/
theorem reduced_fraction_is_read_back :
    ∃ r : Ratio, r.num = -2 ∧ r.den = 3 ∧
      Node.read .standard .literal .outside
          (.object [("frac", .object [("numerator", .int 4), ("denominator", .int (-6))])]) =
        .ok (.literal (.frac r)) ∧
      Node.read .standard .literal .inside (Node.toJson (.literal (.frac r))) =
        .ok (.literal (.frac r)) := by
  let r : Ratio :=
    { num := -2, den := 3, den_pos := by decide, coprime := by decide
      num_fits := by decide, den_fits := by decide }
  have hr : Ratio.ofFraction? 4 (-6) = some r := Ratio.ofFraction?_eq_some_iff_parts.mpr (by decide)
  have hparts :
      readRatioParts .standard .outside (.object [("numerator", .int 4),
        ("denominator", .int (-6))]) =
      .ok (⟨4, by decide⟩, ⟨-6, by decide⟩) := rfl
  have hread : Node.read .standard .literal .outside
      (.object [("frac", .object [("numerator", .int 4), ("denominator", .int (-6))])]) =
        .ok (.literal (.frac r)) :=
    map_ok _ (bind_ok rfl (map_ok _ (bind_ok hparts (by simp [hr]))))
  have hback :=
    ((json_form_round_trips .standard).2.2.2.2.1 _ _ _ _ hread).2.2 (fun _ hn => nomatch hn) .inside
  exact ⟨r, rfl, rfl, hread, hback.1⟩

end Syntax

end Offside
