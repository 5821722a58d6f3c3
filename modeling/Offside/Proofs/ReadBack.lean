import Offside.Proofs.Subtrees
import Offside.Proofs.WrittenNumbers

/-!
# What is written is read back

Reading with the standard library undoes writing. Each reader restores what its writer wrote, a node
from its parts. The readers of types, patterns, expressions and declarations are given the depth of
the JSON value to start with, and each part of a value is less deep.
-/
namespace Offside

namespace Json

theorem depth_le_itemsDepth {j : Json} {js : List Json} (h : j ∈ js) : j.depth ≤ itemsDepth js := by
  induction js with
  | nil => simp at h
  | cons k js ih =>
    rw [itemsDepth]
    rcases List.mem_cons.mp h with rfl | h
    · exact Nat.le_max_left ..
    · exact Nat.le_trans (ih h) (Nat.le_max_right ..)

theorem depth_le_membersDepth {key : String} {v : Json} {ms : List (String × Json)}
    (h : ms.lookup key = some v) : v.depth ≤ membersDepth ms := by
  induction ms with
  | nil => simp at h
  | cons m ms ih =>
    rw [membersDepth]
    rw [List.lookup_cons] at h
    by_cases hkey : key == m.1
    · simp only [hkey, Option.some.injEq] at h
      rw [h]
      exact Nat.le_max_left ..
    · simp only [hkey] at h
      exact Nat.le_trans (ih h) (Nat.le_max_right ..)

/-- The value of a key is less deep than the object. -/
theorem depth_lt_of_get? {j v : Json} {key : String} (h : j.get? key = some v) :
    v.depth < j.depth := by
  cases j with
  | object members => exact Nat.lt_succ_of_le (depth_le_membersDepth h)
  | _ => simp [get?] at h

variable {limit : Option Nat}

theorem proper_of_mem_items {j : Json} {js : List Json} (h : itemsProper js = true) (hj : j ∈ js) :
    j.proper = true := by
  induction js with
  | nil => cases hj
  | cons k js ih =>
    simp only [itemsProper, Bool.and_eq_true] at h
    rcases List.mem_cons.mp hj with rfl | hj
    · exact h.1
    · exact ih h.2 hj

theorem proper_of_lookup {key : String} {v : Json} {ms : List (String × Json)}
    (h : membersProper ms = true) (hv : ms.lookup key = some v) : v.proper = true := by
  induction ms with
  | nil => cases hv
  | cons m ms ih =>
    simp only [membersProper, Bool.and_eq_true] at h
    rw [List.lookup_cons] at hv
    split at hv
    · obtain rfl := Option.some.inj hv
      exact h.1.2
    · exact ih h.2 hv

theorem Within.item {j : Json} {js : List Json} (h : (array js).Within limit) (hj : j ∈ js) :
    j.Within limit := by
  refine ⟨proper_of_mem_items (by simpa [Json.proper] using h.proper) hj, fun n hn => ?_⟩
  have hdepth := h.depth_le n hn
  have hitem := depth_le_itemsDepth hj
  rw [depth] at hdepth
  omega

theorem Within.member {key : String} {v : Json} {ms : List (String × Json)}
    (h : (object ms).Within limit) (hv : ms.lookup key = some v) : v.Within limit := by
  refine ⟨proper_of_lookup (by simpa [Json.proper] using h.proper) hv, fun n hn => ?_⟩
  have hdepth := h.depth_le n hn
  have hmember := depth_le_membersDepth hv
  rw [depth] at hdepth
  omega

end Json

namespace Syntax

open Read Number Json
open Library (standard)

namespace Read

/-- What is written of a value is read as this value, wherever it stands. -/
def Restores {α : Type} (read : Read α) (write : α → Json) (a : α) : Prop :=
  ∀ p, read p (write a) = .ok a

section

variable {α β : Type} {x : Except ReadError α} {a : α}

theorem bind_ok {k : α → Except ReadError β} {b : β} (hx : x = .ok a) (hk : k a = .ok b) :
    x >>= k = .ok b := by
  rw [hx]
  exact hk

theorem map_ok (f : α → β) (hx : x = .ok a) : f <$> x = .ok (f a) := by
  rw [hx]
  rfl

theorem of_bind_eq_ok {k : α → Except ReadError β} {b : β} (h : x >>= k = .ok b) :
    ∃ a, x = .ok a ∧ k a = .ok b := by
  cases x with
  | error e => nomatch h
  | ok a => exact ⟨a, rfl, h⟩

theorem of_map_eq_ok {f : α → β} {b : β} (h : f <$> x = .ok b) : ∃ a, x = .ok a ∧ f a = b := by
  cases x with
  | error e => nomatch h
  | ok a => exact ⟨a, rfl, Except.ok.inj h⟩

/-- A node with a kind is read by the reader of this kind. -/
theorem tagged_ok {kinds : Kinds} {read : String → Parts → Except ReadError α} {p : Place}
    {kind : String} {parts : List (String × Json)}
    (h : read kind ⟨.inside, kindJson kind parts⟩ = .ok a) :
    standard.tagged kinds read p (kindJson kind parts) = .ok a := h

/-- An object is read by its parts. -/
theorem record_ok {keys : List String} {read : Parts → Except ReadError α} {p : Place}
    {members : List (String × Json)} (h : read ⟨p, .object members⟩ = .ok a) :
    standard.record keys read p (.object members) = .ok a := h

theorem part_ok {p : Place} {j v : Json} {key : String} {read : Read α} (hv : j.get? key = some v)
    (h : read p v = .ok a) : part ⟨p, j⟩ key read = .ok a := by
  rw [part, hv]
  exact h

theorem partD_ok {p : Place} {j v : Json} {key : String} {default : α} {read : Read α}
    (hv : j.get? key = some v) (h : read p v = .ok a) : partD ⟨p, j⟩ key default read = .ok a := by
  rw [partD, hv]
  exact h

theorem Restores.list {read : Read α} {write : α → Json} {xs : List α}
    (h : ∀ x ∈ xs, read.Restores write x) : (list read).Restores (listJson write) xs := by
  intro p
  change (xs.map write).mapM (read p) = .ok xs
  induction xs with
  | nil => rfl
  | cons x xs ih =>
    rw [List.map_cons, List.mapM_cons]
    exact bind_ok (h x (by simp) p) (bind_ok (ih fun y hy => h y (by simp [hy])) rfl)

theorem Restores.listOf {read : Read α} {write : α → Json} (h : ∀ x, read.Restores write x)
    (xs : List α) : (Read.list read).Restores (listJson write) xs :=
  .list fun x _ => h x

/-- What is written of a value no deeper than `n` is read as this value. -/
def RestoresTo (n : Nat) (read : Read α) (write : α → Json) (a : α) : Prop :=
  (write a).depth ≤ n → read.Restores write a

namespace RestoresTo

variable {n : Nat} {read : Read α} {write : α → Json}

theorem list (h : ∀ x, read.RestoresTo n write x) (xs : List α) :
    (Read.list read).RestoresTo n (listJson write) xs := by
  intro hdepth
  apply Restores.list
  intro x hx
  apply h x
  have hitem : (write x).depth ≤ itemsDepth (xs.map write) :=
    depth_le_itemsDepth (List.mem_map_of_mem hx)
  rw [listJson, depth] at hdepth
  omega

/-- The same for a function that writes the members of a list in turn. -/
theorem jsons (g : List α → List Json) (hnil : g [] = [])
    (hcons : ∀ x xs, g (x :: xs) = write x :: g xs) (h : ∀ x, read.RestoresTo n write x)
    (xs : List α) : (Read.list read).RestoresTo n (fun xs => .array (g xs)) xs := by
  have hmap : g xs = xs.map write := by
    induction xs with
    | nil => exact hnil
    | cons x xs ih => rw [hcons, ih, List.map_cons]
  intro hdepth p
  have hlist := list h xs
  rw [RestoresTo, listJson, ← hmap] at hlist
  have hread := hlist hdepth p
  rwa [listJson, ← hmap] at hread

/-- What stands in a node is read with what is left of the depth. -/
theorem below (h : ∀ x, read.RestoresTo (n + 1) write x) (x : α) : read.RestoresTo n write x :=
  fun hdepth => h x (Nat.le_succ_of_le hdepth)

theorem zero {members : List (String × Json)} (h : write a = .object members) :
    read.RestoresTo 0 write a := by
  intro hdepth
  rw [h, depth] at hdepth
  omega

/-- A part of a node is less deep than the node. -/
theorem part (h : read.RestoresTo n write a) {j : Json} (hj : j.depth ≤ n + 1) {p : Place}
    {key : String} (hkey : j.get? key = some (write a)) : Read.part ⟨p, j⟩ key read = .ok a := by
  have hdepth := depth_lt_of_get? hkey
  exact part_ok hkey (h (by omega) p)

theorem partD (h : read.RestoresTo n write a) {j : Json} (hj : j.depth ≤ n + 1) {p : Place}
    {key : String} {default : α} (hkey : j.get? key = some (write a)) :
    Read.partD ⟨p, j⟩ key default read = .ok a := by
  have hdepth := depth_lt_of_get? hkey
  exact partD_ok hkey (h (by omega) p)

end RestoresTo

/-- A value that may be missing is told from a missing one by what is written of it. -/
theorem Restores.option {read : Read α} {write : α → Json} (hwrite : ∀ a, write a ≠ .null)
    {o : Option α} (h : ∀ a ∈ o, read.Restores write a) :
    (option read).Restores (optionJson write) o := by
  intro p
  cases o with
  | none => rfl
  | some a =>
    have hread := map_ok some (h a rfl p)
    rw [optionJson, Read.option]
    · exact hread
    · exact hwrite a

end

/-! ### Strings and numbers -/

theorem char_restores (c : Char) :
    Read.char.Restores (fun c => .string (String.singleton c)) c := by
  intro p
  simp [Read.char]

theorem nat_ok {limit n : Nat} (hn : n < limit) (p : Place) :
    standard.nat limit p (.int n) = .ok n :=
  if_pos (by omega)

end Read

theorem int128_wideJson (n : Int128) (p : Place) : int128 standard p (wideJson n.val) = .ok n := by
  have hread := Int128.ofInt?_val n
  unfold wideJson
  by_cases hn : -0x8000000000000000 ≤ n.val ∧ n.val < 0x8000000000000000
  · rw [if_pos hn]
    have hnumber : standard.numberOrText p (.int n.val) = .ok (.inl n.val) := if_pos (by omega)
    refine bind_ok hnumber ?_
    simp [hread]
  · rw [if_neg hn]
    have htext : standard.numberOrText p (.string (decimalText n.val)) =
        .ok (.inr (decimalText n.val)) := rfl
    refine bind_ok htext ?_
    simp [parseInt?_decimalText, hread]

theorem ratio_restores (r : Ratio) : (readRatio standard).Restores ratioJson r := by
  intro p
  let num : Int128 := ⟨r.num, r.num_fits⟩
  let den : Int128 := ⟨r.den, r.den_fits⟩
  have hnum : part ⟨p, ratioJson r⟩ "numerator" (int128 standard) = .ok num :=
    part_ok rfl (int128_wideJson num p)
  have hden : part ⟨p, ratioJson r⟩ "denominator" (int128 standard) = .ok den :=
    part_ok rfl (int128_wideJson den p)
  have hparts : readRatioParts standard p (ratioJson r) = .ok (num, den) :=
    record_ok (bind_ok hnum (bind_ok hden rfl))
  refine bind_ok hparts ?_
  simp [num, den, Ratio.ofFraction?_self]

/-! ### Names and literals -/

theorem Location.restores (l : Location) : (Location.read standard).Restores toJson l := by
  intro p
  have hline := nat_ok l.line.toNat_lt p
  have hcolumn := nat_ok l.column.toNat_lt p
  refine record_ok (bind_ok rfl (bind_ok hline (bind_ok hcolumn ?_)))
  rw [UInt32.ofNat_toNat, UInt32.ofNat_toNat]
  rfl

theorem ModuleName.restores (n : ModuleName) :
    (ModuleName.read standard).Restores toJson n := fun _ => rfl

theorem SpecialCon.restores (con : SpecialCon) :
    (SpecialCon.read standard).Restores toJson con := by
  intro p
  cases con with
  | tuple arity =>
    refine bind_ok rfl (bind_ok (nat_ok arity.toNat_lt p) ?_)
    rw [UInt64.ofNat_toNat]
    rfl
  | _ => rfl

theorem Name.restores (n : Name) : (Name.read standard).Restores toJson n := by
  intro p
  cases n with
  | ident s => rfl
  | symbol s => rfl
  | special con => exact bind_ok rfl (map_ok _ (con.restores p))

theorem QName.restores (q : QName) : (QName.read standard).Restores toJson q := by
  intro p
  obtain ⟨qualifier, name⟩ := q
  cases qualifier with
  | none => exact tagged_ok (bind_ok (name.restores _) rfl)
  | some m => exact tagged_ok (bind_ok (m.restores _) (bind_ok (name.restores _) rfl))

theorem Op.restores (o : Op) : (Op.read standard).Restores toJson o := by
  intro p
  cases o with
  | var n => exact bind_ok rfl (map_ok _ (n.restores p))
  | con n => exact bind_ok rfl (map_ok _ (n.restores p))

theorem QOp.restores (o : QOp) : (QOp.read standard).Restores toJson o := by
  intro p
  cases o with
  | var n => exact bind_ok rfl (map_ok _ (n.restores p))
  | con n => exact bind_ok rfl (map_ok _ (n.restores p))

theorem CName.restores (c : CName) : (CName.read standard).Restores toJson c := by
  intro p
  cases c with
  | var n => exact bind_ok rfl (map_ok _ (n.restores p))
  | con n => exact bind_ok rfl (map_ok _ (n.restores p))

theorem Literal.restores (l : Literal) : (Literal.read standard).Restores toJson l := by
  intro p
  cases l with
  | char c => exact bind_ok rfl (map_ok _ (char_restores c p))
  | string s => rfl
  | int n => exact bind_ok rfl (map_ok _ (int128_wideJson n p))
  | frac r => exact bind_ok rfl (map_ok _ (ratio_restores r p))
  | charPrim c => exact bind_ok rfl (map_ok _ (char_restores c p))
  | stringPrim s => rfl
  | intPrim n => exact bind_ok rfl (map_ok _ (int128_wideJson n p))
  | floatPrim r => exact bind_ok rfl (map_ok _ (ratio_restores r p))
  | doublePrim r => exact bind_ok rfl (map_ok _ (ratio_restores r p))

/-! ### Types -/

theorem Ty.restoresTo {n : Nat} {ty : Read Ty} (h : ∀ t, ty.RestoresTo n toJson t) (t : Ty) :
    (readWith standard ty).RestoresTo (n + 1) toJson t := by
  have helems := RestoresTo.jsons Ty.jsons rfl (fun _ _ => rfl) h
  intro hdepth p
  cases t with
  | fn source target =>
    exact tagged_ok (bind_ok ((h source).part hdepth rfl)
      (bind_ok ((h target).part hdepth rfl) rfl))
  | tuple elems =>
    exact tagged_ok (bind_ok ((helems elems).part hdepth rfl) rfl)
  | app f arg =>
    exact tagged_ok (bind_ok ((h f).part hdepth rfl) (bind_ok ((h arg).part hdepth rfl) rfl))
  | var name => exact tagged_ok (bind_ok (name.restores _) rfl)
  | con name => exact tagged_ok (bind_ok (name.restores _) rfl)

theorem Ty.restoresTo_readTo (n : Nat) (t : Ty) : (readTo standard n).RestoresTo n toJson t := by
  induction n generalizing t with
  | zero => cases t <;> exact .zero rfl
  | succ n ih => exact restoresTo ih t

theorem Ty.restores (t : Ty) : (Ty.read standard).Restores toJson t :=
  restoresTo_readTo _ t (Nat.le_refl _)

theorem Assertion.restores (a : Assertion) : (Assertion.read standard).Restores toJson a := by
  intro p
  have htypes := Restores.listOf Ty.restores a.types p
  exact record_ok (bind_ok (a.className.restores p) (bind_ok htypes rfl))

theorem Context.restores (c : Context) : (Context.read standard).Restores toJson c :=
  .listOf Assertion.restores c

theorem QualType.restores (q : QualType) : (QualType.read standard).Restores toJson q :=
  fun p => record_ok (bind_ok (Context.restores q.context p) (bind_ok (q.ty.restores p) rfl))

/-! ### Patterns -/

theorem PatField.restoresTo {n : Nat} {pat : Read Pat} (h : ∀ p, pat.RestoresTo n Pat.toJson p)
    (f : PatField) : (readWith standard pat).RestoresTo (n + 1) toJson f := by
  intro hdepth p
  obtain ⟨field, q⟩ := f
  exact record_ok (bind_ok (field.restores p) (bind_ok ((h q).part hdepth rfl) rfl))

theorem Pat.restoresTo {n : Nat} {pat : Read Pat} (h : ∀ p, pat.RestoresTo n toJson p) (q : Pat) :
    (readWith standard pat).RestoresTo (n + 1) toJson q := by
  have helems := RestoresTo.jsons Pat.jsons rfl (fun _ _ => rfl) h
  have hfields :=
    RestoresTo.jsons PatField.jsons rfl (fun _ _ => rfl) (RestoresTo.below (PatField.restoresTo h))
  intro hdepth p
  cases q with
  | var name => exact tagged_ok (bind_ok (name.restores _) rfl)
  | lit l => exact tagged_ok (bind_ok (l.restores _) rfl)
  | neg q => exact tagged_ok (bind_ok ((h q).part hdepth rfl) rfl)
  | infixApp l op r =>
    exact tagged_ok (bind_ok ((h l).part hdepth rfl)
      (bind_ok (op.restores _) (bind_ok ((h r).part hdepth rfl) rfl)))
  | app con args =>
    exact tagged_ok (bind_ok (con.restores _) (bind_ok ((helems args).part hdepth rfl) rfl))
  | tuple elems =>
    exact tagged_ok (bind_ok ((helems elems).part hdepth rfl) rfl)
  | list elems =>
    exact tagged_ok (bind_ok ((helems elems).part hdepth rfl) rfl)
  | paren q => exact tagged_ok (bind_ok ((h q).part hdepth rfl) rfl)
  | record con fields =>
    exact tagged_ok (bind_ok (con.restores _) (bind_ok ((hfields fields).part hdepth rfl) rfl))
  | asPat name q =>
    exact tagged_ok (bind_ok (name.restores _) (bind_ok ((h q).part hdepth rfl) rfl))
  | wildcard => rfl
  | irrefutable q => exact tagged_ok (bind_ok ((h q).part hdepth rfl) rfl)

theorem Pat.restoresTo_readTo (n : Nat) (p : Pat) : (readTo standard n).RestoresTo n toJson p := by
  induction n generalizing p with
  | zero => cases p <;> exact .zero rfl
  | succ n ih => exact restoresTo ih p

theorem Pat.restores (p : Pat) : (Pat.read standard).Restores toJson p :=
  restoresTo_readTo _ p (Nat.le_refl _)

/-- A reader that restores every value does so at any depth. -/
theorem Read.Restores.toDepth {α : Type} {read : Read α} {write : α → Json} {a : α}
    (h : read.Restores write a) (n : Nat) : read.RestoresTo n write a :=
  fun _ => h

theorem PatField.restores (f : PatField) : (PatField.read standard).Restores toJson f :=
  restoresTo (fun p => p.restores.toDepth _) f (Nat.le_succ _)

/-! ### Data types -/

theorem BangType.restores (t : BangType) : (BangType.read standard).Restores toJson t := by
  intro p
  cases t with
  | banged t => exact bind_ok rfl (map_ok _ (t.restores p))
  | unbanged t => exact bind_ok rfl (map_ok _ (t.restores p))

theorem FieldDecl.restores (f : FieldDecl) : (FieldDecl.read standard).Restores toJson f := by
  intro p
  have hnames := Restores.listOf Name.restores f.names p
  exact record_ok (bind_ok hnames (bind_ok (f.ty.restores p) rfl))

theorem ConDecl.restores (c : ConDecl) : (ConDecl.read standard).Restores toJson c := by
  intro p
  cases c with
  | positional loc name args =>
    have hargs := Restores.listOf BangType.restores args .inside
    exact tagged_ok (bind_ok (loc.restores _) (bind_ok (name.restores _) (bind_ok hargs rfl)))
  | record loc name fields =>
    have hfields := Restores.listOf FieldDecl.restores fields .inside
    exact tagged_ok (bind_ok (loc.restores _) (bind_ok (name.restores _) (bind_ok hfields rfl)))

theorem Assoc.restores (a : Assoc) : (Assoc.read standard).Restores toJson a := by
  intro p
  cases a <;> rfl

theorem Safety.restores (s : Safety) : (Safety.read standard).Restores toJson s := by
  intro p
  cases s <;> rfl

/-! ### Expressions and declarations -/

section

variable {n : Nat} {expr : Read Expr} {decl : Read Decl} (he : ∀ e, expr.RestoresTo n Expr.toJson e)
  (hd : ∀ d, decl.RestoresTo n Decl.toJson d)

include he in
theorem FieldUpdate.restoresTo (f : FieldUpdate) :
    (readWith standard expr).RestoresTo (n + 1) toJson f := by
  intro hdepth p
  obtain ⟨field, e⟩ := f
  exact record_ok (bind_ok (field.restores p) (bind_ok ((he e).part hdepth rfl) rfl))

include he in
theorem GuardedAlt.restoresTo (a : GuardedAlt) :
    (readWith standard expr).RestoresTo (n + 1) toJson a := by
  intro hdepth p
  obtain ⟨loc, guard, e⟩ := a
  refine record_ok (bind_ok (loc.restores p) ?_)
  exact bind_ok ((he guard).part hdepth rfl) (bind_ok ((he e).part hdepth rfl) rfl)

include he in
theorem GuardedAlts.restoresTo (a : GuardedAlts) :
    (readWith standard expr).RestoresTo (n + 1) toJson a := by
  intro hdepth p
  cases a with
  | unguarded e => exact tagged_ok (bind_ok ((he e).part hdepth rfl) rfl)
  | guarded alts =>
    have halts :=
      RestoresTo.jsons GuardedAlt.jsons rfl (fun _ _ => rfl)
        (RestoresTo.below (GuardedAlt.restoresTo he))
    exact tagged_ok (bind_ok ((halts alts).part hdepth rfl) rfl)

include he in
theorem GuardedRhs.restoresTo (r : GuardedRhs) :
    (readWith standard expr).RestoresTo (n + 1) toJson r := by
  intro hdepth p
  obtain ⟨loc, guard, e⟩ := r
  refine record_ok (bind_ok (loc.restores p) ?_)
  exact bind_ok ((he guard).part hdepth rfl) (bind_ok ((he e).part hdepth rfl) rfl)

include he in
theorem Rhs.restoresTo (r : Rhs) : (readWith standard expr).RestoresTo (n + 1) toJson r := by
  intro hdepth p
  cases r with
  | unguarded e => exact tagged_ok (bind_ok ((he e).part hdepth rfl) rfl)
  | guarded rhss =>
    have hrhss :=
      RestoresTo.jsons GuardedRhs.jsons rfl (fun _ _ => rfl)
        (RestoresTo.below (GuardedRhs.restoresTo he))
    exact tagged_ok (bind_ok ((hrhss rhss).part hdepth rfl) rfl)

include he hd

theorem Stmt.restoresTo (s : Stmt) : (readWith standard expr decl).RestoresTo (n + 1) toJson s := by
  have hdecls := RestoresTo.jsons Decl.jsons rfl (fun _ _ => rfl) hd
  intro hdepth p
  cases s with
  | generator loc pat e =>
    exact tagged_ok (bind_ok (loc.restores _)
      (bind_ok (pat.restores _) (bind_ok ((he e).part hdepth rfl) rfl)))
  | qualifier e => exact tagged_ok (bind_ok ((he e).part hdepth rfl) rfl)
  | letStmt decls =>
    exact tagged_ok (bind_ok ((hdecls decls).part hdepth rfl) rfl)

theorem Alt.restoresTo (a : Alt) : (readWith standard expr decl).RestoresTo (n + 1) toJson a := by
  have hdecls := RestoresTo.jsons Decl.jsons rfl (fun _ _ => rfl) hd
  intro hdepth p
  obtain ⟨loc, pat, alts, wheres⟩ := a
  have halts := RestoresTo.below (GuardedAlts.restoresTo he) alts
  refine record_ok (bind_ok (loc.restores p)
    (bind_ok (pat.restores p) (bind_ok (halts.part hdepth rfl) ?_)))
  exact bind_ok ((hdecls wheres).partD hdepth rfl) rfl

theorem Match.restoresTo (c : Match) :
    (readWith standard expr decl).RestoresTo (n + 1) toJson c := by
  have hdecls := RestoresTo.jsons Decl.jsons rfl (fun _ _ => rfl) hd
  intro hdepth p
  obtain ⟨loc, name, pats, rhs, wheres⟩ := c
  have hpats := Restores.listOf Pat.restores pats p
  have hrhs := RestoresTo.below (Rhs.restoresTo he) rhs
  refine record_ok (bind_ok (loc.restores p) (bind_ok (name.restores p) (bind_ok hpats ?_)))
  refine bind_ok (hrhs.part hdepth rfl) ?_
  exact bind_ok ((hdecls wheres).partD hdepth rfl) rfl

theorem Expr.restoresTo (e : Expr) : (readWith standard expr decl).RestoresTo (n + 1) toJson e := by
  have helems := RestoresTo.jsons Expr.jsons rfl (fun _ _ => rfl) he
  have hdecls := RestoresTo.jsons Decl.jsons rfl (fun _ _ => rfl) hd
  have halts :=
    RestoresTo.jsons Alt.jsons rfl (fun _ _ => rfl) (RestoresTo.below (Alt.restoresTo he hd))
  have hstmts :=
    RestoresTo.jsons Stmt.jsons rfl (fun _ _ => rfl) (RestoresTo.below (Stmt.restoresTo he hd))
  have hfields :=
    RestoresTo.jsons FieldUpdate.jsons rfl (fun _ _ => rfl)
      (RestoresTo.below (FieldUpdate.restoresTo he))
  intro hdepth p
  cases e with
  | var name => exact tagged_ok (bind_ok (name.restores _) rfl)
  | con name => exact tagged_ok (bind_ok (name.restores _) rfl)
  | lit l => exact tagged_ok (bind_ok (l.restores _) rfl)
  | infixApp l op r =>
    exact tagged_ok (bind_ok ((he l).part hdepth rfl)
      (bind_ok (op.restores _) (bind_ok ((he r).part hdepth rfl) rfl)))
  | app f arg =>
    exact tagged_ok (bind_ok ((he f).part hdepth rfl) (bind_ok ((he arg).part hdepth rfl) rfl))
  | neg e => exact tagged_ok (bind_ok ((he e).part hdepth rfl) rfl)
  | lambda loc pats body =>
    have hpats := Restores.listOf Pat.restores pats .inside
    exact tagged_ok (bind_ok (loc.restores _)
      (bind_ok hpats (bind_ok ((he body).part hdepth rfl) rfl)))
  | letIn decls body =>
    exact tagged_ok (bind_ok ((hdecls decls).part hdepth rfl)
      (bind_ok ((he body).part hdepth rfl) rfl))
  | ifThenElse cond yes no =>
    refine tagged_ok (bind_ok ((he cond).part hdepth rfl) ?_)
    exact bind_ok ((he yes).part hdepth rfl) (bind_ok ((he no).part hdepth rfl) rfl)
  | caseOf scrutinee alts =>
    exact tagged_ok (bind_ok ((he scrutinee).part hdepth rfl)
      (bind_ok ((halts alts).part hdepth rfl) rfl))
  | doBlock stmts =>
    exact tagged_ok (bind_ok ((hstmts stmts).part hdepth rfl) rfl)
  | tuple elems =>
    exact tagged_ok (bind_ok ((helems elems).part hdepth rfl) rfl)
  | list elems =>
    exact tagged_ok (bind_ok ((helems elems).part hdepth rfl) rfl)
  | paren e => exact tagged_ok (bind_ok ((he e).part hdepth rfl) rfl)
  | leftSection e op =>
    exact tagged_ok (bind_ok ((he e).part hdepth rfl) (bind_ok (op.restores _) rfl))
  | rightSection op e =>
    exact tagged_ok (bind_ok (op.restores _) (bind_ok ((he e).part hdepth rfl) rfl))
  | recConstr con fields =>
    exact tagged_ok (bind_ok (con.restores _) (bind_ok ((hfields fields).part hdepth rfl) rfl))
  | recUpdate e fields =>
    exact tagged_ok (bind_ok ((he e).part hdepth rfl)
      (bind_ok ((hfields fields).part hdepth rfl) rfl))
  | enumFrom start => exact tagged_ok (bind_ok ((he start).part hdepth rfl) rfl)
  | enumFromTo start stop =>
    exact tagged_ok (bind_ok ((he start).part hdepth rfl) (bind_ok ((he stop).part hdepth rfl) rfl))
  | enumFromThen start next =>
    exact tagged_ok (bind_ok ((he start).part hdepth rfl) (bind_ok ((he next).part hdepth rfl) rfl))
  | enumFromThenTo start next stop =>
    refine tagged_ok (bind_ok ((he start).part hdepth rfl) ?_)
    exact bind_ok ((he next).part hdepth rfl) (bind_ok ((he stop).part hdepth rfl) rfl)
  | listComp e quals =>
    exact tagged_ok (bind_ok ((he e).part hdepth rfl)
      (bind_ok ((hstmts quals).part hdepth rfl) rfl))
  | typed loc e ty =>
    exact tagged_ok (bind_ok (loc.restores _)
      (bind_ok ((he e).part hdepth rfl) (bind_ok (ty.restores _) rfl)))
  | asPat name e =>
    exact tagged_ok (bind_ok (name.restores _) (bind_ok ((he e).part hdepth rfl) rfl))
  | wildcard => rfl
  | irrefutable e => exact tagged_ok (bind_ok ((he e).part hdepth rfl) rfl)

theorem Decl.restoresTo (d : Decl) : (readWith standard expr decl).RestoresTo (n + 1) toJson d := by
  have hdecls := RestoresTo.jsons Decl.jsons rfl (fun _ _ => rfl) hd
  have hclauses :=
    RestoresTo.jsons Match.jsons rfl (fun _ _ => rfl) (RestoresTo.below (Match.restoresTo he hd))
  have hnames (ns : List Name) := Restores.listOf Name.restores ns .inside
  have htypes (ts : List Ty) := Restores.listOf Ty.restores ts .inside
  have hderivings (qs : List QName) := Restores.listOf QName.restores qs .inside
  intro hdepth p
  cases d with
  | typeDecl loc name vars ty =>
    refine tagged_ok (bind_ok (loc.restores _) (bind_ok (name.restores _) ?_))
    exact bind_ok (hnames vars) (bind_ok (ty.restores _) rfl)
  | dataDecl loc context name vars cons derivings =>
    have hcons := Restores.listOf ConDecl.restores cons .inside
    refine tagged_ok (bind_ok (loc.restores _)
      (bind_ok (Context.restores context _) (bind_ok (name.restores _) ?_)))
    exact bind_ok (hnames vars) (bind_ok hcons (bind_ok (hderivings derivings) rfl))
  | newtypeDecl loc context name vars con derivings =>
    refine tagged_ok (bind_ok (loc.restores _)
      (bind_ok (Context.restores context _) (bind_ok (name.restores _) ?_)))
    exact bind_ok (hnames vars) (bind_ok (con.restores _) (bind_ok (hderivings derivings) rfl))
  | infixDecl loc assoc prec ops =>
    have hops := Restores.listOf Op.restores ops .inside
    have hprec := nat_ok prec.toNat_lt .inside
    refine tagged_ok (bind_ok (loc.restores _)
      (bind_ok (assoc.restores _) (bind_ok hprec (bind_ok hops ?_))))
    rw [UInt8.ofNat_toNat]
    rfl
  | classDecl loc context name vars decls =>
    refine tagged_ok (bind_ok (loc.restores _)
      (bind_ok (Context.restores context _) (bind_ok (name.restores _) ?_)))
    exact bind_ok (hnames vars) (bind_ok ((hdecls decls).partD hdepth rfl) rfl)
  | instDecl loc context className types decls =>
    refine tagged_ok (bind_ok (loc.restores _)
      (bind_ok (Context.restores context _) (bind_ok (className.restores _) ?_)))
    exact bind_ok (htypes types) (bind_ok ((hdecls decls).partD hdepth rfl) rfl)
  | defaultDecl loc types => exact tagged_ok (bind_ok (loc.restores _) (bind_ok (htypes types) rfl))
  | typeSig loc names ty =>
    exact tagged_ok (bind_ok (loc.restores _)
      (bind_ok (hnames names) (bind_ok (ty.restores _) rfl)))
  | foreignImport loc callConv safety entity name ty =>
    refine tagged_ok (bind_ok (loc.restores _) (bind_ok rfl (bind_ok (safety.restores _) ?_)))
    exact bind_ok rfl (bind_ok (name.restores _) (bind_ok (ty.restores _) rfl))
  | foreignExport loc callConv entity name ty =>
    refine tagged_ok (bind_ok (loc.restores _) (bind_ok rfl (bind_ok rfl ?_)))
    exact bind_ok (name.restores _) (bind_ok (ty.restores _) rfl)
  | funBind clauses =>
    exact tagged_ok (bind_ok ((hclauses clauses).part hdepth rfl) rfl)
  | patBind loc pat rhs wheres =>
    have hrhs := RestoresTo.below (Rhs.restoresTo he) rhs
    refine tagged_ok (bind_ok (loc.restores _)
      (bind_ok (pat.restores _) (bind_ok (hrhs.part hdepth rfl) ?_)))
    exact bind_ok ((hdecls wheres).partD hdepth rfl) rfl

end

theorem restoresTo_readTo (n : Nat) :
    (∀ e, (Expr.readTo standard n).RestoresTo n Expr.toJson e) ∧
    ∀ d, (Decl.readTo standard n).RestoresTo n Decl.toJson d := by
  induction n with
  | zero =>
    constructor
    · intro e
      cases e <;> exact .zero rfl
    · intro d
      cases d <;> exact .zero rfl
  | succ n ih => exact ⟨Expr.restoresTo ih.1 ih.2, Decl.restoresTo ih.1 ih.2⟩

theorem Expr.restores (e : Expr) : (Expr.read standard).Restores toJson e :=
  (restoresTo_readTo _).1 e (Nat.le_refl _)

theorem Decl.restores (d : Decl) : (Decl.read standard).Restores toJson d :=
  (restoresTo_readTo _).2 d (Nat.le_refl _)

theorem Stmt.restores (s : Stmt) : (Stmt.read standard).Restores toJson s :=
  restoresTo (fun e => e.restores.toDepth _) (fun d => d.restores.toDepth _) s (Nat.le_succ _)

theorem FieldUpdate.restores (f : FieldUpdate) : (FieldUpdate.read standard).Restores toJson f :=
  restoresTo (fun e => e.restores.toDepth _) f (Nat.le_succ _)

theorem Alt.restores (a : Alt) : (Alt.read standard).Restores toJson a :=
  restoresTo (fun e => e.restores.toDepth _) (fun d => d.restores.toDepth _) a (Nat.le_succ _)

theorem GuardedAlts.restores (a : GuardedAlts) : (GuardedAlts.read standard).Restores toJson a :=
  restoresTo (fun e => e.restores.toDepth _) a (Nat.le_succ _)

theorem GuardedAlt.restores (a : GuardedAlt) : (GuardedAlt.read standard).Restores toJson a :=
  restoresTo (fun e => e.restores.toDepth _) a (Nat.le_succ _)

theorem Match.restores (c : Match) : (Match.read standard).Restores toJson c :=
  restoresTo (fun e => e.restores.toDepth _) (fun d => d.restores.toDepth _) c (Nat.le_succ _)

theorem Rhs.restores (r : Rhs) : (Rhs.read standard).Restores toJson r :=
  restoresTo (fun e => e.restores.toDepth _) r (Nat.le_succ _)

theorem GuardedRhs.restores (r : GuardedRhs) : (GuardedRhs.read standard).Restores toJson r :=
  restoresTo (fun e => e.restores.toDepth _) r (Nat.le_succ _)

/-! ### Modules -/

theorem ExportSpec.restores (s : ExportSpec) : (ExportSpec.read standard).Restores toJson s := by
  intro p
  cases s with
  | var name => exact tagged_ok (bind_ok (name.restores _) rfl)
  | abs name => exact tagged_ok (bind_ok (name.restores _) rfl)
  | thingAll name => exact tagged_ok (bind_ok (name.restores _) rfl)
  | thingWith name items =>
    have hitems := Restores.listOf CName.restores items .inside
    exact tagged_ok (bind_ok (name.restores _) (bind_ok hitems rfl))
  | moduleContents module => exact tagged_ok (bind_ok (module.restores _) rfl)

theorem ImportSpec.restores (s : ImportSpec) : (ImportSpec.read standard).Restores toJson s := by
  intro p
  cases s with
  | var name => exact tagged_ok (bind_ok (name.restores _) rfl)
  | abs name => exact tagged_ok (bind_ok (name.restores _) rfl)
  | thingAll name => exact tagged_ok (bind_ok (name.restores _) rfl)
  | thingWith name items =>
    have hitems := Restores.listOf CName.restores items .inside
    exact tagged_ok (bind_ok (name.restores _) (bind_ok hitems rfl))

theorem ImportSpecs.restores (s : ImportSpecs) : (ImportSpecs.read standard).Restores toJson s := by
  intro p
  have hitems := Restores.listOf ImportSpec.restores s.items p
  exact record_ok (bind_ok rfl (bind_ok hitems rfl))

theorem ImportDecl.restores (i : ImportDecl) : (ImportDecl.read standard).Restores toJson i := by
  intro p
  have halias :=
    Restores.option (by simp [ModuleName.toJson]) (fun m (_ : m ∈ i.asName) => m.restores) p
  have hspecs :=
    Restores.option (by simp [ImportSpecs.toJson]) (fun s (_ : s ∈ i.specs) => s.restores) p
  refine record_ok (bind_ok (i.loc.restores p) (bind_ok (i.module.restores p) ?_))
  exact bind_ok rfl (bind_ok halias (bind_ok hspecs rfl))

theorem Module.restores (m : Module) : (Module.read standard).Restores toJson m := by
  intro p
  have hexports :=
    Restores.option (by simp [listJson])
      (fun specs (_ : specs ∈ m.exports) => Restores.listOf ExportSpec.restores specs) p
  have himports := Restores.listOf ImportDecl.restores m.imports p
  have hdecls := Restores.listOf Decl.restores m.decls p
  refine record_ok (bind_ok (m.loc.restores p) (bind_ok (m.name.restores p) (bind_ok hexports ?_)))
  exact bind_ok himports (bind_ok hdecls rfl)

/-! ### Trees of any category -/

theorem Node.restores (t : Node) : (Node.read standard t.category).Restores Node.toJson t := by
  intro p
  cases t with
  | _ node => exact map_ok _ (node.restores p)

end Syntax

end Offside
