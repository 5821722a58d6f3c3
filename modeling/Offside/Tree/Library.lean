import Offside.Json.Basic
import Offside.Text.Blank
import Offside.Text.Quoted

/-!
# Reading the sorts of values that trees are made of

How a library for JSON reads texts, numbers, lists and objects is fixed for proper values up to some
depth only; what it does with other values is its own. A part with a default may be missing, and
keys that belong to no part are passed over. An array may stand for an object, with its parts in
their order. What stands inside a node with a kind may name a kind by its number, too, and write an
empty object where a variant has no value.
-/
namespace Offside.Syntax

open Offside.Number

inductive ReadError where
  /-- The value does not have the form of the node. -/
  | malformed
  /-- A text that should be a whole number of 128 bits is not one. -/
  | badInteger (text : String)
  /-- Two numbers that make no fraction of 128-bit parts. -/
  | badRatio (num den : Int)
deriving DecidableEq, Repr

/-- The wording of an error that has one. -/
def ReadError.message? : ReadError → Option String
  | .malformed => none
  | .badInteger s => some ("invalid integer " ++ Text.quoted s)
  | .badRatio n d => some ("invalid rational " ++ decimalText n ++ " % " ++ decimalText d)

/-- Whether a value stands inside a node that has a kind. -/
inductive Place where
  | outside
  | inside
deriving DecidableEq, Repr

/-- A reader of one sort of value. -/
abbrev Read (α : Type) := Place → Json → Except ReadError α

/-- An object whose parts are to be read, and where they stand. -/
structure Parts where
  place : Place
  json : Json

/-- The parts of a node by its kind, in the order of the numbers of the kinds. -/
abbrev Kinds := List (String × List String)

namespace Read

def malformed {α : Type} : Except ReadError α := .error .malformed

def string : Read String
  | _, .string s => .ok s
  | _, _ => malformed

def bool : Read Bool
  | _, .bool b => .ok b
  | _, _ => malformed

def char : Read Char
  | _, .string s =>
    match s.toList with
    | [c] => .ok c
    | _ => malformed
  | _, _ => malformed

/-- A whole number from zero up to below `limit`. -/
def nat (limit : Nat) : Read Nat
  | _, .int n => if 0 ≤ n ∧ n < limit then .ok n.toNat else malformed
  | _, _ => malformed

/-- A number of 64 bits, signed or not, or a text. -/
def numberOrText : Read (Int ⊕ String)
  | _, .int n =>
    if -0x8000000000000000 ≤ n ∧ n < 0x10000000000000000 then .ok (.inl n) else malformed
  | _, .string s => .ok (.inr s)
  | _, _ => malformed

def list {α : Type} (read : Read α) : Read (List α)
  | p, .array items => items.mapM (read p)
  | _, _ => malformed

def option {α : Type} (read : Read α) : Read (Option α)
  | _, .null => .ok none
  | p, j => some <$> read p j

/-- A part that has to be there. -/
def part {α : Type} (o : Parts) (key : String) (read : Read α) : Except ReadError α :=
  match o.json.get? key with
  | some v => read o.place v
  | none => malformed

/-- A part that has a default. -/
def partD {α : Type} (o : Parts) (key : String) (default : α) (read : Read α) :
    Except ReadError α :=
  match o.json.get? key with
  | some v => read o.place v
  | none => .ok default

/-- The items of an array as the parts of an object, as far as they go. -/
def positional {α : Type} (keys : List String) (read : Parts → Except ReadError α) (p : Place)
    (items : List Json) : Except ReadError α :=
  if items.length ≤ keys.length then read ⟨p, .object (keys.zip items)⟩ else malformed

/-- An object that is read by its parts. -/
def record {α : Type} (keys : List String) (read : Parts → Except ReadError α) : Read α
  | p, .object members => read ⟨p, .object members⟩
  | p, .array items => positional keys read p items
  | _, _ => malformed

/-- One of several kinds by its name, or inside another node by its number among them. -/
def kind (kinds : List String) : Read String
  | _, .string s => .ok s
  | .inside, .int n => if 0 ≤ n then (kinds[n.toNat]?).elim malformed .ok else malformed
  | _, _ => malformed

/-- A node that has a kind. Its parts stand inside it. -/
def tagged {α : Type} (kinds : Kinds) (read : String → Parts → Except ReadError α) : Read α
  | p, .object members => do
    let k ← part ⟨p, .object members⟩ "kind" (kind (kinds.map Prod.fst))
    read k ⟨.inside, .object members⟩
  | p, .array (v :: items) => do
    let k ← kind (kinds.map Prod.fst) p v
    positional ((kinds.lookup k).getD []) (read k) .inside items
  | _, _ => malformed

/-- The variant and the value of an object with one key; a text alone is a variant without a
value. -/
def variant : Json → Except ReadError (String × Json)
  | .string s => .ok (s, .null)
  | .object [(key, v)] => .ok (key, v)
  | _ => malformed

/-- A variant without a value, for which an empty object may stand inside a node. -/
def plain {α : Type} (a : α) : Read α
  | _, .null => .ok a
  | .inside, .object [] => .ok a
  | _, _ => malformed

/-- Both give the same value, or neither gives one. -/
def Agree {α : Type} (x y : Except ReadError α) : Prop := ∀ a, x = .ok a ↔ y = .ok a

end Read

open Read

/-- A library for JSON: how it reads each sort of value. The proper values are read as they should
be, up to a limit on their depth if it has one. -/
structure Library where
  string : Read String
  bool : Read Bool
  char : Read Char
  nat (limit : Nat) : Read Nat
  numberOrText : Read (Int ⊕ String)
  list {α : Type} (read : Read α) : Read (List α)
  option {α : Type} (read : Read α) : Read (Option α)
  record {α : Type} (keys : List String) (read : Parts → Except ReadError α) : Read α
  tagged {α : Type} (kinds : Kinds) (read : String → Parts → Except ReadError α) : Read α
  variant (j : Json) : Except ReadError (String × Json)
  plain {α : Type} (a : α) : Read α
  limit : Option Nat
  string_agree (p : Place) {j : Json} (h : j.Within limit) : Agree (string p j) (Read.string p j)
  bool_agree (p : Place) {j : Json} (h : j.Within limit) : Agree (bool p j) (Read.bool p j)
  char_agree (p : Place) {j : Json} (h : j.Within limit) : Agree (char p j) (Read.char p j)
  nat_agree (n : Nat) (p : Place) {j : Json} (h : j.Within limit) : Agree (nat n p j)
    (Read.nat n p j)
  numberOrText_agree (p : Place) {j : Json} (h : j.Within limit) :
    Agree (numberOrText p j) (Read.numberOrText p j)
  list_agree {α : Type} (read : Read α) (p : Place) {j : Json} (h : j.Within limit) :
    Agree (list read p j) (Read.list read p j)
  option_agree {α : Type} (read : Read α) (p : Place) {j : Json} (h : j.Within limit) :
    Agree (option read p j) (Read.option read p j)
  record_agree {α : Type} (keys : List String) (read : Parts →
    Except ReadError α) (p : Place) {j : Json}
    (h : j.Within limit) : Agree (record keys read p j) (Read.record keys read p j)
  tagged_agree {α : Type} (kinds : Kinds) (read : String → Parts →
    Except ReadError α) (p : Place) {j : Json}
    (h : j.Within limit) : Agree (tagged kinds read p j) (Read.tagged kinds read p j)
  variant_agree {j : Json} (h : j.Within limit) : Agree (variant j) (Read.variant j)
  plain_agree {α : Type} (a : α) (p : Place) {j : Json} (h : j.Within limit) :
    Agree (plain a p j) (Read.plain a p j)

/-- The library without a limit that reads every value as it should be. -/
def Library.standard : Library where
  string := Read.string
  bool := Read.bool
  char := Read.char
  nat := Read.nat
  numberOrText := Read.numberOrText
  list := Read.list
  option := Read.option
  record := Read.record
  tagged := Read.tagged
  variant := Read.variant
  plain := Read.plain
  limit := none
  string_agree _ _ _ _ := Iff.rfl
  bool_agree _ _ _ _ := Iff.rfl
  char_agree _ _ _ _ := Iff.rfl
  nat_agree _ _ _ _ _ := Iff.rfl
  numberOrText_agree _ _ _ _ := Iff.rfl
  list_agree _ _ _ _ _ := Iff.rfl
  option_agree _ _ _ _ _ := Iff.rfl
  record_agree _ _ _ _ _ _ := Iff.rfl
  tagged_agree _ _ _ _ _ _ := Iff.rfl
  variant_agree _ _ := Iff.rfl
  plain_agree _ _ _ _ _ := Iff.rfl

end Offside.Syntax
