import Offside.Proofs.TreeForms

/-!
# Absent parts have their defaults

A tree is read from an edited value as it is read from the value before. Each reader of an object
finds the parts that it asks for in the one as in the other, or finds a part with its default in the
first and none in the second. The two values may be read with two libraries: what the first reads
within its limit, the second reads within its own. So every library reads within its limit what the
standard one reads.
-/
namespace Offside

namespace Json

/-- What is found in an array by the keys of its positions is one of its items. -/
theorem mem_of_lookup_zip {keys : List String} {key : String} {v : Json} {js : List Json}
    (h : (keys.zip js).lookup key = some v) : v ∈ js := by
  obtain ⟨before, behind, hzip, -⟩ := List.lookup_eq_some_iff.mp h
  have hmem : (key, v) ∈ keys.zip js := by simp [hzip]
  exact (List.of_mem_zip hmem).2

end Json

namespace Syntax

open Read Number Json

namespace Read

/-- What the one reads, the other reads too. -/
def Refines {α : Type} (x y : Except ReadError α) : Prop := ∀ a, x = .ok a → y = .ok a

namespace Refines

variable {α β : Type} {x y : Except ReadError α}

theorem refl (x : Except ReadError α) : Refines x x := fun _ h => h

theorem malformed (y : Except ReadError α) : Refines Read.malformed y := fun _ h => nomatch h

/-- What a library reads as it should be read refines what another one does. -/
theorem between {x' y' : Except ReadError α} (hx : Agree x x') (hy : Agree y y')
    (h : Refines x' y') : Refines x y :=
  fun a ha => (hy a).mpr (h a ((hx a).mp ha))

theorem bind {k k' : α → Except ReadError β} (hx : Refines x y) (hk : ∀ a, Refines (k a) (k' a)) :
    Refines (x >>= k) (y >>= k') := by
  intro b h
  obtain ⟨a, ha, hb⟩ := of_bind_eq_ok h
  exact bind_ok (hx a ha) (hk a b hb)

theorem map (f : α → β) (hx : Refines x y) : Refines (f <$> x) (f <$> y) := by
  intro b h
  obtain ⟨a, ha, rfl⟩ := of_map_eq_ok h
  exact map_ok f (hx a ha)

theorem mapM {f g : β → Except ReadError α} {xs ys : List β}
    (h : List.Forall₂ (fun x y => Refines (f x) (g y)) xs ys) :
    Refines (xs.mapM f) (ys.mapM g) := by
  induction h with
  | nil => exact refl _
  | cons hx _ ih =>
    rw [List.mapM_cons, List.mapM_cons]
    exact hx.bind fun _ => ih.bind fun _ => refl _

end Refines

/-- What the first reader reads of a value, the second reads of the edited value, if the one is
within the limit of the first library and the other within that of the second and no deeper than
`n`. -/
def Follows {α : Type} (L L' : Library) (n : Nat) (form : Form) (read read' : Read α) : Prop :=
  ∀ ⦃j j' : Json⦄, Edited form j j' → j.Within L.limit → j'.Within L'.limit → j'.depth ≤ n →
    ∀ p, Refines (read p j) (read' p j')

/-- What the first reader reads of a value within both limits, the second reads. -/
def Matches {α : Type} (L L' : Library) (read read' : Read α) : Prop :=
  ∀ ⦃j : Json⦄, j.Within L.limit → j.Within L'.limit → ∀ p, Refines (read p j) (read' p j)

/-- The values of a form that are defaults are read as this one. -/
def Defaults {α : Type} (L : Library) (form : Form) (read : Read α) (default : α) : Prop :=
  ∀ v, form.IsDefault v → v.Within L.limit → ∀ p a, read p v = .ok a → a = default

end Read

variable {L L' : Library} {n : Nat}

/-! ### Values without parts -/

theorem Read.Matches.ofAgree {α : Type} {read read' standard : Read α}
    (h : ∀ p {j : Json}, j.Within L.limit → Agree (read p j) (standard p j))
    (h' : ∀ p {j : Json}, j.Within L'.limit → Agree (read' p j) (standard p j)) :
    Matches L L' read read' :=
  fun _ hj hj' p => .between (h p hj) (h' p hj') (.refl _)

theorem int128_matches : Matches L L' (int128 L) (int128 L') := fun _ h h' p =>
  (Matches.ofAgree L.numberOrText_agree L'.numberOrText_agree h h' p).bind fun _ => .refl _

theorem Read.Matches.map {α β : Type} {read read' : Read α} (f : α → β)
    (h : Matches L L' read read') :
    Matches L L' (fun p j => f <$> read p j) (fun p j => f <$> read' p j) :=
  fun _ hj hj' p => (h hj hj' p).map f

theorem within_variant {limit : Option Nat} {j v : Json} {key : String} (hj : j.Within limit)
    (h : Read.variant j = .ok (key, v)) : v.Within limit := by
  unfold Read.variant at h
  split at h
  · cases h
    exact ⟨rfl, fun _ _ => Nat.zero_le _⟩
  · cases h
    exact hj.member (List.lookup_cons_self ..)
  · cases h

theorem depth_le_of_variant {j v : Json} {key : String} (h : Read.variant j = .ok (key, v)) :
    v.depth ≤ j.depth := by
  unfold Read.variant at h
  split at h
  · cases h
    exact Nat.zero_le _
  · cases h
    simp only [depth, membersDepth]
    omega
  · cases h

/-- A variant is told by its key, and its value is read in turn. -/
theorem Read.Matches.variant {α : Type} {f f' : Place → String × Json → Except ReadError α}
    (h : ∀ p key {v : Json}, v.Within L.limit → v.Within L'.limit →
      Refines (f p (key, v)) (f' p (key, v))) :
    Matches L L' (fun p j => L.variant j >>= f p) (fun p j => L'.variant j >>= f' p) := by
  intro j hj hj' p a ha
  obtain ⟨⟨key, v⟩, hv, ha⟩ := of_bind_eq_ok ha
  have hvariant := (L.variant_agree hj _).mp hv
  refine bind_ok ((L'.variant_agree hj' _).mpr hvariant) ?_
  exact h p key (within_variant hj hvariant) (within_variant hj' hvariant) a ha

theorem ModuleName.matches_read : Matches L L' (ModuleName.read L) (ModuleName.read L') :=
  Matches.map _ (.ofAgree L.string_agree L'.string_agree)

theorem SpecialCon.matches_read : Matches L L' (SpecialCon.read L) (SpecialCon.read L') := by
  refine .variant fun p key v hv hv' => ?_
  dsimp only
  split
  case h_4 =>
    exact (Matches.ofAgree (L.nat_agree _) (L'.nat_agree _) hv hv' p).bind fun _ => .refl _
  case h_6 => exact .refl _
  all_goals exact Matches.ofAgree (L.plain_agree _) (L'.plain_agree _) hv hv' p

theorem Name.matches_read : Matches L L' (Name.read L) (Name.read L') := by
  refine .variant fun p key v hv hv' => ?_
  dsimp only
  split
  · exact (Matches.ofAgree L.string_agree L'.string_agree hv hv' p).map _
  · exact (Matches.ofAgree L.string_agree L'.string_agree hv hv' p).map _
  · exact (SpecialCon.matches_read hv hv' p).map _
  · exact .refl _

theorem Op.matches_read : Matches L L' (Op.read L) (Op.read L') := by
  refine .variant fun p key v hv hv' => ?_
  dsimp only
  split
  case h_3 => exact .refl _
  all_goals exact (Name.matches_read hv hv' p).map _

theorem CName.matches_read : Matches L L' (CName.read L) (CName.read L') := by
  refine .variant fun p key v hv hv' => ?_
  dsimp only
  split
  case h_3 => exact .refl _
  all_goals exact (Name.matches_read hv hv' p).map _

theorem Assoc.matches_read : Matches L L' (Assoc.read L) (Assoc.read L') := by
  refine .variant fun p key v hv hv' => ?_
  dsimp only
  split
  case h_4 => exact .refl _
  all_goals exact Matches.ofAgree (L.plain_agree _) (L'.plain_agree _) hv hv' p

theorem Safety.matches_read : Matches L L' (Safety.read L) (Safety.read L') := by
  refine .variant fun p key v hv hv' => ?_
  dsimp only
  split
  case h_3 => exact .refl _
  all_goals exact Matches.ofAgree (L.plain_agree _) (L'.plain_agree _) hv hv' p

/-! ### Inversion -/

theorem Edited.null_iff {form : Form} {j j' : Json} (h : Edited form j j') :
    j = .null ↔ j' = .null := by
  induction h with
  | same => rfl
  | optional _ _ ih => exact ih
  | items | variant | object | positions | kindPositions => simp

theorem Edited.depth_eq_zero_iff {form : Form} {j j' : Json} (h : Edited form j j') :
    j.depth = 0 ↔ j'.depth = 0 := by
  induction h with
  | same => rfl
  | optional _ _ ih => exact ih
  | items | variant | object | positions | kindPositions => simp [depth]

theorem Edited.eq_of_leaf {form : Form} (hshape : form.shape = .leaf) {j j' : Json}
    (h : Edited form j j') : j' = j := by
  cases h with
  | same => rfl
  | items shape | optional shape | variant shape | positions shape | kindPositions shape =>
    simp [hshape] at shape
  | object parts => simp [Form.slots?, hshape] at parts

theorem Edited.forall₂_items {f : Form} {js : List Json} {j' : Json}
    (h : Edited (.list f) (.array js) j') :
    ∃ js', j' = .array js' ∧ List.Forall₂ (Edited f) js js' := by
  cases h with
  | same => exact ⟨js, rfl, List.forall₂_same.mpr fun j _ => .same f j⟩
  | @items _ _ _ js' shape length each =>
    cases shape
    exact ⟨js', rfl, List.forall₂_iff_zip.mpr ⟨length, each⟩⟩
  | optional shape | positions shape | kindPositions shape => cases shape

theorem Edited.value_option {f : Form} {j j' : Json} (h : Edited (.option f) j j') :
    Edited f j j' := by
  cases h with
  | same => exact .same f j
  | items shape | variant shape | positions shape | kindPositions shape => cases shape
  | optional shape value =>
    cases shape
    exact value
  | object parts => simp [Form.slots?, Form.shape] at parts

/-- The parts of an object before and after some edits, the former within the limit of the first
library and the latter within that of the second and no deeper than `n`. -/
structure EditedParts (L L' : Library) (n : Nat) (slots : Slots) (o o' : Parts) : Prop where
  place : o'.place = o.place
  edited : ∀ key slot, slots.lookup key = some slot →
    EditedPart slot (o.json.get? key) (o'.json.get? key)
  before : ∀ {key v}, o.json.get? key = some v → v.Within L.limit
  after : ∀ {key v}, o'.json.get? key = some v → v.Within L'.limit ∧ v.depth ≤ n

section

variable {form : Form} {slots : Slots} {js : List Json} {j' : Json}

theorem Edited.parts {ms : List (String × Json)} (h : Edited form (.object ms) j')
    (hslots : form.slots? ms = some slots) (hbefore : (Json.object ms).Within L.limit)
    (hafter : j'.Within L'.limit) (hdepth : j'.depth ≤ n + 1) :
    ∃ ms', j' = .object ms' ∧ ms'.lookup "kind" = ms.lookup "kind" ∧
      ∀ p, EditedParts L L' n slots ⟨p, .object ms⟩ ⟨p, .object ms'⟩ := by
  have hvalues : ∀ {ms'}, j' = .object ms' → ∀ {key v}, ms'.lookup key = some v →
      v.Within L'.limit ∧ v.depth ≤ n := by
    rintro ms' rfl key v hv
    have hmember := depth_le_membersDepth hv
    rw [depth] at hdepth
    exact ⟨hafter.member hv, by omega⟩
  cases h with
  | same =>
    exact ⟨ms, rfl, rfl, fun p => ⟨rfl, fun _ _ _ => .refl _ _, hbefore.member, hvalues rfl⟩⟩
  | optional shape | variant shape => simp [Form.slots?, shape] at hslots
  | @object _ _ _ ms' parts kind kept leftOut absent =>
    rw [hslots] at parts
    obtain rfl := Option.some.inj parts
    refine ⟨ms', rfl, kind, fun p => ⟨rfl, fun key slot hslot => ?_, hbefore.member, hvalues rfl⟩⟩
    simp only [Json.get?]
    cases hv : ms.lookup key with
    | none =>
      rw [absent hslot hv]
      exact .absent
    | some v =>
      cases hv' : ms'.lookup key with
      | none => exact .leftOut (leftOut hslot hv hv').1 (leftOut hslot hv hv').2
      | some v' => exact .there (kept hslot hv hv')

/-- The items of an array, edited in turn, as the parts of an object. -/
theorem EditedPart.ofPositions {js' : List Json} (hlength : js.length = js'.length)
    (heach : ∀ {part : String × Slot} {j j' : Json}, (part, j, j') ∈ slots.zip (js.zip js') →
      Edited part.2.form j j') {key : String} {slot : Slot} (hslot : slots.lookup key = some slot) :
    EditedPart slot (((slots.map Prod.fst).zip js).lookup key)
      (((slots.map Prod.fst).zip js').lookup key) := by
  induction slots generalizing js js' with
  | nil => cases hslot
  | cons part slots ih =>
    cases js with
    | nil =>
      obtain rfl := List.length_eq_zero_iff.mp hlength.symm
      exact .absent
    | cons j js =>
      obtain ⟨j', js', rfl⟩ := List.exists_cons_of_length_eq_add_one hlength.symm
      obtain ⟨key', slot'⟩ := part
      have hrest {part : String × Slot} {k k' : Json}
          (hmem : (part, k, k') ∈ slots.zip (js.zip js')) :
          Edited part.2.form k k' := heach (by simp [hmem])
      rw [List.map_cons, List.zip_cons_cons, List.zip_cons_cons]
      simp only [List.lookup_cons] at hslot ⊢
      cases hkey : key == key' with
      | true =>
        simp only [hkey, Option.some.injEq] at hslot ⊢
        subst hslot
        have hmem : ((key', slot'), j, j') ∈
            ((key', slot') :: slots).zip ((j :: js).zip (j' :: js')) := by simp
        exact .there (heach hmem)
      | false =>
        simp only [hkey] at hslot ⊢
        exact ih (Nat.succ.inj hlength) hrest hslot

theorem Edited.ofZipSelf {part : String × Slot} {j j' : Json}
    (h : (part, j, j') ∈ slots.zip (js.zip js)) : Edited part.2.form j j' := by
  have hmem := (List.of_mem_zip h).2
  obtain rfl : j = j' := by
    rw [List.zip_eq_zipWith, List.zipWith_self] at hmem
    obtain ⟨k, -, hk⟩ := List.mem_map.mp hmem
    simp_all
  exact .same _ j

theorem EditedParts.ofPositions {js' : List Json} (p : Place) (hlength : js.length = js'.length)
    (heach : ∀ {part : String × Slot} {j j' : Json}, (part, j, j') ∈ slots.zip (js.zip js') →
      Edited part.2.form j j') (hbefore : ∀ j ∈ js, j.Within L.limit)
    (hafter : ∀ j ∈ js', j.Within L'.limit ∧ j.depth ≤ n) :
    EditedParts L L' n slots ⟨p, .object ((slots.map Prod.fst).zip js)⟩
      ⟨p, .object ((slots.map Prod.fst).zip js')⟩ where
  place := rfl
  edited _ _ hslot := .ofPositions hlength heach hslot
  before hv := hbefore _ (mem_of_lookup_zip hv)
  after hv := hafter _ (mem_of_lookup_zip hv)

theorem Edited.positionsOf (hshape : form.shape = .record slots) (h : Edited form (.array js) j') :
    ∃ js', j' = .array js' ∧ js.length = js'.length ∧
      ∀ {part : String × Slot} {j j' : Json}, (part, j, j') ∈ slots.zip (js.zip js') →
        Edited part.2.form j j' := by
  cases h with
  | same => exact ⟨js, rfl, rfl, .ofZipSelf⟩
  | items shape | optional shape | kindPositions shape => simp [hshape] at shape
  | @positions _ _ _ js' shape length each =>
    rw [hshape] at shape
    obtain rfl := Shape.record.inj shape
    exact ⟨js', rfl, length, each⟩

theorem Edited.kindPositionsOf {table : Table} {kind : String} {v : Json}
    (hshape : form.shape = .tagged table) (hkind : table.kind? v = some kind)
    (h : Edited form (.array (v :: js)) j') :
    ∃ js', j' = .array (v :: js') ∧ js.length = js'.length ∧
      ∀ {part : String × Slot} {j j' : Json}, (part, j, j') ∈ (table.slots kind).zip (js.zip js') →
        Edited part.2.form j j' := by
  cases h with
  | same => exact ⟨js, rfl, rfl, .ofZipSelf⟩
  | items shape | optional shape | positions shape => simp [hshape] at shape
  | @kindPositions _ _ _ _ _ js' shape named length each =>
    rw [hshape] at shape
    obtain rfl := Shape.tagged.inj shape
    rw [hkind] at named
    obtain rfl := Option.some.inj named
    exact ⟨js', rfl, length, each⟩

end

namespace EditedParts

variable {α : Type} {slots : Slots} {o o' : Parts} {key : String} {form : Form}
  {read read' : Read α}

theorem part (h : EditedParts L L' n slots o o') (hslot : slots.lookup key = some (.required form))
    (hread : Follows L L' n form read read') : Refines (part o key read) (part o' key read') := by
  have hpart := h.edited key _ hslot
  unfold Read.part
  cases hbefore : o.json.get? key with
  | none => exact .malformed _
  | some v =>
    cases hafter : o'.json.get? key with
    | none =>
      rw [hbefore, hafter] at hpart
      cases hpart with
      | leftOut hasDefault => cases hasDefault
    | some v' =>
      rw [hbefore, hafter] at hpart
      cases hpart with
      | there value =>
        rw [h.place]
        exact hread value (h.before hbefore) (h.after hafter).1 (h.after hafter).2 o.place

theorem partD (h : EditedParts L L' n slots o o')
    (hslot : slots.lookup key = some (.defaulted form)) (hread : Follows L L' n form read read')
    {default : α} (hdefaults : Defaults L form read default) :
    Refines (partD o key default read) (partD o' key default read') := by
  have hpart := h.edited key _ hslot
  unfold Read.partD
  cases hbefore : o.json.get? key with
  | none =>
    rw [hbefore] at hpart
    generalize o'.json.get? key = after at hpart ⊢
    cases hpart with
    | absent => exact .refl _
  | some v =>
    cases hafter : o'.json.get? key with
    | none =>
      rw [hbefore, hafter] at hpart
      cases hpart with
      | leftOut _ value =>
        intro a ha
        rw [hdefaults v value (h.before hbefore) o.place a ha]
    | some v' =>
      rw [hbefore, hafter] at hpart
      cases hpart with
      | there value =>
        rw [h.place]
        exact hread value (h.before hbefore) (h.after hafter).1 (h.after hafter).2 o.place

end EditedParts

/-! ### Readers -/

namespace Read.Follows

variable {α : Type} {form : Form} {read read' : Read α}

theorem of_succ (h : Follows L L' (n + 1) form read read') : Follows L L' n form read read' :=
  fun _ _ hedit hj hj' hdepth => h hedit hj hj' (Nat.le_succ_of_le hdepth)

theorem leaf (hshape : form.shape = .leaf) (h : Matches L L' read read') :
    Follows L L' n form read read' := by
  intro j j' hedit hj hj' _ p
  rw [hedit.eq_of_leaf hshape] at hj' ⊢
  exact h hj hj' p

theorem map {β : Type} (f : α → β) (h : Follows L L' n form read read') :
    Follows L L' n form (fun p j => f <$> read p j) (fun p j => f <$> read' p j) :=
  fun _ _ hedit hj hj' hdepth p => (h hedit hj hj' hdepth p).map f

theorem items_depth_le {js : List Json} (h : (array js).depth ≤ n + 1) {j : Json}
    (hj : j ∈ js) : j.depth ≤ n := by
  have hitem := depth_le_itemsDepth hj
  rw [depth] at h
  omega

theorem list (h : Follows L L' n form read read') :
    Follows L L' n (.list form) (L.list read) (L'.list read') := by
  intro j j' hedit hj hj' hdepth p
  refine .between (L.list_agree read p hj) (L'.list_agree read' p hj') ?_
  cases j with
  | array js =>
    obtain ⟨js', rfl, hitems⟩ := hedit.forall₂_items
    obtain ⟨hlength, heach⟩ := List.forall₂_iff_zip.mp hitems
    refine .mapM (List.forall₂_iff_zip.mpr ⟨hlength, fun hmem => ?_⟩)
    obtain ⟨hmem₁, hmem₂⟩ := List.of_mem_zip hmem
    exact h (heach hmem) (hj.item hmem₁) (hj'.item hmem₂)
      (items_depth_le (Nat.le_succ_of_le hdepth) hmem₂) p
  | _ => exact .malformed _

theorem option (h : Follows L L' n form read read') :
    Follows L L' n (.option form) (L.option read) (L'.option read') := by
  intro j j' hedit hj hj' hdepth p
  refine .between (L.option_agree read p hj) (L'.option_agree read' p hj') ?_
  have hvalue := hedit.value_option
  by_cases hnull : j = .null
  · rw [hnull, hvalue.null_iff.mp hnull]
    exact .refl _
  · have hnull' : j' ≠ .null := mt hvalue.null_iff.mpr hnull
    rw [Read.option, Read.option]
    · exact (h hvalue hj hj' hdepth p).map some
    · exact hnull'
    · exact hnull

/-- An array that stands for an object is no longer after the edits. -/
theorem positional {keys : List String} {js js' : List Json} {p : Place}
    {f f' : Parts → Except ReadError α} (hlength : js.length = js'.length)
    (h : Refines (f ⟨p, .object (keys.zip js)⟩) (f' ⟨p, .object (keys.zip js')⟩)) :
    Refines (Read.positional keys f p js) (Read.positional keys f' p js') := by
  unfold Read.positional
  rw [hlength]
  split
  · exact h
  · exact .refl _

theorem record {slots : Slots} {keys : List String} (hshape : form.shape = .record slots)
    (hkeys : slots.map Prod.fst = keys) {f f' : Parts → Except ReadError α}
    (h : ∀ {o o' : Parts}, EditedParts L L' n slots o o' → Refines (f o) (f' o')) :
    Follows L L' (n + 1) form (L.record keys f) (L'.record keys f') := by
  intro j j' hedit hj hj' hdepth p
  refine .between (L.record_agree keys f p hj) (L'.record_agree keys f' p hj') ?_
  cases j with
  | object ms =>
    have hslots : form.slots? ms = some slots := by rw [Form.slots?, hshape]
    obtain ⟨ms', rfl, -, hparts⟩ := hedit.parts hslots hj hj' hdepth
    exact h (hparts p)
  | array js =>
    obtain ⟨js', rfl, hlength, heach⟩ := hedit.positionsOf hshape
    subst hkeys
    refine positional hlength (h (.ofPositions p hlength heach (fun _ => hj.item) fun _ hmem => ?_))
    exact ⟨hj'.item hmem, items_depth_le hdepth hmem⟩
  | _ => exact .malformed _

end Read.Follows

/-- A kind is read as the table has it. -/
theorem Table.kind?_eq_some {table : Table} {p : Place} {v : Json} {kind : String}
    (h : Read.kind (table.map Prod.fst) p v = .ok kind) : table.kind? v = some kind := by
  cases v with
  | string s => exact congrArg some (Except.ok.inj h)
  | int i =>
    cases p with
    | outside => cases h
    | inside =>
      rw [Read.kind] at h
      rw [kind?]
      split_ifs at h ⊢ with hi
      · cases hkind : (table.map Prod.fst)[i.toNat]? with
        | none => simp [hkind, malformed] at h
        | some kind' => simpa [hkind] using h
      · cases h
  | _ => cases p <;> cases h

/-- The names of the parts. -/
def Table.keys (table : Table) : Kinds := table.map fun entry => (entry.1, entry.2.map Prod.fst)

theorem Table.map_fst_keys (table : Table) : table.keys.map Prod.fst = table.map Prod.fst := by
  simp [keys]

theorem Table.lookup_keys (table : Table) (kind : String) :
    (table.keys.lookup kind).getD [] = (table.slots kind).map Prod.fst := by
  unfold keys slots
  induction table with
  | nil => rfl
  | cons entry table ih =>
    rw [List.map_cons, List.lookup_cons, List.lookup_cons]
    cases kind == entry.1 with
    | true => rfl
    | false => exact ih

theorem Read.Follows.tagged {α : Type} {c : Category} {table : Table} {kinds : Kinds}
    (hshape : c.shape = .tagged table) (hkinds : table.keys = kinds)
    {f f' : String → Parts → Except ReadError α}
    (h : ∀ kind {o o' : Parts}, EditedParts L L' n (table.slots kind) o o' →
      Refines (f kind o) (f' kind o')) :
    Follows L L' (n + 1) (.node c) (L.tagged kinds f) (L'.tagged kinds f') := by
  subst hkinds
  intro j j' hedit hj hj' hdepth p
  refine .between (L.tagged_agree _ f p hj) (L'.tagged_agree _ f' p hj') fun a hread => ?_
  unfold Read.tagged at hread
  split at hread
  · next ms =>
    obtain ⟨kind, hkind, hbody⟩ := of_bind_eq_ok hread
    unfold part at hkind
    cases hv : ms.lookup "kind" with
    | none => simp [Json.get?, hv, malformed] at hkind
    | some v =>
      simp only [Json.get?, hv] at hkind
      have hslots : (Form.node c).slots? ms = some (table.slots kind) := by
        rw [table.map_fst_keys] at hkind
        simp [Form.slots?, Form.shape, hshape, hv, Table.kind?_eq_some hkind]
      obtain ⟨ms', rfl, hsame, hparts⟩ := hedit.parts hslots hj hj' hdepth
      have hget : (Json.object ms').get? "kind" = some v := hsame.trans hv
      exact bind_ok (part_ok hget hkind) (h kind (hparts .inside) a hbody)
  · next v js =>
    obtain ⟨kind, hkind, hbody⟩ := of_bind_eq_ok hread
    have hnamed : table.kind? v = some kind := by
      rw [table.map_fst_keys] at hkind
      exact Table.kind?_eq_some hkind
    have hform : (Form.node c).shape = .tagged table := hshape
    obtain ⟨js', rfl, hlength, heach⟩ := hedit.kindPositionsOf hform hnamed
    rw [table.lookup_keys] at hbody
    have hparts :=
      EditedParts.ofPositions .inside hlength heach (fun _ hmem => hj.item (by simp [hmem]))
      fun _ hmem => ⟨hj'.item (by simp [hmem]), items_depth_le hdepth (by simp [hmem])⟩
    refine bind_ok hkind ?_
    rw [table.lookup_keys]
    exact positional hlength (h kind hparts) a hbody
  · cases hread

/-- A node with a kind is an object or an array, and so it is after the edits. -/
theorem Read.Follows.zero {α : Type} {form : Form} (kinds : Kinds)
    (f : String → Parts → Except ReadError α) (read : Read α) :
    Follows L L' 0 form (L.tagged kinds f) read := by
  intro j j' hedit hj hj' hdepth p a hread
  have hread := (L.tagged_agree kinds f p hj a).mp hread
  have hzero := hedit.depth_eq_zero_iff.mpr (Nat.le_zero.mp hdepth)
  unfold Read.tagged at hread
  split at hread
  · simp [depth] at hzero
  · simp [depth] at hzero
  · cases hread

/-- A variant keeps its key, and a value that is no tree stays as it is. -/
theorem Read.Follows.variant {α : Type} {form : Form} {forms : List (String × Form)}
    (hshape : form.shape = .variant forms) {f f' : Place → String × Json → Except ReadError α}
    (h : ∀ p key {v v' : Json}, (∀ g, forms.lookup key = some g → Edited g v v') →
      (forms.lookup key = none → v' = v) → v.Within L.limit → v'.Within L'.limit → v'.depth ≤ n →
      Refines (f p (key, v)) (f' p (key, v'))) :
    Follows L L' n form (fun p j => L.variant j >>= f p) (fun p j => L'.variant j >>= f' p) := by
  intro j j' hedit hj hj' hdepth p a hread
  obtain ⟨⟨key, v⟩, hkey, hbody⟩ := of_bind_eq_ok hread
  have hv := (L.variant_agree hj _).mp hkey
  have hwithin := within_variant hj hv
  cases hedit with
  | same =>
    refine bind_ok ((L'.variant_agree hj' _).mpr hv) ?_
    have hvalue := (depth_le_of_variant hv).trans hdepth
    exact h p key (fun g _ => .same g v) (fun _ => rfl) hwithin (within_variant hj' hv)
      hvalue a hbody
  | items shape | optional shape | positions shape | kindPositions shape => simp [hshape] at shape
  | object parts => simp [Form.slots?, hshape] at parts
  | @variant _ g _ key' w w' shape choice value =>
    cases hv
    rw [hshape] at shape
    obtain rfl := Shape.variant.inj shape
    have hv' : Read.variant (.object [(key, w')]) = .ok (key, w') := rfl
    refine bind_ok ((L'.variant_agree hj' _).mpr hv') ?_
    have hvalue := (depth_le_of_variant hv').trans hdepth
    refine h p key (fun g' hg' => ?_) (fun hnone => ?_) hwithin (within_variant hj' hv')
      hvalue a hbody
    · rw [choice] at hg'
      rw [← Option.some.inj hg']
      exact value
    · rw [choice] at hnone
      cases hnone

/-! ### Defaults -/

namespace Read.Defaults

variable {α : Type} {form : Form}

/-- It is enough that the value is read as the default as it should be. -/
theorem ofAgree {read standard : Read α} {default : α}
    (hagree : ∀ p {j : Json}, j.Within L.limit → Agree (read p j) (standard p j))
    (h : ∀ v, form.IsDefault v → ∀ p, standard p v = .ok default) :
    Defaults L form read default := by
  intro v hv hwithin p a ha
  have hread := (hagree p hwithin a).mp ha
  rw [h v hv p] at hread
  exact (Except.ok.inj hread).symm

theorem text : Defaults L .text L.string "" := by
  refine ofAgree L.string_agree fun v hv p => ?_
  cases v with
  | string s => rw [show s = "" from hv, Read.string]
  | _ => cases hv

theorem number {limit : Nat} (hlimit : 0 < limit) : Defaults L .number (L.nat limit) 0 := by
  refine ofAgree (L.nat_agree limit) fun v hv p => ?_
  cases v with
  | int i => simp [show i = 0 from hv, Read.nat, hlimit]
  | _ => cases hv

theorem flag : Defaults L .flag L.bool false := by
  refine ofAgree L.bool_agree fun v hv p => ?_
  cases v with
  | bool b => rw [show b = false from hv, Read.bool]
  | _ => cases hv

theorem list (read : Read α) : Defaults L (.list form) (L.list read) [] := by
  refine ofAgree (L.list_agree read) fun v hv p => ?_
  cases v with
  | array items => rw [show items = [] from hv]; rfl
  | _ => cases hv

theorem option (read : Read α) : Defaults L (.option form) (L.option read) none := by
  refine ofAgree (L.option_agree read) fun v hv p => ?_
  cases v with
  | null => rfl
  | _ => cases hv

/-- A part that is there only with its default is read as the default. -/
theorem partD {read : Read α} {default : α} (h : Defaults L form read default) {o : Parts}
    {key : String} (hv : ∀ v ∈ o.json.get? key, form.IsDefault v ∧ v.Within L.limit) {a : α}
    (ha : Read.partD o key default read = .ok a) : a = default := by
  unfold Read.partD at ha
  cases hget : o.json.get? key with
  | none =>
    rw [hget] at ha
    exact (Except.ok.inj ha).symm
  | some v =>
    rw [hget] at ha
    exact h v (hv v hget).1 (hv v hget).2 o.place a ha

end Read.Defaults

theorem Location.defaults : Defaults L .location (Location.read L) .unknown := by
  intro v hv hwithin p a ha
  cases v with
  | object ms =>
    obtain ⟨hfile, hline, hcolumn⟩ := hv
    have ha := (L.record_agree _ _ p hwithin a).mp ha
    obtain ⟨file, hf, ha⟩ := of_bind_eq_ok ha
    obtain ⟨line, hl, ha⟩ := of_bind_eq_ok ha
    obtain ⟨column, hc, ha⟩ := of_bind_eq_ok ha
    have hmember {key : String} {v : Json} (hv : v ∈ (Json.object ms).get? key) :
        v.Within L.limit :=
      hwithin.member hv
    have hf : file = "" :=
      Defaults.text.partD (fun v hv => ⟨by rw [hfile v hv]; rfl, hmember hv⟩) hf
    have hl : line = 0 :=
      (Defaults.number (by decide)).partD (fun v hv => ⟨by rw [hline v hv]; rfl, hmember hv⟩) hl
    have hc : column = 0 :=
      (Defaults.number (by decide)).partD (fun v hv => ⟨by rw [hcolumn v hv]; rfl, hmember hv⟩) hc
    rw [← Except.ok.inj ha, hf, hl, hc]
    rfl
  | _ => cases hv

/-! ### Names, places and literals -/

theorem Read.Follows.text : Follows L L' n .text L.string L'.string :=
  .leaf rfl (.ofAgree L.string_agree L'.string_agree)

theorem Read.Follows.number (limit : Nat) : Follows L L' n .number (L.nat limit) (L'.nat limit) :=
  .leaf rfl (.ofAgree (L.nat_agree limit) (L'.nat_agree limit))

theorem Read.Follows.flag : Follows L L' n .flag L.bool L'.bool :=
  .leaf rfl (.ofAgree L.bool_agree L'.bool_agree)

theorem ModuleName.follows :
    Follows L L' n (.node .moduleName) (ModuleName.read L) (ModuleName.read L') :=
  .leaf rfl ModuleName.matches_read

theorem Name.follows : Follows L L' n (.node .name) (Name.read L) (Name.read L') :=
  .leaf rfl Name.matches_read

theorem Location.follows : Follows L L' n .location (Location.read L) (Location.read L') := by
  refine .of_succ (.record rfl (by rfl) fun h => ?_)
  exact (h.partD rfl .text .text).bind fun _ =>
    (h.partD rfl (.number _) (.number (by decide))).bind fun _ =>
    (h.partD rfl (.number _) (.number (by decide))).bind fun _ => .refl _

theorem QName.follows : Follows L L' n (.node .qname) (QName.read L) (QName.read L') := by
  refine .of_succ (.tagged (rfl : Category.qname.shape = .tagged table) rfl fun kind o o' h => ?_)
  split
  · exact (h.part rfl ModuleName.follows).bind fun _ =>
      (h.part rfl Name.follows).bind fun _ => .refl _
  · exact (h.part rfl Name.follows).bind fun _ => .refl _
  · exact .refl _

theorem Ty.follows_readWith {ty ty' : Read Ty} (hty : Follows L L' n (.node .ty) ty ty') :
    Follows L L' (n + 1) (.node .ty) (readWith L ty) (readWith L' ty') := by
  refine .tagged (rfl : Category.ty.shape = .tagged table) rfl fun kind o o' h => ?_
  split
  · exact (h.part rfl hty).bind fun _ => (h.part rfl hty).bind fun _ => .refl _
  · exact (h.part rfl hty.list).bind fun _ => .refl _
  · exact (h.part rfl hty).bind fun _ => (h.part rfl hty).bind fun _ => .refl _
  · exact (h.part rfl Name.follows).bind fun _ => .refl _
  · exact (h.part rfl QName.follows).bind fun _ => .refl _
  · exact .refl _

/-- The depth of the edited value is enough, whatever the value before was read to. -/
theorem Ty.follows_readTo (k n : Nat) : Follows L L' n (.node .ty) (readTo L k) (readTo L' n) := by
  induction k generalizing n with
  | zero => exact fun _ _ _ _ _ _ _ => .malformed _
  | succ k ih =>
    rw [readTo]
    cases n with
    | zero => exact .zero _ _ _
    | succ n => exact follows_readWith (ih n)

theorem Ty.follows : Follows L L' n (.node .ty) (Ty.read L) (Ty.read L') :=
  fun _ _ hedit hj hj' _ => follows_readTo _ _ hedit hj hj' (Nat.le_refl _)

theorem readRatio_follows : Follows L L' n .ratio (readRatio L) (readRatio L') := by
  have hparts : Follows L L' n .ratio (readRatioParts L) (readRatioParts L') := by
    refine .of_succ (.record rfl (by rfl) fun h => ?_)
    exact (h.part rfl (.leaf rfl int128_matches)).bind fun _ =>
      (h.part rfl (.leaf rfl int128_matches)).bind fun _ => .refl _
  exact fun _ _ hedit hj hj' hdepth p => (hparts hedit hj hj' hdepth p).bind fun _ => .refl _

theorem QOp.follows : Follows L L' n (.node .qop) (QOp.read L) (QOp.read L') := by
  refine .variant rfl fun p key v v' hvalue hsame hv hv' hdepth => ?_
  dsimp only
  split
  · exact (QName.follows (hvalue _ rfl) hv hv' hdepth p).map _
  · exact (QName.follows (hvalue _ rfl) hv hv' hdepth p).map _
  · exact .refl _

theorem Literal.follows : Follows L L' n (.node .literal) (Literal.read L) (Literal.read L') := by
  refine .variant rfl fun p key v v' hvalue hsame hv hv' hdepth => ?_
  dsimp only
  split
  case h_4 | h_8 | h_9 => exact (readRatio_follows (hvalue _ rfl) hv hv' hdepth p).map _
  case h_10 => exact .refl _
  -- the other literals are no trees
  all_goals rw [hsame rfl] at hv' ⊢
  case h_1 | h_5 => exact (Matches.ofAgree L.char_agree L'.char_agree hv hv' p).map _
  case h_2 | h_6 => exact (Matches.ofAgree L.string_agree L'.string_agree hv hv' p).map _
  case h_3 | h_7 => exact (int128_matches hv hv' p).map _

theorem Assertion.follows :
    Follows L L' n (.node .assertion) (Assertion.read L) (Assertion.read L') := by
  refine .of_succ (.record rfl (by rfl) fun h => ?_)
  exact (h.part rfl QName.follows).bind fun _ =>
    (h.partD rfl Ty.follows.list (.list _)).bind fun _ => .refl _

theorem Context.follows :
    Follows L L' n (.list (.node .assertion)) (Context.read L) (Context.read L') :=
  Assertion.follows.list

theorem QualType.follows :
    Follows L L' n (.node .qualType) (QualType.read L) (QualType.read L') := by
  refine .of_succ (.record rfl (by rfl) fun h => ?_)
  exact (h.partD rfl Context.follows (.list _)).bind fun _ =>
    (h.part rfl Ty.follows).bind fun _ => .refl _

/-! ### Patterns -/

theorem PatField.follows_readWith {pat pat' : Read Pat}
    (hpat : Follows L L' n (.node .pat) pat pat') :
    Follows L L' (n + 1) (.node .patField) (readWith L pat) (readWith L' pat') := by
  refine .record rfl (by rfl) fun h => ?_
  exact (h.part rfl QName.follows).bind fun _ => (h.part rfl hpat).bind fun _ => .refl _

theorem Pat.follows_readWith {pat pat' : Read Pat} (hpat : Follows L L' n (.node .pat) pat pat') :
    Follows L L' (n + 1) (.node .pat) (readWith L pat) (readWith L' pat') := by
  have hfields := (PatField.follows_readWith hpat).of_succ.list
  refine .tagged (rfl : Category.pat.shape = .tagged table) rfl fun kind o o' h => ?_
  split
  · exact (h.part rfl Name.follows).bind fun _ => .refl _
  · exact (h.part rfl Literal.follows).bind fun _ => .refl _
  · exact (h.part rfl hpat).bind fun _ => .refl _
  · exact (h.part rfl hpat).bind fun _ => (h.part rfl QName.follows).bind fun _ =>
      (h.part rfl hpat).bind fun _ => .refl _
  · exact (h.part rfl QName.follows).bind fun _ => (h.part rfl hpat.list).bind fun _ => .refl _
  · exact (h.part rfl hpat.list).bind fun _ => .refl _
  · exact (h.part rfl hpat.list).bind fun _ => .refl _
  · exact (h.part rfl hpat).bind fun _ => .refl _
  · exact (h.part rfl QName.follows).bind fun _ => (h.part rfl hfields).bind fun _ => .refl _
  · exact (h.part rfl Name.follows).bind fun _ => (h.part rfl hpat).bind fun _ => .refl _
  · exact .refl _
  · exact (h.part rfl hpat).bind fun _ => .refl _
  · exact .refl _

theorem Pat.follows_readTo (k n : Nat) :
    Follows L L' n (.node .pat) (readTo L k) (readTo L' n) := by
  induction k generalizing n with
  | zero => exact fun _ _ _ _ _ _ _ => .malformed _
  | succ k ih =>
    rw [readTo]
    cases n with
    | zero => exact .zero _ _ _
    | succ n => exact follows_readWith (ih n)

theorem Pat.follows : Follows L L' n (.node .pat) (Pat.read L) (Pat.read L') :=
  fun _ _ hedit hj hj' _ => follows_readTo _ _ hedit hj hj' (Nat.le_refl _)

/-! ### Constructors of types -/

theorem BangType.follows :
    Follows L L' n (.node .bangType) (BangType.read L) (BangType.read L') := by
  refine .variant rfl fun p key v v' hvalue hsame hv hv' hdepth => ?_
  dsimp only
  split
  · exact (Ty.follows (hvalue _ rfl) hv hv' hdepth p).map _
  · exact (Ty.follows (hvalue _ rfl) hv hv' hdepth p).map _
  · exact .refl _

theorem FieldDecl.follows :
    Follows L L' n (.node .fieldDecl) (FieldDecl.read L) (FieldDecl.read L') := by
  refine .of_succ (.record rfl (by rfl) fun h => ?_)
  exact (h.part rfl Name.follows.list).bind fun _ =>
    (h.part rfl BangType.follows).bind fun _ => .refl _

theorem EditedParts.partLoc {slots : Slots} {o o' : Parts} (h : EditedParts L L' n slots o o')
    (hslot : slots.lookup "loc" = some (.defaulted .location)) :
    Refines (partLoc L o) (partLoc L' o') :=
  h.partD hslot Location.follows Location.defaults

theorem ConDecl.follows : Follows L L' n (.node .conDecl) (ConDecl.read L) (ConDecl.read L') := by
  refine .of_succ (.tagged (rfl : Category.conDecl.shape = .tagged table) rfl fun kind o o' h => ?_)
  split
  · exact (h.partLoc rfl).bind fun _ => (h.part rfl Name.follows).bind fun _ =>
      (h.partD rfl BangType.follows.list (.list _)).bind fun _ => .refl _
  · exact (h.partLoc rfl).bind fun _ => (h.part rfl Name.follows).bind fun _ =>
      (h.part rfl FieldDecl.follows.list).bind fun _ => .refl _
  · exact .refl _

/-! ### Expressions and declarations -/

section

variable {expr expr' : Read Expr} {decl decl' : Read Decl}
  (hexpr : Follows L L' n (.node .expr) expr expr')
  (hdecl : Follows L L' n (.node .decl) decl decl')

include hexpr

theorem FieldUpdate.follows_readWith :
    Follows L L' (n + 1) (.node .fieldUpdate) (readWith L expr) (readWith L' expr') := by
  refine .record rfl (by rfl) fun h => ?_
  exact (h.part rfl QName.follows).bind fun _ => (h.part rfl hexpr).bind fun _ => .refl _

theorem GuardedAlt.follows_readWith :
    Follows L L' (n + 1) (.node .guardedAlt) (readWith L expr) (readWith L' expr') := by
  refine .record rfl (by rfl) fun h => ?_
  exact (h.partLoc rfl).bind fun _ => (h.part rfl hexpr).bind fun _ =>
    (h.part rfl hexpr).bind fun _ => .refl _

theorem GuardedRhs.follows_readWith :
    Follows L L' (n + 1) (.node .guardedRhs) (readWith L expr) (readWith L' expr') := by
  refine .record rfl (by rfl) fun h => ?_
  exact (h.partLoc rfl).bind fun _ => (h.part rfl hexpr).bind fun _ =>
    (h.part rfl hexpr).bind fun _ => .refl _

theorem GuardedAlts.follows_readWith :
    Follows L L' (n + 1) (.node .guardedAlts) (readWith L expr) (readWith L' expr') := by
  have halts := (GuardedAlt.follows_readWith hexpr).of_succ.list
  refine .tagged (rfl : Category.guardedAlts.shape = .tagged table) rfl fun kind o o' h => ?_
  split
  · exact (h.part rfl hexpr).bind fun _ => .refl _
  · exact (h.part rfl halts).bind fun _ => .refl _
  · exact .refl _

theorem Rhs.follows_readWith :
    Follows L L' (n + 1) (.node .rhs) (readWith L expr) (readWith L' expr') := by
  have hrhss := (GuardedRhs.follows_readWith hexpr).of_succ.list
  refine .tagged (rfl : Category.rhs.shape = .tagged table) rfl fun kind o o' h => ?_
  split
  · exact (h.part rfl hexpr).bind fun _ => .refl _
  · exact (h.part rfl hrhss).bind fun _ => .refl _
  · exact .refl _

include hdecl

theorem Stmt.follows_readWith :
    Follows L L' (n + 1) (.node .stmt) (readWith L expr decl) (readWith L' expr' decl') := by
  refine .tagged (rfl : Category.stmt.shape = .tagged table) rfl fun kind o o' h => ?_
  split
  · exact (h.partLoc rfl).bind fun _ => (h.part rfl Pat.follows).bind fun _ =>
      (h.part rfl hexpr).bind fun _ => .refl _
  · exact (h.part rfl hexpr).bind fun _ => .refl _
  · exact (h.part rfl hdecl.list).bind fun _ => .refl _
  · exact .refl _

theorem Alt.follows_readWith :
    Follows L L' (n + 1) (.node .alt) (readWith L expr decl) (readWith L' expr' decl') := by
  have halts := (GuardedAlts.follows_readWith hexpr).of_succ
  refine .record rfl (by rfl) fun h => ?_
  exact (h.partLoc rfl).bind fun _ => (h.part rfl Pat.follows).bind fun _ =>
    (h.part rfl halts).bind fun _ =>
    (h.partD rfl hdecl.list (.list _)).bind fun _ => .refl _

theorem Match.follows_readWith :
    Follows L L' (n + 1) (.node .clause) (readWith L expr decl) (readWith L' expr' decl') := by
  have hrhs := (Rhs.follows_readWith hexpr).of_succ
  refine .record rfl (by rfl) fun h => ?_
  exact (h.partLoc rfl).bind fun _ => (h.part rfl Name.follows).bind fun _ =>
    (h.partD rfl Pat.follows.list (.list _)).bind fun _ => (h.part rfl hrhs).bind fun _ =>
    (h.partD rfl hdecl.list (.list _)).bind fun _ => .refl _

theorem Expr.follows_readWith :
    Follows L L' (n + 1) (.node .expr) (readWith L expr decl) (readWith L' expr' decl') := by
  have halts := (Alt.follows_readWith hexpr hdecl).of_succ.list
  have hstmts := (Stmt.follows_readWith hexpr hdecl).of_succ.list
  have hfields := (FieldUpdate.follows_readWith hexpr).of_succ.list
  refine .tagged (rfl : Category.expr.shape = .tagged table) rfl fun kind o o' h => ?_
  -- one case for each kind, with its parts in the order in which they are read
  split
  · exact (h.part rfl QName.follows).bind fun _ => .refl _
  · exact (h.part rfl QName.follows).bind fun _ => .refl _
  · exact (h.part rfl Literal.follows).bind fun _ => .refl _
  · exact (h.part rfl hexpr).bind fun _ => (h.part rfl QOp.follows).bind fun _ =>
      (h.part rfl hexpr).bind fun _ => .refl _
  · exact (h.part rfl hexpr).bind fun _ => (h.part rfl hexpr).bind fun _ => .refl _
  · exact (h.part rfl hexpr).bind fun _ => .refl _
  · exact (h.partLoc rfl).bind fun _ => (h.part rfl Pat.follows.list).bind fun _ =>
      (h.part rfl hexpr).bind fun _ => .refl _
  · exact (h.part rfl hdecl.list).bind fun _ => (h.part rfl hexpr).bind fun _ => .refl _
  · exact (h.part rfl hexpr).bind fun _ => (h.part rfl hexpr).bind fun _ =>
      (h.part rfl hexpr).bind fun _ => .refl _
  · exact (h.part rfl hexpr).bind fun _ => (h.part rfl halts).bind fun _ => .refl _
  · exact (h.part rfl hstmts).bind fun _ => .refl _
  · exact (h.part rfl hexpr.list).bind fun _ => .refl _
  · exact (h.part rfl hexpr.list).bind fun _ => .refl _
  · exact (h.part rfl hexpr).bind fun _ => .refl _
  · exact (h.part rfl hexpr).bind fun _ => (h.part rfl QOp.follows).bind fun _ => .refl _
  · exact (h.part rfl QOp.follows).bind fun _ => (h.part rfl hexpr).bind fun _ => .refl _
  · exact (h.part rfl QName.follows).bind fun _ => (h.part rfl hfields).bind fun _ => .refl _
  · exact (h.part rfl hexpr).bind fun _ => (h.part rfl hfields).bind fun _ => .refl _
  · exact (h.part rfl hexpr).bind fun _ => .refl _
  · exact (h.part rfl hexpr).bind fun _ => (h.part rfl hexpr).bind fun _ => .refl _
  · exact (h.part rfl hexpr).bind fun _ => (h.part rfl hexpr).bind fun _ => .refl _
  · exact (h.part rfl hexpr).bind fun _ => (h.part rfl hexpr).bind fun _ =>
      (h.part rfl hexpr).bind fun _ => .refl _
  · exact (h.part rfl hexpr).bind fun _ => (h.part rfl hstmts).bind fun _ => .refl _
  · exact (h.partLoc rfl).bind fun _ => (h.part rfl hexpr).bind fun _ =>
      (h.part rfl QualType.follows).bind fun _ => .refl _
  · exact (h.part rfl Name.follows).bind fun _ => (h.part rfl hexpr).bind fun _ => .refl _
  · exact .refl _
  · exact (h.part rfl hexpr).bind fun _ => .refl _
  · exact .refl _

theorem Decl.follows_readWith :
    Follows L L' (n + 1) (.node .decl) (readWith L expr decl) (readWith L' expr' decl') := by
  have hclauses := (Match.follows_readWith hexpr hdecl).of_succ.list
  have hrhs := (Rhs.follows_readWith hexpr).of_succ
  refine .tagged (rfl : Category.decl.shape = .tagged table) rfl fun kind o o' h => ?_
  dsimp only
  split
  · exact (h.partLoc rfl).bind fun _ => (h.part rfl Name.follows).bind fun _ =>
      (h.partD rfl Name.follows.list (.list _)).bind fun _ =>
        (h.part rfl Ty.follows).bind fun _ => .refl _
  · exact (h.partLoc rfl).bind fun _ => (h.partD rfl Context.follows (.list _)).bind fun _ =>
      (h.part rfl Name.follows).bind fun _ =>
        (h.partD rfl Name.follows.list (.list _)).bind fun _ =>
      (h.part rfl ConDecl.follows.list).bind fun _ =>
        (h.partD rfl QName.follows.list (.list _)).bind fun _ => .refl _
  · exact (h.partLoc rfl).bind fun _ => (h.partD rfl Context.follows (.list _)).bind fun _ =>
      (h.part rfl Name.follows).bind fun _ =>
        (h.partD rfl Name.follows.list (.list _)).bind fun _ =>
      (h.part rfl ConDecl.follows).bind fun _ =>
        (h.partD rfl QName.follows.list (.list _)).bind fun _ => .refl _
  · exact (h.partLoc rfl).bind fun _ => (h.part rfl (.leaf rfl Assoc.matches_read)).bind fun _ =>
      (h.part rfl (.number _)).bind fun _ =>
      (h.part rfl (Follows.leaf rfl Op.matches_read).list).bind fun _ => .refl _
  · exact (h.partLoc rfl).bind fun _ => (h.partD rfl Context.follows (.list _)).bind fun _ =>
      (h.part rfl Name.follows).bind fun _ =>
        (h.partD rfl Name.follows.list (.list _)).bind fun _ =>
      (h.partD rfl hdecl.list (.list _)).bind fun _ => .refl _
  · exact (h.partLoc rfl).bind fun _ => (h.partD rfl Context.follows (.list _)).bind fun _ =>
      (h.part rfl QName.follows).bind fun _ => (h.part rfl Ty.follows.list).bind fun _ =>
      (h.partD rfl hdecl.list (.list _)).bind fun _ => .refl _
  · exact (h.partLoc rfl).bind fun _ => (h.part rfl Ty.follows.list).bind fun _ => .refl _
  · exact (h.partLoc rfl).bind fun _ => (h.part rfl Name.follows.list).bind fun _ =>
      (h.part rfl QualType.follows).bind fun _ => .refl _
  · exact (h.partLoc rfl).bind fun _ => (h.part rfl .text).bind fun _ =>
      (h.part rfl (.leaf rfl Safety.matches_read)).bind fun _ =>
      (h.partD rfl .text .text).bind fun _ => (h.part rfl Name.follows).bind fun _ =>
      (h.part rfl Ty.follows).bind fun _ => .refl _
  · exact (h.partLoc rfl).bind fun _ => (h.part rfl .text).bind fun _ =>
      (h.partD rfl .text .text).bind fun _ => (h.part rfl Name.follows).bind fun _ =>
      (h.part rfl Ty.follows).bind fun _ => .refl _
  · exact (h.part rfl hclauses).bind fun _ => .refl _
  · exact (h.partLoc rfl).bind fun _ => (h.part rfl Pat.follows).bind fun _ =>
      (h.part rfl hrhs).bind fun _ =>
      (h.partD rfl hdecl.list (.list _)).bind fun _ => .refl _
  · exact .refl _

end

theorem follows_readTo (k n : Nat) :
    Follows L L' n (.node .expr) (Expr.readTo L k) (Expr.readTo L' n) ∧
    Follows L L' n (.node .decl) (Decl.readTo L k) (Decl.readTo L' n) := by
  induction k generalizing n with
  | zero => exact ⟨fun _ _ _ _ _ _ _ => .malformed _, fun _ _ _ _ _ _ _ => .malformed _⟩
  | succ k ih =>
    rw [Expr.readTo, Decl.readTo]
    cases n with
    | zero => exact ⟨.zero _ _ _, .zero _ _ _⟩
    | succ n =>
      exact ⟨Expr.follows_readWith (ih n).1 (ih n).2, Decl.follows_readWith (ih n).1 (ih n).2⟩

theorem Expr.follows : Follows L L' n (.node .expr) (Expr.read L) (Expr.read L') :=
  fun _ _ hedit hj hj' _ => (follows_readTo _ _).1 hedit hj hj' (Nat.le_refl _)

theorem Decl.follows : Follows L L' n (.node .decl) (Decl.read L) (Decl.read L') :=
  fun _ _ hedit hj hj' _ => (follows_readTo _ _).2 hedit hj hj' (Nat.le_refl _)

/-! ### Modules -/

theorem ExportSpec.follows :
    Follows L L' n (.node .exportSpec) (ExportSpec.read L) (ExportSpec.read L') := by
  refine .of_succ (.tagged (rfl : Category.exportSpec.shape =
    .tagged table) rfl fun kind o o' h => ?_)
  split
  · exact (h.part rfl QName.follows).bind fun _ => .refl _
  · exact (h.part rfl QName.follows).bind fun _ => .refl _
  · exact (h.part rfl QName.follows).bind fun _ => .refl _
  · exact (h.part rfl QName.follows).bind fun _ =>
      (h.part rfl (Follows.leaf rfl CName.matches_read).list).bind fun _ => .refl _
  · exact (h.part rfl ModuleName.follows).bind fun _ => .refl _
  · exact .refl _

theorem ImportSpec.follows :
    Follows L L' n (.node .importSpec) (ImportSpec.read L) (ImportSpec.read L') := by
  refine .of_succ (.tagged (rfl : Category.importSpec.shape =
    .tagged table) rfl fun kind o o' h => ?_)
  split
  · exact (h.part rfl Name.follows).bind fun _ => .refl _
  · exact (h.part rfl Name.follows).bind fun _ => .refl _
  · exact (h.part rfl Name.follows).bind fun _ => .refl _
  · exact (h.part rfl Name.follows).bind fun _ =>
      (h.part rfl (Follows.leaf rfl CName.matches_read).list).bind fun _ => .refl _
  · exact .refl _

theorem ImportSpecs.follows :
    Follows L L' n (.node .importSpecs) (ImportSpecs.read L) (ImportSpecs.read L') := by
  refine .of_succ (.record rfl (by rfl) fun h => ?_)
  exact (h.partD rfl .flag .flag).bind fun _ =>
    (h.part rfl ImportSpec.follows.list).bind fun _ => .refl _

theorem ImportDecl.follows :
    Follows L L' n (.node .importDecl) (ImportDecl.read L) (ImportDecl.read L') := by
  refine .of_succ (.record rfl (by rfl) fun h => ?_)
  exact (h.partLoc rfl).bind fun _ => (h.part rfl ModuleName.follows).bind fun _ =>
    (h.partD rfl .flag .flag).bind fun _ =>
      (h.partD rfl ModuleName.follows.option (.option _)).bind fun _ =>
    (h.partD rfl ImportSpecs.follows.option (.option _)).bind fun _ => .refl _

theorem Module.follows : Follows L L' n (.node .module) (Module.read L) (Module.read L') := by
  refine .of_succ (.record rfl (by rfl) fun h => ?_)
  exact (h.partLoc rfl).bind fun _ => (h.part rfl ModuleName.follows).bind fun _ =>
    (h.partD rfl ExportSpec.follows.list.option (.option _)).bind fun _ =>
    (h.partD rfl ImportDecl.follows.list (.list _)).bind fun _ =>
      (h.partD rfl Decl.follows.list (.list _)).bind fun _ =>
    .refl _

theorem Node.follows (c : Category) :
    Follows L L' n (.node c) (Node.read L c) (Node.read L' c) := by
  cases c with
  | module => exact Module.follows.map _
  | exportSpec => exact ExportSpec.follows.map _
  | importDecl => exact ImportDecl.follows.map _
  | importSpecs => exact ImportSpecs.follows.map _
  | importSpec => exact ImportSpec.follows.map _
  | decl => exact Decl.follows.map _
  | conDecl => exact ConDecl.follows.map _
  | fieldDecl => exact FieldDecl.follows.map _
  | bangType => exact BangType.follows.map _
  | clause => exact (Match.follows_readWith Expr.follows Decl.follows).of_succ.map _
  | rhs => exact (Rhs.follows_readWith Expr.follows).of_succ.map _
  | guardedRhs => exact (GuardedRhs.follows_readWith Expr.follows).of_succ.map _
  | ty => exact Ty.follows.map _
  | qualType => exact QualType.follows.map _
  | assertion => exact Assertion.follows.map _
  | qname => exact QName.follows.map _
  | qop => exact QOp.follows.map _
  | literal => exact Literal.follows.map _
  | pat => exact Pat.follows.map _
  | patField => exact (PatField.follows_readWith Pat.follows).of_succ.map _
  | expr => exact Expr.follows.map _
  | stmt => exact (Stmt.follows_readWith Expr.follows Decl.follows).of_succ.map _
  | fieldUpdate => exact (FieldUpdate.follows_readWith Expr.follows).of_succ.map _
  | alt => exact (Alt.follows_readWith Expr.follows Decl.follows).of_succ.map _
  | guardedAlts => exact (GuardedAlts.follows_readWith Expr.follows).of_succ.map _
  | guardedAlt => exact (GuardedAlt.follows_readWith Expr.follows).of_succ.map _
  | assoc => exact (Follows.leaf rfl Assoc.matches_read).map _
  | safety => exact (Follows.leaf rfl Safety.matches_read).map _
  | name => exact Name.follows.map _
  | moduleName => exact ModuleName.follows.map _
  | op => exact (Follows.leaf rfl Op.matches_read).map _
  | cname => exact (Follows.leaf rfl CName.matches_read).map _

/-- A tree, a place and a fraction are read from an edited value as from the value before, if both
are within the limit of the library. Among the edits are those that leave out a part with its
default and those that add a member that is no part, in an object that stands anywhere. -/
theorem absent_parts_have_their_defaults (L : Library) :
    (∀ (c : Category) (p : Place) (j j' : Json) (t : Node), j.Within L.limit → j'.Within L.limit →
      Node.read L c p j = .ok t → Edited (.node c) j j' → Node.read L c p j' = .ok t) ∧
    (∀ (p : Place) (j j' : Json) (l : Location), j.Within L.limit → j'.Within L.limit →
      Location.read L p j = .ok l → Edited .location j j' → Location.read L p j' = .ok l) ∧
    (∀ (p : Place) (j j' : Json) (r : Ratio), j.Within L.limit → j'.Within L.limit →
      readRatio L p j = .ok r → Edited .ratio j j' → readRatio L p j' = .ok r) ∧
    (∀ (form : Form) (slots : Slots) (before behind : List
      (String × Json)) (key : String) (slot : Slot)
        (v : Json),
      form.slots? (before ++ (key, v) :: behind) = some slots → slots.lookup key = some slot →
      slot.hasDefault = true → slot.form.IsDefault v → key ≠ "kind" →
        (before ++ behind).lookup key = none →
      Edited form (.object (before ++ (key, v) :: behind)) (.object (before ++ behind))) ∧
    ∀ (form : Form) (slots : Slots) (before behind : List
      (String × Json)) (key : String) (v : Json),
      form.slots? (before ++ behind) = some slots → slots.lookup key = none → key ≠ "kind" →
      Edited form (.object (before ++ behind)) (.object (before ++ (key, v) :: behind)) := by
  refine ⟨?_, ?_, ?_, ?_, ?_⟩
  · intro c p j j' t hj hj' hread hedit
    exact Node.follows c hedit hj hj' (Nat.le_refl _) p t hread
  · intro p j j' l hj hj' hread hedit
    exact Location.follows hedit hj hj' (Nat.le_refl _) p l hread
  · intro p j j' r hj hj' hread hedit
    exact readRatio_follows hedit hj hj' (Nat.le_refl _) p r hread
  · intro form slots before behind key slot v hparts hslot hdefault hv hkind honce
    exact .leaveOut hparts hslot hdefault hv hkind honce
  · intro form slots before behind key v hparts hslot hkind
    exact .add v hparts hslot hkind

/-- An import without its place and its alias, and with a note in the list of what it imports. -/
theorem import_without_defaults_is_read :
    let loc := Json.object [("filename", .string ""), ("line", .int 0), ("column", .int 0)]
    let items := ("items",
      Json.array [.object [("kind", .string "var"), ("name", .object [("ident", .string "f")])]])
    let j := Json.object [("loc", loc), ("module", .string "M"), ("alias", .null),
      ("specs", .object [("hiding", .bool false), items])]
    let j' := Json.object [("module", .string "M"), ("specs", .object [("note", .int 1), items])]
    let i := ImportDecl.mk .unknown ⟨"M"⟩ false none (some ⟨false, [.var (.ident "f")]⟩)
    Node.read .standard .importDecl .outside j = .ok (.importDecl i) ∧
      Edited (.node .importDecl) j j' ∧
      j'.Within Library.standard.limit ∧ Node.read .standard .importDecl .outside j' =
      .ok (.importDecl i) := by
  intro loc items j j' i
  have hread : Node.read .standard .importDecl .outside j = .ok (.importDecl i) := rfl
  have hwithin (k : Json) (hk : k.proper = true) : k.Within Library.standard.limit :=
    ⟨hk, fun _ hn => nomatch hn⟩
  have hloc : Form.location.IsDefault loc :=
    ⟨fun _ hv => (Option.some.inj hv).symm, fun _ hv => (Option.some.inj hv).symm,
      fun _ hv => (Option.some.inj hv).symm⟩
  have hspecs : Edited (.node .importSpecs) (.object [("hiding", .bool false), items])
      (.object [("note", .int 1), items]) := by
    refine .ofSlots rfl rfl ?_
    simp only [List.forall_mem_cons]
    exact ⟨.leftOut rfl rfl, .there (.same _ _), by simp⟩
  have hedit : Edited (.node .importDecl) j j' := by
    refine .ofSlots rfl rfl ?_
    simp only [List.forall_mem_cons]
    exact ⟨.leftOut rfl hloc, .there (.same _ _), .absent, .leftOut rfl trivial,
      .there (.optional rfl hspecs), by simp⟩
  have hj := hwithin j (by decide +kernel)
  have hj' := hwithin j' (by decide +kernel)
  have hedited :=
    (absent_parts_have_their_defaults .standard).1 .importDecl .outside j j' _ hj hj' hread hedit
  exact ⟨hread, hedit, hj', hedited⟩

end Syntax

end Offside
