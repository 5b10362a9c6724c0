import BinaryPack.Datum.Basic
import BinaryPack.Proofs.Value.Reordered

/-! # Host data up to the order of entries

  A map of the host program has no order of its own either, but it hands its entries over
  in some order. Two pieces of data that differ in nothing but the order of entries, in
  maps at any depth, stand for the same data (`Datum.Reordered`). The order of fields and
  of elements is fixed by their type, and never differs.

  Values in two orders are such data (`Value.Reordered.toDatum`).
-/

namespace BinaryPack

namespace Datum

mutual

/-- Data that differ at most in the order of the entries of maps. -/
inductive Reordered : Datum → Datum → Prop where
  | refl (x : Datum) : Reordered x x
  | present {x x' : Datum} (h : Reordered x x') : Reordered (.present x) (.present x')
  | newtypeStruct {type : String} {x x' : Datum} (h : Reordered x x') :
    Reordered (.newtypeStruct type x) (.newtypeStruct type x')
  | tupleStruct {type : String} {items items' : List Datum} (h : ReorderedItems items items') :
    Reordered (.tupleStruct type items) (.tupleStruct type items')
  | struct {type : String} {fields fields' : List (String × Datum)}
    (h : ReorderedFields fields fields') : Reordered (.struct type fields) (.struct type fields')
  | newtypeVariant {type variant : String} {x x' : Datum} (h : Reordered x x') :
    Reordered (.newtypeVariant type variant x) (.newtypeVariant type variant x')
  | tupleVariant {type variant : String} {items items' : List Datum}
    (h : ReorderedItems items items') :
    Reordered (.tupleVariant type variant items) (.tupleVariant type variant items')
  | structVariant {type variant : String} {fields fields' : List (String × Datum)}
    (h : ReorderedFields fields fields') :
    Reordered (.structVariant type variant fields) (.structVariant type variant fields')
  | seq {announced : Bool} {items items' : List Datum} (h : ReorderedItems items items') :
    Reordered (.seq announced items) (.seq announced items')
  | tuple {items items' : List Datum} (h : ReorderedItems items items') :
    Reordered (.tuple items) (.tuple items')
  | map {announced : Bool} {steps steps' : List (Step Datum)}
    (h : ReorderedSteps steps steps') : Reordered (.map announced steps) (.map announced steps')

/-- Data that differ one by one in the order of entries. -/
inductive ReorderedItems : List Datum → List Datum → Prop where
  | nil : ReorderedItems [] []
  | cons {x x' : Datum} {items items' : List Datum} (h : Reordered x x')
    (hrest : ReorderedItems items items') : ReorderedItems (x :: items) (x' :: items')

/-- Fields that differ one by one in the order of entries. -/
inductive ReorderedFields : List (String × Datum) → List (String × Datum) → Prop where
  | nil : ReorderedFields [] []
  | cons {name : String} {x x' : Datum} {fields fields' : List (String × Datum)}
    (h : Reordered x x') (hrest : ReorderedFields fields fields') :
    ReorderedFields ((name, x) :: fields) ((name, x') :: fields')

/-- Steps in another order, and what they hand over reordered. -/
inductive ReorderedSteps : List (Step Datum) → List (Step Datum) → Prop where
  | nil : ReorderedSteps [] []
  | entry {key x x' : Datum} {steps steps' : List (Step Datum)} (h : Reordered x x')
    (hrest : ReorderedSteps steps steps') :
    ReorderedSteps (.entry key x :: steps) (.entry key x' :: steps')
  | swap (step step' : Step Datum) (steps : List (Step Datum)) :
    ReorderedSteps (step :: step' :: steps) (step' :: step :: steps)
  | trans {steps steps' steps'' : List (Step Datum)} (h : ReorderedSteps steps steps')
    (h' : ReorderedSteps steps' steps'') : ReorderedSteps steps steps''

end

mutual

theorem Reordered.trans : ∀ {x x' x'' : Datum}, Reordered x x' → Reordered x' x'' → Reordered x x''
  | _, _, _, .refl _, h' => h'
  | _, _, _, .present h, h' => by
    cases h' with
    | refl => exact .present h
    | present h' => exact .present (h.trans h')
  | _, _, _, .newtypeStruct h, h' => by
    cases h' with
    | refl => exact .newtypeStruct h
    | newtypeStruct h' => exact .newtypeStruct (h.trans h')
  | _, _, _, .tupleStruct h, h' => by
    cases h' with
    | refl => exact .tupleStruct h
    | tupleStruct h' => exact .tupleStruct (h.trans h')
  | _, _, _, .struct h, h' => by
    cases h' with
    | refl => exact .struct h
    | struct h' => exact .struct (h.trans h')
  | _, _, _, .newtypeVariant h, h' => by
    cases h' with
    | refl => exact .newtypeVariant h
    | newtypeVariant h' => exact .newtypeVariant (h.trans h')
  | _, _, _, .tupleVariant h, h' => by
    cases h' with
    | refl => exact .tupleVariant h
    | tupleVariant h' => exact .tupleVariant (h.trans h')
  | _, _, _, .structVariant h, h' => by
    cases h' with
    | refl => exact .structVariant h
    | structVariant h' => exact .structVariant (h.trans h')
  | _, _, _, .seq h, h' => by
    cases h' with
    | refl => exact .seq h
    | seq h' => exact .seq (h.trans h')
  | _, _, _, .tuple h, h' => by
    cases h' with
    | refl => exact .tuple h
    | tuple h' => exact .tuple (h.trans h')
  | _, _, _, .map h, h' => by
    cases h' with
    | refl => exact .map h
    | map h' => exact .map (.trans h h')

theorem ReorderedItems.trans : ∀ {items items' items'' : List Datum},
    ReorderedItems items items' → ReorderedItems items' items'' → ReorderedItems items items''
  | _, _, _, .nil, .nil => .nil
  | _, _, _, .cons h hrest, .cons h' hrest' => .cons (h.trans h') (hrest.trans hrest')

theorem ReorderedFields.trans : ∀ {fields fields' fields'' : List (String × Datum)},
    ReorderedFields fields fields' → ReorderedFields fields' fields'' →
      ReorderedFields fields fields''
  | _, _, _, .nil, .nil => .nil
  | _, _, _, .cons h hrest, .cons h' hrest' => .cons (h.trans h') (hrest.trans hrest')

end

end Datum

/-! ### Values in two orders -/

namespace Value

mutual

/-- A value in two orders is the same data in two orders. -/
theorem Reordered.toDatum : ∀ {v v' : Value}, Reordered v v' →
    Datum.Reordered v.toDatum v'.toDatum
  | _, _, .scalar _ => .refl _
  | _, _, .array h => .seq h.itemsToData
  | _, _, .map h => .map h.membersToSteps

theorem ReorderedItems.itemsToData : ∀ {items items' : List Value}, ReorderedItems items items' →
    Datum.ReorderedItems (Value.itemsToData items) (Value.itemsToData items')
  | _, _, .nil => .nil
  | _, _, .cons h hrest => .cons h.toDatum hrest.itemsToData

theorem ReorderedMembers.membersToSteps : ∀ {members members' : List (String × Value)},
    ReorderedMembers members members' →
      Datum.ReorderedSteps (Value.membersToSteps members) (Value.membersToSteps members')
  | _, _, .nil => .nil
  | _, _, .cons h hrest => .entry h.toDatum hrest.membersToSteps
  | _, _, .swap _ _ _ => .swap _ _ _
  | _, _, .trans h h' => .trans h.membersToSteps h'.membersToSteps

end

end Value

end BinaryPack
