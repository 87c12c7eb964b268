import TurtleLogo.Json.Read

/-!
Values decoded into records. Decoding fills in a value that is already there: null and
missing members leave it alone, unknown members are passed over, and a part of the wrong
type is left alone too but makes the whole unsound. The rest is filled in all the same.
-/
namespace TurtleLogo.Json
open Text

structure Filled (α : Type) where
  value : α
  sound : Bool
  deriving DecidableEq, Repr

def fillText (old : Bytes) : Json → Filled Bytes
  | null => ⟨old, true⟩
  | string raw => ⟨textOfRaw raw, true⟩
  | _ => ⟨old, false⟩

def fillInt (old : Int) (j : Json) : Filled Int :=
  match j with
  | null => ⟨old, true⟩
  | _ =>
    match j.int? with
    | some i => ⟨i, true⟩
    | none => ⟨old, false⟩

structure Field (α : Type) where
  name : String
  fill : α → Json → Filled α

/-- Upper and lower case are the same in member names, and so are the two runes that have an ASCII
    letter as their other case. -/
def foldedRune (r : Rune) : Rune :=
  if r == 0x17F then 83
  else if r == 0x212A then 75
  else if 97 ≤ r && r ≤ 122 then r - 32
  else r

def folded (name : Bytes) : List Rune := (runes name).map foldedRune

/-- The field of exactly a name, or else one that differs in case only. -/
def field? {α : Type} (fields : List (Field α)) (name : Bytes) : Option (Field α) :=
  (fields.find? fun f => utf8 f.name == name).or
    (fields.find? fun f => folded (utf8 f.name) == folded name)

def fillMember {α : Type} (fields : List (Field α)) (acc : Filled α) (member : Bytes × Json) :
    Filled α :=
  match field? fields (textOfRaw member.1) with
  | none => acc
  | some f =>
    let filled := f.fill acc.value member.2
    ⟨filled.value, acc.sound && filled.sound⟩

def fillRecord {α : Type} (fields : List (Field α)) (old : α) : Json → Filled α
  | null => ⟨old, true⟩
  | object members => members.foldl (fillMember fields) ⟨old, true⟩
  | _ => ⟨old, false⟩

/-- A list that is filled in slot by slot. The spare slots behind its items are left from a longer
    list, and are filled in again when it grows. -/
structure Slots (α : Type) where
  items : List α
  spare : List α
  deriving DecidableEq, Repr

def Slots.empty {α : Type} : Slots α := ⟨[], []⟩

/-- Elements fill in the slots already there, and beyond them new ones; slots beyond the elements
    are spare. -/
def fillItems {α : Type} (fill : α → Json → Filled α) (fresh : α) :
    (slots : List α) → List Json → Filled (Slots α)
  | slots, [] => ⟨⟨[], slots⟩, true⟩
  | slots, item :: items =>
    let first := fill (slots.head?.getD fresh) item
    let rest := fillItems fill fresh slots.tail items
    ⟨{ rest.value with items := first.value :: rest.value.items }, first.sound && rest.sound⟩

def fillSlots {α : Type} (fill : α → Json → Filled α) (fresh : α) (old : Slots α) :
    Json → Filled (Slots α)
  | null | array [] => ⟨Slots.empty, true⟩
  | array items => fillItems fill fresh (old.items ++ old.spare) items
  | _ => ⟨old, false⟩

end TurtleLogo.Json
