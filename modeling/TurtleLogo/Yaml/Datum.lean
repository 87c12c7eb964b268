import TurtleLogo.Text.Quoted
import TurtleLogo.Yaml.Value

/-!
What nodes stand for where no type is asked for: scalars, lists and tables. Only scalars
can be the keys of a table, and keys that are the same have one value.
-/
namespace TurtleLogo.Yaml
open Text

/-- A table is textual if it was made for keys that are texts. -/
inductive Datum where
  | scalar (value : Value)
  | list (items : List Datum)
  | table (textual : Bool) (entries : List (Datum × Datum))

def Value.isSame : Value → Value → Bool
  | null, null => true
  | bool a, bool b => a == b
  | int a, int b => a == b
  | float a, float b => a == b
  | date a, date b => a.isSame b
  | text a, text b => a == b
  | _, _ => false

def Value.rank : Value → Nat
  | null => 0
  | bool _ => 1
  | float _ => 2
  | int i => if i < Number.twoTo 63 then 3 else 5
  | text _ => 4
  | date _ => 6

/-- Whether a scalar goes before another one. What is not a number goes before all numbers. -/
def Value.isBefore (a b : Value) : Bool :=
  match a, b with
  | bool x, bool y => !x && y
  | float x, float y => x < y || (x.isNaN && !y.isNaN)
  | int x, int y => x < y
  | text x, text y => Text.before x y
  | date x, date y => x.keys < y.keys
  | _, _ => a.rank < b.rank

def Value.shown : Value → Bytes
  | null => utf8 "interface \x7b\x7d(nil)"
  | bool b => utf8 (if b then "true" else "false")
  | int i => if i < Number.twoTo 63 then signedDecimal i else utf8 "0x" ++ hex 16 i.toNat
  | float x => Number.text x
  | date m => m.shown
  | text t => quoted t

namespace Datum

def isSame : Datum → Datum → Bool
  | scalar a, scalar b => a.isSame b
  | _, _ => false

def collectionType? : Datum → Option String
  | scalar _ => none
  | list _ => some "[]interface \x7b\x7d"
  | table true _ => some "map[string]interface \x7b\x7d"
  | table false _ => some "map[interface \x7b\x7d]interface \x7b\x7d"

def put (key value : Datum) : List (Datum × Datum) → List (Datum × Datum)
  | [] => [(key, value)]
  | (other, old) :: rest =>
    if other.isSame key then (other, value) :: rest else (other, old) :: put key value rest

def keyIsBefore : Datum → Datum → Bool
  | scalar a, scalar b => a.isBefore b
  | _, _ => false

def inBraces (type : Option String) (parts : List Bytes) : Bytes :=
  utf8 (type.getD "") ++ utf8 "\x7b" ++ joined (utf8 ", ") parts ++ utf8 "\x7d"

mutual

def shown : Datum → Bytes
  | scalar value => value.shown
  | list items => inBraces (collectionType? (list [])) (shownItems items)
  | table textual entries =>
    let parts := (shownEntries entries).mergeSort fun a b => !keyIsBefore b.1 a.1
    inBraces (collectionType? (table textual [])) (parts.map Prod.snd)

def shownItems : List Datum → List Bytes
  | [] => []
  | item :: rest => item.shown :: shownItems rest

def shownEntries : List (Datum × Datum) → List (Datum × Bytes)
  | [] => []
  | (key, value) :: rest =>
    (key, key.shown ++ byte ':' :: value.shown) :: shownEntries rest

end

end Datum
end TurtleLogo.Yaml
