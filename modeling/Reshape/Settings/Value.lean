/-
# Values of settings

The values that files and variables give to settings.  They are converted to what a
setting needs: a text can be any single value, and a number may be given as a text, as
a word for yes or no, or with places, which are rounded.
-/
import Reshape.Binary64.Arithmetic
import Reshape.Binary64.Numeral
import Reshape.Settings.Reading
import Reshape.Text.Case
import Reshape.Text.Numeral

namespace Reshape.Settings

open Text (int64? uint64? lower)

/-- A value given to a setting, or a table of settings. -/
inductive Value
  | none
  | bool (b : Bool)
  | whole (n : Int64)
  | real (x : Binary64)
  | text (s : String)
  | list (items : List Value)
  | table (entries : List (String × Value))

instance : Inhabited Value := ⟨.none⟩

namespace Value

/-! ## Conversions -/

/-- The text that a single value is. -/
def text? : Value → Option String
  | text s => some s
  | bool b => some (if b then "true" else "false")
  | whole n => some (toString n.toInt)
  | real x => some x.plainText
  | none | list _ | table _ => Option.none

/-- The word that a double is rounded to: halves away from zero, and what is too small
or too large to the nearest word. -/
def roundedWord : Binary64 → UInt64
  | .finite x => .ofNat (Binary64.clampUInt64 x.roundInt).toNat
  | .infinite negative => if negative then 0 else .ofNat Word.maxUInt64.toNat
  | .nan => 0

/-- The word that a text denotes, where a word for yes is one and a word for no is
zero. -/
def wordOfText? (s : String) : Option UInt64 :=
  let w := lower s
  if ["true", "on", "yes"].contains w then some 1
  else if ["false", "off", "no"].contains w then some 0
  else uint64? s.toList

/-- The word that a single value is. -/
def word? : Value → Option UInt64
  | text s => wordOfText? s
  | bool b => some (if b then 1 else 0)
  | whole n => if 0 ≤ n then some (.ofNat n.toInt.toNat) else Option.none
  | real x => some (roundedWord x)
  | none | list _ | table _ => Option.none

/-- The value of an entry of a table. -/
def find? (k : String) : List (String × Value) → Option Value
  | [] => Option.none
  | (k', v) :: rest => if k' = k then some v else find? k rest

/-- The fields of a table by name, or of a list by position, where further items do not
matter. -/
def fields? (names : List String) : Value → Option (List (Option Value))
  | table entries => some (names.map fun n => find? n entries)
  | list items =>
    some (items.take names.length |>.map some |>.append
      (List.replicate (names.length - items.length) Option.none))
  | _ => Option.none

/-- Values of settings as a kind. -/
def kind : Kind Value where
  isNull v := match v with
    | none => true
    | _ => false
  fields? := fields?
  text? := text?
  items? v := match v with
    | list items => some items
    | _ => Option.none
  word? := word?

/-- The settings that a value holds. -/
def settings? (v : Value) : Option Settings := kind.settings? v

/-! ## Values of variables -/

/-- What the text of a variable is: a word for truth in any case, a whole number, a
number with places, or just a text. -/
def ofVariable (s : String) : Value :=
  let w := lower s
  if w = "true" then bool true
  else if w = "false" then bool false
  else
    match int64? s.toList with
    | some n => whole n
    | Option.none =>
      match Binary64.ofText? s.toList with
      | some x => real x
      | Option.none => text s

end Value

end Reshape.Settings
