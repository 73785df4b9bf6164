import MarkupCompiler.Json.Value
import MarkupCompiler.Text.Entity

/-!
# Records in JSON

A record is written as an object that names its fields, in any order, or as an array of its field
values in their own order. Names that are no field are passed over; a field that is named twice
makes the whole record unreadable.
-/

namespace MarkupCompiler.Json

/-- The value of a name in the members of an object: absent, given once, or given more often. -/
def member? (name : String) (members : List (String × Json)) : Option (Option Json) :=
  match members.filter fun entry => entry.1 == name with
  | [] => some none
  | [(_, value)] => some (some value)
  | _ => none

/-- The values of the fields of a record, each present or absent. -/
def fields? (names : List String) : Json → Option (List (Option Json))
  | object members => names.mapM fun name => member? name members
  | array items =>
    if items.length ≤ names.length then
      some (items.map some ++ List.replicate (names.length - items.length) none)
    else none
  | _ => none

/-- Whether a value is written in the array form of a record. -/
def isArray : Json → Bool
  | array _ => true
  | _ => false

/-- The text of a string. -/
def string? : Json → Option String
  | string text => some text
  | _ => none

/-- A whole number below `2 ^ 32`, spelled with digits only. -/
def word32? : Json → Option Nat
  | number spelling =>
    if spelling.all Char.isDigit then Text.word32? 10 spelling else none
  | _ => none

/-- The items of an array, each read by `read`. -/
def list? {α : Type} (read : Json → Option α) : Json → Option (List α)
  | array items => items.mapM read
  | _ => none

/-- A value, or nothing for `null`. -/
def optional? {α : Type} (read : Json → Option α) : Json → Option (Option α)
  | null => some none
  | value => (read value).map some

/-- One of a list of names: its string, or an object that maps it to `null`. -/
def choice? {α : Type} (choices : List (String × α)) : Json → Option α
  | string name => choices.lookup name
  | object [(name, null)] => choices.lookup name
  | _ => none

/-- A field that has a default. -/
def fieldOr {α : Type} (default : α) (read : Json → Option α) : Option Json → Option α
  | some value => read value
  | none => some default

/-- A field that has to be there. -/
def fieldOf {α : Type} (read : Json → Option α) : Option Json → Option α
  | some value => read value
  | none => none

end MarkupCompiler.Json
