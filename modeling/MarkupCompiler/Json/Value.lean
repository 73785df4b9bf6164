import MarkupCompiler.Text.Quoted

/-!
# JSON values

Options and errors travel as JSON. A value keeps the members of an object in the order in which
they were written, also where a name is repeated, and a number as it is spelled.
-/

namespace MarkupCompiler

/-- A JSON value. -/
inductive Json where
  | null
  | bool (value : Bool)
  | number (spelling : List Char)
  | string (text : String)
  /-- A string literal that spells half of a surrogate pair, and so has no text. -/
  | brokenString
  | array (items : List Json)
  | object (members : List (String × Json))
  /-- An object in which a name spells half of a surrogate pair, and so has no text. -/
  | brokenObject
  deriving Repr, Inhabited

namespace Json

/-- A natural number. -/
def ofNat (n : Nat) : Json := number (Nat.toDigits 10 n)

/-- A value or `null`. -/
def ofOption {α : Type} (encode : α → Json) : Option α → Json
  | some a => encode a
  | none => null

mutual

/-- The text of a value, without blanks. -/
def render : Json → List Char
  | null => "null".toList
  | bool value => if value then "true".toList else "false".toList
  | number spelling => spelling
  | string text => Text.quoteChars text.toList
  | brokenString => "null".toList
  | array items => '[' :: (renderItems items ++ [']'])
  | object members => '{' :: (renderMembers members ++ ['}'])
  | brokenObject => "null".toList

/-- The items of an array, with commas between them. -/
def renderItems : List Json → List Char
  | [] => []
  | [item] => render item
  | item :: items => render item ++ ',' :: renderItems items

/-- The members of an object, with commas between them. -/
def renderMembers : List (String × Json) → List Char
  | [] => []
  | [(name, value)] => Text.quoteChars name.toList ++ ':' :: render value
  | (name, value) :: members =>
    Text.quoteChars name.toList ++ ':' :: (render value ++ ',' :: renderMembers members)

end

end Json

end MarkupCompiler
