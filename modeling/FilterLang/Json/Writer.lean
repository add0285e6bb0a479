import FilterLang.Json.Number
import FilterLang.Json.Text

/-!
# Writing JSON values

The compact form has no space at all.  The spread form puts every element and
member on a line of its own, two spaces deeper than its brackets; brackets with
nothing inside stay together.  Numbers that are not finite have no form in the
format and are written as null.
-/

namespace FilterLang
namespace Json

def Number.text : Number → List Char
  | .integer value => (if value < 0 then ['-'] else []) ++ Nat.toDigits 10 value.natAbs
  | .float (.finite negative magnitude) =>
      Binary64.signText negative ++ magnitude.text numberStyle
  | .float _ => "null".toList

def joinWith (separator : List Char) : List (List Char) → List Char
  | [] => []
  | [text] => text
  | text :: texts => text ++ separator ++ joinWith separator texts

mutual

/-- The compact form. -/
def Value.text : Value → List Char
  | .null => "null".toList
  | .bool value => (if value then "true" else "false").toList
  | .number value => value.text
  | .string value => writeString value.toList
  | .array items => '[' :: joinWith [','] (itemTexts items) ++ [']']
  | .object members => '{' :: joinWith [','] (memberTexts members) ++ ['}']

def itemTexts : List Value → List (List Char)
  | [] => []
  | item :: items => item.text :: itemTexts items

def memberTexts : List (String × Value) → List (List Char)
  | [] => []
  | (name, value) :: members =>
      (writeString name.toList ++ ':' :: value.text) :: memberTexts members

end

def newLine (level : Nat) : List Char :=
  '\n' :: List.replicate (2 * level) ' '

/-- Parts between brackets, each on a line of its own one level deeper. -/
def spread (level : Nat) (opening closing : Char) (parts : List (List Char)) : List Char :=
  if parts.isEmpty then [opening, closing]
  else
    opening :: newLine (level + 1) ++ joinWith (',' :: newLine (level + 1)) parts ++
      newLine level ++ [closing]

mutual

/-- The spread form at a level of indentation. -/
def Value.spreadText (level : Nat) : Value → List Char
  | .array items => spread level '[' ']' (spreadItems (level + 1) items)
  | .object members => spread level '{' '}' (spreadMembers (level + 1) members)
  | .null => "null".toList
  | .bool value => (if value then "true" else "false").toList
  | .number value => value.text
  | .string value => writeString value.toList

def spreadItems (level : Nat) : List Value → List (List Char)
  | [] => []
  | item :: items => item.spreadText level :: spreadItems level items

def spreadMembers (level : Nat) : List (String × Value) → List (List Char)
  | [] => []
  | (name, value) :: members =>
      (writeString name.toList ++ ':' :: ' ' :: value.spreadText level) ::
        spreadMembers level members

end

end Json
end FilterLang
