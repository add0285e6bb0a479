import FilterLang.Text.Visible.Extending
import FilterLang.Text.Visible.Unprintable

/-!
# Texts made visible

Messages show a text between double quotes so that every character can be told
from its neighbours.  The usual controls have short escapes; a character that
has no glyph or a blank one, or joins the glyph before it, is shown by its code.
-/

namespace FilterLang
namespace Text

/-- The letters of which a display shows nothing: they fill an empty place in a
Hangul syllable. -/
def isFiller (c : Char) : Bool :=
  c == '\u115f' || c == '\u1160' || c == '\u3164' || c == '\uffa0'

/-- The half-width sound marks of Katakana, which extend the letter before them
but have a cell of their own. -/
def isSoundMark (c : Char) : Bool :=
  c == '\uff9e' || c == '\uff9f'

/-- Whether a character on its own would not be told from its neighbours. -/
def isHidden (c : Char) : Bool :=
  isUnprintable c || isFiller c || (isExtending c && !isSoundMark c)

def visibleChar (c : Char) : List Char :=
  if c = '\x00' then ['\\', '0']
  else if c = '\t' then ['\\', 't']
  else if c = '\r' then ['\\', 'r']
  else if c = '\n' then ['\\', 'n']
  else if c = '\\' ∨ c = '"' then ['\\', c]
  else if isHidden c then
    ['\\', 'u', '{'] ++ Nat.toDigits 16 c.toNat ++ ['}']
  else [c]

/-- A text between double quotes, every character visible. -/
def visible (text : List Char) : List Char :=
  '"' :: text.flatMap visibleChar ++ ['"']

end Text
end FilterLang
