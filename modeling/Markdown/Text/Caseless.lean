import Markdown.Text.Lowercase

/-!
# Words in any case

Comparison of texts with words of lower-case ASCII letters, without regard to case. Four letters
outside ASCII count as cases of an ASCII letter.
-/

namespace Markdown.Text

/-- Whether a character is a lower-case letter of ASCII in any case. -/
def isCaseOf (letter c : Char) : Bool :=
  lowerAscii c = letter || (letter = 's' && c.toNat = 0x17f) ||
    (letter = 'k' && c.toNat = 0x212a) ||
    (letter = 'i' && (c.toNat = 0x130 || c.toNat = 0x131))

/-- Whether a text is a word in any case. -/
def isWordOf (word t : Text) : Bool :=
  word.length = t.length && (word.zip t).all fun p => isCaseOf p.1 p.2

/-- What follows a word in any case at the start of a text. -/
def afterWord? : Text → Text → Option Text
  | [], t => some t
  | _, [] => none
  | letter :: word, c :: t => if isCaseOf letter c then afterWord? word t else none

end Markdown.Text
