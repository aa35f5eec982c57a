import Markdown.Block.Basic
import Markdown.Block.Line

/-!
# Definition lists

Terms, each followed by lines that start with a colon and a space.
-/

namespace Markdown.Glossary

/-- Whether a line can be a term: it is not blank and opens no other block. -/
def isTerm (line : Text) : Bool :=
  match Text.trim line with
  | [] => false
  | c :: _ =>
    !(c == '-' || c == '*' || c == '+' || c == '#' || c == '>' || c == ':' || Text.isDigit c)

/-- The text of a definition line. -/
def meaning? (line : Text) : Option Text :=
  match line with
  | ':' :: ' ' :: r => some (Text.trim r)
  | _ => none

/-- The definitions at the start of some lines. -/
def meanings : List Text → List Text
  | [] => []
  | l :: r =>
    match meaning? l with
    | some m => m :: meanings r
    | none => []

/-- Whether a term with a definition stands at the start of some lines. -/
def startsEntry : List Text → Bool
  | term :: next :: _ => isTerm term && (meaning? next).isSome
  | _ => false

/-- The entries at the start of some lines, and how many lines they take. Blank lines between
two entries are taken, others are not. -/
def entries : List Text → List Definition × Nat
  | [] => ([], 0)
  | line :: rest =>
    if startsEntry (line :: rest) then
      let ms := meanings rest
      let more := entries (rest.drop ms.length)
      (⟨Text.trim line, ms⟩ :: more.1, ms.length + 1 + more.2)
    else if Text.allBlank line then
      let blanks := (rest.takeWhile Text.allBlank).length
      if startsEntry (rest.drop blanks) then
        let more := entries (rest.drop blanks)
        (more.1, blanks + 1 + more.2)
      else ([], 0)
    else ([], 0)
termination_by lines => lines.length
decreasing_by all_goals simp only [List.length_cons, List.length_drop]; omega

/-- A definition list. -/
def recognise : Recogniser := fun _ line rest =>
  if startsEntry (line :: rest) then
    let found := entries (line :: rest)
    some ⟨.definitions found.1, found.2 - 1, []⟩
  else none

end Markdown.Glossary
