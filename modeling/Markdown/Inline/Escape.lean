import Markdown.Text.Replace

/-!
# Backslash escapes

A mark behind a backslash is kept from the inline rules by a stand-in from the private use area,
which the last step turns into the bare mark. Escaping runs on text that has been written for
HTML, so an escaped `>` is found in its written form.
-/

namespace Markdown.Inline

/-- The texts that can be escaped, in the order of their stand-ins. -/
def escapable : List Text :=
  [['*'], ['_'], ['~'], ['\x60'], ['['], [']'], ['#'], "&gt;".toList, ['-'], ['+'], ['.'], ['!'],
    ['='], ['^']]

/-- The code point of the first stand-in. -/
def firstStandIn : Nat := 0xe000

/-- The stand-in of the escapable text with the given number. -/
def standIn (n : Nat) : Char :=
  Char.ofNat (firstStandIn + n)

/-- The escapable text that a stand-in stands for. -/
def standsFor? (c : Char) : Option Text :=
  if firstStandIn ≤ c.toNat then escapable[c.toNat - firstStandIn]? else none

/-- Replaces an escape by its stand-in. -/
def escapeRule : Text.Rule := fun _ c r =>
  if c = '\\' then
    match escapable.findIdx? fun s => s.isPrefixOf r with
    | some n => some ⟨(escapable[n]?.getD []).length, [standIn n]⟩
    | none => none
  else none

/-- The text with stand-ins for its escapes. -/
def protectEscapes (t : Text) : Text :=
  Text.replaceBy escapeRule t

/-- The text with the marks that its stand-ins stand for. -/
def revertEscapes (t : Text) : Text :=
  t.flatMap fun c => (standsFor? c).getD [c]

end Markdown.Inline
