import ModularLisp.Text.Hidden

/-!
# ModularLisp.Text.Inspected

**Inspected text**: quoted so that a reader can tell every character from the page.
The characters with a short escape are written with it, the hidden characters of
`Text.Hidden` by their code points, and everything else, apostrophes included,
as it is.
-/

namespace ModularLisp.Text

/-- `c` by its code point, in lower-case hexadecimal between braces. -/
def codePointEscape (c : Char) : List Char :=
  ['\\', 'u', '\x7b'] ++ Nat.toDigits 16 c.toNat ++ ['\x7d']

/-- `c` as it stands in an inspected text. -/
def inspectChar (c : Char) : List Char :=
  match c with
  | '\x00' => ['\\', '0']
  | '\t' => ['\\', 't']
  | '\r' => ['\\', 'r']
  | '\n' => ['\\', 'n']
  | '"' => ['\\', '"']
  | '\\' => ['\\', '\\']
  | c => if isHidden c then codePointEscape c else [c]

/-- `s` between double quotes, with every character told from the page. -/
def inspect (s : String) : String :=
  String.ofList ('"' :: s.toList.flatMap inspectChar ++ ['"'])

end ModularLisp.Text
