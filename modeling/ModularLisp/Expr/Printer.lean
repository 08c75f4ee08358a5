import ModularLisp.Expr.Basic
import ModularLisp.Number.Shortest
import ModularLisp.Text.Inspected
import ModularLisp.Text.Quoted

/-!
# ModularLisp.Expr.Printer

**The texts of an expression.** There are two.

* The plain text (`Expr.text`) is source text: whatever the reader can make is
  written so that it reads back. A closure has no source text and shows its
  parameters only.
* The inspected text (`Expr.inspect`) names the kind of every part, and tells apart
  what may look alike, such as a symbol and a string of the same characters.
-/

namespace ModularLisp.Expr

/-! ### Source text -/

mutual

/-- The source text of an expression. -/
def chars : Expr → List Char
  | symbol name => name.toList
  | number value => value.text
  | string content => Text.quote content.toList
  | list items => '(' :: itemChars items ++ [')']
  | closure params _ _ =>
      "<fn (".toList ++ (" ".intercalate params).toList ++ ")>".toList

/-- The texts of the items of a list, with a space between neighbours. -/
def itemChars : List Expr → List Char
  | [] => []
  | [e] => e.chars
  | e :: es => e.chars ++ ' ' :: itemChars es

end

/-- The source text of an expression. -/
def text (e : Expr) : String :=
  String.ofList e.chars

/-! ### Inspected text -/

mutual

/-- The text of an expression that names the kind of every part. -/
def inspect : Expr → String
  | symbol name => "Symbol(" ++ Text.inspect name ++ ")"
  | number value => "Number(" ++ String.ofList value.inspect ++ ")"
  | string content => "String(" ++ Text.inspect content ++ ")"
  | list items => "List([" ++ inspectItems items ++ "])"
  | closure params body _ =>
      "Closure(Closure \x7b params: [" ++ ", ".intercalate (params.map Text.inspect) ++
        "], body: " ++ body.inspect ++ ", env: \"<captured_env>\" \x7d)"

/-- The inspected items of a list, with a comma between neighbours. -/
def inspectItems : List Expr → String
  | [] => ""
  | [e] => e.inspect
  | e :: es => e.inspect ++ ", " ++ inspectItems es

end

end ModularLisp.Expr
