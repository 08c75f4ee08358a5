import ModularLisp.Reader.Program

/-!
# ModularLisp.CommandLine.Needed

**The files that a program may need.** An `import` form names its file by a string that
stands in the form itself, and no expression is ever evaluated that was not read from
a program. So the strings in the `import` forms of a text, at whatever depth they
stand, include the path of every file that running the text can load, those apart
that the loaded files name in turn. This lets the outer layer fetch files before a
run instead of during it.
-/

namespace ModularLisp

mutual

/-- The paths in the `import` forms of an expression, at any depth. -/
def Expr.importedPaths : Expr → List String
  | .list items => headImport items ++ importedPathsOfAll items
  | .closure _ body _ => body.importedPaths
  | _ => []

/-- The path of an `import` form with the given items. -/
def Expr.headImport : List Expr → List String
  | [.symbol name, .string path] => if name = "import" then [path] else []
  | _ => []

/-- The paths in the `import` forms of several expressions. -/
def Expr.importedPathsOfAll : List Expr → List String
  | [] => []
  | e :: es => e.importedPaths ++ importedPathsOfAll es

end

/-- The paths in the `import` forms of a text; none if the text is no program. -/
def importedPaths (source : String) : List String :=
  match parse source with
  | .ok forms => Expr.importedPathsOfAll forms
  | .error _ => []

end ModularLisp
