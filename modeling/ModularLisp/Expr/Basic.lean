import ModularLisp.Number.Basic

/-!
# ModularLisp.Expr.Basic

**Expressions** are both the programs of the language and its values: symbols,
numbers, strings, lists and closures. The reader makes the first four; a closure is
made by evaluation only, and holds the identity of the scope that it was made in
rather than the scope, so expressions are plain trees although scopes may reach
themselves through the closures bound in them.

Equality of expressions is structural, with numeric equality at the numbers. Two
closures are equal when their parameters and bodies are: the captured scope is not
looked at, which keeps equality independent of the store.
-/

namespace ModularLisp

/-- The identity of a scope. Scopes are numbered in the order they are created. -/
structure ScopeId where
  index : Nat
  deriving DecidableEq, Repr

/-- An expression, which is also what a value is. -/
inductive Expr
  /-- A name. -/
  | symbol (name : String)
  | number (value : Number)
  | string (content : String)
  | list (items : List Expr)
  /-- Parameter names, an unevaluated body, and the scope the closure was made in. -/
  | closure (params : List String) (body : Expr) (scope : ScopeId)

namespace Expr

instance : Inhabited Expr := ⟨.list []⟩

/-! ### Truth and emptiness -/

/-- The name that stands for truth. -/
def trueName : String := "true"

/-- The name that stands for falsehood. -/
def falseName : String := "false"

/-- The value of a form that is evaluated for its effect. -/
def empty : Expr := .list []

/-- Is this the empty list? -/
def isEmptyList : Expr → Bool
  | list items => items.isEmpty
  | _ => false

/-- Only the symbol `true` is true; everything else, the string included, is false. -/
def isTrue : Expr → Bool
  | symbol name => name == trueName
  | _ => false

theorem isTrue_iff {e : Expr} : e.isTrue = true ↔ e = symbol trueName := by
  cases e <;> simp [isTrue]

theorem isEmptyList_iff {e : Expr} : e.isEmptyList = true ↔ e = empty := by
  cases e <;> simp [isEmptyList, empty]

/-- The name of the kind of expression, as error texts call it. -/
def kind : Expr → String
  | symbol _ => "symbol"
  | number _ => "number"
  | string _ => "string"
  | list _ => "list"
  | closure .. => "closure"

/-! ### Equality -/

mutual

/-- Structural equality, numeric at the numbers and blind to captured scopes. -/
def equals : Expr → Expr → Bool
  | symbol a, symbol b => a == b
  | number x, number y => x.equals y
  | string s, string t => s == t
  | list xs, list ys => allEqual xs ys
  | closure ps b _, closure qs c _ => ps == qs && b.equals c
  | _, _ => false

/-- Equality of lists, item by item. -/
def allEqual : List Expr → List Expr → Bool
  | [], [] => true
  | x :: xs, y :: ys => x.equals y && allEqual xs ys
  | _, _ => false

end

mutual

/-- Equality is symmetric. -/
theorem equals_symm : {x y : Expr} → x.equals y = true → y.equals x = true
  | symbol _, symbol _, h => by simp_all [equals]
  | number _, number _, h => by
      simp only [equals] at h ⊢
      exact Number.equals_symm h
  | string _, string _, h => by simp_all [equals]
  | list _, list _, h => by
      simp only [equals] at h ⊢
      exact allEqual_symm h
  | closure .., closure .., h => by
      simp only [equals, Bool.and_eq_true, beq_iff_eq] at h ⊢
      exact ⟨h.1.symm, equals_symm h.2⟩

theorem allEqual_symm : {xs ys : List Expr} → allEqual xs ys = true → allEqual ys xs = true
  | [], [], _ => by simp [allEqual]
  | x :: xs, y :: ys, h => by
      simp only [allEqual, Bool.and_eq_true] at h ⊢
      exact ⟨equals_symm h.1, allEqual_symm h.2⟩

end

mutual

/-- Equality is transitive. -/
theorem equals_trans : {x y z : Expr} → x.equals y = true → y.equals z = true →
    x.equals z = true
  | symbol _, symbol _, symbol _, h, h' => by simp_all [equals]
  | number _, number _, number _, h, h' => by
      simp only [equals] at h h' ⊢
      exact Number.equals_trans h h'
  | string _, string _, string _, h, h' => by simp_all [equals]
  | list _, list _, list _, h, h' => by
      simp only [equals] at h h' ⊢
      exact allEqual_trans h h'
  | closure .., closure .., closure .., h, h' => by
      simp only [equals, Bool.and_eq_true, beq_iff_eq] at h h' ⊢
      exact ⟨h.1.trans h'.1, equals_trans h.2 h'.2⟩

theorem allEqual_trans : {xs ys zs : List Expr} → allEqual xs ys = true →
    allEqual ys zs = true → allEqual xs zs = true
  | [], [], [], _, _ => by simp [allEqual]
  | x :: xs, y :: ys, z :: zs, h, h' => by
      simp only [allEqual, Bool.and_eq_true] at h h' ⊢
      exact ⟨equals_trans h.1 h'.1, allEqual_trans h.2 h'.2⟩

end

end Expr

end ModularLisp
