import ModularLisp.Expr.Basic

/-!
# ModularLisp.Store.Scope

**Scopes**: the bindings of names made at one place of a program, the names that are
exported from there, and the scope around it. A scope is seen through `Scope.get?`,
which gives the value a name is bound to here; the order of the bindings can not be
seen. The exported names keep the order in which they were first marked.
-/

namespace ModularLisp

/-- One lexical scope. -/
structure Scope where
  bindings : List (String × Expr)
  exports : List String
  outer : Option ScopeId

namespace Scope

/-! ### Bindings -/

/-- A scope without bindings and exports. -/
def empty (outer : Option ScopeId) : Scope :=
  ⟨[], [], outer⟩

/-- The value that `name` is bound to in this very scope. -/
def get? (s : Scope) (name : String) : Option Expr :=
  s.bindings.lookup name

/-- Binds `name` in a list of bindings: in place if it is bound there, else at the end. -/
def bind (name : String) (value : Expr) : List (String × Expr) → List (String × Expr)
  | [] => [(name, value)]
  | (n, v) :: rest => if n = name then (name, value) :: rest else (n, v) :: bind name value rest

/-- Binds `name` to `value`, in place of any earlier value. -/
def define (s : Scope) (name : String) (value : Expr) : Scope :=
  { s with bindings := bind name value s.bindings }

/-- The names bound in this very scope. -/
def names (s : Scope) : List String :=
  s.bindings.map Prod.fst

@[simp] theorem get?_empty (outer : Option ScopeId) (name : String) :
    (empty outer).get? name = none := rfl

theorem lookup_bind (name : String) (value : Expr) (bindings : List (String × Expr))
    (m : String) : (bind name value bindings).lookup m =
      if m = name then some value else bindings.lookup m := by
  have hbeq : ∀ a b : String, (a == b) = decide (a = b) := fun a b => rfl
  induction bindings with
  | nil => by_cases h : m = name <;> simp [bind, List.lookup_cons, hbeq, h]
  | cons b rest ih =>
      obtain ⟨n, v⟩ := b
      unfold bind
      by_cases hn : n = name
      · subst hn
        by_cases h : m = n <;> simp [List.lookup_cons, hbeq, h]
      · rw [if_neg hn, List.lookup_cons, List.lookup_cons, ih]
        by_cases h : m = name
        · subst h; simp [hbeq, Ne.symm hn]
        · simp [h]

/-- A definition is seen under its own name and changes no other name. -/
theorem get?_define (s : Scope) (name : String) (value : Expr) (m : String) :
    (s.define name value).get? m = if m = name then some value else s.get? m :=
  lookup_bind name value s.bindings m

@[simp] theorem exports_define (s : Scope) (name : String) (value : Expr) :
    (s.define name value).exports = s.exports := rfl

@[simp] theorem outer_define (s : Scope) (name : String) (value : Expr) :
    (s.define name value).outer = s.outer := rfl

/-- Binds each name to the value beside it, in order, so that of a repeated name the
last value stays. -/
def defineAll (s : Scope) (bindings : List (String × Expr)) : Scope :=
  bindings.foldl (fun s b => s.define b.1 b.2) s

@[simp] theorem defineAll_nil (s : Scope) : s.defineAll [] = s := rfl

@[simp] theorem defineAll_cons (s : Scope) (b : String × Expr)
    (rest : List (String × Expr)) :
    s.defineAll (b :: rest) = (s.define b.1 b.2).defineAll rest := rfl

@[simp] theorem exports_defineAll (s : Scope) (bindings : List (String × Expr)) :
    (s.defineAll bindings).exports = s.exports := by
  induction bindings generalizing s with
  | nil => rfl
  | cons b rest ih => rw [defineAll_cons, ih, exports_define]

@[simp] theorem outer_defineAll (s : Scope) (bindings : List (String × Expr)) :
    (s.defineAll bindings).outer = s.outer := by
  induction bindings generalizing s with
  | nil => rfl
  | cons b rest ih => rw [defineAll_cons, ih, outer_define]

/-! ### Exports -/

/-- Marks `name` as exported, whether it is bound yet or not. -/
def markExported (s : Scope) (name : String) : Scope :=
  if name ∈ s.exports then s else { s with exports := s.exports ++ [name] }

@[simp] theorem get?_markExported (s : Scope) (name m : String) :
    (s.markExported name).get? m = s.get? m := by
  unfold markExported
  split <;> rfl

@[simp] theorem outer_markExported (s : Scope) (name : String) :
    (s.markExported name).outer = s.outer := by
  unfold markExported
  split <;> rfl

theorem mem_exports_markExported {s : Scope} {name m : String} :
    m ∈ (s.markExported name).exports ↔ m ∈ s.exports ∨ m = name := by
  unfold markExported
  split
  · next h => exact ⟨Or.inl, fun hm => hm.elim id fun he => he ▸ h⟩
  · simp

/-- Marking keeps the exported names distinct. -/
theorem nodup_exports_markExported {s : Scope} (h : s.exports.Nodup) (name : String) :
    (s.markExported name).exports.Nodup := by
  unfold markExported
  split
  · exact h
  · next hn =>
      rw [List.nodup_append]
      exact ⟨h, by simp, fun a ha b hb => by
        rw [List.mem_singleton.mp hb]; rintro rfl; exact hn ha⟩

/-! ### Comparison -/

/-- Are both values there and equal, or both missing? -/
def sameValue : Option Expr → Option Expr → Bool
  | some v, some w => v.equals w
  | none, none => true
  | _, _ => false

/-- Do two scopes bind the same names to equal values? -/
def sameBindings (s t : Scope) : Bool :=
  (s.names ++ t.names).all fun name => sameValue (s.get? name) (t.get? name)

end Scope

end ModularLisp
