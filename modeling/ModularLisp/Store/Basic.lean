import ModularLisp.Store.Scope

/-!
# ModularLisp.Store.Basic

**The store** holds every scope made so far, each under the identity it got when it
was made. Scopes refer to one another by identity: a scope to the one around it, and
a closure bound in a scope to the one it captured, so that what is defined in a scope
later is seen by everything that refers to it.

A name is looked up in a scope and then outwards. A new scope can only be enclosed in
one that exists, so every scope is around younger ones only; `Store.lookup` follows
just such links, and that is why it ends whatever the scopes hold.
-/

namespace ModularLisp

/-- All scopes made so far, in order of creation. -/
structure Store where
  scopes : Array Scope

namespace Store

/-- The store in which no scope has been made. -/
def empty : Store := ⟨#[]⟩

/-- The scope of the given identity. -/
def get? (st : Store) (id : ScopeId) : Option Scope :=
  st.scopes[id.index]?

/-- The identity that the next scope will get. -/
def nextId (st : Store) : ScopeId :=
  ⟨st.scopes.size⟩

/-! ### Making and changing scopes -/

/-- Adds a scope. Its identity is the `nextId` from before. -/
def add (st : Store) (s : Scope) : Store :=
  ⟨st.scopes.push s⟩

/-- Replaces one scope by its image under `f`. -/
def modify (st : Store) (id : ScopeId) (f : Scope → Scope) : Store :=
  ⟨st.scopes.modify id.index f⟩

/-- Binds `name` to `value` in one scope. -/
def define (st : Store) (id : ScopeId) (name : String) (value : Expr) : Store :=
  st.modify id (·.define name value)

/-- Marks `name` as exported from one scope. -/
def markExported (st : Store) (id : ScopeId) (name : String) : Store :=
  st.modify id (·.markExported name)

/-- Adds a scope without bindings, inside `outer` if there is one. -/
def addEmpty (st : Store) (outer : Option ScopeId) : Store :=
  st.add (.empty outer)

/-- The bindings a program starts with: each truth value stands for itself. -/
def preludeBindings : List (String × Expr) :=
  [(Expr.trueName, .symbol Expr.trueName), (Expr.falseName, .symbol Expr.falseName)]

/-- Adds a root scope with the bindings a program starts with. -/
def addPrelude (st : Store) : Store :=
  st.add ((Scope.empty none).defineAll preludeBindings)

theorem get?_add (st : Store) (s : Scope) (id : ScopeId) :
    (st.add s).get? id = if id = st.nextId then some s else st.get? id := by
  obtain ⟨i⟩ := id
  simp [get?, add, nextId, Array.getElem?_push]

theorem get?_modify (st : Store) (id : ScopeId) (f : Scope → Scope) (other : ScopeId) :
    (st.modify id f).get? other =
      if other = id then (st.get? id).map f else st.get? other := by
  obtain ⟨i⟩ := id
  obtain ⟨j⟩ := other
  simp only [get?, modify, Array.getElem?_modify, ScopeId.mk.injEq, eq_comm (a := i)]
  split
  · next h => rw [h]
  · rfl

@[simp] theorem nextId_modify (st : Store) (id : ScopeId) (f : Scope → Scope) :
    (st.modify id f).nextId = st.nextId := by
  simp [nextId, modify]

theorem nextId_add (st : Store) (s : Scope) :
    (st.add s).nextId = ⟨st.nextId.index + 1⟩ := by
  simp [nextId, add]

theorem index_lt_of_get? {st : Store} {id : ScopeId} {s : Scope} (h : st.get? id = some s) :
    id.index < st.nextId.index := by
  obtain ⟨hlt, -⟩ := Array.getElem?_eq_some_iff.mp h
  exact hlt

theorem get?_of_le {st : Store} {id : ScopeId} (h : st.nextId.index ≤ id.index) :
    st.get? id = none :=
  Array.getElem?_eq_none h

/-! ### Looking up -/

/-- The value of `name` as seen from a scope: from the scope itself or, failing that,
from the ones around it, innermost first. -/
def lookup (st : Store) (id : ScopeId) (name : String) : Option Expr :=
  match st.get? id with
  | none => none
  | some s =>
      match s.get? name with
      | some value => some value
      | none =>
          match s.outer with
          | none => none
          -- The scope around is the older one in every store that programs make.
          | some outer => if outer.index < id.index then st.lookup outer name else none
termination_by id.index

/-- The names exported from a scope, in order, with their values as seen from it; or
the first of them that has none. -/
def exportedBindings (st : Store) (id : ScopeId) : Except String (List (String × Expr)) :=
  let names := ((st.get? id).map Scope.exports).getD []
  names.mapM fun name =>
    match st.lookup id name with
    | some value => .ok (name, value)
    | none => .error name

/-! ### Comparison -/

/-- Are two scopes alike, scope by scope outwards: equal bindings, the same exported
names in the same order, and scopes around them that are alike? -/
def alike (st : Store) (a b : ScopeId) : Bool :=
  match st.get? a, st.get? b with
  | some s, some t =>
      s.sameBindings t && s.exports == t.exports &&
        match s.outer, t.outer with
        | none, none => true
        | some o, some p =>
            if o.index < a.index ∧ p.index < b.index then st.alike o p else false
        | _, _ => false
  | _, _ => false
termination_by a.index

end Store

end ModularLisp
