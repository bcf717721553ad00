import Literate.Language.Value

/-!
# Variables

A store maps the names that are declared to their bindings. Two stores that answer every look-up
alike are equal.
-/

namespace Literate

/-- A variable: its type, and the value it holds. -/
structure Binding where
  type : VarType
  value : Value
  deriving DecidableEq, Repr

/-- The bindings of the declared names. -/
def Store := Text → Option Binding

namespace Store

/-- The store with no name declared. -/
def empty : Store := fun _ => none

instance : Inhabited Store := ⟨empty⟩

/-- The binding of a name, if it is declared. -/
def get? (store : Store) (name : Text) : Option Binding := store name

/-- Whether a name is declared. -/
def declares (store : Store) (name : Text) : Bool := (store.get? name).isSome

/-- Binds a name, whether or not it was bound before. -/
def bind (store : Store) (name : Text) (b : Binding) : Store :=
  fun x => if x = name then some b else store x

@[ext] theorem ext {s t : Store} (h : ∀ x, s.get? x = t.get? x) : s = t := funext h

@[simp] theorem get?_empty (x : Text) : empty.get? x = none := rfl

/-- A name that is bound is looked up as what it is bound to, and every other name as before. -/
theorem get?_bind (s : Store) (name x : Text) (b : Binding) :
    (s.bind name b).get? x = if x = name then some b else s.get? x := rfl

@[simp] theorem get?_bind_self (s : Store) (name : Text) (b : Binding) :
    (s.bind name b).get? name = some b := by simp [get?_bind]

@[simp] theorem declares_bind (s : Store) (name x : Text) (b : Binding) :
    (s.bind name b).declares x = (x == name || s.declares x) := by
  by_cases h : x = name <;> simp [declares, get?_bind, h]

end Store

end Literate
