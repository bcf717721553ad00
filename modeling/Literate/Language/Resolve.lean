import Literate.Language.Operation

/-!
# Resolving names

Before a block runs, every name in it is checked: a variable has to be declared before its use,
either by an earlier block or earlier in the same one, and it may be declared only once. Functions
are known from the start.
-/

namespace Literate

/-- Why a name of a block cannot be resolved. -/
inductive ResolveError
  | undeclared (name : Text)
  | redefined (name : Text)
  deriving DecidableEq, Repr

def ResolveError.message : ResolveError → Text
  | undeclared name => "error: use of undeclared identifier '".toList ++ name ++ "'".toList
  | redefined name => "error: redefinition of '".toList ++ name ++ "'".toList

/-- The variables known at some point of a block. -/
abbrev Known := Text → Bool

/-- Adds a variable to the known ones. -/
def Known.insert (known : Known) (name : Text) : Known :=
  fun x => x == name || known x

namespace Expr

mutual

/-- Checks the names of an expression from left to right. -/
def resolve (known : Known) : Expr → Except ResolveError Unit
  | int _ | double _ | bool _ | str _ => .ok ()
  | var name => if known name then .ok () else .error (.undeclared name)
  | unary _ e => e.resolve known
  | binary _ l r => do
    l.resolve known
    r.resolve known
  | call name arguments =>
    if Function.names.contains name then resolveAll known arguments else .error (.undeclared name)

/-- Checks the names of expressions in order. -/
def resolveAll (known : Known) : List Expr → Except ResolveError Unit
  | [] => .ok ()
  | e :: es => do
    e.resolve known
    resolveAll known es

end

end Expr

/-- Checks the names of an operand of a print statement. -/
def Item.resolve (known : Known) : Item → Except ResolveError Unit
  | value e | precision e => e.resolve known
  | endl | boolalpha _ => .ok ()

/-- Checks the names of operands in order. -/
def Item.resolveAll (known : Known) : List Item → Except ResolveError Unit
  | [] => .ok ()
  | i :: is => do
    i.resolve known
    resolveAll known is

namespace Statement

/-- Checks the names of a statement, and gives the variables known after it. The value of a
declared variable is checked before its name. -/
def resolve (known : Known) : Statement → Except ResolveError Known
  | declare _ name init => do
    match init with
    | some e => e.resolve known
    | none => .ok ()
    if known name then .error (.redefined name) else .ok (known.insert name)
  | assign name _ e =>
    if known name then do
      e.resolve known
      .ok known
    else .error (.undeclared name)
  | print _ items => do
    Item.resolveAll known items
    .ok known
  | throw _ e | exit e | expr e => do
    e.resolve known
    .ok known

/-- Checks the names of a block. -/
def resolveAll (known : Known) : List Statement → Except ResolveError Known
  | [] => .ok known
  | s :: rest => do
    let known ← s.resolve known
    resolveAll known rest

/-- Statements checked in two parts are checked one after another. -/
theorem resolveAll_append (known : Known) (a b : List Statement) :
    resolveAll known (a ++ b) = (resolveAll known a).bind fun known => resolveAll known b := by
  induction a generalizing known with
  | nil => rfl
  | cons s rest ih =>
    simp only [List.cons_append, resolveAll, bind, Except.bind]
    cases s.resolve known with
    | error e => rfl
    | ok known => exact ih known

end Statement

end Literate
