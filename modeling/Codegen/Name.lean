/-!
Names: numbers standing for interned strings.
-/

namespace Codegen

/-- A handle for an interned string. Number 0 is the empty string. -/
structure Name where
  index : Nat
  deriving DecidableEq, Repr, Inhabited

namespace Name

/-- The empty string's name. -/
def empty : Name := ⟨0⟩

def isEmpty (n : Name) : Bool := n.index == 0

def describe (n : Name) : String := s!"Name({n.index})"

end Name

/-- The first of two associations shadows the second. -/
theorem lookup_cons_eq_ite {α β : Type} [DecidableEq α] (key key' : α) (value : β)
    (rest : List (α × β)) :
    ((key', value) :: rest).lookup key = if key = key' then some value else rest.lookup key := by
  by_cases e : key = key'
  · simp [e]
  · simp [List.lookup_cons, e, beq_false_of_ne e]

end Codegen
