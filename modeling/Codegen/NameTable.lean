import Codegen.Fault

/-!
The table of interned strings. A string is entered once, at the next free number; entries never
change. Strings and numbers are kept both ways round, and the two agree.
-/

namespace Codegen

/-- Interned strings in order of arrival, and the names that they are found by. -/
structure InternTable where
  map : List (String × Name)
  strings : Array String
  deriving Repr

namespace InternTable

/-- A table that holds the empty string alone. -/
def initial : InternTable := ⟨[("", .empty)], #[""]⟩

/-- Enters a string in both. -/
def enter (t : InternTable) (s : String) : InternTable :=
  ⟨(s, ⟨t.strings.size⟩) :: t.map, t.strings.push s⟩

/-- A string is found exactly by the name of its place. -/
def Coherent (t : InternTable) : Prop :=
  ∀ (s : String) (name : Name), t.map.lookup s = some name ↔ t.strings[name.index]? = some s

theorem coherent_initial : initial.Coherent := by
  rintro s ⟨i⟩
  simp only [initial, Name.empty, lookup_cons_eq_ite, List.lookup_nil]
  cases i with
  | zero => by_cases e : s = "" <;> simp [e, eq_comm]
  | succ i => by_cases e : s = "" <;> simp [e]

theorem Coherent.enter {t : InternTable} {s : String} (h : t.Coherent)
    (new : t.map.lookup s = none) : (t.enter s).Coherent := by
  rintro other ⟨i⟩
  have old := h other ⟨i⟩
  simp only [InternTable.enter, lookup_cons_eq_ite, Array.getElem?_push]
  by_cases e : other = s
  · subst e
    have absent : t.strings[i]? ≠ some other := fun found => by
      rw [old.2 found] at new
      cases new
    by_cases last : i = t.strings.size <;> simp [last, absent, eq_comm (a := t.strings.size)]
  · by_cases last : i = t.strings.size
    · have absent : t.map.lookup other ≠ some ⟨i⟩ := fun found => by
        simpa [last] using old.1 found
      rw [if_neg e, if_pos last]
      simp [absent, Ne.symm e]
    · rw [if_neg e, if_neg last]
      exact old

end InternTable

/-- A table of interned strings whose two sides agree. -/
structure NameTable extends InternTable where
  coherent : toInternTable.Coherent
  deriving Repr

namespace NameTable

def initial : NameTable := ⟨.initial, InternTable.coherent_initial⟩

def size (t : NameTable) : Nat := t.strings.size

/-- The name of a string, if it has been entered. -/
def find? (t : NameTable) (s : String) : Option Name := t.map.lookup s

/-- The name of a string, which is entered if it is new. -/
def intern (t : NameTable) (s : String) : Name × NameTable :=
  match found : t.find? s with
  | some name => (name, t)
  | none => (⟨t.size⟩, ⟨t.enter s, t.coherent.enter found⟩)

/-- The string of a name. -/
def lookup (t : NameTable) (name : Name) : Except Fault String :=
  match t.strings[name.index]? with
  | some s => .ok s
  | none => .error (.unknownName name)

theorem find?_eq_some_iff {t : NameTable} {s : String} {name : Name} :
    t.find? s = some name ↔ t.strings[name.index]? = some s := t.coherent s name

/-- A name that was given out keeps its string. -/
theorem lookup_of_intern (t : NameTable) {s : String} {name : Name} {text : String}
    (found : t.lookup name = .ok text) : (t.intern s).2.lookup name = .ok text := by
  unfold intern
  split
  · exact found
  · unfold lookup at found ⊢
    simp only [InternTable.enter]
    grind

theorem lookup_intern (t : NameTable) (s : String) :
    (t.intern s).2.lookup (t.intern s).1 = .ok s := by
  unfold intern
  split
  · rename_i found
    simp [lookup, find?_eq_some_iff.1 found]
  · simp [lookup, InternTable.enter, size]

end NameTable

end Codegen
