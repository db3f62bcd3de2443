import Codegen.Types.Table

/-!
Entries of a type table: what its parts say of one handle. As the parts agree, every handle has one
form and came about in one way, and what adds or defines a handle changes no other entry.
-/

namespace Codegen

/-- How a handle of a type table came about. -/
inductive Origin where
  /-- Entered by its form. -/
  | interned
  /-- A placeholder that still waits for its definition. -/
  | pending (name : Name)
  /-- A placeholder that has its definition. -/
  | resolved (name : Name)
  deriving DecidableEq, Repr

namespace Origin

def isPending : Origin → Bool
  | .pending _ => true
  | _ => false

def isResolved : Origin → Bool
  | .resolved _ => true
  | _ => false

/-- The name given to a placeholder. -/
def name? : Origin → Option Name
  | .interned => none
  | .pending name | .resolved name => some name

/-- How a new handle comes about: as a placeholder if it is given a name. -/
@[simp] def ofName? : Option Name → Origin
  | none => .interned
  | some name => .pending name

end Origin

/-- All that a table says of a handle. -/
structure TypeEntry where
  form : TypeForm
  origin : Origin
  deriving DecidableEq, Repr

namespace TypeTable

/-- How a handle came about. -/
def origin (t : TypeTable) (id : TypeId) : Origin :=
  match t.placeholderName? id with
  | none => .interned
  | some name => if t.isPending id then .pending name else .resolved name

/-- What the parts of a table say of a handle, if there is one. -/
def find? (t : TypeTable) (id : TypeId) : Option TypeEntry :=
  t.types[id.index]?.map (⟨·, t.origin id⟩)

variable {t : TypeTable} {form : TypeForm} {name? : Option Name} {id : TypeId} {entry : TypeEntry}

theorem find?_eq_some : t.find? id = some entry ↔
    t.types[id.index]? = some entry.form ∧ t.origin id = entry.origin := by
  obtain ⟨form, origin⟩ := entry
  simp only [find?, Option.map_eq_some_iff, TypeEntry.mk.injEq]
  exact ⟨fun ⟨_, at', e, e'⟩ => ⟨e ▸ at', e'⟩, fun ⟨at', e⟩ => ⟨_, at', rfl, e⟩⟩

theorem find?_congr {t' : TypeTable} (types : t'.types[id.index]? = t.types[id.index]?)
    (names : t'.names.lookup id = t.names.lookup id) (pending : id ∈ t'.pending ↔ id ∈ t.pending) :
    t'.find? id = t.find? id := by
  have waits : t'.isPending id = t.isPending id := decide_eq_decide.2 pending
  simp only [find?, origin, placeholderName?, types, names, waits]

theorem form_eq (t : TypeTable) (id : TypeId) : t.form id =
    match t.find? id with
    | some entry => .ok entry.form
    | none => .error (.indexOutOfBounds t.size id.index) := by
  unfold TypeTable.form find?
  cases t.types[id.index]? <;> rfl

theorem form_eq_ok : t.form id = .ok form ↔ ∃ origin, t.find? id = some ⟨form, origin⟩ := by
  simp only [find?_eq_some, exists_and_left, exists_eq', and_true]
  unfold TypeTable.form
  split <;> simp_all

theorem exists_name (waits : t.isPending id = true ∨ t.isResolved id = true) :
    ∃ name, t.placeholderName? id = some name :=
  t.coherent.named.2 (by simpa [isPending, isResolved] using waits)

theorem placeholderName?_eq_none :
    t.placeholderName? id = none ↔ t.isPending id = false ∧ t.isResolved id = false := by
  simp only [placeholderName?, isPending, isResolved, decide_eq_false_iff_not, ← not_or,
    ← t.coherent.named]
  cases t.names.lookup id <;> simp

/-- The sets of placeholders and their names give each handle one origin. -/
theorem origin_spec (t : TypeTable) (id : TypeId) :
    (t.origin id).isPending = t.isPending id ∧ (t.origin id).isResolved = t.isResolved id ∧
      (t.origin id).name? = t.placeholderName? id := by
  unfold origin
  split
  · rename_i none
    have := placeholderName?_eq_none.1 none
    simp [Origin.isPending, Origin.isResolved, Origin.name?, this, none]
  · rename_i name found
    have held := t.coherent.named.1 ⟨name, found⟩
    have apart : id ∈ t.pending → id ∉ t.resolved := t.coherent.apart
    split <;> simp_all [isPending, isResolved, Origin.isPending, Origin.isResolved, Origin.name?]

/-- A handle beyond the table is no placeholder. -/
theorem origin_of_size_le (le : t.size ≤ id.index) : t.origin id = .interned := by
  have unknown : ¬(id ∈ t.pending ∨ id ∈ t.resolved) := fun mem =>
    Nat.not_lt.2 le (t.coherent.known mem)
  rw [← t.coherent.named, not_exists] at unknown
  have nameless : t.placeholderName? id = none := Option.eq_none_iff_forall_ne_some.2 unknown
  rw [origin, nameless]

theorem find?_cases (t : TypeTable) (id : TypeId) :
    t.find? id = none ∧ t.origin id = .interned ∨
      ∃ form, t.find? id = some ⟨form, t.origin id⟩ := by
  by_cases lt : id.index < t.size
  · exact .inr ⟨_, find?_eq_some.2 ⟨Array.getElem?_eq_getElem lt, rfl⟩⟩
  · have le : t.size ≤ id.index := Nat.not_lt.1 lt
    exact .inl ⟨by simp [find?, Array.getElem?_eq_none le], origin_of_size_le le⟩

theorem isPending_eq (t : TypeTable) (id : TypeId) :
    t.isPending id = (t.find? id).any (·.origin.isPending) := by
  rw [← (t.origin_spec id).1]
  obtain ⟨e, e'⟩ | ⟨form, e⟩ := t.find?_cases id <;> rw [e]
  · rw [e']
    rfl
  · rfl

theorem isResolved_eq (t : TypeTable) (id : TypeId) :
    t.isResolved id = (t.find? id).any (·.origin.isResolved) := by
  rw [← (t.origin_spec id).2.1]
  obtain ⟨e, e'⟩ | ⟨form, e⟩ := t.find?_cases id <;> rw [e]
  · rw [e']
    rfl
  · rfl

theorem placeholderName?_eq (t : TypeTable) (id : TypeId) :
    t.placeholderName? id = (t.find? id).bind (·.origin.name?) := by
  rw [← (t.origin_spec id).2.2]
  obtain ⟨e, e'⟩ | ⟨form, e⟩ := t.find?_cases id <;> rw [e]
  · rw [e']
    rfl
  · rfl

theorem origin_eq_interned :
    t.origin id = .interned ↔ t.isPending id = false ∧ t.isResolved id = false := by
  rw [← placeholderName?_eq_none, ← (t.origin_spec id).2.2]
  cases t.origin id <;> simp [Origin.name?]

/-- Forms are looked up where they were interned. -/
theorem find?_of_lookup? (h : t.lookup? form = some id) : t.find? id = some ⟨form, .interned⟩ := by
  have found := t.coherent.found h
  exact find?_eq_some.2 ⟨found.1, origin_eq_interned.2
    ⟨decide_eq_false found.2.1, decide_eq_false found.2.2⟩⟩

theorem not_interned_of_lookup? (h : t.lookup? form = none) (id : TypeId) :
    t.find? id ≠ some ⟨form, .interned⟩ := by
  intro found
  obtain ⟨at', origin⟩ := find?_eq_some.1 found
  have apart := origin_eq_interned.1 origin
  simp only [isPending, isResolved, decide_eq_false_iff_not] at apart
  obtain ⟨other, mapped⟩ := t.coherent.mapped at' apart.1 apart.2
  simp [lookup?, mapped] at h

@[simp] theorem size_push (t : TypeTable) (form : TypeForm) (name? : Option Name) :
    (t.push form name?).2.size = t.size + 1 := by
  cases name? <;> simp [push, TypeCache.push, size, TypeCache.insert, TypeCache.await]

@[simp] theorem index_push (t : TypeTable) (form : TypeForm) (name? : Option Name) :
    (t.push form name?).1.index = t.size := rfl

@[simp] theorem find?_push (t : TypeTable) (form : TypeForm) (name? : Option Name) :
    (t.push form name?).2.find? (t.push form name?).1 = some ⟨form, .ofName? name?⟩ := by
  have new := t.coherent.next_not_mem
  cases name? with
  | none =>
    refine find?_eq_some.2 ⟨by simp [push, TypeCache.push, TypeCache.insert, TypeCache.next], ?_⟩
    exact origin_eq_interned.2 ⟨decide_eq_false new.1, decide_eq_false new.2⟩
  | some name =>
    refine find?_eq_some.2 ⟨by simp [push, TypeCache.push, TypeCache.await, TypeCache.next], ?_⟩
    simp [origin, placeholderName?, isPending, push, TypeCache.push, TypeCache.await]

theorem find?_push_of_ne (h : id ≠ (t.push form name?).1) :
    (t.push form name?).2.find? id = t.find? id := by
  have ne : id.index ≠ t.types.size := mt TypeId.index_inj.1 h
  have types : (t.types.push form)[id.index]? = t.types[id.index]? := by
    rw [Array.getElem?_push, if_neg ne]
  cases name? with
  | none => exact find?_congr types rfl .rfl
  | some name =>
    exact find?_congr types ((lookup_cons_eq_ite ..).trans (if_neg h)) (List.mem_cons.trans (by
      simp [show id ≠ t.next from h]))

@[simp] theorem size_define (t : TypeTable) (id : TypeId) (form : TypeForm) :
    (t.define id form).size = t.size := by
  unfold define TypeCache.define size
  split <;> simp [TypeCache.settle]

theorem isPending_iff :
    t.isPending id = true ↔ ∃ form name, t.find? id = some ⟨form, .pending name⟩ := by
  constructor
  · intro waits
    have lt := t.coherent.known (.inl (of_decide_eq_true waits))
    obtain ⟨name, named⟩ := exists_name (.inl waits)
    exact ⟨t.types[id.index], name, find?_eq_some.2 ⟨Array.getElem?_eq_getElem lt, by
      simp [origin, named, waits]⟩⟩
  · rintro ⟨form, name, found⟩
    rw [isPending_eq, found]
    rfl

theorem find?_define {old : TypeForm} {name : Name} (h : t.find? id = some ⟨old, .pending name⟩) :
    (t.define id form).find? id = some ⟨form, .resolved name⟩ := by
  have waits : id ∈ t.pending := of_decide_eq_true (isPending_iff.2 ⟨old, name, h⟩)
  have lt := t.coherent.known (.inl waits)
  have named : t.names.lookup id = some name := by
    rw [← placeholderName?, placeholderName?_eq, h]
    rfl
  simp [define, TypeCache.define, waits, find?, TypeCache.settle, lt, origin, placeholderName?,
    named, isPending, t.coherent.once.mem_erase_iff]

theorem find?_define_of_ne {other : TypeId} (h : other ≠ id) :
    (t.define id form).find? other = t.find? other := by
  have ne : id.index ≠ other.index := mt TypeId.index_inj.1 h.symm
  by_cases waits : id ∈ t.pending
  · have e : (t.define id form).toTypeCache = t.settle id form := if_pos waits
    exact find?_congr (e ▸ Array.getElem?_setIfInBounds_ne ne) (e ▸ rfl)
      (e ▸ List.mem_erase_of_ne h)
  · have e : (t.define id form).toTypeCache = t.toTypeCache := if_neg waits
    exact find?_congr (e ▸ rfl) (e ▸ rfl) (e ▸ .rfl)

/-- A handle that does not wait for a definition is left alone. -/
theorem define_of_not_pending (form : TypeForm) (h : t.isPending id = false) :
    t.define id form = t := by
  have e : t.toTypeCache.define id form = t.toTypeCache := if_neg (of_decide_eq_false h)
  simp only [define, e]

/-- The entries of a fresh table. -/
theorem find?_initial {target : Target} :
    (initial target).find? id = some entry ↔
      primitives[id.index]? = some entry.form ∧ entry.origin = .interned := by
  have types : (initial target).types = primitives.toArray := rfl
  have origin : (initial target).origin id = .interned := rfl
  rw [find?_eq_some, types, List.getElem?_toArray, origin, eq_comm (a := Origin.interned)]

end TypeTable

end Codegen
