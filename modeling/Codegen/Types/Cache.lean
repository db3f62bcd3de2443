import Codegen.Types.Basic

/-!
The storage of types: forms in order of arrival, a map from forms to handles, and the placeholders
apart. An interned form is entered in the map; a placeholder is not, and gets its form later, in
place. What the parts say of a handle agrees at all times.
-/

namespace Codegen

/-- Types as they are stored. Handles are positions and stay valid. -/
structure TypeCache where
  types : Array TypeForm
  /-- The handles that forms were interned at. -/
  map : List (TypeForm × TypeId)
  /-- Placeholders that still wait for their definition. -/
  pending : List TypeId
  /-- Placeholders that have their definition. -/
  resolved : List TypeId
  /-- The names given to placeholders. -/
  names : List (TypeId × Name)
  deriving DecidableEq, Repr

namespace TypeCache

def next (t : TypeCache) : TypeId := ⟨t.types.size⟩

/-- Enters a form at the next free handle. -/
def insert (t : TypeCache) (form : TypeForm) : TypeCache :=
  { t with types := t.types.push form, map := (form, t.next) :: t.map }

/-- Enters a placeholder at the next free handle. -/
def await (t : TypeCache) (form : TypeForm) (name : Name) : TypeCache :=
  { t with
    types := t.types.push form
    pending := t.next :: t.pending
    names := (t.next, name) :: t.names }

/-- Overwrites the form of a placeholder, which waits no longer. -/
def settle (t : TypeCache) (id : TypeId) (form : TypeForm) : TypeCache :=
  { t with
    types := t.types.setIfInBounds id.index form
    pending := t.pending.erase id
    resolved := id :: t.resolved }

/-- Adds a form at the next free handle: one that is found by its form, or a placeholder that is
known by a name. -/
def push (t : TypeCache) (form : TypeForm) : Option Name → TypeCache
  | none => t.insert form
  | some name => t.await form name

/-- Gives a pending placeholder its form; any other handle is left alone. -/
def define (t : TypeCache) (id : TypeId) (form : TypeForm) : TypeCache :=
  if id ∈ t.pending then t.settle id form else t

/-- What ties the parts of a table together. -/
structure Coherent (t : TypeCache) : Prop where
  /-- The map leads to the form, and never to a placeholder. -/
  found : ∀ {form id}, t.map.lookup form = some id →
    t.types[id.index]? = some form ∧ id ∉ t.pending ∧ id ∉ t.resolved
  /-- The form of a handle is in the map, unless the handle is a placeholder. -/
  mapped : ∀ {form} {id : TypeId}, t.types[id.index]? = some form → id ∉ t.pending →
    id ∉ t.resolved → ∃ other, t.map.lookup form = some other
  /-- Exactly the placeholders have names. -/
  named : ∀ {id}, (∃ name, t.names.lookup id = some name) ↔ id ∈ t.pending ∨ id ∈ t.resolved
  known : ∀ {id}, id ∈ t.pending ∨ id ∈ t.resolved → id.index < t.types.size
  apart : ∀ {id}, id ∈ t.pending → id ∉ t.resolved
  once : t.pending.Nodup

namespace Coherent

variable {t : TypeCache} {id : TypeId}

theorem getElem?_push_of_some {types : Array TypeForm} {i : Nat} {form : TypeForm}
    (found : types[i]? = some form) (new : TypeForm) : (types.push new)[i]? = some form := by
  have lt := (Array.getElem?_eq_some_iff.1 found).1
  rw [Array.getElem?_push, if_neg (Nat.ne_of_lt lt), found]

theorem next_not_mem (h : t.Coherent) : t.next ∉ t.pending ∧ t.next ∉ t.resolved :=
  ⟨fun mem => Nat.lt_irrefl _ (h.known (.inl mem)), fun mem => Nat.lt_irrefl _ (h.known (.inr mem))⟩

theorem insert (h : t.Coherent) (form : TypeForm) : (t.insert form).Coherent where
  found {f id} found := by
    simp only [TypeCache.insert, lookup_cons_eq_ite] at found ⊢
    split at found
    · rename_i e
      cases e
      cases found
      exact ⟨by simp [next], h.next_not_mem⟩
    · have old := h.found found
      exact ⟨getElem?_push_of_some old.1 form, old.2⟩
  mapped {f id} at' waits settled := by
    simp only [TypeCache.insert, lookup_cons_eq_ite, Array.getElem?_push] at at' waits settled ⊢
    split
    · exact ⟨_, rfl⟩
    · rename_i ne
      split at at'
      · exact absurd (Option.some.inj at').symm ne
      · exact h.mapped at' waits settled
  named := h.named
  known mem := Nat.lt_of_lt_of_le (h.known mem) (by simp [TypeCache.insert])
  apart := h.apart
  once := h.once

theorem await (h : t.Coherent) (form : TypeForm) (name : Name) : (t.await form name).Coherent where
  found {f id} found := by
    have old := h.found found
    have ne : id ≠ t.next := by
      rintro rfl
      simpa [next] using old.1
    exact ⟨getElem?_push_of_some old.1 form, by simp [TypeCache.await, ne, old.2.1], old.2.2⟩
  mapped {f id} at' waits settled := by
    simp only [TypeCache.await, List.mem_cons, not_or, Array.getElem?_push] at at' waits settled
    have ne : id.index ≠ t.types.size := fun e => waits.1 (TypeId.index_inj.1 e)
    rw [if_neg ne] at at'
    exact h.mapped at' waits.2 settled
  named {id} := by
    simp only [TypeCache.await, lookup_cons_eq_ite, List.mem_cons]
    by_cases e : id = t.next
    · simp [e]
    · simpa [e] using h.named
  known {id} mem := by
    simp only [TypeCache.await, List.mem_cons, Array.size_push] at mem ⊢
    obtain (rfl | mem) | mem := mem
    · exact Nat.lt_succ_self _
    · exact Nat.lt_succ_of_lt (h.known (.inl mem))
    · exact Nat.lt_succ_of_lt (h.known (.inr mem))
  apart {id} mem := by
    obtain rfl | mem := List.mem_cons.1 mem
    · exact h.next_not_mem.2
    · exact h.apart mem
  once := List.nodup_cons.2 ⟨h.next_not_mem.1, h.once⟩

theorem settle (h : t.Coherent) (mem : id ∈ t.pending) (form : TypeForm) :
    (t.settle id form).Coherent where
  found {f other} found := by
    have old := h.found found
    have ne : other ≠ id := fun e => old.2.1 (e ▸ mem)
    refine ⟨?_, fun m => old.2.1 (List.mem_of_mem_erase m), by simp [TypeCache.settle, ne, old.2.2]⟩
    rw [TypeCache.settle, Array.getElem?_setIfInBounds_ne (mt TypeId.index_inj.1 ne.symm), old.1]
  mapped {f other} at' waits settled := by
    simp only [TypeCache.settle, List.mem_cons, not_or] at at' waits settled
    rw [Array.getElem?_setIfInBounds_ne (mt TypeId.index_inj.1 (Ne.symm settled.1))] at at'
    exact h.mapped at' (fun m => waits ((List.mem_erase_of_ne settled.1).2 m)) settled.2
  named {other} := by
    rw [show (t.settle id form).names = t.names from rfl, h.named]
    simp only [TypeCache.settle, h.once.mem_erase_iff, List.mem_cons]
    by_cases e : other = id <;> simp_all
  known {other} m := by
    simp only [TypeCache.settle, Array.size_setIfInBounds, List.mem_cons] at m ⊢
    obtain m | rfl | m := m
    · exact h.known (.inl (List.mem_of_mem_erase m))
    · exact h.known (.inl mem)
    · exact h.known (.inr m)
  apart {other} m := by
    simp only [TypeCache.settle, h.once.mem_erase_iff, List.mem_cons, not_or] at m ⊢
    exact ⟨m.1, h.apart m.2⟩
  once := h.once.erase id

theorem push (h : t.Coherent) (form : TypeForm) (name? : Option Name) :
    (t.push form name?).Coherent := by
  cases name? with
  | none => exact h.insert form
  | some name => exact h.await form name

theorem define (h : t.Coherent) (id : TypeId) (form : TypeForm) : (t.define id form).Coherent := by
  unfold TypeCache.define
  split
  · exact h.settle ‹_› form
  · exact h

end Coherent

end TypeCache

end Codegen
