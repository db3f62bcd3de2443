import Codegen.Fault

/-!
The store of instructions. A freed instruction leaves its slot empty, so that no number is given
out twice.
-/

namespace Codegen

/-- All instructions of a compilation, and how many of them are live. -/
structure InstStore where
  slots : Array (Option Inst)
  live : Nat
  deriving DecidableEq, Repr

namespace InstStore

def initial : InstStore := ⟨#[], 0⟩

/-- A live instruction. -/
def find? (s : InstStore) (id : InstId) : Option Inst := s.slots[id.index]?.join

def isLive (s : InstStore) (id : InstId) : Bool := (s.find? id).isSome

def get (s : InstStore) (id : InstId) : Except Fault Inst :=
  match s.find? id with
  | some inst => .ok inst
  | none => .error (.freedInst id)

/-- Adds an instruction at the next free number. -/
def create (s : InstStore) (kind : InstKind) (ty : TypeId) : InstId × InstStore :=
  (⟨s.slots.size⟩, ⟨s.slots.push (some ⟨kind, ty⟩), s.live + 1⟩)

/-- Empties the slot of a live instruction; anything else is left alone. -/
def free (s : InstStore) (id : InstId) : InstStore :=
  if s.isLive id then ⟨s.slots.modify id.index fun _ => none, s.live - 1⟩ else s

/-- Frees instructions one after the other. -/
def freeAll (s : InstStore) (ids : List InstId) : InstStore := ids.foldl free s

theorem lt_of_find? {s : InstStore} {id : InstId} {inst : Inst} (h : s.find? id = some inst) :
    id.index < s.slots.size := by
  rw [find?, Option.join_eq_some_iff] at h
  exact (Array.getElem?_eq_some_iff.1 h).1

theorem find?_eq_none_of_le {s : InstStore} {id : InstId} (h : s.slots.size ≤ id.index) :
    s.find? id = none := by
  simp [find?, Array.getElem?_eq_none h]

@[simp] theorem size_slots_free (s : InstStore) (id : InstId) :
    (s.free id).slots.size = s.slots.size := by
  unfold free
  split <;> simp

theorem get_eq_ok {s : InstStore} {id : InstId} {inst : Inst} :
    s.get id = .ok inst ↔ s.find? id = some inst := by
  unfold get
  split <;> simp_all

@[simp] theorem find?_create (s : InstStore) (kind : InstKind) (ty : TypeId) :
    (s.create kind ty).2.find? (s.create kind ty).1 = some ⟨kind, ty⟩ := by
  simp [create, find?]

theorem find?_create_of_ne {s : InstStore} {kind : InstKind} {ty : TypeId} {id : InstId}
    (h : id ≠ (s.create kind ty).1) : (s.create kind ty).2.find? id = s.find? id := by
  obtain ⟨i⟩ := id
  have : i ≠ s.slots.size := by simpa [create] using h
  simp [create, find?, Array.getElem?_push, this]

@[simp] theorem find?_free (s : InstStore) (id : InstId) : (s.free id).find? id = none := by
  unfold free
  split
  · cases h : s.slots[id.index]? <;> simp [find?, Array.getElem?_modify, h]
  · rename_i h; simpa [isLive] using h

theorem find?_free_of_ne {s : InstStore} {id other : InstId} (h : other ≠ id) :
    (s.free id).find? other = s.find? other := by
  obtain ⟨i⟩ := id
  obtain ⟨j⟩ := other
  have : i ≠ j := fun e => h (by rw [e])
  unfold free
  split <;> simp [find?, Array.getElem?_modify, this]

end InstStore

end Codegen
