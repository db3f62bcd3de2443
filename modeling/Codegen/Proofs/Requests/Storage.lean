import Codegen.Proofs.Requests.Sessions

/-!
Where variables are stored. A local has a slot of its own from the start and a parameter gets one on
first use, by its position. So variables of one function are stored apart exactly if its parameters
have positions of their own. Positions come from the length of a list that can be replaced by a
shorter one.
-/

namespace Codegen

open Relation

theorem InstStore.size_slots_create (s : InstStore) (kind : InstKind) (ty : TypeId) :
    (s.create kind ty).2.slots.size = s.slots.size + 1 := by simp [create]

/-- The function of a parameter and its position there. -/
def Variable.position? (v : Variable) : Option (Option FuncId × Nat) :=
  match v.kind with
  | .param p => some (v.func, p)
  | _ => none

namespace Compilation

/-! ## Slots -/

/-- The slot of a parameter of a function, both by their positions. -/
def spill? (c : Compilation) (func position : Nat) : Option InstId :=
  c.functions[func]?.bind (·.spillSlot? position)

/-- Who a stack slot belongs to: a variable, or a position in a function. -/
inductive Owns (c : Compilation) (j : InstId) : Nat ⊕ (Nat × Nat) → Prop
  | var {i : Nat} {v : Variable} (found : c.vars[i]? = some v)
      (kind : v.kind = .local ∨ v.kind = .temporary) (storage : v.storage = .inst j) :
      Owns c j (.inl i)
  | position {func p : Nat} (spilled : c.spill? func p = some j) : Owns c j (.inr (func, p))

/-- Where a variable can be stored. -/
inductive Lodges (c : Compilation) (v : Variable) : Prop
  | error (kind : v.kind = .error)
  | global {g : GlobalId} (kind : v.kind = .global) (owner : v.func = none)
      (storage : v.storage = .global g) (lt : g.index < c.globals.size)
  | own {func : FuncId} {j : InstId} (kind : v.kind = .local ∨ v.kind = .temporary)
      (owner : v.func = some func) (storage : v.storage = .inst j)
  | incoming {func : FuncId} {p : Nat} (kind : v.kind = .param p) (owner : v.func = some func)
      (storage : v.storage = .param p)
  | spilled {func : FuncId} {p : Nat} {j : InstId} (kind : v.kind = .param p)
      (owner : v.func = some func) (storage : v.storage = .inst j)
      (slot : c.spill? func.index p = some j)

/-- Every variable has its place, and no two places are the same. -/
structure Stored (c : Compilation) : Prop where
  error : ∃ v, c.vars[0]? = some v ∧ v.isError
  lodges : ∀ {i : Nat} {v}, c.vars[i]? = some v → c.Lodges v
  bound : ∀ {j o}, c.Owns j o → j.index < c.insts.slots.size
  owner : ∀ {j o o'}, c.Owns j o → c.Owns j o' → o = o'
  global : ∀ {i i' : Nat} {v v'}, c.vars[i]? = some v → c.vars[i']? = some v' → v.kind = .global →
    v'.kind = .global → v.storage = v'.storage → i = i'

/-- The position of a parameter in its function. -/
def position? (c : Compilation) (i : Nat) : Option (Option FuncId × Nat) :=
  c.vars[i]?.bind Variable.position?

/-- No two parameters of a function have the same position. -/
def Placed (c : Compilation) : Prop :=
  ∀ i i' x, c.position? i = some x → c.position? i' = some x → i = i'

/-- No two variables of a function share their storage, and no two parameters of it their position.
Globals have no function. -/
def Apart (c : Compilation) : Prop :=
  ∀ (i i' : Nat) (v v' : Variable), c.vars[i]? = some v → c.vars[i']? = some v' → i ≠ i' →
    ¬v.isError → ¬v'.isError → v.func = v'.func →
    v.storage ≠ v'.storage ∧ ∀ p, v.kind = .param p → v'.kind ≠ .param p

variable {c c' : Compilation} {f f' : Function} {i k p : Nat} {v : Variable}

theorem position?_of_kind (found : c.vars[i]? = some v) (kind : v.kind = .param p) :
    c.position? i = some (v.func, p) := by
  rw [position?, found, Option.bind_some, Variable.position?, kind]

theorem kind_of_position? {func : Option FuncId} (h : c.position? i = some (func, p)) :
    ∃ v, c.vars[i]? = some v ∧ v.func = func ∧ v.kind = .param p := by
  obtain ⟨v, found, at'⟩ := Option.bind_eq_some_iff.1 h
  unfold Variable.position? at at'
  split at at'
  · rename_i kind
    cases at'
    exact ⟨v, found, rfl, kind⟩
  · cases at'

namespace Stored

variable {i i' : Nat} {v v' : Variable}

/-- Storage that is shared is that of one position. -/
theorem eq_of_storage (h : c.Stored) (placed : c.Placed) (found : c.vars[i]? = some v)
    (found' : c.vars[i']? = some v') (usable : ¬v.isError) (usable' : ¬v'.isError)
    (owner : v.func = v'.func) (storage : v.storage = v'.storage) : i = i' := by
  cases h.lodges found with
  | error kind => simp [Variable.isError, kind] at usable
  | global kind own place lt =>
    cases h.lodges found' with
    | error kind' => simp [Variable.isError, kind'] at usable'
    | global kind' => exact h.global found found' kind kind' storage
    | own _ own' | incoming _ own' | spilled _ own' => simp [own, own'] at owner
  | own kind own place =>
    have mine : c.Owns _ _ := .var found kind place
    cases h.lodges found' with
    | error kind' => simp [Variable.isError, kind'] at usable'
    | global _ own' => simp [own, own'] at owner
    | own kind' _ place' =>
      exact Sum.inl.inj (h.owner mine (.var found' kind' (storage ▸ place)))
    | incoming _ _ place' => simp [place, place'] at storage
    | spilled _ _ place' slot' =>
      cases place.symm.trans (storage.trans place')
      cases h.owner mine (.position slot')
  | incoming kind own place =>
    cases h.lodges found' with
    | error kind' => simp [Variable.isError, kind'] at usable'
    | global _ own' => simp [own, own'] at owner
    | own _ _ place' | spilled _ _ place' => simp [place, place'] at storage
    | incoming kind' _ place' =>
      cases place.symm.trans (storage.trans place')
      exact placed _ _ _ (position?_of_kind found kind) (owner ▸ position?_of_kind found' kind')
  | spilled kind own place slot =>
    cases h.lodges found' with
    | error kind' => simp [Variable.isError, kind'] at usable'
    | global _ own' => simp [own, own'] at owner
    | incoming _ _ place' => simp [place, place'] at storage
    | own kind' _ place' =>
      cases place.symm.trans (storage.trans place')
      cases h.owner (.var found' kind' place') (.position slot)
    | spilled kind' own' place' slot' =>
      cases place.symm.trans (storage.trans place')
      cases own.symm.trans (owner.trans own')
      cases h.owner (.position slot) (.position slot')
      exact placed _ _ _ (position?_of_kind found kind) (owner ▸ position?_of_kind found' kind')

/-- Variables are stored apart exactly if parameters have positions of their own. -/
theorem apart_iff (h : c.Stored) : c.Apart ↔ c.Placed := by
  constructor
  · rintro apart i i' ⟨func, p⟩ at' at''
    obtain ⟨v, found, rfl, kind⟩ := kind_of_position? at'
    obtain ⟨v', found', owner, kind'⟩ := kind_of_position? at''
    by_contra differ
    exact (apart i i' v v' found found' differ (by simp [Variable.isError, kind])
      (by simp [Variable.isError, kind']) owner.symm).2 p kind kind'
  · intro placed i i' v v' found found' differ usable usable' owner
    refine ⟨fun storage => differ ?_, fun p kind kind' => differ ?_⟩
    · exact h.eq_of_storage placed found found' usable usable' owner storage
    · exact placed _ _ _ (position?_of_kind found kind) (owner ▸ position?_of_kind found' kind')

/-! ## What a step keeps -/

/-- At most one slot and one global come in at a time, each with its owner. -/
theorem step (h : c.Stored) (newcomer : Nat ⊕ (Nat × Nat)) (var : Nat)
    (error : ∃ v, c'.vars[0]? = some v ∧ v.isError)
    (lodges : ∀ {i : Nat} {v}, c'.vars[i]? = some v → c'.Lodges v)
    (insts_le : c.insts.slots.size ≤ c'.insts.slots.size)
    (slots : ∀ {j o}, c'.Owns j o → c.Owns j o ∨
      o = newcomer ∧ j.index = c.insts.slots.size ∧ c.insts.slots.size < c'.insts.slots.size)
    (globals : ∀ {i : Nat} {v}, c'.vars[i]? = some v → v.kind = .global →
      c.vars[i]? = some v ∨ i = var ∧ v.storage = .global ⟨c.globals.size⟩) : c'.Stored where
  error := error
  lodges := lodges
  bound owns := by
    rcases slots owns with old | ⟨-, at', lt⟩
    · exact Nat.lt_of_lt_of_le (h.bound old) insts_le
    · omega
  owner owns owns' := by
    rcases slots owns with old | ⟨rfl, at', -⟩
    · rcases slots owns' with old' | ⟨rfl, at', -⟩
      · exact h.owner old old'
      · exact absurd at' (Nat.ne_of_lt (h.bound old))
    · rcases slots owns' with old' | ⟨rfl, -, -⟩
      · exact absurd at' (Nat.ne_of_lt (h.bound old'))
      · rfl
  global {i i' v v'} found found' kind kind' same := by
    have old : ∀ {i : Nat} {v}, c.vars[i]? = some v → v.kind = .global →
        v.storage ≠ .global ⟨c.globals.size⟩ := by
      intro i v found kind e
      cases h.lodges found with
      | error kind' | incoming kind' | spilled kind' => cases kind.symm.trans kind'
      | own kind' => simp [kind] at kind'
      | global _ _ storage lt =>
        cases e.symm.trans storage
        exact Nat.lt_irrefl _ lt
    rcases globals found kind with before | ⟨rfl, at'⟩
    · rcases globals found' kind' with before' | ⟨rfl, at'⟩
      · exact h.global before before' kind kind' same
      · exact absurd (same.trans at') (old before kind)
    · rcases globals found' kind' with before' | ⟨rfl, -⟩
      · exact absurd (same.symm.trans at') (old before' kind')
      · rfl

end Stored

theorem Lodges.mono (h : c.Lodges v) (globals_le : c.globals.size ≤ c'.globals.size)
    (spills : ∀ {k p j}, c.spill? k p = some j → c'.spill? k p = some j) : c'.Lodges v := by
  cases h with
  | error kind => exact .error kind
  | global kind owner storage lt =>
    exact .global kind owner storage (Nat.lt_of_lt_of_le lt globals_le)
  | own kind owner storage => exact .own kind owner storage
  | incoming kind owner storage => exact .incoming kind owner storage
  | spilled kind owner storage slot => exact .spilled kind owner storage (spills slot)

/-- Nothing but the parameters of functions changes, and new slots have no owner. -/
theorem Stored.keep (h : c.Stored) (vars : c'.vars = c.vars)
    (globals : c'.globals.size = c.globals.size)
    (insts_le : c.insts.slots.size ≤ c'.insts.slots.size)
    (spills : ∀ k p, c'.spill? k p = c.spill? k p) :
    c'.Stored := by
  refine h.step (.inl 0) 0 (vars ▸ h.error) (fun found => ?_) insts_le (fun owns => .inl ?_)
    fun found _ => .inl ?_
  · exact (h.lodges (vars ▸ found)).mono (Nat.le_of_eq globals.symm) fun slot => by rwa [spills]
  · cases owns with
    | var found kind storage => exact .var (vars ▸ found) kind storage
    | position spilled => exact .position (spills _ _ ▸ spilled)
  · exact vars ▸ found

/-- A variable comes in. A slot or a global that it brings along is new. -/
theorem Stored.push (h : c.Stored) (vars : c'.vars = c.vars.push v) (lodges : c'.Lodges v)
    (globals_le : c.globals.size ≤ c'.globals.size)
    (insts_le : c.insts.slots.size ≤ c'.insts.slots.size)
    (spills : ∀ k p, c'.spill? k p = c.spill? k p)
    (slot : ∀ {j}, v.kind = .local ∨ v.kind = .temporary → v.storage = .inst j →
      j.index = c.insts.slots.size ∧ c.insts.slots.size < c'.insts.slots.size)
    (global : v.kind = .global → v.storage = .global ⟨c.globals.size⟩) : c'.Stored := by
  have cases : ∀ {i : Nat} {w}, c'.vars[i]? = some w → c.vars[i]? = some w ∨ i = c.vars.size ∧
      w = v := by
    intro i w found
    rw [vars, Array.getElem?_push] at found
    split at found
    · exact .inr ⟨‹_›, (Option.some.inj found).symm⟩
    · exact .inl found
  obtain ⟨first, at0, error⟩ := h.error
  have at0' : c'.vars[0]? = some first := by
    obtain ⟨lt, -⟩ := Array.getElem?_eq_some_iff.1 at0
    rw [vars, Array.getElem?_push, if_neg (Nat.ne_of_lt lt), at0]
  refine h.step (.inl c.vars.size) c.vars.size ⟨first, at0', error⟩ (fun found => ?_) insts_le
    (fun owns => ?_) fun found kind => ?_
  · rcases cases found with old | ⟨-, rfl⟩
    · exact (h.lodges old).mono globals_le fun slot => by rwa [spills]
    · exact lodges
  · cases owns with
    | var found kind storage =>
      rcases cases found with old | ⟨rfl, rfl⟩
      · exact .inl (.var old kind storage)
      · exact .inr ⟨rfl, slot kind storage⟩
    | position spilled => exact .inl (.position (spills _ _ ▸ spilled))
  · rcases cases found with old | ⟨rfl, rfl⟩
    · exact .inl old
    · exact .inr ⟨rfl, global kind⟩

/-- A position of a function has a slot now, a new one or the one it had. -/
structure Spills (c c' : Compilation) (func p : Nat) (slot : InstId) : Prop where
  here : c'.spill? func p = some slot
  insts_le : c.insts.slots.size ≤ c'.insts.slots.size
  kept : ∀ {i q j}, c.spill? i q = some j → c'.spill? i q = some j
  old : ∀ {i q j}, c'.spill? i q = some j → c.spill? i q = some j ∨ (i, q) = (func, p) ∧
    j.index = c.insts.slots.size ∧ c.insts.slots.size < c'.insts.slots.size

/-- A parameter moves into the slot of its position. -/
theorem Stored.spill {func : FuncId} {slot : InstId} (h : c.Stored)
    (vars : c'.vars = c.vars.modify k fun _ => { v with storage := .inst slot })
    (found : c.vars[k]? = some v) (kind : v.kind = .param p) (owner : v.func = some func)
    (globals_le : c.globals.size ≤ c'.globals.size) (spills : c.Spills c' func.index p slot) :
    c'.Stored := by
  have cases : ∀ {i : Nat} {w}, c'.vars[i]? = some w →
      c.vars[i]? = some w ∨ w = { v with storage := .inst slot } := by
    intro i w at'
    rw [vars, Array.getElem?_modify] at at'
    split at at'
    · rename_i e
      rw [← e, found] at at'
      exact .inr (Option.some.inj at').symm
    · exact .inl at'
  obtain ⟨first, at0, error⟩ := h.error
  have at0' : c'.vars[0]? = some first := by
    have other : k ≠ 0 := by
      rintro rfl
      cases at0.symm.trans found
      simp [Variable.isError, kind] at error
    rw [vars, Array.getElem?_modify, if_neg other, at0]
  refine h.step (.inr (func.index, p)) 0 ⟨first, at0', error⟩ (fun at' => ?_) spills.insts_le
    (fun owns => ?_) fun at' global => .inl ?_
  · rcases cases at' with old | rfl
    · exact (h.lodges old).mono globals_le spills.kept
    · exact .spilled kind owner rfl spills.here
  · cases owns with
    | var at' own storage =>
      rcases cases at' with old | rfl
      · exact .inl (.var old own storage)
      · simp [kind] at own
    | position spilled =>
      rcases spills.old spilled with old | ⟨e, new⟩
      · exact .inl (.position old)
      · exact .inr ⟨congrArg Sum.inr e, new⟩
  · rcases cases at' with old | rfl
    · exact old
    · cases kind.symm.trans global

/-- The slots of parameters where a function is replaced. -/
theorem spill?_modify (lt : k < c.functions.size)
    (changed : c'.functions = c.functions.modify k fun _ => f) (i p : Nat) :
    c'.spill? i p = if i = k then f.spillSlot? p else c.spill? i p := by
  rw [spill?, changed, Array.getElem?_modify]
  by_cases e : k = i
  · subst e
    rw [if_pos rfl, if_pos rfl, Array.getElem?_eq_getElem lt]
    rfl
  · rw [if_neg e, if_neg fun e' => e e'.symm]
    rfl

/-- A function whose parameters keep their slots. -/
theorem spill?_modify_of_spills (changed : c'.functions = c.functions.modify k fun _ => f')
    (found : c.functions[k]? = some f) (spills : f'.spills = f.spills) (i p : Nat) :
    c'.spill? i p = c.spill? i p := by
  obtain ⟨lt, -⟩ := Array.getElem?_eq_some_iff.1 found
  rw [spill?_modify lt changed]
  split
  · rename_i e
    rw [spill?, e, found, Function.spillSlot?, spills]
    rfl
  · rfl

theorem spills_spillSlotFor {ty ptrType : TypeId} {name : Name} {slot : InstId} {insts : InstStore}
    (changed : c'.functions = c.functions.modify k fun _ => f') (store : c'.insts = insts)
    (found : c.functions[k]? = some f)
    (spilled : f.spillSlotFor p ty ptrType name c.insts = (slot, f', insts)) :
    c.Spills c' k p slot := by
  obtain ⟨lt, -⟩ := Array.getElem?_eq_some_iff.1 found
  have here (q : Nat) : c.spill? k q = f.spillSlot? q := by rw [spill?, found]; rfl
  unfold Function.spillSlotFor at spilled
  split at spilled
  · rename_i known
    cases spilled
    have same (i q : Nat) : c'.spill? i q = c.spill? i q :=
      spill?_modify_of_spills changed found rfl i q
    exact ⟨by rw [same, here, known], Nat.le_of_eq (by rw [store]), fun h => by rwa [same],
      fun h => .inl (by rwa [same] at h)⟩
  · rename_i unknown
    cases spilled
    have all (i q : Nat) : c'.spill? i q =
        (c.spill? i q).or (if i = k ∧ q = p then some ⟨c.insts.slots.size⟩ else none) := by
      rw [spill?_modify lt changed]
      by_cases e : i = k
      · subst e
        rw [if_pos rfl, here, Function.spillSlot?, List.lookup_append, List.lookup_cons,
          List.lookup_nil]
        by_cases e' : q = p
        · simp [e', Function.spillSlot?]
        · simp [beq_eq_false_iff_ne.2 e', e', Function.spillSlot?]
      · simp [e]
    have grown : c.insts.slots.size < c'.insts.slots.size := by
      rw [store]
      exact InstStore.size_slots_create c.insts (.alloca ty name) ptrType ▸ Nat.lt_succ_self _
    refine ⟨?_, Nat.le_of_lt grown, fun {i q j} old => ?_, fun {i q j} now => ?_⟩
    · rw [all, here, unknown, if_pos ⟨rfl, rfl⟩, Option.none_or]
    · rw [all, old, Option.some_or]
    · rw [all] at now
      cases old : c.spill? i q with
      | some j' =>
        rw [old, Option.some_or] at now
        exact .inl now
      | none =>
        rw [old, Option.none_or] at now
        split at now
        · rename_i e
          cases now
          exact .inr ⟨by rw [e.1, e.2], rfl, grown⟩
        · cases now

/-- Everything that happens to storage keeps the places of variables apart from each other. -/
theorem Allots.stored (h : c.Allots c') (stored : c.Stored) : c'.Stored := by
  cases h with
  | aside same =>
    refine stored.keep same.vars same.globals same.insts_le fun k p => ?_
    have room := same.functions k
    rw [spill?, spill?]
    cases f : c.functions[k]? with
    | none =>
      rw [f] at room
      rw [Option.map_eq_none_iff.1 room]
    | some f₀ =>
      rw [f] at room
      obtain ⟨f', found', e⟩ := Option.map_eq_some_iff.1 room
      simp only [Function.room, Prod.mk.injEq] at e
      simp only [found', Option.bind_some, Function.spillSlot?, e.2]
  | newLocal found own =>
    refine stored.push rfl (.own own rfl rfl) (Nat.le_refl _)
      (InstStore.size_slots_create .. ▸ Nat.le_succ _)
      (spill?_modify_of_spills rfl found rfl) (fun _ storage => ?_) fun kind => ?_
    · cases storage
      exact ⟨rfl, InstStore.size_slots_create .. ▸ Nat.lt_succ_self _⟩
    · cases kind
      simp at own
  | @spill var v index n func f f' ptrType slot insts found kind waits owner at' spilled =>
    exact stored.spill rfl found kind owner (Nat.le_refl _)
      (spills_spillSlotFor rfl rfl at' spilled)
  | newGlobal =>
    refine stored.push rfl (.global rfl rfl rfl ?_) ?_ (Nat.le_refl _) (fun k p => rfl) ?_
      fun _ => rfl
    · simp
    · simp
    · simp
  | declare empty =>
    refine stored.keep rfl rfl (Nat.le_refl _) fun k p => ?_
    rw [spill?, spill?, Array.getElem?_push]
    split
    · rename_i e
      simp only [Function.room, Prod.mk.injEq] at empty
      simp [e, Function.spillSlot?, empty.2]
    · rfl

/-! ## Positions -/

theorem position?_push (vars : c'.vars = c.vars.push v) (i : Nat) :
    c'.position? i = if i = c.vars.size then v.position? else c.position? i := by
  rw [position?, position?, vars, Array.getElem?_push]
  split
  · rfl
  · rfl

theorem position?_size (c : Compilation) : c.position? c.vars.size = none := by simp [position?]

/-- Nothing but a new parameter has a new position. -/
theorem Allots.position? (h : c.Allots c') (i : Nat) : c'.position? i = c.position? i := by
  have push {v : Variable} (other : v.position? = none) (vars : c'.vars = c.vars.push v) :
      c'.position? i = c.position? i := by
    rw [position?_push vars]
    split
    · rename_i e
      rw [other, e, position?_size]
    · rfl
  cases h with
  | aside same => rw [Compilation.position?, same.vars, Compilation.position?]
  | newLocal _ own =>
    refine push ?_ rfl
    rcases own with rfl | rfl <;> rfl
  | newGlobal => exact push rfl rfl
  | declare => rfl
  | spill found kind =>
    rw [Compilation.position?, Compilation.position?, Array.getElem?_modify]
    split
    · rename_i e
      rw [← e, found]
      rfl
    · rfl

/-- Lists of parameters are only replaced on request. -/
theorem Allots.params (h : c.Allots c') (found : c.functions[k]? = some f) :
    ∃ f', c'.functions[k]? = some f' ∧ f'.params = f.params := by
  have modify {i : Nat} {g g' : Function}
    (functions : c'.functions = c.functions.modify i fun _ => g')
      (at' : c.functions[i]? = some g) (same : g'.params = g.params) :
      ∃ f', c'.functions[k]? = some f' ∧ f'.params = f.params := by
    rw [functions, Array.getElem?_modify, found]
    split
    · rename_i e
      cases (e ▸ at').symm.trans found
      exact ⟨g', rfl, same⟩
    · exact ⟨f, rfl, rfl⟩
  cases h with
  | aside same =>
    have room := same.functions k
    rw [found] at room
    obtain ⟨f', found', e⟩ := Option.map_eq_some_iff.1 room
    exact ⟨f', found', congrArg Prod.fst e⟩
  | newLocal at' => exact modify rfl at' rfl
  | newGlobal => exact ⟨f, found, rfl⟩
  | declare =>
    obtain ⟨lt, -⟩ := Array.getElem?_eq_some_iff.1 found
    exact ⟨f, by rw [Array.getElem?_push, if_neg (Nat.ne_of_lt lt), found], rfl⟩
  | spill _ _ _ _ at' spilled =>
    refine modify rfl at' ?_
    unfold Function.spillSlotFor at spilled
    split at spilled <;> cases spilled <;> rfl

/-- Positions lie within the lists of parameters. -/
def Within (c : Compilation) : Prop :=
  ∀ i p func, c.position? i = some (some func, p) →
    ∃ f, c.functions[func.index]? = some f ∧ p < f.params.length

theorem Within.step (h : c.Within) (positions : ∀ i, c'.position? i = c.position? i)
    (params : ∀ {k : Nat} {f}, c.functions[k]? = some f →
      ∃ f', c'.functions[k]? = some f' ∧ f.params.length ≤ f'.params.length) : c'.Within := by
  intro i p func at'
  rw [positions] at at'
  obtain ⟨f, found, lt⟩ := h i p func at'
  obtain ⟨f', found', le⟩ := params found
  exact ⟨f', found', Nat.lt_of_lt_of_le lt le⟩

theorem placed_congr (positions : ∀ i, c'.position? i = c.position? i) : c'.Placed ↔ c.Placed := by
  simp only [Placed, positions]

/-- A parameter comes in. -/
theorem placed_push {x : Option FuncId × Nat} (vars : c'.vars = c.vars.push v)
    (here : v.position? = some x) : c'.Placed ↔ c.Placed ∧ ∀ i, c.position? i ≠ some x := by
  have last : c'.position? c.vars.size = some x := by rw [position?_push vars, if_pos rfl, here]
  have old {i : Nat} {y} (at' : c.position? i = some y) :
      i ≠ c.vars.size ∧ c'.position? i = some y := by
    have ne : i ≠ c.vars.size := by
      rintro rfl
      simp [position?_size] at at'
    exact ⟨ne, by rw [position?_push vars, if_neg ne, at']⟩
  constructor
  · refine fun placed => ⟨fun i i' y at' at'' => placed i i' y (old at').2 (old at'').2,
      fun i at' => ?_⟩
    exact (old at').1 (placed _ _ _ (old at').2 last)
  · rintro ⟨placed, free⟩ i i' y at' at''
    rw [position?_push vars] at at' at''
    split at at' <;> split at at'' <;> rename_i e e'
    · rw [e, e']
    · cases here.symm.trans at'
      exact absurd at'' (free i')
    · cases here.symm.trans at''
      exact absurd at' (free i)
    · exact placed i i' y at' at''

theorem positions_of_allots (h : ReflTransGen Allots c c') (i : Nat) :
    c'.position? i = c.position? i := by
  induction h with
  | refl => rfl
  | tail _ step ih => rw [step.position?, ih]

end Compilation

/-! ## Moves -/

namespace Move

/-- A parameter that comes in gets a position that no parameter of its function has. -/
def PositionFree : Move → Prop
  | request before (.parameterVariable func ..) (.var var) _ => var = .error ∨
    ∀ f ∈ before.functions[func.index]?, ∀ i, before.position? i ≠ some (some func, f.params.length)
  | _ => True

/-- The lengths of a list of parameters and of the one that replaces it. -/
def replaced? : Move → Option (Nat × Nat)
  | request before (.setParameters func params) (.flag true) _ =>
    before.functions[func.index]?.map fun f => (f.params.length, params.length)
  | _ => none

/-- A list of parameters is not replaced by a shorter one. -/
def KeepsLength (m : Move) : Prop := ∀ x ∈ m.replaced?, x.1 ≤ x.2

instance (m : Move) : Decidable m.KeepsLength := inferInstanceAs (Decidable (∀ x ∈ _, _))

end Move

namespace Compilation

/-- What becomes of storage and positions in a request. -/
inductive Places (c : Compilation) : Request Category.Handle → Reply → Compilation → Prop
  | elsewhere {r reply c'} (steps : ReflTransGen Allots c c')
      (free : (Move.request c r reply c').PositionFree) : Places c r reply c'
  | parameter {func : FuncId} {f name n ty taken span names}
    (found : c.functions[func.index]? = some f) :
      Places c (.parameterVariable func name ty taken span) (.var ⟨c.vars.size⟩) { c with
        names
        functions := c.functions.modify func.index fun _ =>
          { f with params := f.params ++ [⟨c.vars.size⟩] }
        vars := c.vars.push ⟨.param f.params.length, n, ty, span, some func, taken,
          .param f.params.length⟩ }
  | replaced {func : FuncId} {f params} (found : c.functions[func.index]? = some f) :
      Places c (.setParameters func params) (.flag true) { c with
        functions := c.functions.modify func.index fun _ => { f with params } }

variable {c c' : Compilation} {r : Request Category.Handle} {reply : Reply}

theorem places (run : r.run c = .ok (reply, c')) : c.Places r reply c' := by
  cases other : r.placesParameters with
  | false =>
    refine .elsewhere (Request.advances other run).storage ?_
    cases r <;> trivial
  | true =>
    cases r
    case parameterVariable =>
      obtain ⟨var, done, rfl⟩ := Run.map_ok run
      obtain ⟨rfl, rfl⟩ | ⟨f, n, names, found, rfl, rfl⟩ := Build.parameterVariable_ok done
      · exact .elsewhere .refl (.inl rfl)
      · exact .parameter found
    case setParameters =>
      obtain ⟨b, done, rfl⟩ := Run.map_ok run
      obtain ⟨rfl, rfl⟩ | ⟨rfl, f, found, rfl⟩ := Build.setParameters_ok done
      · exact .elsewhere .refl trivial
      · exact .replaced found
    all_goals cases other

namespace Places

theorem stored (h : c.Places r reply c') (stored : c.Stored) : c'.Stored := by
  cases h with
  | elsewhere steps free =>
    clear free
    induction steps with
    | refl => exact stored
    | tail _ step ih => exact step.stored ih
  | parameter found =>
    exact stored.push rfl (.incoming rfl rfl rfl) (Nat.le_refl _) (Nat.le_refl _)
      (spill?_modify_of_spills rfl found rfl) (by simp) (by simp)
  | replaced found =>
    exact stored.keep rfl rfl (Nat.le_refl _) (spill?_modify_of_spills rfl found rfl)

/-- Positions stay apart exactly if a new one is free. -/
theorem placed_iff (h : c.Places r reply c') (stored : c.Stored) :
    c'.Placed ↔ c.Placed ∧ (Move.request c r reply c').PositionFree := by
  cases h with
  | elsewhere steps free =>
    rw [placed_congr (positions_of_allots steps)]
    exact ⟨fun placed => ⟨placed, free⟩, And.left⟩
  | replaced found => exact ⟨fun placed => ⟨placed, trivial⟩, And.left⟩
  | @parameter func f name n ty taken span names found =>
    rw [placed_push rfl rfl]
    refine and_congr_right fun _ => ⟨fun free => .inr fun g at' => ?_, fun free => ?_⟩
    · cases found.symm.trans at'
      exact free
    · -- the error variable is there, so that the new one is another
      obtain ⟨_, first, _⟩ := stored.error
      have some := (Array.getElem?_eq_some_iff.1 first).1
      exact (free.resolve_left fun e => Nat.ne_of_gt some (congrArg VarId.index e)) f found

/-- Positions stay within the lists of parameters, unless one is replaced by a shorter one. -/
theorem within (h : c.Places r reply c') (keeps : (Move.request c r reply c').KeepsLength)
    (within : c.Within) : c'.Within := by
  cases h with
  | elsewhere steps free =>
    clear keeps free
    induction steps with
    | refl => exact within
    | tail _ step ih =>
      refine ih.step step.position? fun found => ?_
      obtain ⟨f', found', e⟩ := step.params found
      exact ⟨f', found', Nat.le_of_eq (congrArg List.length e.symm)⟩
  | replaced found =>
    refine within.step (fun _ => rfl) fun {k g} at' => ?_
    rw [Array.getElem?_modify]
    split
    · rename_i e
      subst e
      exact ⟨_, by rw [at']; rfl, keeps (_, _) (by simp [Move.replaced?, at'])⟩
    · exact ⟨g, at', Nat.le_refl _⟩
  | @parameter func f name n ty taken span names found =>
    intro i p func' at'
    rw [position?_push rfl] at at'
    rw [Array.getElem?_modify]
    split at at'
    · cases at'
      exact ⟨_, by rw [if_pos rfl, found]; rfl, by simp⟩
    · obtain ⟨g, found', lt⟩ := within i p func' at'
      split
      · rename_i e
        rw [← e] at found'
        cases found.symm.trans found'
        refine ⟨{ f with params := f.params ++ [⟨c.vars.size⟩] }, by rw [← e, found]; rfl, ?_⟩
        exact Nat.lt_of_lt_of_le lt (by simp)
      · exact ⟨g, found', lt⟩

/-- Where positions lie within the lists, the next one is free. -/
theorem free (h : c.Places r reply c') (within : c.Within) :
    (Move.request c r reply c').PositionFree := by
  cases h with
  | elsewhere _ free => exact free
  | replaced => trivial
  | parameter found =>
    refine .inr fun f at' i here => ?_
    obtain ⟨g, found', lt⟩ := within _ _ _ here
    cases found'.symm.trans at'
    exact Nat.lt_irrefl _ lt

end Places

end Compilation

/-! ## Sessions -/

namespace Compilation

theorem position?_initial (settings : Settings) (i : Nat) :
    (initial settings).position? i = none := by
  cases i with
  | zero => rfl
  | succ i => rfl

theorem stored_initial (settings : Settings) : (initial settings).Stored := by
  have only {i : Nat} {v : Variable} (found : (initial settings).vars[i]? = some v) :
      v = .error := by
    cases i with
    | zero => exact (Option.some.inj found).symm
    | succ i => cases found
  have none (j : InstId) (o : Nat ⊕ (Nat × Nat)) : ¬(initial settings).Owns j o := by
    rintro (⟨found, kind, -⟩ | @⟨func, p, spilled⟩)
    · cases only found
      rcases kind with kind | kind <;> cases kind
    · cases func with
      | zero => cases spilled
      | succ func => cases spilled
  refine ⟨⟨.error, rfl, rfl⟩, fun found => ?_, fun owns => absurd owns (none _ _),
    fun owns => absurd owns (none _ _), fun found _ kind => ?_⟩
  · cases only found
    exact .error rfl
  · cases only found
    cases kind

end Compilation

namespace Session

open Compilation

variable {c : Compilation} {moves : List Move}

theorem stored (session : Session c moves) : c.Stored := by
  induction session with
  | start settings => exact stored_initial settings
  | request _ run ih => exact (places run).stored ih
  | rework _ _ ih => exact ih.keep rfl rfl (Nat.le_refl _) fun _ _ => rfl

theorem placed_iff (session : Session c moves) : c.Placed ↔ ∀ m ∈ moves, m.PositionFree := by
  induction session with
  | start settings =>
    refine ⟨fun _ _ mem => absurd mem List.not_mem_nil, fun _ i i' x at' => ?_⟩
    rw [position?_initial] at at'
    cases at'
  | request session run ih =>
    rw [(places run).placed_iff session.stored, ih, List.forall_mem_cons, and_comm]
  | rework _ _ ih =>
    rw [List.forall_mem_cons, ← ih]
    exact ⟨fun placed => ⟨trivial, placed⟩, And.right⟩

theorem within (session : Session c moves) (keeps : ∀ m ∈ moves, m.KeepsLength) : c.Within := by
  induction session with
  | start settings =>
    intro i p func at'
    rw [position?_initial] at at'
    cases at'
  | request _ run ih =>
    have ⟨now, before⟩ := List.forall_mem_cons.1 keeps
    exact (places run).within now (ih before)
  | rework _ _ ih => exact ih (List.forall_mem_cons.1 keeps).2

/-- Where no list of parameters is replaced by a shorter one, every new position is free. -/
theorem positions_free (session : Session c moves) (keeps : ∀ m ∈ moves, m.KeepsLength) :
    ∀ m ∈ moves, m.PositionFree := by
  induction session with
  | start settings => exact fun _ mem => absurd mem List.not_mem_nil
  | request session run ih =>
    have before := (List.forall_mem_cons.1 keeps).2
    exact List.forall_mem_cons.2 ⟨(places run).free (session.within before), ih before⟩
  | rework _ _ ih => exact List.forall_mem_cons.2 ⟨trivial, ih (List.forall_mem_cons.1 keeps).2⟩

/-- The variables of each function are stored apart, and its parameters have positions of their own,
exactly if every parameter found its position free. That is so as long as no list of parameters is
replaced by a shorter one. -/
theorem stored_apart_iff (session : Session c moves) :
    (c.Apart ↔ ∀ m ∈ moves, m.PositionFree) ∧ ((∀ m ∈ moves, m.KeepsLength) → c.Apart) := by
  have apart : c.Apart ↔ ∀ m ∈ moves, m.PositionFree :=
    session.stored.apart_iff.trans session.placed_iff
  exact ⟨apart, fun keeps => apart.2 (session.positions_free keeps)⟩

/-- A function with two parameters that trade places, a third one and a local. All of them are
used. -/
def reordered : Compilation × List Move :=
  record .standard [.functionType none [] [] .void,
    .declareFunction ⟨14⟩ "f" "" ⟨0⟩ false .synthetic,
    .parameterVariable ⟨1⟩ "a" ⟨5⟩ false .synthetic,
      .parameterVariable ⟨1⟩ "b" ⟨5⟩ false .synthetic,
    .setParameters ⟨1⟩ [⟨2⟩, ⟨1⟩], .parameterVariable ⟨1⟩ "c" ⟨5⟩ false .synthetic,
    .localVariable ⟨1⟩ "x" ⟨5⟩ false .synthetic, .varExpr ⟨1⟩ .synthetic, .varExpr ⟨2⟩ .synthetic,
    .varExpr ⟨3⟩ .synthetic, .varExpr ⟨4⟩ .synthetic]

/-- The four variables have four slots. -/
theorem stored_apart_reordered : reordered.1.Apart ∧
    (reordered.1.vars.toList.drop 1).map (·.storage) =
      [.inst ⟨1⟩, .inst ⟨2⟩, .inst ⟨3⟩, .inst ⟨0⟩] :=
  ⟨(session_record ..).stored_apart_iff.2 (by decide +kernel), by decide +kernel⟩

/-- A function with two parameters, of which one is dropped from the list, and a third one. The
second and the third are used. -/
def dropped : Compilation × List Move :=
  record .standard [.functionType none [] [] .void,
    .declareFunction ⟨14⟩ "f" "" ⟨0⟩ false .synthetic,
    .parameterVariable ⟨1⟩ "a" ⟨5⟩ false .synthetic,
      .parameterVariable ⟨1⟩ "b" ⟨5⟩ false .synthetic,
    .setParameters ⟨1⟩ [⟨2⟩], .parameterVariable ⟨1⟩ "c" ⟨5⟩ false .synthetic,
      .varExpr ⟨2⟩ .synthetic,
    .varExpr ⟨3⟩ .synthetic]

/-- Two parameters of one function with the same position and the same slot. -/
theorem not_apart_dropped : Session dropped.1 dropped.2 ∧ ¬dropped.1.Apart ∧
    (dropped.1.vars.toList.drop 2).map (fun v => (v.kind, v.func, v.storage)) =
      [(.param 1, some ⟨1⟩, .inst ⟨0⟩), (.param 1, some ⟨1⟩, .inst ⟨0⟩)] := by
  refine ⟨session_record .., fun apart => ?_, by decide +kernel⟩
  have second : dropped.1.vars[2]? = some ⟨.param 1, ⟨3⟩, ⟨5⟩, .synthetic, some ⟨1⟩, false,
      .inst ⟨0⟩⟩ := by
    decide +kernel
  have third : dropped.1.vars[3]? = some ⟨.param 1, ⟨4⟩, ⟨5⟩, .synthetic, some ⟨1⟩, false,
      .inst ⟨0⟩⟩ := by
    decide +kernel
  exact (apart 2 3 _ _ second third (by decide) (by decide) (by decide) rfl).1 rfl

end Session

end Codegen
