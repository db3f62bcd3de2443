import Codegen.Proofs.Lowering.Conservation
import Codegen.Proofs.Compilation.Laws
import Codegen.Proofs.Requests.Storage
import Codegen.Proofs.Types.Pointers

/-!
What requests do, a little at a time. Types come in by calls of constructors. Instructions stay as
they are until they are freed. A node gets its value from an instruction of its own type, from a
variable, or from another node. Everything that is said about values and types over whole sessions
is said about these actions.
-/

namespace Codegen

open Relation

/-- Neither a slot, a load nor a return. -/
def InstKind.isPlain : InstKind → Bool
  | .alloca .. | .load _ | .ret _ => false
  | _ => true

theorem InstKind.isRet_of_isPlain {kind : InstKind} (plain : kind.isPlain) :
    kind.isRet = false := by
  cases kind with
  | ret => cases plain
  | _ => rfl

/-- What is known of a node's value: all but its place in the tree. -/
def Node.look (n : Node) : Bool × TypeId × Option Value × NodeFlags :=
  (n.isBuilding, n.ty, n.value, n.flags)

theorem Node.look_eq {n m : Node} : m.look = n.look ↔
    m.isBuilding = n.isBuilding ∧ m.ty = n.ty ∧ m.value = n.value ∧ m.flags = n.flags := by
  simp only [look, Prod.mk.injEq]

namespace InstStore

/-- What becomes of a store in a step: no instruction changes, and new ones are of some kind. -/
structure Follows (N : Inst → Prop) (s s' : InstStore) : Prop where
  size_le : s.slots.size ≤ s'.slots.size
  old : ∀ {i : InstId}, i.index < s.slots.size → s'.find? i = s.find? i ∨ s'.find? i = none
  new : ∀ {i : InstId} {inst}, s.slots.size ≤ i.index → s'.find? i = some inst → N inst

namespace Follows

variable {N : Inst → Prop} {s s₁ s₂ : InstStore}

theorem find?_of_lt (h : Follows N s s₁) {i : InstId} {inst : Inst} (lt : i.index < s.slots.size)
    (found : s₁.find? i = some inst) : s.find? i = some inst := by
  rcases h.old lt with same | gone
  · exact same.symm.trans found
  · cases gone.symm.trans found

theorem refl (N : Inst → Prop) (s : InstStore) : Follows N s s where
  size_le := Nat.le_refl _
  old _ := .inl rfl
  new le found := absurd (lt_of_find? found) (Nat.not_lt.2 le)

theorem trans (h : Follows N s s₁) (h' : Follows N s₁ s₂) : Follows N s s₂ where
  size_le := Nat.le_trans h.size_le h'.size_le
  old lt := by
    rcases h'.old (Nat.lt_of_lt_of_le lt h.size_le) with same | gone
    · rw [same]
      exact h.old lt
    · exact .inr gone
  new {i inst} le found := by
    by_cases lt : i.index < s₁.slots.size
    · exact h.new le (h'.find?_of_lt lt found)
    · exact h'.new (Nat.le_of_not_lt lt) found

theorem mono {M : Inst → Prop} (h : Follows N s s₁) (imp : ∀ inst, N inst → M inst) :
    Follows M s s₁ := ⟨h.size_le, h.old, fun le found => imp _ (h.new le found)⟩

theorem create (s : InstStore) {kind : InstKind} {ty : TypeId} (made : N ⟨kind, ty⟩) :
    Follows N s (s.create kind ty).2 where
  size_le := by simp [InstStore.create]
  old {i} lt := .inl <| find?_create_of_ne fun e => by simp [e, InstStore.create] at lt
  new {i inst} le found := by
    have e : i = (s.create kind ty).1 := by
      by_contra ne
      rw [find?_create_of_ne ne] at found
      exact absurd (lt_of_find? found) (Nat.not_lt.2 le)
    subst e
    cases (find?_create s kind ty).symm.trans found
    exact made

/-- Lowering makes comparisons only. -/
theorem of_later (h : s.Later s₁) (compare : ∀ x y, N ⟨.compare .eqEq x y, .bool⟩) :
    Follows N s s₁ where
  size_le := h.size_le
  old {i} lt := by
    cases found : s.find? i with
    | none => exact .inr (h.dead lt found)
    | some inst => exact (h.kept found).imp_right And.left
  new {i inst} le found := by
    rcases h.old found with found | ⟨-, x, y, rfl⟩
    · exact absurd (lt_of_find? found) (Nat.not_lt.2 le)
    · exact compare x y

theorem storeArguments (spills : List (Nat × InstId)) (s : InstStore)
    (store : ∀ x y, N ⟨.store x y, .void⟩) :
    Follows N s (Function.storeArguments spills s).2 := by
  induction spills generalizing s with
  | nil => exact .refl N s
  | cons spill rest ih => exact (create s (store _ _)).trans (ih _)

/-- The entry of a body gets stores only. -/
theorem materializeEntry {f f' : Function} {entry : List InstId}
    (e : f.materializeEntry s = (entry, f', s₁)) (store : ∀ x y, N ⟨.store x y, .void⟩) :
    Follows N s s₁ := by
  have last : (f.materializeEntry s).2.2 = s₁ := congrArg (·.2.2) e
  rw [← last]
  exact .storeArguments _ _ store

theorem of_sheds {a a' : Arena} (sheds : a.Sheds s a' s₁) : Follows N s s₁ where
  size_le := Nat.le_of_eq sheds.slots.symm
  old _ := sheds.store _
  new le found := absurd (lt_of_find? found) (Nat.not_lt.2 (sheds.slots ▸ le))

end Follows

/-- A slot for objects of a type. -/
def Allots (s : InstStore) (j : InstId) (ty : TypeId) : Prop :=
  ∃ name slotType, s.find? j = some ⟨.alloca ty name, slotType⟩

/-- No instruction is freed but returns. -/
def Kept (s s' : InstStore) : Prop :=
  ∀ i inst, s.find? i = some inst → inst.kind.isRet = false → s'.find? i = some inst

end InstStore

namespace Compilation

/-- An instruction that gives the address of an object of a type, unless a type has turned out to be
an error. -/
def Locates (c : Compilation) (i : InstId) (ty : TypeId) : Prop :=
  ∃ inst, c.insts.find? i = some inst ∧ inst.kind.isRet = false ∧
    (c.types.ErrorFree → c.types.pointee? inst.ty = .ok (some ty.stored))

/-- An instruction that computes a value of a type. -/
def Produces (c : Compilation) (i : InstId) (ty : TypeId) : Prop :=
  ∃ inst, c.insts.find? i = some inst ∧ inst.kind.isRet = false ∧ inst.ty = ty

/-- A type that is no error, unless some type has turned out to be one. -/
def SoundType (c : Compilation) (ty : TypeId) : Prop :=
  c.types.ErrorFree → c.types.isError ty = .ok false

/-- Where a new node has its value from. -/
inductive Valued (c : Compilation) (node : Node) : Prop
  | plain (value : ∀ i, node.value ≠ some (.inst i)) (loaded : node.flags.address = false)
  | computed {i : InstId} (produces : c.Produces i node.ty) (value : node.value = some (.inst i))
      (loaded : node.flags.address = false)
  | located {i : InstId} (locates : c.Locates i node.ty) (value : node.value = some (.inst i))
      (address : node.flags.address = true)
  | ofVar {k : Nat} {v : Variable} (found : c.vars[k]? = some v)
      (value : node.value = some v.storage) (ty : node.ty = v.ty)
      (address : node.flags.address = true)
  | same {id : NodeId} {inner : Node} (found : c.arena.find? id = some inner)
      (value : node.value = inner.value) (ty : node.ty = inner.ty)
      (address : node.flags.address = inner.flags.address)
  | deref {id : NodeId} {inner : Node} (found : c.arena.find? id = some inner)
      (value : node.value = inner.value) (loaded : inner.flags.address = false)
      (address : node.flags.address = true)
      (points : c.types.pointee? inner.ty = .ok (some node.ty))
  | address {id : NodeId} {inner : Node} (found : c.arena.find? id = some inner)
      (value : node.value = inner.value) (address : inner.flags.address = true)
      (loaded : node.flags.address = false)
      (points : c.types.pointee? node.ty = .ok (some inner.ty.stored))

/-- The names of nominal types were given out. -/
def Named (c : Compilation) : Prop :=
  c.types.All fun form => ∀ name part, form = .named name part →
  ∃ text, c.names.lookup name = .ok text

/-- One action. Returns are made of some values only. Where `T` holds, values have the types of
their nodes, and no instruction is freed but returns. -/
inductive Acts (T : Prop) (R : Option Value → Prop) (c : Compilation) : Compilation → Prop
  | types {types : TypeTable} (asks : TypeTable.Asks c.types types)
      (named : c.Named → Named { c with types }) : Acts T R c { c with types }
  | names {names : NameTable}
      (kept : ∀ {name text}, c.names.lookup name = .ok text → names.lookup name = .ok text) :
      Acts T R c { c with names }
  | aside {settings : Settings} {globals : Array GlobalData} {functions : Array Function}
      (spills : ∀ k p, spill? { c with functions } k p = c.spill? k p) :
      Acts T R c { c with settings, globals, functions }
  | inst {kind : InstKind} (ty : TypeId) (load : ∀ v, kind ≠ .load v)
      (returns : ∀ v, kind = .ret v → R v)
      (slot : T → ∀ allotted name, kind = .alloca allotted name → c.types.ErrorFree →
        c.types.pointee? ty = .ok (some allotted.stored)) :
      Acts T R c { c with insts := (c.insts.create kind ty).2 }
  | node {node : Node} (valued : T → c.Valued node)
      (building : T → node.isBuilding → node.flags.address = false) :
      Acts T R c { c with arena := (c.arena.add node).2 }
  | retouch {id : NodeId} {node node' : Node} (found : c.arena.find? id = some node)
      (look : node'.look = node.look) : Acts T R c { c with arena := c.arena.set id node' }
  | finish {id : NodeId} {node : Node} {value : Value} (found : c.arena.find? id = some node)
      (loaded : T → node.flags.address = false)
      (produces : T → ∀ i, value = .inst i → c.Produces i node.ty) :
      Acts T R c { c with arena := c.arena.set id (node.finished value) }
  /-- The one way in which a load is made. -/
  | load {id : NodeId} {node : Node} {v : Value} (found : c.arena.find? id = some node)
      (value : node.value = some v) (address : node.flags.address = true) :
      Acts T R c { c with
        arena := c.arena.set id (node.loaded (c.insts.create (.load v) node.ty).1)
        insts := (c.insts.create (.load v) node.ty).2 }
  | newVar {v : Variable} (allots : ∀ j, v.storage = .inst j → c.insts.Allots j v.ty)
      (sound : T → ∀ p, v.kind = .param p → c.SoundType v.ty) :
      Acts T R c { c with vars := c.vars.push v }
  /-- A variable that was not used yet gets a slot, for itself and for its position. -/
  | slot {functions : Array Function} {k : Nat} {v : Variable} {j : InstId}
      (found : c.vars[k]? = some v) (unused : ∀ i, v.storage ≠ .inst i)
      (allots : c.insts.Allots j v.ty)
      (spills : ∀ {i p s}, spill? { c with functions } i p = some s →
        c.spill? i p = some s ∨ s = j) :
      Acts T R c { c with
        functions
        vars := c.vars.modify k fun _ => { v with storage := .inst j } }
  | spill {i p k : Nat} {v : Variable} {j : InstId} (found : c.vars[k]? = some v)
      (unused : ∀ i, v.storage ≠ .inst i) (slot : c.spill? i p = some j) :
      Acts T R c { c with vars := c.vars.modify k fun _ => { v with storage := .inst j } }
  | body {c' : Compilation} {func : FuncId} {root : NodeId} {f f' : Function} {entry : List InstId}
      {insts insts' : InstStore} {void : Bool} {lowered : Body} {a : Arena}
      (defines : Defines func root c c' f f' entry insts void lowered a insts') : Acts T R c c'
  | shed {arena : Arena} {insts : InstStore} (sheds : c.arena.Sheds c.insts arena insts)
      (kept : T → c.insts.Kept insts) : Acts T R c { c with arena, insts }

end Compilation

/-! ## What an action leaves -/

namespace Arena

variable {a : Arena} {id n : NodeId} {node node' m : Node}

theorem find?_set_cases (found : a.find? id = some node) (h : (a.set id node').find? n = some m) :
    n = id ∧ m = node' ∨ a.find? n = some m := by
  by_cases e : n = id
  · subst e
    rw [find?_set (isLive_of_find? found)] at h
    exact .inl ⟨rfl, (Option.some.inj h).symm⟩
  · rw [find?_set_of_ne e] at h
    exact .inr h

theorem find?_add_cases (h : (a.add node).2.find? n = some m) :
    n.index = a.size ∧ m = node ∨ a.find? n = some m := by
  by_cases e : n = (a.add node).1
  · subst e
    rw [find?_add] at h
    exact .inl ⟨rfl, (Option.some.inj h).symm⟩
  · rw [find?_add_of_ne e] at h
    exact .inr h

end Arena

namespace Defines

variable {func : FuncId} {root : NodeId} {c c' : Compilation} {f f' : Function}
  {entry : List InstId} {insts insts' : InstStore} {void : Bool} {body : Body} {a : Arena}
  (h : Defines func root c c' f f' entry insts void body a insts')

include h

/-- Nodes that are left are as they were, but for their instructions. -/
theorem look_eq {n : NodeId} {m : Node} (found : c'.arena.find? n = some m) :
    ∃ node, c.arena.find? n = some node ∧ m.look = node.look := by
  obtain ⟨s, code, es, lowered, rfl, rfl⟩ := exists_lowered h.lowered
  obtain ⟨m', found', e⟩ := (Arena.sheds_destroyWithin _ h.destroyed).nodes found
  have same : m.look = m'.look := by rcases e with rfl | rfl <;> rfl
  rcases lowered.touches.nodes n with e | ⟨e, -⟩
  · exact ⟨m', e.symm.trans found', same⟩
  · obtain ⟨node, find, rfl⟩ := Option.map_eq_some_iff.1 (e.symm.trans found')
    exact ⟨node, find, same⟩

theorem size_arena : c'.arena.size = c.arena.size := by
  rw [(Arena.sheds_destroyWithin _ h.destroyed).size, size_of_lowerBody h.lowered]

theorem spill?_eq (k p : Nat) : c'.spill? k p = c.spill? k p := by
  obtain ⟨-, rfl, -⟩ := Function.materializeEntry_ok h.materialized
  exact Compilation.spill?_modify_of_spills (congrArg Compilation.functions h.rest) h.found rfl k p

end Defines

namespace Compilation

/-- What every action keeps: types are asked for, composites under construction are no addresses,
and parameters have no error types. -/
structure Regular (c : Compilation) : Prop where
  asked : c.types.Asked
  building : ∀ {id : NodeId} {node}, c.arena.find? id = some node → node.isBuilding →
    node.flags.address = false
  params : ∀ {k p : Nat} {v}, c.vars[k]? = some v → v.kind = .param p → c.SoundType v.ty

/-- What is known of an instruction that is made: a return is of some values only, a load reads the
address that a node is at, and a slot has a type that points at what it is for. -/
structure Makes (T : Prop) (R : Option Value → Prop) (c : Compilation) (inst : Inst) : Prop where
  returns : ∀ v, inst.kind = .ret v → R v
  loads : ∀ v, inst.kind = .load v → ∃ id node, c.arena.find? id = some node ∧
    node.value = some v ∧ node.flags.address = true ∧ inst.ty = node.ty
  slots : T → ∀ allotted name, inst.kind = .alloca allotted name → c.types.ErrorFree →
    c.types.pointee? inst.ty = .ok (some allotted.stored)

namespace Acts

variable {T : Prop} {R : Option Value → Prop} {c c' : Compilation}

theorem types_le (h : c.Acts T R c') : ReflTransGen TypeTable.Asks c.types c'.types := by
  cases h with
  | types asks => exact .single asks
  | body defines => rw [defines.rest]
  | _ => exact .refl

theorem named (h : c.Acts T R c') (named : c.Named) : c'.Named := by
  cases h with
  | types _ new => exact new named
  | names kept =>
    exact fun id form known name part e => (named id form known name part e).imp fun _ => kept
  | body defines =>
    rw [defines.rest]
    exact named
  | _ => exact named

theorem plain {kind : InstKind} (ty : TypeId) (plain : kind.isPlain) :
    c.Acts T R { c with insts := (c.insts.create kind ty).2 } :=
  .inst ty (fun _ e => by cases e ▸ plain) (fun _ e => by cases e ▸ plain)
    fun _ _ _ e => by cases e ▸ plain

theorem follows (h : c.Acts T R c') : c.insts.Follows (Makes T R c) c'.insts := by
  cases h with
  | inst ty load returns slot => exact .create _ ⟨returns, fun v e => absurd e (load v), slot⟩
  | load found value address =>
    refine .create _ ⟨nofun, fun v e => ?_, fun _ _ _ e => by cases e⟩
    cases e
    exact ⟨_, _, found, value, address, rfl⟩
  | body defines =>
    have opened := InstStore.Follows.materializeEntry (N := Makes T R c) defines.materialized
      fun _ _ => ⟨nofun, nofun, fun _ _ _ e => by cases e⟩
    exact opened.trans
      (.of_later defines.later fun _ _ => ⟨nofun, nofun, fun _ _ _ e => by cases e⟩)
  | shed sheds => exact .of_sheds sheds
  | _ => exact .refl _ _

theorem arena_le (h : c.Acts T R c') : c.arena.size ≤ c'.arena.size := by
  cases h with
  | body defines => exact Nat.le_of_eq defines.size_arena.symm
  | shed sheds => exact Nat.le_of_eq sheds.size.symm
  | node => exact Nat.le_of_lt (by simp)
  | retouch | finish | load => exact Nat.le_of_eq (Arena.size_set ..).symm
  | _ => exact Nat.le_refl _

/-- A node has the type that it had. -/
theorem ty_eq (h : c.Acts T R c') {n : NodeId} {m : Node} (lt : n.index < c.arena.size)
    (found : c'.arena.find? n = some m) : ∃ node, c.arena.find? n = some node ∧ m.ty = node.ty := by
  have set {id : NodeId} {node node' : Node} (find : c.arena.find? id = some node)
      (found : (c.arena.set id node').find? n = some m) (ty : node'.ty = node.ty) :
      ∃ node, c.arena.find? n = some node ∧ m.ty = node.ty := by
    obtain ⟨rfl, rfl⟩ | found := Arena.find?_set_cases find found
    · exact ⟨node, find, ty⟩
    · exact ⟨m, found, rfl⟩
  cases h with
  | body defines =>
    obtain ⟨node, find, look⟩ := defines.look_eq found
    exact ⟨node, find, (Node.look_eq.1 look).2.1⟩
  | node =>
    obtain ⟨e, -⟩ | found := Arena.find?_add_cases found
    · exact absurd lt (e ▸ Nat.lt_irrefl _)
    · exact ⟨m, found, rfl⟩
  | shed sheds =>
    obtain ⟨node, find, rfl | rfl⟩ := sheds.nodes found
    · exact ⟨m, find, rfl⟩
    · exact ⟨node, find, rfl⟩
  | retouch find look => exact set find found (Node.look_eq.1 look).2.1
  | finish find => exact set find found rfl
  | load find => exact set find found rfl
  | _ => exact ⟨m, found, rfl⟩

theorem regular (h : c.Acts T R c') (t : T) (regular : c.Regular) : c'.Regular := by
  have asked := regular.asked.run h.types_le
  have set {id n : NodeId} {node node' m : Node} (find : c.arena.find? id = some node)
      (found : (c.arena.set id node').find? n = some m) (building : m.isBuilding)
      (new : node'.isBuilding → node'.flags.address = false) : m.flags.address = false := by
    obtain ⟨-, rfl⟩ | found := Arena.find?_set_cases find found
    · exact new building
    · exact regular.building found building
  have moved {k i p : Nat} {v w : Variable} {storage : Value} (at' : c.vars[k]? = some v)
      (found : (c.vars.modify k fun _ => { v with storage })[i]? = some w)
      (kind : w.kind = .param p) : c.SoundType w.ty := by
    rw [Array.getElem?_modify] at found
    split at found
    · rename_i e
      subst e
      rw [at'] at found
      cases found
      exact regular.params (v := v) at' kind
    · exact regular.params found kind
  cases h with
  | types asks => exact ⟨asked, regular.building, fun found kind =>
      regular.asked.isError_eq (.single asks) (regular.params found kind)⟩
  | names | aside | inst => exact ⟨asked, regular.building, regular.params⟩
  | node _ new =>
    refine ⟨asked, fun found building => ?_, regular.params⟩
    obtain ⟨-, rfl⟩ | found := Arena.find?_add_cases found
    · exact new t building
    · exact regular.building found building
  | retouch find look =>
    refine ⟨asked, fun found building => set find found building fun new => ?_, regular.params⟩
    obtain ⟨same, -, -, flags⟩ := Node.look_eq.1 look
    rw [flags]
    exact regular.building find (same.symm.trans new)
  | finish find loaded =>
    exact ⟨asked, fun found building => set find found building fun _ => loaded t, regular.params⟩
  | load find =>
    exact ⟨asked, fun found building => set find found building fun _ => rfl, regular.params⟩
  | newVar _ sound =>
    refine ⟨asked, regular.building, fun {k p v} found kind => ?_⟩
    rw [Array.getElem?_push] at found
    split at found
    · cases found
      exact sound t p kind
    · exact regular.params found kind
  | slot at' => exact ⟨asked, regular.building, moved at'⟩
  | spill at' => exact ⟨asked, regular.building, moved at'⟩
  | shed sheds =>
    refine ⟨asked, fun found building => ?_, regular.params⟩
    obtain ⟨node, find, rfl | rfl⟩ := sheds.nodes found
    · exact regular.building find building
    · have plain := regular.building find building
      exact plain
  | body defines =>
    have rest := defines.rest
    refine ⟨asked, fun found building => ?_, fun {k p v} found kind => ?_⟩
    · obtain ⟨node, find, look⟩ := defines.look_eq found
      obtain ⟨same, -, -, flags⟩ := Node.look_eq.1 look
      rw [flags]
      exact regular.building find (same.symm.trans building)
    · rw [rest] at found ⊢
      exact regular.params found kind

end Acts

/-- Any number of actions. -/
abbrev Proceeds (T : Prop) (R : Option Value → Prop) : Compilation → Compilation → Prop :=
  ReflTransGen (Acts T R)

namespace Proceeds

variable {T : Prop} {R : Option Value → Prop} {c c' : Compilation}

theorem types_le (h : c.Proceeds T R c') : ReflTransGen TypeTable.Asks c.types c'.types := by
  induction h with
  | refl => exact .refl
  | tail _ act ih => exact ih.trans act.types_le

theorem returns (h : c.Proceeds T R c') :
    c.insts.Follows (fun inst => ∀ v, inst.kind = .ret v → R v) c'.insts := by
  induction h with
  | refl => exact .refl _ _
  | tail _ act ih => exact ih.trans (act.follows.mono fun _ => Makes.returns)

theorem regular (h : c.Proceeds T R c') (t : T) (regular : c.Regular) : c'.Regular := by
  induction h with
  | refl => exact regular
  | tail _ act ih => exact act.regular t ih

theorem ty_eq (h : c.Proceeds T R c') {n : NodeId} {m : Node} (lt : n.index < c.arena.size)
    (found : c'.arena.find? n = some m) : ∃ node, c.arena.find? n = some node ∧ m.ty = node.ty := by
  have both : c.arena.size ≤ c'.arena.size ∧ ∀ {m}, c'.arena.find? n = some m →
      ∃ node, c.arena.find? n = some node ∧ m.ty = node.ty := by
    clear found
    induction h with
    | refl => exact ⟨Nat.le_refl _, fun found => ⟨_, found, rfl⟩⟩
    | tail _ act ih =>
      refine ⟨ih.1.trans act.arena_le, fun found => ?_⟩
      obtain ⟨m, find, ty⟩ := act.ty_eq (Nat.lt_of_lt_of_le lt ih.1) found
      obtain ⟨node, find, ty'⟩ := ih.2 find
      exact ⟨node, find, ty.trans ty'⟩
  exact both.2 found

theorem named (h : c.Proceeds T R c') (named : c.Named) : c'.Named := by
  induction h with
  | refl => exact named
  | tail _ act ih => exact act.named ih

theorem asking {types : TypeTable} (orders : c.types.Orders types) :
    c.Proceeds T R { c with types } := by
  obtain ⟨call, typed, other, run⟩ := orders
  refine .single (.types ⟨call, typed, run⟩ fun named => named.call typed
    (fun form _ only name part e => ?_) run)
  exact absurd (only name part e) (other name part)

theorem soundType (h : c.Proceeds T R c') (regular : c.Regular) {ty : TypeId}
    (sound : c.SoundType ty) : c'.SoundType ty :=
  regular.asked.isError_eq h.types_le sound

end Proceeds

end Compilation

/-! ## The law of actions -/

/-- Steps that are made of actions, from where some types are no errors. -/
def acting (T : Prop) (R : Option Value → Prop) (sound : List TypeId) : Law where
  start c := T → c.Regular ∧ ∀ ty ∈ sound, c.SoundType ty
  holds := Compilation.Proceeds T R
  refl _ := .refl
  trans := .trans
  keeps start acts t :=
    ⟨acts.regular t (start t).1, fun ty mem => acts.soundType (start t).1 ((start t).2 ty mem)⟩

namespace Arena

/-- One node changes in a way that does not concern its value. -/
def Retouched (a a' : Arena) : Prop :=
  ∃ id node node', a.find? id = some node ∧ a' = a.set id node' ∧ node'.look = node.look

/-- A node comes in that has no value yet, or a constant. -/
def Plainly (a : Arena) (id : NodeId) (a' : Arena) : Prop :=
  ∃ node : Node, (id, a') = a.add node ∧ (∀ i, node.value ≠ some (.inst i)) ∧
    node.flags.address = false

variable {a a' : Arena} {id : NodeId} {kids : List NodeId} {span : Span} {ty : TypeId}

@[grind →] theorem retouched_appendInst {i : InstId} (run : a.appendInst id i = .ok a') :
    a.Retouched a' := by
  obtain ⟨node, find, -, rfl⟩ := appendInst_ok run
  exact ⟨id, node, _, find, rfl, rfl⟩

@[grind →] theorem retouched_appendChild {stmt : NodeId} (run : a.appendChild id stmt = .ok a') :
    a.Retouched a' := by
  obtain ⟨node, _, find, -, -, -, rfl⟩ := appendChild_ok run
  exact ⟨id, node, _, find, rfl, rfl⟩

@[grind →] theorem plainly_make {kind : NodeKind} (run : a.make kind kids ty span = .ok (id, a')) :
    a.Plainly id a' := by
  obtain ⟨_, -, run⟩ := bind_eq_ok.1 run
  obtain ⟨_, -, run⟩ := bind_eq_ok.1 run
  exact ⟨.fresh kind kids ty span, (Except.ok.inj run).symm, nofun, rfl⟩

@[grind →] theorem plainly_makeVoid {kind : NodeKind}
    (run : a.makeVoid kind kids span = .ok (id, a')) : a.Plainly id a' := plainly_make run

@[grind →] theorem plainly_makeSwitch {layout : SwitchLayout}
    (run : a.makeSwitch layout kids span = .ok (id, a')) : a.Plainly id a' := by
  unfold makeSwitch at run
  split at run
  · exact plainly_make run
  · cases run

@[grind →] theorem plainly_makeConst {value : Constant}
    (made : a.makeConst ty value span = (id, a')) : a.Plainly id a' :=
  ⟨_, made.symm, nofun, rfl⟩

@[grind →] theorem plainly_makeFuncAddress {func : FuncId}
    (made : a.makeFuncAddress func ty span = (id, a')) : a.Plainly id a' :=
  ⟨_, made.symm, nofun, rfl⟩

@[grind →] theorem plainly_makeEmpty (made : a.makeEmpty span = (id, a')) : a.Plainly id a' :=
  ⟨_, made.symm, nofun, rfl⟩

end Arena

namespace Obeys

variable {α : Type} {T : Prop} {R : Option Value → Prop} {P : List TypeId}

/-- A test of a type, after which it is known to be no error. -/
theorem soundly {q : Compilation → Except Fault α} {β : Type} {k : α → Build β}
    (types : α → List TypeId)
    (sound : ∀ c a, c.Regular → q c = .ok a → ∀ ty ∈ types a, c.SoundType ty)
    (hk : ∀ a, Obeys (acting T R (types a ++ P)) (k a)) :
    Obeys (acting T R P) (Build.ask q >>= k) := by
  intro c b c' start run
  obtain ⟨a, answer, run⟩ := Build.ask_bind_ok run
  refine hk a c b c' (fun t => ⟨(start t).1, fun ty mem => ?_⟩) run
  rcases List.mem_append.1 mem with mem | mem
  · exact sound c a (start t).1 answer ty mem
  · exact (start t).2 ty mem

/-- An early answer where a type is an error. -/
theorem unlessError {ty : TypeId} {a : α} {k : Build α} (hk : Obeys (acting T R (ty :: P)) k) :
    Obeys (acting T R P)
      (Build.isErrorType ty >>= fun b => if b = true then Pure.pure a else k) := by
  refine soundly (fun b => if b then [] else [ty]) (fun c b _ answer ty' mem => ?_) fun b => ?_
  · cases b with
    | true => cases mem
    | false =>
      cases List.mem_singleton.1 mem
      exact fun _ => answer
  · cases b with
    | true => exact .pure a
    | false => exact hk

@[grind ←] theorem onTypes {step : TypeTable → Except Fault (α × TypeTable)}
    (h : ∀ t a t', step t = .ok (a, t') → t.Orders t') :
    Obeys (acting T R P) (Build.onTypes step) := by
  intro c a c' _ run
  obtain ⟨types, done, rfl⟩ := Build.onTypes_ok run
  exact .asking (h _ _ _ done)

@[grind ←] theorem onArena {step : Arena → Except Fault (NodeId × Arena)}
    (h : ∀ a id a', step a = .ok (id, a') → a.Plainly id a') :
    Obeys (acting T R P) (Build.onArena step) := by
  intro c id c' _ run
  obtain ⟨arena, done, rfl⟩ := Build.onArena_ok run
  obtain ⟨node, made, value, loaded⟩ := h _ _ _ done
  cases made
  exact .single (.node (fun _ => .plain value loaded) fun _ _ => loaded)

@[grind ←] theorem addNode {step : Arena → NodeId × Arena}
    (h : ∀ a id a', step a = (id, a') → a.Plainly id a') :
    Obeys (acting T R P) (Build.addNode step) := by
  change Obeys _ (Build.onArena fun a => .ok (step a))
  exact onArena fun a id a' done => h a id a' (Except.ok.inj done)

@[grind ←] theorem changeArena {step : Arena → Except Fault Arena}
    (h : ∀ a a', step a = .ok a' → a.Retouched a') :
    Obeys (acting T R P) (Build.changeArena step) := by
  intro c u c' _ run
  obtain ⟨arena, done, rfl⟩ := Build.changeArena_ok run
  obtain ⟨id, node, node', found, rfl, look⟩ := h _ _ done
  exact .single (.retouch found look)

@[grind ←] theorem intern (s : String) : Obeys (acting T R P) (Build.intern s) := by
  intro c name c' _ run
  cases run
  exact .single (.names c.names.lookup_of_intern)

theorem createReturn {v : Option Value} (ty : TypeId) (returns : R v) :
    Obeys (acting T R P) (Build.createInst (.ret v) ty) := by
  intro c i c' _ run
  cases run
  refine .single (.inst ty nofun (fun w e => ?_) fun _ _ _ e => by cases e)
  cases e
  exact returns

@[grind ←] theorem createPlain {kind : InstKind} (ty : TypeId) (plain : kind.isPlain) :
    Obeys (acting T R P) (Build.createInst kind ty) := by
  intro c i c' _ run
  cases run
  exact .single (.plain ty plain)

end Obeys

end Codegen
