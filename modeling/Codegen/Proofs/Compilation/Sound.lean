import Codegen.Compilation.Basic
import Codegen.Proofs.Tree.Ownership
import Codegen.Proofs.Tree.Shape
import Codegen.Proofs.Tree.Supply

/-!
Compilations that are sound: what an instruction uses is a stack slot, or comes from its node or
from a child. Later states grow out of earlier ones, so that what was there once is there as long
as its node is.
-/

namespace Codegen

/-- A live instruction that makes a stack slot. -/
def InstStore.Allocates (s : InstStore) (j : InstId) : Prop :=
  ∃ ty name t, s.find? j = some ⟨.alloca ty name, t⟩

/-- A slot of a function that has no place in a body yet. -/
def Function.Waits (f : Function) (j : InstId) : Prop :=
  j ∈ f.pendingLocals ∨ ∃ index ∈ f.pendingSpills, f.spillSlot? index = some j

/-- The slots of a function are made once each, and wait as long as there is no body. -/
structure Function.Sound (f : Function) (s : InstStore) : Prop where
  locals : f.pendingLocals.Nodup
  pending : f.pendingSpills.Nodup
  keys : (f.spills.map (·.1)).Nodup
  known : ∀ index ∈ f.pendingSpills, index ∈ f.spills.map (·.1)
  slots : (f.spills.map (·.2)).Nodup
  apart : ∀ j ∈ f.pendingLocals, j ∉ f.spills.map (·.2)
  waits : f.body = none → ∀ p ∈ f.spills, p.1 ∈ f.pendingSpills
  allocas : ∀ j ∈ f.pendingLocals ++ f.spills.map (·.2), s.Allocates j

/-- A node that gets more children and instructions. It is under construction only if it was. -/
structure Node.Grows (node node' : Node) : Prop where
  isStmt : node'.isStmt = node.isStmt
  kids : node.kids ⊆ node'.kids
  insts : node.insts ⊆ node'.insts
  building : node'.isBuilding → node.isBuilding

theorem Node.Grows.refl (node : Node) : node.Grows node :=
  ⟨rfl, List.Subset.refl _, List.Subset.refl _, id⟩

theorem Node.Grows.trans {n n' n'' : Node} (g : n.Grows n') (g' : n'.Grows n'') : n.Grows n'' :=
  ⟨g'.isStmt.trans g.isStmt, List.Subset.trans g.kids g'.kids, List.Subset.trans g.insts g'.insts,
    fun h => g.building (g'.building h)⟩

namespace Compilation

variable {c c' c'' : Compilation}

/-- The storage of a variable. -/
def IsSlot (c : Compilation) (j : InstId) : Prop := ∃ v ∈ c.vars, v.storage = .inst j

/-- Left behind by one of some nodes. -/
def Supplied (c : Compilation) (ids : List NodeId) (j : InstId) : Prop :=
  ∃ k ∈ ids, k.index < c.arena.size ∧ c.arena.Supplies c.insts k j

/-- A value that is there once some nodes were evaluated. -/
def Sourced (c : Compilation) (ids : List NodeId) (v : Value) : Prop :=
  ∀ j, v = .inst j → c.IsSlot j ∨ c.Supplied ids j

/-- A node over children that there are, with instructions and a value that find their operands. A
composite under construction is no address. -/
structure NodeSound (c : Compilation) (id : NodeId) (node : Node) : Prop where
  kids : ∀ k ∈ node.kids, k.index < c.arena.size
  shaped : ∀ {i k child}, node.kids[i]? = some k → c.arena.find? k = some child →
    child.isStmt = node.kind.wantsStmt i
  insts : ∀ i ∈ node.insts, i.index < c.insts.slots.size ∧ ¬c.insts.Allocates i
  operands : ∀ {p i j}, node.insts[p]? = some i → c.insts.Uses i j →
    c.IsSlot j ∨ j ∈ node.insts.take p ∧ c.insts.Yields j ∨ c.Supplied node.kids j
  value : ∀ {v}, node.value = some v → c.Sourced [id] v
  loaded : node.isBuilding → node.flags.address = false
  sentinel : id.isSentinel → node.kids = [] ∧ node.insts = [] ∧ node.value = none ∧
    (node.kind = .error ∨ node.kind = .errorStmt)

/-- The slot of a variable waits in its function as long as that has no body. -/
def Houses (c : Compilation) (v : Variable) : Prop :=
  ∀ j, v.storage = .inst j → ∃ g f, v.func = some g ∧ c.functions[g.index]? = some f ∧
    (f.body = none → f.Waits j)

/-- What holds of every compilation that a front end comes to. -/
structure Sound (c : Compilation) : Prop where
  sentinels : 2 ≤ c.arena.size
  shaped : c.arena.WellFormed
  owned : c.arena.Owned
  nodes : ∀ {id node}, c.arena.find? id = some node → c.NodeSound id node
  functions : ∀ f ∈ c.functions, f.Sound c.insts
  vars : ∀ v ∈ c.vars, c.Houses v

theorem Sound.sentinelsBare (sound : c.Sound) : c.arena.SentinelsBare := by
  intro id node sentinel find
  obtain ⟨kids, insts, _⟩ := (sound.nodes find).sentinel sentinel
  exact ⟨kids, insts⟩

/-- What later states keep of earlier ones. A node is destroyed or grows; an instruction is freed or
stays as it is, and a slot is never freed. -/
structure Grows (c c' : Compilation) : Prop where
  arena_le : c.arena.size ≤ c'.arena.size
  insts_le : c.insts.slots.size ≤ c'.insts.slots.size
  nodes : ∀ {id node}, c.arena.find? id = some node → c'.arena.find? id = none ∨
    ∃ node', c'.arena.find? id = some node' ∧ node.Grows node'
  dead : ∀ {id : NodeId}, id.index < c.arena.size → c.arena.find? id = none →
    c'.arena.find? id = none
  store : ∀ {i : InstId}, i.index < c.insts.slots.size →
    c'.insts.find? i = c.insts.find? i ∨ c'.insts.find? i = none
  allocas : ∀ {j}, c.insts.Allocates j → c'.insts.Allocates j
  slots : ∀ {j}, c.IsSlot j → c'.IsSlot j

namespace Grows

theorem refl (c : Compilation) : Grows c c where
  arena_le := Nat.le_refl _
  insts_le := Nat.le_refl _
  nodes e := .inr ⟨_, e, .refl _⟩
  dead _ e := e
  store _ := .inl rfl
  allocas h := h
  slots h := h

theorem trans (g : Grows c c') (g' : Grows c' c'') : Grows c c'' where
  arena_le := Nat.le_trans g.arena_le g'.arena_le
  insts_le := Nat.le_trans g.insts_le g'.insts_le
  nodes {id node} e := by
    rcases g.nodes e with gone | ⟨node', e', grows⟩
    · exact .inl (g'.dead (Nat.lt_of_lt_of_le (Arena.lt_of_find? e) g.arena_le) gone)
    · exact (g'.nodes e').imp_right fun ⟨node'', e'', grows'⟩ => ⟨node'', e'', grows.trans grows'⟩
  dead lt e := g'.dead (Nat.lt_of_lt_of_le lt g.arena_le) (g.dead lt e)
  store {i} lt := by
    rcases g'.store (Nat.lt_of_lt_of_le lt g.insts_le) with e' | gone
    · rcases g.store lt with e | gone
      · exact .inl (e'.trans e)
      · exact .inr (e'.trans gone)
    · exact .inr gone
  allocas h := g'.allocas (g.allocas h)
  slots h := g'.slots (g.slots h)

theorem yields (g : Grows c c') {j : InstId} (lt : j.index < c.insts.slots.size)
    (h : c.insts.Yields j) : c'.insts.Yields j := by
  intro v ty
  rcases g.store lt with e | gone
  · rw [e]
    exact h v ty
  · simp [gone]

theorem uses (g : Grows c c') {i j : InstId} (lt : i.index < c.insts.slots.size)
    (h : c'.insts.Uses i j) : c.insts.Uses i j := by
  obtain ⟨inst, found, mem⟩ := h
  rcases g.store lt with e | gone
  · exact ⟨inst, e ▸ found, mem⟩
  · simp [gone] at found

theorem not_allocates (g : Grows c c') {i : InstId} (lt : i.index < c.insts.slots.size)
    (h : ¬c.insts.Allocates i) : ¬c'.insts.Allocates i := by
  rintro ⟨ty, name, t, found⟩
  rcases g.store lt with e | gone
  · exact h ⟨ty, name, t, e ▸ found⟩
  · simp [gone] at found

theorem supplies (g : Grows c c') (sound : c.Sound) {id : NodeId} {j : InstId}
    (lt : id.index < c.arena.size) (h : c.arena.Supplies c.insts id j) :
    c'.arena.Supplies c'.insts id j := by
  induction h with
  | dead gone => exact .dead (g.dead lt gone)
  | @own id node j find expr mem yields =>
    rcases g.nodes find with gone | ⟨node', find', grows⟩
    · exact .dead gone
    · have expr' : node'.isExpr := by rwa [Node.isExpr_eq, grows.isStmt, ← Node.isExpr_eq]
      exact .own find' expr' (grows.insts mem) (g.yields ((sound.nodes find).insts _ mem).1 yields)
  | @kid id node k j find expr mem _ ih =>
    rcases g.nodes find with gone | ⟨node', find', grows⟩
    · exact .dead gone
    · have expr' : node'.isExpr := by rwa [Node.isExpr_eq, grows.isStmt, ← Node.isExpr_eq]
      exact .kid find' expr' (grows.kids mem) (ih ((sound.nodes find).kids _ mem))

theorem supplied (g : Grows c c') (sound : c.Sound) {ids : List NodeId} {j : InstId}
    (h : c.Supplied ids j) : c'.Supplied ids j := by
  obtain ⟨k, mem, lt, supplies⟩ := h
  exact ⟨k, mem, Nat.lt_of_lt_of_le lt g.arena_le, g.supplies sound lt supplies⟩

theorem sourced (g : Grows c c') (sound : c.Sound) {ids : List NodeId} {v : Value}
    (h : c.Sourced ids v) : c'.Sourced ids v := fun j e =>
  (h j e).imp g.slots (g.supplied sound)

/-- A node stays sound as long as it does not change. -/
theorem nodeSound (g : Grows c c') (sound : c.Sound) {id : NodeId} {node : Node}
    (h : c.NodeSound id node) : c'.NodeSound id node where
  kids k mem := Nat.lt_of_lt_of_le (h.kids k mem) g.arena_le
  shaped {i k child} at' find' := by
    have lt := h.kids k (List.mem_of_getElem? at')
    cases find : c.arena.find? k with
    | none => simp [g.dead lt find] at find'
    | some child₀ =>
      rcases g.nodes find with gone | ⟨child', e, grows⟩
      · simp [gone] at find'
      · cases find'.symm.trans e
        rw [grows.isStmt, h.shaped at' find]
  insts i mem :=
    have ⟨lt, no⟩ := h.insts i mem
    ⟨Nat.lt_of_lt_of_le lt g.insts_le, g.not_allocates lt no⟩
  operands {p i j} at' use := by
    have lt := (h.insts i (List.mem_of_getElem? at')).1
    rcases h.operands at' (g.uses lt use) with slot | ⟨mem, yields⟩ | supplied
    · exact .inl (g.slots slot)
    · exact .inr (.inl ⟨mem, g.yields (h.insts j (List.mem_of_mem_take mem)).1 yields⟩)
    · exact .inr (.inr (g.supplied sound supplied))
  value e := g.sourced sound (h.value e)
  loaded := h.loaded
  sentinel := h.sentinel

end Grows

/-- A state that grew out of a sound one is sound if what changed is. -/
theorem Sound.of_grows (sound : c.Sound) (g : Grows c c') (shaped : c'.arena.WellFormed)
    (owned : c'.arena.Owned)
    (nodes : ∀ {id node}, c'.arena.find? id = some node →
      c.arena.find? id = some node ∨ c'.NodeSound id node)
    (functions : c'.functions = c.functions) (vars : c'.vars = c.vars) : c'.Sound where
  sentinels := Nat.le_trans sound.sentinels g.arena_le
  shaped := shaped
  owned := owned
  nodes find := (nodes find).elim (fun e => g.nodeSound sound (sound.nodes e)) id
  functions f mem := by
    have h := sound.functions f (functions ▸ mem)
    exact { h with allocas := fun j mem => g.allocas (h.allocas j mem) }
  vars v mem j e := by
    rw [functions]
    exact sound.vars v (vars ▸ mem) j e

theorem Sound.insts_of_mem (sound : c.Sound) {i : InstId} {n : NodeId}
    (mem : i ∈ c.arena.instsOf n) : i.index < c.insts.slots.size ∧ ¬c.insts.Allocates i := by
  cases find : c.arena.find? n with
  | none => simp [Arena.instsOf, find] at mem
  | some node =>
    rw [Arena.instsOf_eq_of_find? find] at mem
    exact (sound.nodes find).insts i mem

/-- What is newer than all instructions is attached to no node. -/
theorem Sound.not_mem_instsOf (sound : c.Sound) {i : InstId} (le : c.insts.slots.size ≤ i.index)
    (n : NodeId) : i ∉ c.arena.instsOf n :=
  fun mem => absurd (sound.insts_of_mem mem).1 (Nat.not_lt.2 le)

/-- What is neither a node, an instruction, a function nor a variable does not matter. -/
theorem Sound.of_same (sound : c.Sound) (c' : Compilation) (arena : c'.arena = c.arena)
    (insts : c'.insts = c.insts) (functions : c'.functions = c.functions)
    (vars : c'.vars = c.vars) :
    c'.Sound ∧ c.Grows c' := by
  have g : c.Grows c' := by
    refine ⟨by simp [arena], by simp [insts], fun e => .inr ⟨_, arena ▸ e, .refl _⟩,
      fun _ e => arena ▸ e, fun _ => .inl (by rw [insts]), fun h => insts ▸ h, ?_⟩
    rintro j ⟨v, mem, e⟩
    exact ⟨v, vars ▸ mem, e⟩
  exact ⟨sound.of_grows g (arena ▸ sound.shaped) (arena ▸ sound.owned) (fun e => .inl (arena ▸ e))
    functions vars, g⟩

/-- Nodes may be destroyed, and instructions freed that make no slots. -/
theorem Sound.prune (sound : c.Sound) {arena : Arena} {insts : InstStore}
    (shaped : arena.WellFormed) (size : arena.size = c.arena.size)
    (slots : c.insts.slots.size ≤ insts.slots.size)
    (nodes : ∀ n, arena.find? n = c.arena.find? n ∨ arena.find? n = none)
    (store : ∀ {i : InstId}, i.index < c.insts.slots.size →
      insts.find? i = c.insts.find? i ∨ insts.find? i = none)
    (allocas : ∀ {j}, c.insts.Allocates j → insts.Allocates j) :
    Sound { c with arena, insts } ∧ c.Grows { c with arena, insts } := by
  have g : c.Grows { c with arena, insts } := by
    refine ⟨Nat.le_of_eq size.symm, slots, fun {id node} e => ?_, fun {id} _ e => ?_,
      store, allocas, fun h => h⟩
    · rcases nodes id with same | gone
      · exact .inr ⟨node, same.trans e, .refl _⟩
      · exact .inl gone
    · exact (nodes id).elim (fun same => same.trans e) fun gone => gone
  refine ⟨sound.of_grows g shaped (sound.owned.prune nodes) (fun {id node} e => .inl ?_) rfl rfl, g⟩
  exact (nodes id).elim (fun same => same.symm.trans e) fun gone => by simp [gone] at e

/-- Slots are no node's own, so that they outlive destruction. -/
theorem Sound.allocates_of_razed (sound : c.Sound) {mode : DestroyMode} {doomed : NodeId → Prop}
    {arena : Arena} {insts : InstStore}
    (razed : Arena.Razed mode doomed c.arena c.insts arena insts)
    {j : InstId} (slot : c.insts.Allocates j) : insts.Allocates j := by
  obtain ⟨ty, name, t, found⟩ := slot
  rcases razed.store j with same | ⟨-, n, -, mem⟩
  · exact ⟨ty, name, t, same.trans found⟩
  · exact absurd ⟨ty, name, t, found⟩ (sound.insts_of_mem mem).2

/-! ## Changes of nodes -/

theorem grows_add (c : Compilation) (node : Node) :
    c.Grows { c with arena := (c.arena.add node).2 } := by
  have old : ∀ {id : NodeId}, id.index < c.arena.size →
      (c.arena.add node).2.find? id = c.arena.find? id := fun {id} lt => by
    refine Arena.find?_add_of_ne fun e => ?_
    have : id.index = c.arena.size := congrArg NodeId.index e
    omega
  refine ⟨by simp, Nat.le_refl _, fun {id node'} e => .inr ⟨node', ?_, .refl _⟩,
    fun lt e => (old lt).trans e, fun _ => .inl rfl, fun h => h, fun h => h⟩
  exact (old (Arena.lt_of_find? e)).trans e

theorem Sound.add (sound : c.Sound) {node : Node} (shaped : node.Shaped c.arena)
    (bare : node.insts = [])
    (new : ({ c with arena := (c.arena.add node).2 } : Compilation).NodeSound ⟨c.arena.size⟩ node) :
    Sound { c with arena := (c.arena.add node).2 } := by
  refine sound.of_grows (c.grows_add node) (sound.shaped.add shaped) (sound.owned.add bare)
    (fun {id node'} find => ?_) rfl rfl
  by_cases e : id = (c.arena.add node).1
  · rw [e, Arena.find?_add] at find
    cases find
    exact .inr (e ▸ new)
  · exact .inl ((Arena.find?_add_of_ne e).symm.trans find)

section

variable {id : NodeId} {node : Node} (find : c.arena.find? id = some node)

include find

theorem grows_set (node' : Node) (grows : node.Grows node') :
    c.Grows { c with arena := c.arena.set id node' } := by
  have live := Arena.isLive_of_find? find
  refine ⟨by simp, Nat.le_refl _, fun {other node''} e => .inr ?_, fun {other} _ e => ?_,
    fun _ => .inl rfl, fun h => h, fun h => h⟩
  · by_cases h : other = id
    · subst h
      cases find.symm.trans e
      exact ⟨node', Arena.find?_set live, grows⟩
    · exact ⟨node'', (Arena.find?_set_of_ne h).trans e, .refl _⟩
  · have h : other ≠ id := fun h => by simp [h, find] at e
    exact (Arena.find?_set_of_ne h).trans e

theorem Sound.set {node' : Node} (sound : c.Sound)
    (g : c.Grows { c with arena := c.arena.set id node' })
    (shaped : (c.arena.set id node').WellFormed) (owned : (c.arena.set id node').Owned)
    (new : ({ c with arena := c.arena.set id node' } : Compilation).NodeSound id node') :
    Sound { c with arena := c.arena.set id node' } := by
  refine sound.of_grows g shaped owned (fun {other node''} found => ?_) rfl rfl
  by_cases h : other = id
  · subst h
    have live := Arena.isLive_of_find? find
    cases (Arena.find?_set live).symm.trans found
    exact .inr new
  · exact .inl ((Arena.find?_set_of_ne h).symm.trans found)

end

theorem sound_initial (settings : Settings) : (initial settings).Sound where
  sentinels := Nat.le_refl 2
  shaped := Arena.wellFormed_initial
  owned := Arena.owned_initial
  nodes {id node} find := by
    have blank : node.kids = [] ∧ node.insts = [] ∧ node.value = none ∧
        (node.kind = .error ∨ node.kind = .errorStmt) := by
      match id with
      | ⟨0⟩ | ⟨1⟩ =>
        cases find
        simp [Node.fresh]
      | ⟨n + 2⟩ => cases find
    obtain ⟨kids, insts, value, kind⟩ := blank
    exact ⟨by simp [kids], by simp [kids], by simp [insts], by simp [insts], by simp [value],
      by rcases kind with kind | kind <;> simp [Node.isBuilding, kind, NodeKind.compositeState?],
      fun _ => ⟨kids, insts, value, kind⟩⟩
  functions f mem := by
    have : f = .error := by simpa [initial] using mem
    subst this
    exact ⟨by decide, by decide, by decide, by decide, by decide, by decide,
      by simp [Function.error, Function.declare], by simp [Function.error, Function.declare]⟩
  vars v mem j e := by
    have : v = .error := by simpa [initial] using mem
    subst this
    cases e

end Compilation

end Codegen
