import Codegen.Proofs.Compilation.Reachable
import Codegen.Proofs.Compilation.Laws
import Codegen.Proofs.Types.Pointers

/-!
What a step can do to a compilation, said once: how types come and go, what becomes of nodes, which
blocks a function has, and how variables come by their storage. What a front end can rely on over a
whole run is derived from this.
-/

namespace Codegen

open Relation

/-! ## Nodes -/

/-- A store or a return: an expression that is there for its effect and never has a value. -/
def NodeKind.isEffect : NodeKind → Bool
  | .assign | .ret => true
  | _ => false

namespace Node

/-- A node has its value as soon as it has instructions, unless it is there for an effect. -/
structure Ready (node : Node) : Prop where
  effect : node.kind.isEffect → node.value = none
  computed : ¬node.kind.isEffect → node.insts ≠ [] → node.value.isSome

/-- What can become of a node: a composite is finished, and a node without a value gets none by
other means. -/
structure Ripens (node node' : Node) : Prop where
  ty : node'.ty = node.ty
  kind : node'.kind = node.kind ∨
    node.kind = .composite .building ∧ node'.kind = .composite .finalized
  value : node.value = none → node.kind ≠ .composite .building → node'.value = none

variable {node node₁ node₂ : Node}

theorem Ripens.refl (node : Node) : node.Ripens node := ⟨rfl, .inl rfl, fun h _ => h⟩

theorem Ripens.trans (h : node.Ripens node₁) (h' : node₁.Ripens node₂) : node.Ripens node₂ where
  ty := h'.ty.trans h.ty
  kind := by
    rcases h.kind with e | ⟨building, finished⟩
    · rw [← e]
      exact h'.kind
    · refine .inr ⟨building, h'.kind.elim (fun e => e.trans finished) And.right⟩
  value none other := by
    have same := h.kind.resolve_right fun e => other e.1
    exact h'.value (h.value none other) (same ▸ other)

theorem ready_fresh (kind : NodeKind) (kids : List NodeId) (ty : TypeId) (span : Span) :
    (fresh kind kids ty span).Ready := ⟨fun _ => rfl, fun _ some => absurd rfl some⟩

/-- A node that is not there for an effect and has its value is ready. -/
theorem ready_of_value {v : Value} (other : ¬node.kind.isEffect) (value : node.value = some v) :
    node.Ready := ⟨fun effect => absurd effect other, fun _ _ => by simp [value]⟩

end Node

namespace Arena

/-- What can become of an arena. Nodes outside of `X` stay ready, and new ones are. -/
structure Ripens (X : NodeId → Prop) (a a' : Arena) : Prop where
  size_le : a.size ≤ a'.size
  old : ∀ {id node'}, id.index < a.size → a'.find? id = some node' →
    ∃ node, a.find? id = some node ∧ node.Ripens node' ∧ (¬X id → node.Ready → node'.Ready)
  new : ∀ {id node'}, a.size ≤ id.index → a'.find? id = some node' → ¬X id → node'.Ready
  shaped : a.WellFormed → a'.WellFormed

namespace Ripens

variable {X : NodeId → Prop} {a a₁ a₂ : Arena} {id : NodeId} {node node' : Node}

theorem refl (X : NodeId → Prop) (a : Arena) : Ripens X a a where
  size_le := Nat.le_refl _
  old {_ node} _ find := ⟨node, find, .refl node, fun _ ready => ready⟩
  new le find := absurd (lt_of_find? find) (Nat.not_lt.2 le)
  shaped h := h

theorem trans (h : Ripens X a a₁) (h' : Ripens X a₁ a₂) : Ripens X a a₂ where
  size_le := Nat.le_trans h.size_le h'.size_le
  old lt find := by
    obtain ⟨node₁, find₁, ripens₁, ready₁⟩ := h'.old (Nat.lt_of_lt_of_le lt h.size_le) find
    obtain ⟨node, find₀, ripens₀, ready₀⟩ := h.old lt find₁
    exact ⟨node, find₀, ripens₀.trans ripens₁, fun out ready => ready₁ out (ready₀ out ready)⟩
  new {id _} le find out := by
    by_cases lt : id.index < a₁.size
    · obtain ⟨node₁, find₁, _, ready₁⟩ := h'.old lt find
      exact ready₁ out (h.new le find₁ out)
    · exact h'.new (Nat.le_of_not_lt lt) find out
  shaped wf := h'.shaped (h.shaped wf)

theorem add (ready : ¬X ⟨a.size⟩ → node.Ready) (shaped : a.WellFormed → (a.add node).2.WellFormed) :
    Ripens X a (a.add node).2 where
  size_le := by simp
  old {id node'} lt find := by
    rw [find?_add_of_ne fun e => by simp [e, Arena.add] at lt] at find
    exact ⟨node', find, .refl _, fun _ ready => ready⟩
  new {id node'} le find out := by
    have e : id = (a.add node).1 := by
      have lt := lt_of_find? find
      rw [size_add] at lt
      obtain ⟨i⟩ := id
      simp only [Arena.add, NodeId.mk.injEq] at le lt ⊢
      omega
    subst e
    cases (find?_add a node).symm.trans find
    exact ready out
  shaped := shaped

/-- One node changes. -/
theorem set (find : a.find? id = some node) (ripens : node.Ripens node')
    (ready : ¬X id → node.Ready → node'.Ready)
    (shaped : a.WellFormed → (a.set id node').WellFormed) :
    Ripens X a (a.set id node') where
  size_le := by simp
  old {n m} lt found := by
    by_cases e : n = id
    · subst e
      cases (find?_set (isLive_of_find? find)).symm.trans found
      exact ⟨node, find, ripens, ready⟩
    · rw [find?_set_of_ne e] at found
      exact ⟨m, found, .refl _, fun _ ready => ready⟩
  new le found := by
    have lt := lt_of_find? found
    rw [size_set] at lt
    exact absurd lt (Nat.not_lt.2 le)
  shaped := shaped

/-- Children come and go without a change to what a node has computed. -/
theorem setKids {kids : List NodeId} (find : a.find? id = some node)
    (shaped : a.WellFormed → (a.set id { node with kids }).WellFormed) :
    Ripens X a (a.set id { node with kids }) :=
  .set find ⟨rfl, .inl rfl, fun none _ => none⟩ (fun _ ready => ⟨ready.effect, ready.computed⟩)
  shaped

end Ripens

variable {a a' : Arena}

theorem ripens_appendChild {X : NodeId → Prop} {block stmt : NodeId}
    (run : a.appendChild block stmt = .ok a') : a.Ripens X a' := by
  have shaped := (Edit.appendChild run).wellFormed
  obtain ⟨node, child, find, -, -, -, rfl⟩ := appendChild_ok run
  exact .setKids find shaped

/-- A node that is handed an instruction may be unready. -/
theorem ripens_appendInst {X : NodeId → Prop} {id : NodeId} {inst : InstId} (mem : X id)
    (run : a.appendInst id inst = .ok a') : a.Ripens X a' := by
  have shaped := (Edit.appendInst run).wellFormed
  obtain ⟨node, find, -, rfl⟩ := appendInst_ok run
  exact .set find ⟨rfl, .inl rfl, fun none _ => none⟩ (fun out => absurd mem out) shaped

/-- Nodes die or lose their instructions, and nothing comes in their place. -/
structure Sheds (a : Arena) (s : InstStore) (a' : Arena) (s' : InstStore) : Prop where
  size : a'.size = a.size
  slots : s'.slots.size = s.slots.size
  nodes : ∀ {n m}, a'.find? n = some m → ∃ node, a.find? n = some node ∧ (m = node ∨ m = node.bare)
  store : ∀ i, s'.find? i = s.find? i ∨ s'.find? i = none

namespace Sheds

variable {a a₁ a₂ : Arena} {s s₁ s₂ : InstStore}

theorem refl (a : Arena) (s : InstStore) : Sheds a s a s :=
  ⟨rfl, rfl, fun found => ⟨_, found, .inl rfl⟩, fun _ => .inl rfl⟩

theorem trans (h : Sheds a s a₁ s₁) (h' : Sheds a₁ s₁ a₂ s₂) : Sheds a s a₂ s₂ where
  size := h'.size.trans h.size
  slots := h'.slots.trans h.slots
  nodes found := by
    obtain ⟨m, found, e⟩ := h'.nodes found
    obtain ⟨node, find, e'⟩ := h.nodes found
    refine ⟨node, find, ?_⟩
    rcases e with rfl | rfl <;> rcases e' with rfl | rfl <;> simp [Node.bare]
  store i := by
    rcases h'.store i with same | gone
    · rw [same]
      exact h.store i
    · exact .inr gone

theorem ripens {X : NodeId → Prop} (h : Sheds a s a₁ s₁) (shaped : a.WellFormed → a₁.WellFormed) :
    Ripens X a a₁ where
  size_le := Nat.le_of_eq h.size.symm
  old _ found := by
    obtain ⟨node, find, rfl | rfl⟩ := h.nodes found
    · exact ⟨_, find, .refl _, fun _ ready => ready⟩
    · exact ⟨node, find, ⟨rfl, .inl rfl, fun h _ => h⟩,
        fun _ ready => ⟨ready.effect, fun _ some => absurd rfl some⟩⟩
  new le found := by
    have lt := lt_of_find? found
    exact absurd (h.size ▸ lt) (Nat.not_lt.2 le)
  shaped := shaped

end Sheds

theorem sheds_destroyWithin {mode : DestroyMode} (fuel : Nat) {id : NodeId} {s s' : InstStore}
    (run : destroyWithin mode fuel id (a, s) = .ok (a', s')) : Sheds a s a' s' := by
  have razed := razed_of_destroyWithin fuel run
  refine ⟨razed.size, razed.slots, fun {n m} found => ?_,
    fun i => (razed.store i).imp_right And.left⟩
  rcases razed.find n with same | remains
  · exact ⟨m, same.symm.trans found, .inl rfl⟩
  · rw [remains, DestroyMode.remains] at found
    split at found
    · obtain ⟨node, find, rfl⟩ := Option.map_eq_some_iff.1 found
      exact ⟨node, find, .inr rfl⟩
    · cases found

/-- Nodes that lose their instructions keep their shape. -/
theorem WellFormed.bare (h : a.WellFormed) (size : a'.size = a.size)
    (nodes : ∀ n, a'.find? n = a.find? n ∨ a'.find? n = (a.find? n).map Node.bare) :
    a'.WellFormed := by
  have old : ∀ {n m}, a'.find? n = some m → ∃ node, a.find? n = some node ∧
      (m = node ∨ m = node.bare) := by
    intro n m found
    rcases nodes n with e | e
    · exact ⟨m, e.symm.trans found, .inl rfl⟩
    · obtain ⟨node, find, rfl⟩ := Option.map_eq_some_iff.1 (e.symm.trans found)
      exact ⟨node, find, .inr rfl⟩
  have sentinel : ∀ {n kind}, (∃ node, a.find? n = some node ∧ node.kind = kind) →
      ∃ node, a'.find? n = some node ∧ node.kind = kind := by
    rintro n kind ⟨node, find, rfl⟩
    rcases nodes n with e | e
    · exact ⟨node, e.trans find, rfl⟩
    · exact ⟨node.bare, by rw [e, find]; rfl, rfl⟩
  refine ⟨fun {n m} found => ?_, sentinel h.errorExpr, sentinel h.errorStmt⟩
  obtain ⟨node, find, e⟩ := old found
  have shaped := h.nodes find
  have kids : ∀ {i k}, node.kids[i]? = some k → k.index < a'.size ∧
      ∀ {child}, a'.find? k = some child → child.isStmt = node.kind.wantsStmt i := by
    intro i k at'
    obtain ⟨lt, stmt⟩ := shaped.kids at'
    refine ⟨size ▸ lt, fun {child} found => ?_⟩
    obtain ⟨kid, find, rfl | rfl⟩ := old found
    · exact stmt find
    · have same := stmt find
      exact same
  rcases e with rfl | rfl
  · exact ⟨shaped.insts, shaped.count, kids⟩
  · exact ⟨fun _ => rfl, shaped.count, kids⟩

end Arena

/-! ## Storage -/

/-- What a function says about the storage of its parameters. -/
def Function.room (f : Function) : List VarId × List (Nat × InstId) := (f.params, f.spills)

namespace Compilation

/-- Nothing happens to the storage of variables. -/
structure SameStorage (c c' : Compilation) : Prop where
  vars : c'.vars = c.vars
  globals : c'.globals.size = c.globals.size
  functions : ∀ i : Nat, c'.functions[i]?.map Function.room = c.functions[i]?.map Function.room
  insts_le : c.insts.slots.size ≤ c'.insts.slots.size

/-- One thing that can happen to the storage of variables, as long as no parameter is made and no
list of parameters replaced. -/
inductive Allots (c : Compilation) : Compilation → Prop
  | aside {c'} (same : c.SameStorage c') : Allots c c'
  | newLocal {func : FuncId} {f kind name ty ptrType addressTaken span}
      (found : c.functions[func.index]? = some f) (own : kind = .local ∨ kind = .temporary) :
      Allots c { c with
        insts := (c.insts.create (.alloca ty name) ptrType).2
        functions := c.functions.modify func.index fun _ => f.addPendingLocal ⟨c.insts.slots.size⟩
        vars := c.vars.push ⟨kind, name, ty, span, some func, addressTaken,
          .inst ⟨c.insts.slots.size⟩⟩ }
  | spill {var : VarId} {v : Variable} {index n : Nat} {func : FuncId} {f f' : Function}
      {ptrType : TypeId} {slot : InstId} {insts : InstStore} (found : c.vars[var.index]? = some v)
      (kind : v.kind = .param index) (waits : v.storage = .param n) (owner : v.func = some func)
      (at' : c.functions[func.index]? = some f)
      (spilled : f.spillSlotFor index v.ty ptrType v.name c.insts = (slot, f', insts)) :
      Allots c { c with
        insts
        functions := c.functions.modify func.index fun _ => f'
        vars := c.vars.modify var.index fun _ => { v with storage := .inst slot } }
  | newGlobal {name ty span data} : Allots c { c with
      vars := c.vars.push ⟨.global, name, ty, span, none, true, .global ⟨c.globals.size⟩⟩
      globals := c.globals.push data }
  | declare {f : Function} (empty : f.room = ([], [])) :
    Allots c { c with functions := c.functions.push f }

/-! ## Steps -/

/-- What a step can do, apart from the storage of variables. -/
structure Turns (X : NodeId → Prop) (c c' : Compilation) : Prop where
  types : ReflTransGen TypeTable.Change c.types c'.types
  nodes : c.arena.Ripens X c'.arena
  blocks : ∀ {f' b}, f' ∈ c'.functions → f'.hasBlock b →
    (∃ f ∈ c.functions, f.hasBlock b) ∨ c.arena.size ≤ b.index

/-- What a step can do. -/
structure Advances (X : NodeId → Prop) (c c' : Compilation) : Prop extends Turns X c c' where
  storage : ReflTransGen Allots c c'

section

variable {X : NodeId → Prop} {c c₁ c₂ c' : Compilation} {f f' : Function}

theorem Turns.trans (h : c.Turns X c₁) (h' : c₁.Turns X c₂) : c.Turns X c₂ where
  types := h.types.trans h'.types
  nodes := h.nodes.trans h'.nodes
  blocks mem has := by
    rcases h'.blocks mem has with ⟨f, mem, has⟩ | new
    · exact h.blocks mem has
    · exact .inr (Nat.le_trans h.nodes.size_le new)

/-- A step that leaves the functions alone. -/
theorem Turns.of_functions (types : ReflTransGen TypeTable.Change c.types c'.types)
    (nodes : c.arena.Ripens X c'.arena) (functions : c'.functions = c.functions) :
    c.Turns X c' where
  types := types
  nodes := nodes
  blocks mem has := .inl ⟨_, functions ▸ mem, has⟩

theorem Advances.trans (h : c.Advances X c₁) (h' : c₁.Advances X c₂) : c.Advances X c₂ :=
  ⟨h.toTurns.trans h'.toTurns, h.storage.trans h'.storage⟩

theorem Advances.refl (X : NodeId → Prop) (c : Compilation) : c.Advances X c :=
  ⟨.of_functions .refl (.refl X _) rfl, .refl⟩

/-- A step on types, nodes and instructions only. -/
theorem Advances.aside (types : ReflTransGen TypeTable.Change c.types c'.types)
    (nodes : c.arena.Ripens X c'.arena) (insts_le : c.insts.slots.size ≤ c'.insts.slots.size)
    (functions : c'.functions = c.functions) (vars : c'.vars = c.vars)
    (globals : c'.globals.size = c.globals.size) : c.Advances X c' :=
  ⟨.of_functions types nodes functions,
    .single (.aside ⟨vars, globals, fun i => by rw [functions], insts_le⟩)⟩

/-- Nodes and instructions change, nothing else. -/
theorem Advances.tree {a : Arena} {insts : InstStore} (nodes : c.arena.Ripens X a)
    (insts_le : c.insts.slots.size ≤ insts.slots.size) :
    c.Advances X { c with arena := a, insts } :=
  .aside .refl nodes insts_le rfl rfl rfl

/-- The blocks of functions, where one function changes. -/
theorem blocks_of_modify {functions : Array Function} {i n : Nat} {g : Function} {b : NodeId}
    (found : functions[i]? = some f) (blocks : f'.hasBlock b → f.hasBlock b ∨ n ≤ b.index)
    (mem : g ∈ functions.modify i fun _ => f') (has : g.hasBlock b) :
    (∃ f ∈ functions, f.hasBlock b) ∨ n ≤ b.index := by
  rcases mem_of_mem_modify mem with rfl | mem
  · exact (blocks has).imp_left fun has => ⟨f, Array.mem_of_getElem? found, has⟩
  · exact .inl ⟨g, mem, has⟩

/-- A change of a function that leaves its parameters and their slots alone. -/
theorem sameStorage_setFunction {func : FuncId} (found : c.functions[func.index]? = some f)
    (room : f'.room = f.room) :
    c.SameStorage { c with functions := c.functions.modify func.index fun _ => f' } := by
  refine ⟨rfl, rfl, fun i => ?_, Nat.le_refl _⟩
  rw [Array.getElem?_modify]
  split
  · rename_i e
    rw [← e, found, Option.map_some, Option.map_some, Option.map_some, room]
  · rfl

/-- One function changes, but neither its parameters nor their slots. -/
theorem Advances.setFunction {func : FuncId} (found : c.functions[func.index]? = some f)
    (room : f'.room = f.room)
    (blocks : ∀ {b}, f'.hasBlock b → f.hasBlock b ∨ c.arena.size ≤ b.index) :
    c.Advances X { c with functions := c.functions.modify func.index fun _ => f' } :=
  ⟨⟨.refl, .refl X _, blocks_of_modify found blocks⟩,
    .single (.aside (sameStorage_setFunction found room))⟩

end

end Compilation

/-- Steps that only do what a step can do. -/
def advancing (X : NodeId → Prop) : Law where
  start _ := True
  holds := Compilation.Advances X
  refl _ := .refl X _
  trans := .trans
  keeps _ _ := trivial

namespace Build

variable {α : Type} {X : NodeId → Prop}

@[grind ←] theorem advancing_onTypes {step : TypeTable → Except Fault (α × TypeTable)}
    (h : ∀ t a t', step t = .ok (a, t') → ReflTransGen TypeTable.Asks t t') :
    Obeys (advancing X) (onTypes step) := by
  intro c a c' _ run
  obtain ⟨types, done, rfl⟩ := onTypes_ok run
  exact .aside (TypeTable.run_of_asks (h _ _ _ done)).changes (.refl X _) (Nat.le_refl _)
    rfl rfl rfl

@[grind ←] theorem advancing_intern (s : String) : Obeys (advancing X) (intern s) := by
  intro c _ _ _ run
  cases run
  exact .aside .refl (.refl X _) (Nat.le_refl _) rfl rfl rfl

@[grind ←] theorem advancing_createInst (kind : InstKind) (ty : TypeId) :
    Obeys (advancing X) (createInst kind ty) := by
  intro c _ _ _ run
  cases run
  exact .aside .refl (.refl X _) (by simp) rfl rfl rfl

theorem advancing_changeArena {step : Arena → Except Fault Arena}
    (h : ∀ a a', step a = .ok a' → a.Ripens X a') : Obeys (advancing X) (changeArena step) := by
  intro c _ c' _ run
  obtain ⟨arena, done, rfl⟩ := changeArena_ok run
  exact .tree (h _ _ done) (Nat.le_refl _)

end Build

end Codegen
