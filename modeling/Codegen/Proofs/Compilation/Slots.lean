import Codegen.Compilation.Variables
import Codegen.Proofs.Compilation.Nodes

/-!
Stack slots. The slot of a local is made with the variable, the slot of a parameter when it is first
used; both wait in their function as long as it has no body.
-/

namespace Codegen

namespace Function

variable {f f' : Function} {s s' : InstStore} {slot j : InstId} {index : Nat}

/-- Changes that leave the slots and the body alone. -/
structure SameSlots (f f' : Function) : Prop where
  spills : f'.spills = f.spills
  pendingSpills : f'.pendingSpills = f.pendingSpills
  pendingLocals : f'.pendingLocals = f.pendingLocals
  body : f'.body = f.body

/-- As long as there is no body, what waits goes on waiting. -/
structure Extends (f f' : Function) : Prop where
  opened : f'.body = none → f.body = none
  waits : f'.body = none → ∀ {j}, f.Waits j → f'.Waits j

theorem SameSlots.sound (same : f.SameSlots f') (h : f.Sound s) : f'.Sound s := by
  obtain ⟨spills, pendingSpills, pendingLocals, body⟩ := same
  exact ⟨pendingLocals ▸ h.locals, pendingSpills ▸ h.pending, spills ▸ h.keys,
    by rw [pendingSpills, spills]; exact h.known, spills ▸ h.slots,
    by rw [pendingLocals, spills]; exact h.apart,
    by rw [pendingSpills, spills, body]; exact h.waits,
    by rw [pendingLocals, spills]; exact h.allocas⟩

theorem SameSlots.extends (same : f.SameSlots f') : f.Extends f' where
  opened e := same.body ▸ e
  waits _ {j} h := by
    unfold Waits spillSlot?
    rw [same.pendingLocals, same.pendingSpills, same.spills]
    exact h

theorem sound_declare (id : FuncId) (name asmName : Name) (fntype : TypeId)
    (flags : FunctionFlags) (splitStack : Bool) (span : Span) (s : InstStore) :
    (declare id name asmName fntype flags splitStack span).Sound s := by
  constructor <;> simp [declare]

/-- A slot that is newer than all instructions is none of a function's. -/
theorem Sound.ne_fresh (h : f.Sound s) (mem : j ∈ f.pendingLocals ++ f.spills.map (·.2)) :
    j ≠ ⟨s.slots.size⟩ := by
  obtain ⟨ty, name, t, found⟩ := h.allocas j mem
  intro e
  have := InstStore.lt_of_find? found
  simp [e] at this

theorem Sound.addPendingLocal (h : f.Sound s) (fresh : slot = ⟨s.slots.size⟩)
    (later : ∀ {j}, s.Allocates j → s'.Allocates j) (new : s'.Allocates slot) :
    (f.addPendingLocal slot).Sound s' where
  locals := by
    refine List.nodup_append.2 ⟨h.locals, by simp, fun j mem k mem' e => ?_⟩
    cases List.mem_singleton.1 mem'
    exact h.ne_fresh (List.mem_append_left _ mem) (e.trans fresh)
  pending := h.pending
  keys := h.keys
  known := h.known
  slots := h.slots
  apart j mem spilled := by
    rcases List.mem_append.1 mem with mem | mem
    · exact h.apart j mem spilled
    · cases List.mem_singleton.1 mem
      exact h.ne_fresh (List.mem_append_right _ spilled) fresh
  waits := h.waits
  allocas j mem := by
    rcases List.mem_append.1 mem with mem | mem
    · rcases List.mem_append.1 mem with mem | mem
      · exact later (h.allocas j (List.mem_append_left _ mem))
      · cases List.mem_singleton.1 mem
        exact new
    · exact later (h.allocas j (List.mem_append_right _ mem))

theorem extends_addPendingLocal (f : Function) (slot : InstId) :
    f.Extends (f.addPendingLocal slot) where
  opened e := e
  waits _ _ h := h.imp_left (List.mem_append_left _)

theorem mem_spills (h : f.spillSlot? index = some slot) : (index, slot) ∈ f.spills := by
  obtain ⟨before, after, e, _⟩ := List.lookup_eq_some_iff.1 h
  simp [e]

/-- A parameter without a slot gets one. -/
theorem Sound.spill (h : f.Sound s) (new : index ∉ f.spills.map (·.1))
    (fresh : slot = ⟨s.slots.size⟩) (later : ∀ {j}, s.Allocates j → s'.Allocates j)
    (alloca : s'.Allocates slot) :
    Function.Sound { f with
      spills := f.spills ++ [(index, slot)]
      pendingSpills := f.pendingSpills ++ [index] } s' where
  locals := h.locals
  pending := by
    refine List.nodup_append.2 ⟨h.pending, by simp, fun i mem k mem' e => ?_⟩
    cases List.mem_singleton.1 mem'
    exact new (h.known index (e ▸ mem))
  keys := by
    rw [List.map_append, List.nodup_append]
    refine ⟨h.keys, by simp, fun i mem k mem' e => ?_⟩
    cases List.mem_singleton.1 mem'
    cases e
    exact new mem
  known i mem := by
    rw [List.map_append]
    rcases List.mem_append.1 mem with mem | mem
    · exact List.mem_append_left _ (h.known i mem)
    · exact List.mem_append_right _ mem
  slots := by
    rw [List.map_append, List.nodup_append]
    refine ⟨h.slots, by simp, fun j mem k mem' e => ?_⟩
    cases List.mem_singleton.1 mem'
    exact h.ne_fresh (List.mem_append_right _ mem) (e.trans fresh)
  apart j mem spilled := by
    rw [List.map_append] at spilled
    rcases List.mem_append.1 spilled with spilled | spilled
    · exact h.apart j mem spilled
    · cases List.mem_singleton.1 spilled
      exact h.ne_fresh (List.mem_append_left _ mem) fresh
  waits opened p mem := by
    rcases List.mem_append.1 mem with mem | mem
    · exact List.mem_append_left _ (h.waits opened p mem)
    · cases List.mem_singleton.1 mem
      exact List.mem_append_right _ (by simp)
  allocas j mem := by
    rw [List.map_append, ← List.append_assoc] at mem
    rcases List.mem_append.1 mem with mem | mem
    · exact later (h.allocas j mem)
    · cases List.mem_singleton.1 mem
      exact alloca

theorem extends_spill (f : Function) (index : Nat) (slot : InstId) :
    f.Extends { f with
      spills := f.spills ++ [(index, slot)]
      pendingSpills := f.pendingSpills ++ [index] } where
  opened e := e
  waits _ _ h := h.imp_right fun ⟨i, mem, found⟩ => by
    have found' : f.spills.lookup i = some _ := found
    exact ⟨i, List.mem_append_left _ mem, by simp [spillSlot?, List.lookup_append, found']⟩

/-- What a function is like once a parameter has its slot. -/
theorem spillSlotFor_sound {ty ptrType : TypeId} {name : Name} (h : f.Sound s)
    (e : f.spillSlotFor index ty ptrType name s = (slot, f', s')) :
    f'.Sound s' ∧ f.Extends f' ∧ (f'.body = none → f'.Waits slot) ∧
      (s' = s ∨ s' = (s.create (.alloca ty name) ptrType).2) := by
  unfold spillSlotFor at e
  split at e
  · rename_i found
    cases e
    exact ⟨h, ⟨fun e => e, fun _ _ h => h⟩,
      fun opened => .inr ⟨index, h.waits opened _ (mem_spills found), found⟩, .inl rfl⟩
  · rename_i none
    cases e
    have new : index ∉ f.spills.map (·.1) := fun mem => by
      obtain ⟨p, found, rfl⟩ := List.mem_map.1 mem
      simpa using List.lookup_eq_none_iff.1 none p found
    have later : ∀ {j}, s.Allocates j →
        (s.create (.alloca ty name) ptrType).2.Allocates j := fun {j} ⟨ty', name', t, found⟩ => by
      refine ⟨ty', name', t, (InstStore.find?_create_of_ne fun e => ?_).trans found⟩
      have := InstStore.lt_of_find? found
      simp [e, InstStore.create] at this
    refine ⟨h.spill new rfl later ⟨ty, name, ptrType, InstStore.find?_create _ _ _⟩,
      f.extends_spill index _, fun _ => .inr ⟨index, List.mem_append_right _ (by simp), ?_⟩,
      .inr rfl⟩
    have none' : f.spills.lookup index = .none := none
    simp [spillSlot?, List.lookup_append, none']

end Function

namespace Compilation

variable {c c' : Compilation}

theorem mem_of_mem_modify {α : Type} {xs : Array α} {i : Nat} {x y : α}
    (h : x ∈ xs.modify i fun _ => y) : x = y ∨ x ∈ xs := by
  obtain ⟨k, e⟩ := Array.mem_iff_getElem?.1 h
  rw [Array.getElem?_modify] at e
  split at e
  · obtain ⟨_, _, rfl⟩ := Option.map_eq_some_iff.1 e
    exact .inl rfl
  · exact .inr (Array.mem_of_getElem? e)

theorem Sound.pushFunction (sound : c.Sound) (f : Function)
    (new : f.Sound c.insts) :
    Sound { c with functions := c.functions.push f } ∧
      c.Grows { c with functions := c.functions.push f } := by
  have grows : c.Grows { c with functions := c.functions.push f } :=
    ⟨Nat.le_refl _, Nat.le_refl _, fun e => .inr ⟨_, e, .refl _⟩,
      fun _ e => e, fun _ => .inl rfl, fun h => h, fun h => h⟩
  refine ⟨⟨sound.sentinels, sound.shaped, sound.owned,
    fun find => grows.nodeSound sound (sound.nodes find), fun f' mem => ?_,
    fun v mem j e => ?_⟩, grows⟩
  · rcases Array.mem_push.1 mem with mem | rfl
    · exact sound.functions f' mem
    · exact new
  · obtain ⟨g, f', func, at', waits⟩ := sound.vars v mem j e
    have lt := (Array.getElem?_eq_some_iff.1 at').1
    exact ⟨g, f', func, by simp [Array.getElem?_push, Nat.ne_of_lt lt, at'], waits⟩

/-- A function may change, if its slots stay. -/
theorem Sound.setFunction (sound : c.Sound) {g : FuncId} {f f' : Function}
    (found : c.functions[g.index]? = some f) (new : f'.Sound c.insts) (ext : f.Extends f') :
    Sound { c with functions := c.functions.modify g.index fun _ => f' } ∧
      c.Grows { c with functions := c.functions.modify g.index fun _ => f' } := by
  have grows : c.Grows { c with functions := c.functions.modify g.index fun _ => f' } :=
    ⟨Nat.le_refl _, Nat.le_refl _, fun e => .inr ⟨_, e, .refl _⟩,
      fun _ e => e, fun _ => .inl rfl, fun h => h, fun h => h⟩
  refine ⟨⟨sound.sentinels, sound.shaped, sound.owned,
    fun find => grows.nodeSound sound (sound.nodes find), fun f mem => ?_,
    fun v mem j e => ?_⟩, grows⟩
  · rcases mem_of_mem_modify mem with rfl | mem
    · exact new
    · exact sound.functions f mem
  · obtain ⟨g', f₁, func, at', waits⟩ := sound.vars v mem j e
    by_cases same : g.index = g'.index
    · rw [← same, found] at at'
      cases at'
      exact ⟨g', f', func, by simp [Array.getElem?_modify, ← same, found],
        fun opened => ext.waits opened (waits (ext.opened opened))⟩
    · exact ⟨g', f₁, func, by simp [Array.getElem?_modify, same, at'], waits⟩

theorem Sound.pushVariable (sound : c.Sound) {v : Variable} (houses : c.Houses v) :
    Sound { c with vars := c.vars.push v } ∧ c.Grows { c with vars := c.vars.push v } := by
  have grows : c.Grows { c with vars := c.vars.push v } :=
    ⟨Nat.le_refl _, Nat.le_refl _, fun e => .inr ⟨_, e, .refl _⟩,
      fun _ e => e, fun _ => .inl rfl, fun h => h,
      fun ⟨w, mem, e⟩ => ⟨w, Array.mem_push.2 (.inl mem), e⟩⟩
  refine ⟨⟨sound.sentinels, sound.shaped, sound.owned,
    fun find => grows.nodeSound sound (sound.nodes find), sound.functions,
    fun w mem j e => ?_⟩, grows⟩
  rcases Array.mem_push.1 mem with mem | rfl
  · exact sound.vars w mem j e
  · exact houses j e

/-- A variable may get a slot if it has none. -/
theorem Sound.setVariable (sound : c.Sound) {var : VarId} {v : Variable} (v' : Variable)
    (found : c.vars[var.index]? = some v) (no : ∀ j, v.storage ≠ .inst j) (houses : c.Houses v') :
    Sound { c with vars := c.vars.modify var.index fun _ => v' } ∧
      c.Grows { c with vars := c.vars.modify var.index fun _ => v' } := by
  have grows : c.Grows { c with vars := c.vars.modify var.index fun _ => v' } := by
    refine ⟨Nat.le_refl _, Nat.le_refl _,
      fun e => .inr ⟨_, e, .refl _⟩, fun _ e => e,
      fun _ => .inl rfl, fun h => h, fun {j} ⟨w, mem, e⟩ => ⟨w, ?_, e⟩⟩
    obtain ⟨k, at'⟩ := Array.mem_iff_getElem?.1 mem
    have ne : var.index ≠ k := fun same => by
      rw [← same, found] at at'
      cases at'
      exact no j e
    refine Array.mem_iff_getElem?.2 ⟨k, ?_⟩
    simp [Array.getElem?_modify, ne, at']
  refine ⟨⟨sound.sentinels, sound.shaped, sound.owned,
    fun find => grows.nodeSound sound (sound.nodes find), sound.functions,
    fun w mem j e => ?_⟩, grows⟩
  rcases mem_of_mem_modify mem with rfl | mem
  · exact houses j e
  · exact sound.vars w mem j e

end Compilation

namespace Build

variable {P : Fact} {c c' : Compilation} {func : FuncId} {α β : Type}

theorem entry_ok {table : Array α} {i : Nat} {x : α} (h : entry table i = .ok x) :
    table[i]? = some x := by
  unfold entry at h
  split at h
  · cases h
    assumption
  · cases h

theorem entry_eq_ok {table : Array α} {index : Nat} {x : α} :
    entry table index = .ok x ↔ table[index]? = some x :=
  ⟨entry_ok, fun found => by simp only [entry, found]⟩

theorem getFunction_bind_ok {k : Function → Build β} {r : β × Compilation}
    (h : (getFunction func >>= k) c = .ok r) :
    ∃ f, c.functions[func.index]? = some f ∧ k f c = .ok r := by
  obtain ⟨f, e, rest⟩ := ask_bind_ok h
  exact ⟨f, entry_ok e, rest⟩

theorem getVariable_bind_ok {var : VarId} {k : Variable → Build β} {r : β × Compilation}
    (h : (getVariable var >>= k) c = .ok r) : ∃ v, c.vars[var.index]? = some v ∧ k v c = .ok r := by
  obtain ⟨v, c₁, e, rest⟩ := Run.bind_ok.1 h
  obtain ⟨e, rfl⟩ := ask_ok e
  exact ⟨v, entry_ok e, rest⟩

theorem setFunction_bind (func : FuncId) (f : Function) (k : Unit → Build β) :
    (setFunction func f >>= k) c =
      k () { c with functions := c.functions.modify func.index fun _ => f } := rfl

/-- A change of a function that leaves its slots alone. -/
theorem sound_setFunction {f : Function} (sound : c.Sound)
    (found : c.functions[func.index]? = some f) (f' : Function) (same : f.SameSlots f') :
    Compilation.Sound { c with functions := c.functions.modify func.index fun _ => f' } ∧
      c.Grows { c with functions := c.functions.modify func.index fun _ => f' } :=
  sound.setFunction found
    (same.sound (sound.functions f (Array.mem_of_getElem? found))) same.extends

theorem steady_pushVariable {v : Variable} (no : ∀ j, v.storage ≠ .inst j) :
    Steady (pushVariable v) := by
  intro c _ c' sound run
  cases run
  exact sound.pushVariable fun j e => absurd e (no j)

@[grind ←] theorem steady_newGlobal (name asmName : String) (ty : TypeId) (flags : GlobalFlags)
    (span : Span) : Steady (newGlobal name asmName ty flags span) := by
  refine .bind (steady_intern _) fun name => .bind (steady_intern _) fun asmName => ?_
  intro c var c' sound run
  rw [Run.get_bind] at run
  obtain ⟨var, c₁, push, run⟩ := Run.bind_ok.1 run
  obtain ⟨sound₁, g⟩ := steady_pushVariable (by simp) c _ c₁ sound push
  cases run
  have ⟨sound₂, g'⟩ := sound₁.of_same
    { c₁ with globals := c₁.globals.push ⟨var, asmName, flags, none⟩ } rfl rfl rfl rfl
  exact ⟨sound₂, g.trans g'⟩

/-- A variable with a slot of its own, which waits in its function. -/
@[grind ←] theorem steady_newLocal (func : FuncId) (kind : VarKind) (name : Name) (ty : TypeId)
    (addressTaken : Bool) (span : Span) :
    Steady (newLocal func kind name ty addressTaken span) := by
  refine .bind (steady_onTypes _) fun ptrType => ?_
  intro c var c' sound run
  obtain ⟨slot, c₁, create, run⟩ := Run.bind_ok.1 run
  obtain ⟨sound₁, g, _⟩ := keeps_createInst (P := .none) _ _ c slot c₁ sound trivial create
  cases create
  obtain ⟨f, found, run⟩ := getFunction_bind_ok run
  rw [setFunction_bind] at run
  cases run
  have old := sound.functions f (Array.mem_of_getElem? found)
  have new := old.addPendingLocal rfl g.allocas
    ⟨ty, name, ptrType, InstStore.find?_create c.insts (.alloca ty name) ptrType⟩
  have ⟨sound₂, g₂⟩ := sound₁.setFunction found new (f.extends_addPendingLocal _)
  have ⟨sound₃, g₃⟩ := sound₂.pushVariable
    (v := ⟨kind, name, ty, span, some func, addressTaken, .inst ⟨c.insts.slots.size⟩⟩)
    fun j e => ⟨func, f.addPendingLocal ⟨c.insts.slots.size⟩, rfl, by
      cases e
      exact ⟨by simp [Array.getElem?_modify, found],
        fun _ => .inl (List.mem_append_right _ (by simp))⟩⟩
  exact ⟨sound₃, (g.trans g₂).trans g₃⟩

/-- A parameter that has no slot yet, and gets one. -/
theorem sound_spill {var : VarId} {v : Variable} {index : Nat} {f f' : Function}
    {ty ptrType : TypeId} {name : Name} {slot : InstId} {s' : InstStore} (sound : c.Sound)
    (found : c.vars[var.index]? = some v) (no : ∀ j, v.storage ≠ .inst j)
    (at' : c.functions[func.index]? = some f)
    (e : f.spillSlotFor index ty ptrType name c.insts = (slot, f', s')) (v' : Variable)
    (owner : v'.func = some func) (storage : v'.storage = .inst slot)
    (final : c' = { c with
      insts := s'
      functions := c.functions.modify func.index fun _ => f'
      vars := c.vars.modify var.index fun _ => v' }) :
    c'.Sound ∧ c.Grows c' ∧ c'.Sourced [] (.inst slot) := by
  subst final
  have old := sound.functions f (Array.mem_of_getElem? at')
  obtain ⟨new, ext, waits, store⟩ := Function.spillSlotFor_sound old e
  have ⟨sound₁, g₁⟩ : Compilation.Sound { c with insts := s' } ∧
      c.Grows { c with insts := s' } := by
    rcases store with rfl | rfl
    · exact ⟨sound, .refl c⟩
    · have ⟨sound', g, _⟩ := keeps_createInst (P := .none) (.alloca ty name) ptrType c _ _ sound
        trivial rfl
      exact ⟨sound', g⟩
  have ⟨sound₂, g₂⟩ := sound₁.setFunction at' new ext
  have ⟨sound₃, g₃⟩ := sound₂.setVariable v' found no fun j e =>
    ⟨func, f', owner, by simp [Array.getElem?_modify, at'], by
      cases storage.symm.trans e
      exact waits⟩
  refine ⟨sound₃, (g₁.trans g₂).trans g₃, fun j e => .inl ⟨v', ?_, storage.trans e⟩⟩
  refine Array.mem_iff_getElem?.2 ⟨var.index, ?_⟩
  simp [Array.getElem?_modify, found]

/-- The two ways to the address of a variable: it has one, or it is a parameter that gets a slot. -/
inductive Addresses (var : VarId) (c : Compilation) : Value → Compilation → Prop
  | stays {v : Variable} (found : c.vars[var.index]? = some v) : Addresses var c v.storage c
  | spills {v : Variable} {index n : Nat} {func : FuncId} {f f' : Function} {ptrType : TypeId}
      {types : TypeTable} {slot : InstId} {insts : InstStore} (found : c.vars[var.index]? = some v)
      (kind : v.kind = .param index) (waits : v.storage = .param n) (owner : v.func = some func)
      (typed : c.types.pointerType v.ty = .ok (ptrType, types))
      (at' : c.functions[func.index]? = some f)
      (spilled : f.spillSlotFor index v.ty ptrType v.name c.insts = (slot, f', insts)) :
      Addresses var c (.inst slot) { c with
        types
        insts
        functions := c.functions.modify func.index fun _ => f'
        vars := c.vars.modify var.index fun _ => { v with storage := .inst slot } }

theorem addresses_of_variableAddress {var : VarId} {a : Value}
    (run : variableAddress var c = .ok (a, c')) : Addresses var c a c' := by
  obtain ⟨v, found, run⟩ := getVariable_bind_ok run
  cases kind : v.kind <;> cases storage : v.storage <;> cases owner : v.func <;>
    simp only [kind, storage, owner] at run
  case param.param.some index _ func =>
    obtain ⟨ptrType, c₁, asked, run⟩ := Run.bind_ok.1 run
    obtain ⟨types, typed, rfl⟩ := onTypes_ok asked
    obtain ⟨f, at', run⟩ := getFunction_bind_ok run
    cases run
    rw [← kind, ← owner]
    exact .spills found kind storage owner typed at' rfl
  all_goals
    cases run
    exact storage ▸ .stays found

/-- The address of a variable is where it is stored from then on. -/
theorem storage_of_variableAddress {var : VarId} {storage : Value}
    (run : variableAddress var c = .ok (storage, c')) : ∃ v v', c.vars[var.index]? = some v ∧
      c'.vars[var.index]? = some v' ∧ v'.storage = storage ∧ v'.ty = v.ty := by
  cases addresses_of_variableAddress run with
  | stays found => exact ⟨_, _, found, found, rfl, rfl⟩
  | @spills v _ _ _ _ _ _ _ slot _ found =>
    exact ⟨v, { v with storage := .inst slot },
      found, by simp [Array.getElem?_modify, found], rfl, rfl⟩

/-- The address of a variable is there from the start. -/
theorem keeps_variableAddress (var : VarId) :
    Keeps P (variableAddress var) fun v => .sourced [] v := by
  intro c a c' sound hp run
  cases addresses_of_variableAddress run with
  | @stays v found =>
    exact ⟨sound, .refl _, fun j e => .inl ⟨v, Array.mem_of_getElem? found, e⟩⟩
  | @spills v _ _ _ _ _ _ types _ _ found _ waits owner _ at' spilled =>
    have ⟨sound₁, g⟩ := sound.of_same { c with types } rfl rfl rfl rfl
    obtain ⟨sound₂, g', sourced⟩ := sound_spill sound₁ found (by simp [waits]) at' spilled
      { v with storage := .inst _ } owner rfl rfl
    exact ⟨sound₂, g.trans g', sourced⟩

end Build

end Codegen
