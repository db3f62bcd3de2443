import Codegen.Proofs.Requests.Actions

/-!
Values as actions: how nodes and variables get them. The value of an expression that was used is the
value of its node. A new address is made with a type that points at what is there.
-/

namespace Codegen

open Relation

namespace Build

variable {T : Prop} {R : Option Value → Prop} {P : List TypeId} {c c' : Compilation} {id : NodeId}
  {node : Node}

/-! ## Single nodes -/

@[grind ←] theorem obeys_attach (id : NodeId) {kind : InstKind} (ty : TypeId)
    (plain : kind.isPlain) : Obeys (acting T R P) (attach id kind ty) := by
  unfold attach
  grind

/-- A composite that is never built gets no value of its own. -/
theorem obeys_finishComposite (id : NodeId) (value : Constant) :
    Obeys (acting T R P) (changeArena (·.finishComposite id (.const value))) := by
  intro c u c' start run
  obtain ⟨arena, step, rfl⟩ := changeArena_ok run
  obtain ⟨node, found, kind, rfl⟩ := Arena.finishComposite_ok step
  have building : node.isBuilding := by simp [Node.isBuilding, kind, NodeKind.compositeState?]
  exact .single (.finish found (fun t => (start t).1.building found building) (by simp))

end Build

/-! ## Values -/

/-- A node has its value, and it is no address. -/
def Compilation.Settled (c : Compilation) (id : NodeId) (v : Value) : Prop :=
  ∃ node, c.arena.find? id = some node ∧ node.value = some v ∧ node.flags.address = false

namespace Build

variable {T : Prop} {R : Option Value → Prop} {P : List TypeId} {c c' : Compilation} {id : NodeId}
  {v : Value} {inst : InstKind} {node : Node} {ptrType ty : TypeId} {types : TypeTable} {u : Unit}

theorem settle_ok (run : settle id c = .ok (v, c')) : c.Proceeds T R c' ∧ c'.Settled id v := by
  obtain ⟨node, u, found, has, ⟨address, -, rfl, rfl⟩ | ⟨loaded, rfl, rfl⟩⟩ := settle_cases run
  · exact ⟨.single (.load found has address), _, Arena.find?_set (Arena.isLive_of_find? found),
      rfl, rfl⟩
  · exact ⟨.refl, node, found, has, loaded⟩

/-- A composite gets an aggregate of its own type. -/
theorem aggregate_ok {elems : List Value} {i : InstId} {c₁ : Compilation} (regular : T → c.Regular)
    (attached : attach id (.aggregate elems) ty c = .ok (i, c₁))
    (finished : changeArena (·.finishComposite id (.inst i)) c₁ = .ok (u, c'))
    (typed : ∀ node, c.arena.find? id = some node → node.ty = ty) : c.Proceeds T R c' := by
  have first : c.Proceeds T R c₁ :=
    obeys_attach (P := []) id ty rfl c i c₁ (fun t => ⟨regular t, nofun⟩) attached
  obtain ⟨node, found, -, rfl, rfl⟩ := attach_ok attached
  obtain ⟨arena, step, rfl⟩ := changeArena_ok finished
  obtain ⟨node', found', kind, rfl⟩ := Arena.finishComposite_ok step
  have building : node'.isBuilding := by simp [Node.isBuilding, kind, NodeKind.compositeState?]
  cases (Arena.find?_set (Arena.isLive_of_find? found)).symm.trans found'
  refine first.tail (.finish found'
    (fun t => (first.regular t (regular t)).building found' building) fun _ j e => ?_)
  cases e
  exact ⟨_, InstStore.find?_create .., rfl, (typed node found).symm⟩

theorem rvalueWithin_ok {fuel : Nat} (regular : T → c.Regular)
    (run : rvalueWithin fuel id c = .ok (v, c')) : c.Proceeds T R c' ∧ c'.Settled id v := by
  induction fuel generalizing id c v c' with
  | zero => cases run
  | succ fuel ih =>
    obtain ⟨node, got, run⟩ := ask_bind_ok run
    have found := Arena.get_eq_ok.1 got
    split at run
    · obtain ⟨elems, c₁, kids, run⟩ := Run.bind_ok.1 run
      obtain ⟨i, c₂, attached, run⟩ := Run.bind_ok.1 run
      obtain ⟨_, c₃, finished, run⟩ := Run.bind_ok.1 run
      have first : c.Proceeds T R c₁ :=
        Obeys.mapM (L := acting T R []) (fun _ _ _ _ start run => (ih (fun t => (start t).1) run).1)
          c elems c₁ (fun t => ⟨regular t, nofun⟩) kids
      have second : c₁.Proceeds T R c₃ := by
        refine aggregate_ok (fun t => first.regular t (regular t)) attached finished
          fun node' found' => ?_
        obtain ⟨_, found'', ty⟩ := first.ty_eq (Arena.lt_of_find? found) found'
        cases found.symm.trans found''
        exact ty
      obtain ⟨last, settled⟩ := settle_ok run
      exact ⟨(first.trans second).trans last, settled⟩
    · exact settle_ok run

theorem rvalue_ok (regular : T → c.Regular) (run : rvalue id c = .ok (v, c')) :
    c.Proceeds T R c' ∧ c'.Settled id v := by
  rw [rvalue, Run.get_bind] at run
  exact rvalueWithin_ok regular run

@[grind ←] theorem obeys_rvalue (id : NodeId) : Obeys (acting T R P) (rvalue id) :=
  fun _ _ _ start run => (rvalue_ok (fun t => (start t).1) run).1

/-- Only composites get their value when it is used. -/
theorem isBuilding_of_rvalue (found : c.arena.find? id = some node) (none : node.value = none)
    (run : rvalue id c = .ok (v, c')) : node.isBuilding := by
  rw [rvalue, Run.get_bind] at run
  obtain ⟨_, got, run⟩ := ask_bind_ok run
  cases found.symm.trans (Arena.get_eq_ok.1 got)
  split at run
  · assumption
  · obtain ⟨_, got, run⟩ := ask_bind_ok run
    cases found.symm.trans (Arena.get_eq_ok.1 got)
    simp only [none] at run
    cases run

theorem lvalue_ok (run : lvalue id c = .ok (v, c')) : c' = c ∧
    ∃ node, c.arena.find? id = some node ∧ node.value = some v ∧ node.flags.address = true := by
  obtain ⟨node, got, run⟩ := ask_bind_ok run
  split at run
  · rename_i address
    cases value : node.value with
    | some addr =>
      simp only [value] at run
      obtain ⟨rfl, rfl⟩ := Run.pure_ok run
      exact ⟨rfl, node, Arena.get_eq_ok.1 got, value, address⟩
    | none =>
      simp only [value] at run
      cases run
  · cases run

/-! ## New nodes -/

/-- A new node gets its value from an instruction, all at once. -/
theorem attachValue_new {kind : InstKind}
    (run : attachValue ⟨c.arena.size⟩ kind ty { c with arena := (c.arena.add node).2 } =
      .ok (u, c')) : c' = { c with
        arena := (c.arena.add { node with
          insts := node.insts ++ [(c.insts.create kind ty).1]
          value := some (.inst (c.insts.create kind ty).1) }).2
        insts := (c.insts.create kind ty).2 } := by
  obtain ⟨i, c₁, attached, run⟩ := Run.bind_ok.1 run
  obtain ⟨_, found, -, rfl, rfl⟩ := attach_ok attached
  have new : (c.arena.add node).2.find? ⟨c.arena.size⟩ = some node := Arena.find?_add ..
  cases new.symm.trans found
  have e := update_ok run (Arena.find?_set (Arena.isLive_of_find? found))
  simp only [Arena.add_set] at e
  exact e

/-- A new node with a value that is known. -/
theorem valuedNode_ok {kind : NodeKind} {kids : List NodeId} {span : Span} {flags : NodeFlags}
    (run : (do
      let id ← makeNode kind kids ty span
      changeArena (·.setValue id v)
      changeArena (·.setFlags id flags)
      return id : Build NodeId) c = .ok (id, c')) : id = ⟨c.arena.size⟩ ∧
      c' = { c with arena := (c.arena.add ⟨kind, kids, span, ty, some v, [], flags⟩).2 } := by
  obtain ⟨id, c₂, made, run⟩ := Run.bind_ok.1 run
  obtain ⟨rfl, rfl⟩ := makeNode_ok made
  obtain ⟨_, c₃, set, run⟩ := Run.bind_ok.1 run
  obtain ⟨_, c₄, flagged, run⟩ := Run.bind_ok.1 run
  obtain ⟨rfl, rfl⟩ := Run.pure_ok run
  have e := update_ok set (Arena.find?_add ..)
  simp only [Arena.add_set] at e
  subst e
  have e := update_ok flagged (Arena.find?_add ..)
  exact ⟨rfl, by simpa only [Arena.add_set, Node.fresh] using e⟩

/-- A new node whose value is computed by an instruction of its own type. -/
theorem proceeds_computed
    (run : attachValue ⟨c.arena.size⟩ inst node.ty { c with arena := (c.arena.add node).2 } =
      .ok (u, c')) (plain : inst.isPlain) (loaded : node.flags.address = false) :
    c.Proceeds T R c' := by
  rw [attachValue_new run]
  have created : c.Acts T R { c with insts := (c.insts.create inst node.ty).2 } :=
    .plain node.ty plain
  refine .tail (.single created) (.node (fun _ => .computed ?_ rfl loaded) fun _ _ => loaded)
  exact ⟨_, InstStore.find?_create .., InstKind.isRet_of_isPlain plain, rfl⟩

@[grind ←] theorem obeys_makeComputed (kind : NodeKind) (kids : List NodeId) (ty : TypeId)
    (span : Span) (plain : inst.isPlain) :
    Obeys (acting T R P) (makeComputed kind kids inst ty span) := by
  intro c id c' _ run
  obtain ⟨id, c₁, made, run⟩ := Run.bind_ok.1 run
  obtain ⟨rfl, rfl⟩ := makeNode_ok made
  obtain ⟨_, c₂, attached, run⟩ := Run.bind_ok.1 run
  obtain ⟨-, rfl⟩ := Run.pure_ok run
  exact proceeds_computed attached plain rfl

/-- A pointer to a type points at objects of it, if it is no error. -/
theorem pointee?_of_made (regular : c.Regular) (sound : c.SoundType ty)
    (made : c.types.pointerType ty = .ok (ptrType, types)) (free : types.ErrorFree) :
    types.pointee? ptrType = .ok (some ty.stored) := by
  have reach := regular.asked.reachable
  have before := free.before reach (TypeTable.run_of_asks (TypeTable.asks_pointerType made))
  exact reach.pointee?_pointerType made (sound before)

@[grind ←] theorem obeys_makeAddressed {kind : NodeKind} (kids : List NodeId) (span : Span)
    (other : kind.compositeState? = none) (plain : inst.isPlain) (mem : ty ∈ P) :
    Obeys (acting T R P) (makeAddressed kind kids inst ty span) := by
  intro c id c' start run
  obtain ⟨ptrType, c₁, asked, run⟩ := Run.bind_ok.1 run
  obtain ⟨types, made, rfl⟩ := onTypes_ok asked
  obtain ⟨id, c₂, node, run⟩ := Run.bind_ok.1 run
  obtain ⟨rfl, rfl⟩ := makeNode_ok node
  obtain ⟨_, c₃, attached, run⟩ := Run.bind_ok.1 run
  obtain ⟨_, c₄, flagged, run⟩ := Run.bind_ok.1 run
  obtain ⟨-, rfl⟩ := Run.pure_ok run
  rw [attachValue_new (c := { c with types }) attached] at flagged
  have e := update_ok flagged (Arena.find?_add ..)
  simp only [Arena.add_set] at e
  rw [e]
  have first : c.Proceeds T R { c with types } := .asking (TypeTable.orders_pointerType made)
  have created : Compilation.Acts T R { c with types }
      { c with types, insts := (c.insts.create inst ptrType).2 } := .plain ptrType plain
  refine (first.tail created).tail (.node (fun t => .located ?_ rfl rfl) fun _ => ?_)
  · exact ⟨_, InstStore.find?_create .., InstKind.isRet_of_isPlain plain,
      pointee?_of_made (start t).1 ((start t).2 ty mem) made⟩
  · simp [Node.isBuilding, Node.fresh, other]

/-! ## Variables -/

@[grind ←] theorem obeys_newGlobal (name asmName : String) (ty : TypeId) (flags : GlobalFlags)
    (span : Span) : Obeys (acting T R P) (newGlobal name asmName ty flags span) := by
  refine .bind (.intern _) fun _ => .bind (.intern _) fun _ => .bind .get fun _ => .bind ?_ fun _ =>
    .bind ?_ fun _ => .pure _
  · intro c var c' _ run
    cases run
    refine .single (.newVar (fun j e => ?_) fun _ p e => ?_)
    · cases e
    · cases e
  · intro c u c' _ run
    cases run
    exact .single (.aside fun _ _ => rfl)

/-- A function changes, but not the slots of its parameters. -/
theorem proceeds_setFunction {func : FuncId} {f f' : Function}
    (run : setFunction func f' c = .ok (u, c')) (found : c.functions[func.index]? = some f)
    (spills : f'.spills = f.spills) : c.Proceeds T R c' := by
  cases run
  exact .single (.aside (Compilation.spill?_modify_of_spills rfl found spills))

/-- A slot is made for objects of a type. -/
theorem acts_alloca (name : Name) (regular : T → c.Regular) (sound : T → c.SoundType ty)
    (made : c.types.pointerType ty = .ok (ptrType, types)) :
    Compilation.Acts T R { c with types }
      { c with types, insts := (c.insts.create (.alloca ty name) ptrType).2 } := by
  refine .inst ptrType nofun (fun v e => by cases e) fun t allotted name e free => ?_
  cases e
  exact pointee?_of_made (regular t) (sound t) made free

@[grind ←] theorem obeys_newLocal (func : FuncId) {kind : VarKind} (name : Name) (taken : Bool)
    (span : Span) (own : ∀ p, kind ≠ .param p) (mem : ty ∈ P) :
    Obeys (acting T R P) (newLocal func kind name ty taken span) := by
  intro c var c' start run
  obtain ⟨ptrType, c₁, asked, run⟩ := Run.bind_ok.1 run
  obtain ⟨types, made, rfl⟩ := onTypes_ok asked
  obtain ⟨slot, c₂, created, run⟩ := Run.bind_ok.1 run
  have first : c.Proceeds T R { c with types } := .asking (TypeTable.orders_pointerType made)
  have second := acts_alloca (R := R) name (fun t => (start t).1) (fun t => (start t).2 ty mem) made
  cases created
  obtain ⟨f, found, run⟩ := getFunction_bind_ok run
  obtain ⟨_, c₃, set, run⟩ := Run.bind_ok.1 run
  have third := proceeds_setFunction (T := T) (R := R) set found rfl
  refine ((first.tail second).trans third).trans ?_
  cases set
  cases run
  refine .single (.newVar (fun j e => ?_) fun _ p e => absurd e (own p))
  cases e
  exact ⟨name, ptrType, InstStore.find?_create ..⟩

/-- A parameter that is used moves to the slot of its position, which is made if there is none. -/
theorem proceeds_spill {k p n : Nat} {v : Variable} {func : FuncId} {f f' : Function}
    {slot : InstId} {insts : InstStore} (regular : T → c.Regular)
    (made : c.types.pointerType v.ty = .ok (ptrType, types)) (found : c.vars[k]? = some v)
    (kind : v.kind = .param p) (stored : v.storage = .param n)
    (at' : c.functions[func.index]? = some f)
    (spilled : f.spillSlotFor p v.ty ptrType v.name c.insts = (slot, f', insts)) :
    c.Proceeds T R { c with
      types
      insts
      functions := c.functions.modify func.index fun _ => f'
      vars := c.vars.modify k fun _ => { v with storage := .inst slot } } := by
  have first : c.Proceeds T R { c with types } := .asking (TypeTable.orders_pointerType made)
  have moved : Compilation.Spills { c with types }
      { c with types, insts, functions := c.functions.modify func.index fun _ => f' }
      func.index p slot := Compilation.spills_spillSlotFor rfl rfl at' spilled
  have unused (i : InstId) : v.storage ≠ .inst i := by
    rw [stored]
    exact nofun
  unfold Function.spillSlotFor at spilled
  split at spilled
  · cases spilled
    have same : Compilation.Acts T R { c with types }
        { c with types, functions := c.functions.modify func.index fun _ => f } :=
      .aside (Compilation.spill?_modify_of_spills rfl at' rfl)
    exact (first.tail same).tail (.spill found unused moved.here)
  · cases spilled
    have created := acts_alloca (R := R) v.name regular
      (fun t => (regular t).params found kind) made
    refine (first.tail created).tail (.slot found unused
      ⟨v.name, ptrType, InstStore.find?_create ..⟩ fun {i q s} now => (moved.old now).imp_right ?_)
    rintro ⟨e, -⟩
    cases e
    exact Option.some.inj (now.symm.trans moved.here)

theorem proceeds_variableAddress {var : VarId} {storage : Value} (regular : T → c.Regular)
    (run : variableAddress var c = .ok (storage, c')) : c.Proceeds T R c' := by
  cases addresses_of_variableAddress run with
  | stays => exact .refl
  | spills found kind waits _ typed at' spilled =>
    exact proceeds_spill regular typed found kind waits at' spilled

end Build

end Codegen
