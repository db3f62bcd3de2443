import Codegen.Proofs.Compilation.Keeps

/-!
Steps on single nodes: making them, attaching instructions, giving them values. Using the value or
the address of an expression gives a value that is there once the expression was evaluated.
-/

namespace Codegen

def InstKind.isAlloca : InstKind → Bool
  | .alloca .. => true
  | _ => false

def InstKind.isRet : InstKind → Bool
  | .ret _ => true
  | _ => false

theorem NodeId.not_isSentinel {id : NodeId} (h : 2 ≤ id.index) : ¬id.isSentinel := by
  obtain ⟨i⟩ := id
  simp only [isSentinel, errorExpr, errorStmt, Bool.or_eq_true, beq_iff_eq, mk.injEq]
  simp only at h
  omega

namespace Compilation

variable {c c' : Compilation} {ids ids' : List NodeId} {v : Value}

theorem Sourced.mono (h : c.Sourced ids v) (sub : ids ⊆ ids') : c.Sourced ids' v := fun j e =>
  (h j e).imp_right fun ⟨k, mem, rest⟩ => ⟨k, sub mem, rest⟩

theorem sourced_of_ne {v : Value} (h : ∀ j, v ≠ .inst j) : c.Sourced ids v := fun j e =>
  absurd e (h j)

/-- What children leave behind their parent leaves behind. -/
theorem Sourced.up {id : NodeId} (h : c.Sourced ids v) (o : (Fact.hosts id ids).holds c) :
    c.Sourced [id] v := fun j e => by
  refine (h j e).imp_right fun ⟨k, mem, _, supplies⟩ => ⟨id, by simp, o.1, ?_⟩
  cases find : c.arena.find? id with
  | none => exact .dead find
  | some node =>
    obtain ⟨expr, sub⟩ := o.2.2 node find
    exact .kid find expr (sub mem) supplies

/-- Inside of a node, what it leaves behind comes from its own instructions or from a child. -/
theorem Sourced.inside {id : NodeId} {node : Node} {j : InstId} (h : c.Sourced [id] (.inst j))
    (sound : c.Sound) (find : c.arena.find? id = some node) :
    c.IsSlot j ∨ j ∈ node.insts ∧ c.insts.Yields j ∨ c.Supplied node.kids j := by
  rcases h j rfl with slot | ⟨k, mem, _, supplies⟩
  · exact .inl slot
  · cases List.mem_singleton.1 mem
    cases supplies with
    | dead gone => simp [find] at gone
    | own find' _ mem yields =>
      cases find.symm.trans find'
      exact .inr (.inl ⟨mem, yields⟩)
    | kid find' _ mem supplies =>
      cases find.symm.trans find'
      exact .inr (.inr ⟨_, mem, (sound.nodes find).kids _ mem, supplies⟩)

end Compilation

/-- What a node says of itself when it is looked at. -/
def Fact.known (id : NodeId) (node : Node) : Fact where
  holds c := id.index < c.arena.size ∧ (∀ v, node.value = some v → c.Sourced [id] v) ∧
    (node.value ≠ .none ∨ node.isBuilding → ¬id.isSentinel) ∧
    ∀ node', c.arena.find? id = some node' → node'.isStmt = node.isStmt ∧ node.kids ⊆ node'.kids
  lasts {c c'} s g h := by
    refine ⟨Nat.lt_of_lt_of_le h.1 g.arena_le, fun v e => g.sourced s (h.2.1 v e), h.2.2.1,
      fun node' find' => ?_⟩
    cases find : c.arena.find? id with
    | none => simp [g.dead h.1 find] at find'
    | some node₀ =>
      obtain ⟨same, sub⟩ := h.2.2.2 node₀ find
      rcases g.nodes find with gone | ⟨node'', e, grows⟩
      · simp [gone] at find'
      · cases find'.symm.trans e
        exact ⟨grows.isStmt.trans same, List.Subset.trans sub grows.kids⟩

/-- Whether the children of a node are the cases of a switch. -/
@[grind unfold] def NodeKind.isSwitch : NodeKind → Bool
  | .switchStmt _ => true
  | _ => false

/-- A composite under construction takes instructions. -/
theorem Fact.hosts_of_building {c : Compilation} {id : NodeId} {node : Node}
    (h : (known id node).holds c) (building : node.isBuilding) : (hosts id node.kids).holds c := by
  refine ⟨h.1, h.2.2.1 (.inr building), fun node' find => ?_⟩
  obtain ⟨same, sub⟩ := h.2.2.2 node' find
  refine ⟨?_, sub⟩
  rw [Node.isExpr_eq, same]
  cases kind : node.kind <;> simp_all [Node.isBuilding, Node.isStmt, NodeKind.compositeState?,
    NodeKind.isStmt]

namespace Build

open Compilation (grows_set)

variable {P : Fact} {id : NodeId} {kids : List NodeId}

theorem keeps_getNode : Keeps P (getNode id) fun node => .known id node := by
  refine .ask fun c node sound got => ?_
  have find := Arena.get_eq_ok.1 got
  have h := sound.nodes find
  refine ⟨Arena.lt_of_find? find, fun v e => h.value e, fun some sentinel => ?_,
    fun node' find' => ?_⟩
  · obtain ⟨_, _, none, kind⟩ := h.sentinel sentinel
    rcases kind with kind | kind <;> simp [none, Node.isBuilding, kind,
      NodeKind.compositeState?] at some
  · cases find.symm.trans find'
    exact ⟨rfl, List.Subset.refl _⟩

@[grind ←] theorem steady_onTypes {α : Type} (step : TypeTable → Except Fault (α × TypeTable)) :
    Steady (onTypes step) := by
  intro c a c' sound run
  obtain ⟨types, -, rfl⟩ := onTypes_ok run
  exact sound.of_same _ rfl rfl rfl rfl

@[grind ←] theorem steady_intern (s : String) : Steady (intern s) := by
  intro c a c' sound run
  cases run
  exact sound.of_same _ rfl rfl rfl rfl

/-! ## Instructions and values -/

theorem keeps_createInst (kind : InstKind) (ty : TypeId) :
    Keeps P (createInst kind ty) fun i => .made i kind := by
  intro c a c' sound _ run
  cases run
  have old : ∀ {i : InstId}, i.index < c.insts.slots.size →
      (c.insts.create kind ty).2.find? i = c.insts.find? i := fun {i} lt => by
    refine InstStore.find?_create_of_ne fun e => ?_
    have : i.index = c.insts.slots.size := congrArg InstId.index e
    omega
  have g : c.Grows { c with insts := (c.insts.create kind ty).2 } :=
    ⟨Nat.le_refl _, by simp [InstStore.create],
      fun e => .inr ⟨_, e, .refl _⟩, fun _ e => e,
      fun lt => .inl (old lt),
      fun ⟨ty, name, t, e⟩ => ⟨ty, name, t, (old (InstStore.lt_of_find? e)).trans e⟩, fun h => h⟩
  refine ⟨sound.of_grows g sound.shaped sound.owned .inl rfl rfl, g, by simp, fun inst found => ?_⟩
  cases (InstStore.find?_create c.insts kind ty).symm.trans found
  rfl

/-- An instruction that no node has yet is attached where its operands are there. -/
theorem sound_appendInst {c c' : Compilation} {i : InstId} {kind : InstKind} {u : Unit}
    (sound : c.Sound) (made : (Fact.made i kind).holds c) (free : ∀ n, i ∉ c.arena.instsOf n)
    (slot : kind.isAlloca = false) (notSentinel : ¬id.isSentinel)
    (operands : ∀ v ∈ kind.operands, c.Sourced [id] v)
    (run : changeArena (·.appendInst id i) c = .ok (u, c')) :
    c'.Sound ∧ c.Grows c' ∧ (kind.isRet = false → c'.Sourced [id] (.inst i)) ∧
      ∀ j, j ≠ i → (∀ n, j ∉ c.arena.instsOf n) → ∀ n, j ∉ c'.arena.instsOf n := by
  obtain ⟨arena, step, rfl⟩ := changeArena_ok run
  have shaped := (Arena.Edit.appendInst step).wellFormed sound.shaped
  obtain ⟨node, find, expr, rfl⟩ := Arena.appendInst_ok step
  have g := grows_set find { node with insts := node.insts ++ [i] }
    ⟨rfl, List.Subset.refl _, List.subset_append_left _ _, fun h => h⟩
  have base := g.nodeSound sound (sound.nodes find)
  have live := Arena.isLive_of_find? find
  have new : ∀ j, c.insts.Uses i j → .inst j ∈ kind.operands := fun j ⟨inst, found, mem⟩ =>
    made.2 inst found ▸ mem
  refine ⟨sound.set find g shaped (sound.owned.append find free) ⟨base.kids, base.shaped,
    fun j mem => ?_, fun {p k j} at' use => ?_, base.value, base.loaded,
    fun sentinel => absurd sentinel notSentinel⟩, g, fun noRet => ?_, fun j ne others n mem => ?_⟩
  · rcases List.mem_append.1 mem with mem | mem
    · exact base.insts j mem
    · cases List.mem_singleton.1 mem
      refine ⟨made.1, fun ⟨ty, name, t, found⟩ => ?_⟩
      simp [← made.2 _ found, InstKind.isAlloca] at slot
  · rcases Nat.lt_trichotomy p node.insts.length with lt | rfl | gt
    · rw [List.getElem?_append_left lt] at at'
      rw [List.take_append_of_le_length (Nat.le_of_lt lt)]
      exact base.operands at' use
    · have e : i = k := by simpa using at'
      subst e
      rcases (operands _ (new j use)).inside sound find with slot | own | supplied
      · exact .inl slot
      · exact .inr (.inl (by simpa using own))
      · exact .inr (.inr (g.supplied sound supplied))
    · have : p - node.insts.length ≠ 0 := by omega
      simp [List.getElem?_append_right (Nat.le_of_lt gt), this] at at'
  · rintro j e
    cases e
    refine .inr ⟨id, by simp, Nat.lt_of_lt_of_le (Arena.lt_of_find? find) g.arena_le,
      .own (Arena.find?_set live) expr (by simp) fun v ty found => ?_⟩
    simp [← made.2 _ found, InstKind.isRet] at noRet
  · rcases Arena.mem_instsOf_append find mem with old | ⟨_, same⟩
    · exact others n old
    · exact ne same

theorem keeps_setValue {v : Value} (pre : ∀ c, P.holds c → ¬id.isSentinel ∧ c.Sourced [id] v) :
    Keeps P (changeArena (·.setValue id v)) fun _ => .none := by
  intro c _ c' sound hp run
  obtain ⟨notSentinel, sourced⟩ := pre c hp
  obtain ⟨arena, step, rfl⟩ := changeArena_ok run
  have shaped := (Arena.Edit.setValue step).wellFormed sound.shaped
  obtain ⟨node, find, rfl⟩ := Arena.update_ok step
  have g := grows_set find { node with value := some v }
    ⟨rfl, List.Subset.refl _, List.Subset.refl _, fun h => h⟩
  have base := g.nodeSound sound (sound.nodes find)
  refine ⟨sound.set find g shaped (sound.owned.set find rfl) ⟨base.kids, base.shaped,
    base.insts, base.operands, fun e => ?_, base.loaded,
    fun sentinel => absurd sentinel notSentinel⟩, g, trivial⟩
  cases e
  exact g.sourced sound sourced

/-- What is made an address is not under construction. -/
theorem keeps_setFlags {flags : NodeFlags}
    (pre : flags.address → ∀ c, P.holds c → (Fact.done id).holds c) :
    Keeps P (changeArena (·.setFlags id flags)) fun _ => .none := by
  intro c _ c' sound hp run
  obtain ⟨arena, step, rfl⟩ := changeArena_ok run
  have shaped := (Arena.Edit.setFlags step).wellFormed sound.shaped
  obtain ⟨node, find, rfl⟩ := Arena.update_ok step
  have g := grows_set find { node with flags := flags }
    ⟨rfl, List.Subset.refl _, List.Subset.refl _, fun h => h⟩
  have base := g.nodeSound sound (sound.nodes find)
  refine ⟨sound.set find g shaped (sound.owned.set find rfl) ⟨base.kids, base.shaped, base.insts,
    base.operands, base.value, fun building => ?_, base.sentinel⟩, g, trivial⟩
  by_contra address
  exact (pre (by simpa using address) c hp).2 node find building

theorem keeps_finishComposite {v : Value} (pre : ∀ c, P.holds c → c.Sourced [id] v) :
    Keeps P (changeArena (·.finishComposite id v)) fun _ => .none := by
  intro c _ c' sound hp run
  obtain ⟨arena, step, rfl⟩ := changeArena_ok run
  have shaped := (Arena.Edit.finishComposite step).wellFormed sound.shaped
  obtain ⟨node, find, kind, rfl⟩ := Arena.finishComposite_ok step
  have same : ∀ i, node.kind.wantsStmt i = NodeKind.wantsStmt (.composite .finalized) i := by
    simp [kind, NodeKind.wantsStmt]
  have g := grows_set find (node.finished v)
    ⟨by simp [Node.isStmt, Node.finished, kind, NodeKind.isStmt], List.Subset.refl _,
      List.Subset.refl _, fun building => by cases building⟩
  have base := g.nodeSound sound (sound.nodes find)
  refine ⟨sound.set find g shaped (sound.owned.set find rfl) ⟨base.kids,
    fun at' find' => (base.shaped at' find').trans (same _), base.insts, base.operands,
    fun e => ?_, (fun building => by cases building), fun sentinel => ?_⟩, g, trivial⟩
  · cases e
    exact g.sourced sound (pre c hp)
  · have := (base.sentinel sentinel).2.2.2
    simp [kind] at this

/-- A statement is added at the end of a block. -/
theorem steady_appendChild (stmt : NodeId) : Steady (changeArena (·.appendChild id stmt)) := by
  intro c _ c' sound run
  obtain ⟨arena, step, rfl⟩ := changeArena_ok run
  have shaped := (Arena.Edit.appendChild step).wellFormed sound.shaped
  obtain ⟨node, child, find, kind, found, isStmt, rfl⟩ := Arena.appendChild_ok step
  have g := grows_set find { node with kids := node.kids ++ [stmt] }
    ⟨rfl, List.subset_append_left _ _, List.Subset.refl _, fun h => h⟩
  have base := g.nodeSound sound (sound.nodes find)
  refine ⟨sound.set find g shaped (sound.owned.set find rfl) ⟨fun k mem => ?_,
    fun {i k child'} at' find' => ?_, base.insts, fun at' use => ?_, base.value, base.loaded,
    fun sentinel => ?_⟩, g⟩
  · rcases List.mem_append.1 mem with mem | mem
    · exact base.kids k mem
    · cases List.mem_singleton.1 mem
      exact Nat.lt_of_lt_of_le (Arena.lt_of_find? found) g.arena_le
  · rcases Nat.lt_or_ge i node.kids.length with lt | ge
    · rw [List.getElem?_append_left lt] at at'
      exact base.shaped at' find'
    · have mem := List.mem_of_getElem? ((List.getElem?_append_right ge).symm.trans at')
      cases List.mem_singleton.1 mem
      rw [kind, NodeKind.wantsStmt]
      rcases g.nodes found with gone | ⟨child'', e, grows⟩
      · simp [gone] at find'
      · cases find'.symm.trans e
        rw [grows.isStmt, isStmt]
  · exact (base.operands at' use).imp_right fun h => h.imp_right
      (Exists.imp fun k => And.imp_left (List.mem_append_left _))
  · have := (base.sentinel sentinel).2.2.2
    simp [kind] at this

/-! ## New nodes -/

/-- A node is taken in over children that there are, each of the right category. -/
theorem keeps_make {kind : NodeKind} (ty : TypeId) (span : Span)
    (layout : ∀ l, kind = .switchStmt l → kids.length = l.childCount) :
    Keeps P (onArena (·.make kind kids ty span)) (.node kind kids) := by
  intro c id c' sound _ run
  obtain ⟨arena, step, rfl⟩ := onArena_ok run
  obtain ⟨_, arity, step⟩ := bind_eq_ok.1 step
  obtain ⟨_, checked, step⟩ := bind_eq_ok.1 step
  cases step
  have shaped : (Node.fresh kind kids ty span).Shaped c.arena :=
    Arena.shaped_of_checks arity checked layout
  have g := c.grows_add (.fresh kind kids ty span)
  have notSentinel : ¬(⟨c.arena.size⟩ : NodeId).isSentinel := NodeId.not_isSentinel sound.sentinels
  have lt : ∀ k ∈ kids, k.index < c.arena.size := fun k mem => by
    obtain ⟨i, at'⟩ := List.mem_iff_getElem?.1 mem
    obtain ⟨child, find, _⟩ := Arena.checkKids_ok checked at'
    exact Arena.lt_of_find? find
  refine ⟨sound.add shaped rfl ⟨fun k mem => Nat.lt_of_lt_of_le (lt k mem) g.arena_le,
    fun {i k child} at' find' => ?_, by simp [Node.fresh], by simp [Node.fresh],
    by simp [Node.fresh], fun _ => rfl, fun sentinel => absurd sentinel notSentinel⟩, g,
    fun expr => ⟨?_, notSentinel, fun node find => ?_⟩, fun ne => ⟨?_, fun node find => ?_⟩⟩
  · obtain ⟨child₀, find, shaped⟩ := Arena.checkKids_ok checked at'
    have ne : k ≠ (c.arena.add (.fresh kind kids ty span)).1 := fun e => by
      have := lt k (List.mem_of_getElem? at')
      simp [e, Arena.add] at this
    cases ((Arena.find?_add_of_ne ne).trans find).symm.trans find'
    rw [shaped, Nat.zero_add]
    rfl
  · simp [Arena.size]
  · cases (Arena.find?_add _ _).symm.trans find
    exact ⟨expr, List.Subset.refl _⟩
  · simp [Arena.size]
  · cases (Arena.find?_add _ _).symm.trans find
    exact fun building => ne (Node.kind_of_isBuilding building)

@[grind ←] theorem steady_makeNode {kind : NodeKind} {ty : TypeId} {span : Span}
    (layout : ¬kind.isSwitch) : Steady (makeNode kind kids ty span) :=
  (keeps_make ty span fun l e => by simp [e, NodeKind.isSwitch] at layout).forget.steady

@[grind ←] theorem steady_makeStmt {kind : NodeKind} {span : Span} (layout : ¬kind.isSwitch) :
    Steady (makeStmt kind kids span) := steady_makeNode layout

/-- A node without children and instructions, with a value that needs none. -/
theorem keeps_addLeaf {node : Node} (none : node.kids = []) (bare : node.insts = [])
    (done : ¬node.isBuilding)
    (pre : ∀ c, P.holds c → ∀ v, node.value = some v → c.Sourced [] v) :
    Keeps P (addNode (·.add node)) fun _ => .none := by
  intro c id c' sound hp run
  cases run
  have g := c.grows_add node
  have shaped : node.Shaped c.arena :=
    ⟨fun _ => bare, .inl none, fun {i k} e => by simp [none] at e⟩
  refine ⟨sound.add shaped bare ⟨by simp [none], by simp [none], by simp [bare],
    by simp [bare], fun e => ?_, fun building => absurd building done,
    fun sentinel => absurd sentinel (NodeId.not_isSentinel sound.sentinels)⟩, g, trivial⟩
  exact (g.sourced sound (pre c hp _ e)).mono (by simp)

@[grind ←] theorem steady_makeEmpty (span : Span) : Steady (makeEmpty span) :=
  (keeps_addLeaf rfl rfl (by nofun) fun _ _ _ e => by cases e).steady

@[grind ←] theorem steady_makeConst (ty : TypeId) (constant : Constant) (span : Span) :
    Steady (makeConst ty constant span) :=
  (keeps_addLeaf rfl rfl (by nofun) fun _ _ _ e => by
    cases e
    exact Compilation.sourced_of_ne (by simp)).steady

theorem steady_makeFuncAddress (func : FuncId) (ty : TypeId) (span : Span) :
    Steady (addNode (·.makeFuncAddress func ty span)) :=
  (keeps_addLeaf rfl rfl (by nofun) fun _ _ _ e => by
    cases e
    exact Compilation.sourced_of_ne (by simp)).steady

theorem keeps_makeVar {storage : Value} (var : VarId) (ty : TypeId) (span : Span)
    (pre : ∀ c, P.holds c → c.Sourced [] storage) :
    Keeps P (addNode (·.makeVar var ty storage span)) fun _ => .none :=
  keeps_addLeaf rfl rfl (by nofun) fun c hp _ e => by
    cases e
    exact pre c hp

/-! ## Values and addresses -/

theorem keeps_attach {kind : InstKind} (ty : TypeId) (slot : kind.isAlloca = false)
    (pre : ∀ c, P.holds c → ¬id.isSentinel ∧ ∀ v ∈ kind.operands, c.Sourced [id] v) :
    Keeps P (attach id kind ty) fun i =>
      .given (kind.isRet = false) (.sourced [id] (.inst i)) := by
  intro c i c' sound hp run
  obtain ⟨i, c₁, create, run⟩ := Run.bind_ok.1 run
  obtain ⟨_, c₂, append, run⟩ := Run.bind_ok.1 run
  obtain ⟨rfl, rfl⟩ := Run.pure_ok run
  obtain ⟨sound₁, g₁, made⟩ := keeps_createInst kind ty c _ c₁ sound hp create
  obtain ⟨notSentinel, operands⟩ := pre c₁ (P.lasts sound g₁ hp)
  cases create
  obtain ⟨sound₂, g₂, sourced, _⟩ := sound_appendInst sound₁ made
    (sound.not_mem_instsOf (Nat.le_refl _)) slot notSentinel operands append
  exact ⟨sound₂, g₁.trans g₂, sourced⟩

theorem keeps_attachValue {kind : InstKind} (ty : TypeId) (slot : kind.isAlloca = false)
    (noRet : kind.isRet = false)
    (pre : ∀ c, P.holds c → ¬id.isSentinel ∧ ∀ v ∈ kind.operands, c.Sourced [id] v) :
    Keeps P (attachValue id kind ty) fun _ => .none :=
  .bind (keeps_attach ty slot pre) fun _ =>
    keeps_setValue fun c h => ⟨(pre c h.1).1, h.2 noRet⟩

theorem keeps_settle : Keeps P (settle id) fun v => .sourced [id] v := by
  refine .bind keeps_getNode fun node => ?_
  cases value : node.value with
  | none => exact .throw
  | some v =>
    have known : ∀ c, (P.and (.known id node)).holds c → ¬id.isSentinel ∧ c.Sourced [id] v :=
      fun c h => ⟨h.2.2.2.1 (.inl (by simp [value])), h.2.2.1 v value⟩
    refine .ite (fun _ => ?_) fun _ => .pure fun c h => (known c h).2
    refine .bind (keeps_attach node.ty rfl fun c h => ?_) fun load => ?_
    · have ⟨notSentinel, sourced⟩ := known c h
      exact ⟨notSentinel, by simpa [InstKind.operands] using sourced⟩
    · refine .bind (keeps_setValue fun c h => ⟨(known c h.1).1, h.2 rfl⟩) fun _ => ?_
      exact .bind (keeps_setFlags nofun) fun _ => .pure fun c h => h.1.1.2 rfl

/-- The values of some nodes are there once all of them were evaluated. -/
theorem keeps_mapM {f : NodeId → Build Value} {xs : List NodeId}
    (h : ∀ x ∈ xs, ∀ P, Keeps P (f x) fun v => .sourced [x] v) :
    Keeps P (xs.mapM f) fun vs => .all vs (.sourced xs) := by
  induction xs generalizing P with
  | nil => exact .pure fun _ _ _ mem => by simp at mem
  | cons x rest ih =>
    rw [List.mapM_cons]
    refine .bind (h x (by simp) P) fun v => .bind (ih fun y my => h y (by simp [my])) fun vs =>
      .pure fun c facts w mem => ?_
    rcases List.mem_cons.1 mem with rfl | mem
    · exact Compilation.Sourced.mono facts.1.2 (by simp)
    · exact Compilation.Sourced.mono (facts.2 w mem) (by simp)

theorem keeps_rvalueWithin (fuel : Nat) (id : NodeId) (P : Fact) :
    Keeps P (rvalueWithin fuel id) fun v => .sourced [id] v := by
  induction fuel generalizing id P with
  | zero => exact .throw
  | succ fuel ih =>
    rw [rvalueWithin]
    refine .bind keeps_getNode fun node => ?_
    split
    · rename_i building
      refine .bind (keeps_mapM fun x _ P => ih x P) fun elems => ?_
      refine .bind (keeps_attach node.ty rfl fun c h => ?_) fun aggregate => ?_
      · have hosts := Fact.hosts_of_building h.1.2 building
        exact ⟨hosts.2.1, fun v mem => Compilation.Sourced.up (h.2 v mem) hosts⟩
      · exact .bind (keeps_finishComposite fun c h => h.2 rfl) fun _ => keeps_settle
    · exact keeps_settle

theorem keeps_rvalue : Keeps P (rvalue id) fun v => .sourced [id] v := by
  intro c v c' sound hp run
  rw [rvalue, Run.get_bind] at run
  exact keeps_rvalueWithin _ id P c v c' sound hp run

@[grind ←] theorem steady_rvalue (id : NodeId) : Steady (rvalue id) := keeps_rvalue.forget.steady

theorem keeps_lvalue : Keeps P (lvalue id) fun v => .sourced [id] v := by
  refine .bind keeps_getNode fun node => .ite (fun _ => ?_) fun _ => .throw
  cases value : node.value with
  | none => exact .throw
  | some v => exact .pure fun c h => h.2.2.1 v value

end Build

end Codegen
