import Codegen.Proofs.Evaluation.Values

/-!
Values can be had. Where no literal in an expression has an error for a member, its value can be
used; where it denotes an object, so can its address.
-/

namespace Codegen

namespace Arena

/-- No child below a node is an error. -/
def Faultless (a : Arena) (x : NodeId) : Prop :=
  ∀ n node, a.Below x n → a.find? n = some node → ∀ k ∈ node.kids, ¬k.isSentinel

/-- What is below a node is there, fewer than a number of steps down, and has no sentinels below
it. -/
def Whole (a : Arena) : Nat → NodeId → Prop
  | 0, _ => False
  | n + 1, id => ∃ node, a.find? id = some node ∧ ∀ k ∈ node.kids, ¬k.isSentinel ∧ a.Whole n k

theorem Spread.whole {a : Arena} {root x : NodeId} {nodes : List NodeId} {fuel : Nat}
    (h : a.Spread root nodes) (plain : a.Faultless root) (below : a.Below root x)
    (lt : nodes.idxOf x < fuel) : a.Whole fuel x := by
  induction fuel generalizing x with
  | zero => cases lt
  | succ fuel ih =>
    have mem := h.mem_iff.2 below
    obtain ⟨node, find⟩ := Option.isSome_iff_exists.1 (h.live x mem)
    refine ⟨node, find, fun k kid => ⟨plain x node below find k kid, ?_⟩⟩
    have kid := (mem_kidsOf find).2 ⟨kid, plain x node below find k kid⟩
    have lower := h.idxOf_lt mem kid
    exact ih (below.tail kid) (by omega)

end Arena

namespace Build

variable {c : Compilation} {x : NodeId} {node : Node}

theorem changeArena_of_ok (step : Arena → Except Fault Arena) {arena : Arena}
    (h : step c.arena = .ok arena) : changeArena step c = .ok ((), { c with arena }) := by
  rw [changeArena, Run.get_bind, Run.bind_of_ok (Run.lift_of_ok h)]
  rfl

theorem onArena_of_ok {α : Type} (step : Arena → Except Fault (α × Arena)) {a : α} {arena : Arena}
    (h : step c.arena = .ok (a, arena)) : onArena step c = .ok (a, { c with arena }) := by
  rw [onArena, Run.get_bind, Run.bind_of_ok (Run.lift_of_ok h)]
  rfl

theorem ask_of_ok {α : Type} {q : Compilation → Except Fault α} {a : α} (h : q c = .ok a) :
    ask q c = .ok (a, c) := by
  rw [ask, Run.get_bind]
  exact Run.lift_of_ok h

theorem exists_attach (find : c.arena.find? x = some node) (expr : node.isExpr) (kind : InstKind)
    (ty : TypeId) : ∃ i c', attach x kind ty c = .ok (i, c') := by
  obtain ⟨i, c₁, create, arena⟩ : ∃ i c₁, createInst kind ty c = .ok (i, c₁) ∧ c₁.arena = c.arena :=
    ⟨_, _, rfl, rfl⟩
  have append : c₁.arena.appendInst x i =
      .ok (c₁.arena.set x { node with insts := node.insts ++ [i] }) :=
    bind_eq_ok.2 ⟨node, Arena.get_eq_ok.2 (arena ▸ find), if_pos expr⟩
  have attached := changeArena_of_ok (·.appendInst x i) append
  exact ⟨_, _, Run.bind_ok.2 ⟨_, _, create, Run.bind_ok.2 ⟨_, _, attached, rfl⟩⟩⟩

theorem exists_update (find : c.arena.find? x = some node) (step : Node → Node) :
    ∃ c', changeArena (·.update x step) c = .ok ((), c') := by
  have updated : c.arena.update x step = .ok (c.arena.set x (step node)) :=
    bind_eq_ok.2 ⟨node, Arena.get_eq_ok.2 find, rfl⟩
  exact ⟨_, changeArena_of_ok _ updated⟩

theorem exists_finishComposite (find : c.arena.find? x = some node)
    (kind : node.kind = .composite .building) (v : Value) :
    ∃ c', changeArena (·.finishComposite x v) c = .ok ((), c') := by
  have finished : c.arena.finishComposite x v =
      .ok (c.arena.set x { node with kind := .composite .finalized, value := some v }) := by
    refine bind_eq_ok.2 ⟨node, Arena.get_eq_ok.2 find, ?_⟩
    rw [kind]
    rfl
  exact ⟨_, changeArena_of_ok _ finished⟩

theorem exists_settle {v : Value} (find : c.arena.find? x = some node) (expr : node.isExpr)
    (value : node.value = some v) : ∃ w c', settle x c = .ok (w, c') := by
  rw [settle, getNode, Run.bind_of_ok (ask_of_ok (Arena.get_eq_ok.2 find))]
  simp only [value]
  split
  · obtain ⟨load, c₁, attached⟩ := exists_attach find expr (.load v) node.ty
    obtain ⟨sets, -⟩ := sets_attach find attached
    obtain ⟨c₂, valued⟩ := exists_update sets.find fun n => { n with value := some (.inst load) }
    have sets := sets_update sets.find valued
    obtain ⟨c₃, flagged⟩ := exists_update sets.find fun n =>
      { n with flags := { node.flags with address := false } }
    exact ⟨_, _, Run.bind_ok.2 ⟨_, _, attached, Run.bind_ok.2 ⟨_, _, valued,
      Run.bind_ok.2 ⟨_, _, flagged, rfl⟩⟩⟩⟩
  · exact ⟨v, c, rfl⟩

end Build

namespace Compilation

open Build

variable {c c' : Compilation} {x : NodeId} {e : Expr} {hand : List NodeId} {fuel : Nat}

theorem Revises.whole {P : NodeId → Prop} (h : c.Revises c' P) (whole : c.arena.Whole fuel x) :
    c'.arena.Whole fuel x := by
  induction fuel generalizing x with
  | zero => exact whole
  | succ fuel ih =>
    obtain ⟨node, find, kids⟩ := whole
    obtain ⟨node', find', same, -⟩ := h.nodes find
    exact ⟨node', find', fun k kid => (kids k (same ▸ kid)).imp_right ih⟩

theorem exists_mapM {use : NodeId → Build Value} (within : ∀ k, Within k (use k))
    (steady : ∀ k, Steady (use k))
    (each : ∀ {c : Compilation} {k : NodeId} {e : Expr}, c.Sound → c.Orderly → c.arena.IsTree k →
      c.Denotes k e → c.arena.Whole fuel k → ∃ v c', use k c = .ok (v, c'))
    {ks : List NodeId} {es : List Expr} (sound : c.Sound) (o : c.Orderly)
    (members : c.Members ks es)
    (whole : ∀ k ∈ ks, ¬k.isSentinel ∧ c.arena.Whole fuel k) :
    ∃ vs c', ks.mapM use c = .ok (vs, c') := by
  induction ks generalizing c es with
  | nil => exact ⟨[], c, rfl⟩
  | cons k ks ih =>
    cases es with
    | nil => cases members.count
    | cons e es =>
      obtain ⟨plain, deep⟩ := whole k (by simp)
      obtain ⟨v, c₁, first⟩ := each sound o (members.trees k (by simp))
        (members.denotes (i := 0) rfl rfl plain) deep
      have h := (within k).revises c v c₁ o first
      obtain ⟨sound₁, -⟩ := steady k c v c₁ sound first
      obtain ⟨vs, c₂, later⟩ := ih sound₁ (h.orderly o) (members.tail o h) fun k' mem =>
        (whole k' (by simp [mem])).imp_right h.whole
      refine ⟨v :: vs, c₂, ?_⟩
      rw [List.mapM_cons, Run.bind_of_ok first, Run.bind_of_ok later]
      rfl

theorem exists_rvalueWithin (sound : c.Sound) (o : c.Orderly) (t : c.arena.IsTree x)
    (d : c.Denotes x e) (whole : c.arena.Whole fuel x) :
    ∃ v c', rvalueWithin fuel x c = .ok (v, c') := by
  induction fuel generalizing c x e with
  | zero => cases whole
  | succ fuel ih =>
    obtain ⟨node', find', kids⟩ := whole
    rw [rvalueWithin, getNode, Run.bind_of_ok (ask_of_ok (Arena.get_eq_ok.2 find'))]
    have expr : node'.isExpr := d.tree x node' .refl find'
    cases d with
    | done find built value =>
      cases find.symm.trans find'
      simp only [built, Bool.false_eq_true, if_false]
      exact exists_settle find expr value
    | @literal x ty es node _ _ find building _ _ _ count members =>
      obtain rfl : node = node' := Option.some.inj (find.symm.trans find')
      simp only [building, if_true]
      obtain ⟨elems, c₁, first⟩ := exists_mapM (within_rvalueWithin fuel)
        (fun k => (keeps_rvalueWithin fuel k .none).forget.steady) ih sound o
        ⟨t.apart .refl find, fun k mem => t.kid sound.sentinelsBare find mem, count, members⟩ kids
      have h := revises_each (within_rvalueWithin fuel) o first
      have find₁ : c₁.arena.find? x = some node :=
        (h.frame fun b => b.elim fun _ b => t.not_below .refl find b.1 b.2).trans find
      obtain ⟨i, c₂, attached⟩ := exists_attach find₁ expr (.aggregate elems) node.ty
      obtain ⟨sets, -⟩ := sets_attach find₁ attached
      obtain ⟨c₃, finished⟩ := exists_finishComposite sets.find (Node.kind_of_isBuilding building)
        (.inst i)
      obtain ⟨-, sets'⟩ := sets_finishComposite sets.find finished
      obtain ⟨v, c₄, settled⟩ := exists_settle sets'.find rfl rfl
      exact ⟨v, c₄, Run.bind_ok.2 ⟨_, _, first, Run.bind_ok.2 ⟨_, _, attached,
        Run.bind_ok.2 ⟨_, _, finished, settled⟩⟩⟩⟩

/-- The value of an expression can be used, unless a literal in it has an error for a member. -/
theorem exists_rvalue (sound : c.Sound) (t : c.Tidy hand) (mem : x ∈ hand) (d : c.Denotes x e)
    (plain : c.arena.Faultless x) : ∃ v c', rvalue x c = .ok (v, c') := by
  obtain ⟨node, find, -⟩ := d.exists_node
  have sharing := t.forest.sharing_eq sound.owned (Arena.isLive_of_find? find) (t.roots x mem)
  obtain ⟨nodes, spread⟩ := Arena.exists_spread_of_sharing sharing
  have lt := List.idxOf_lt_length_of_mem spread.root_mem
  have le := Arena.length_le_size spread.nodup_nodes spread.live
  rw [rvalue, Run.get_bind]
  exact exists_rvalueWithin sound t.toOrderly (t.isTree sound mem find) d
    (spread.whole plain .refl (by omega))

theorem exists_lvalue (d : c.Denotes x e) (place : e.isPlace = true) :
    ∃ v, lvalue x c = .ok (v, c) ∧ c.Computes x v e.eval := by
  cases d with
  | @done _ _ node v find _ value address _ computes =>
    refine ⟨v, ?_, computes⟩
    rw [lvalue, getNode, Run.bind_of_ok (ask_of_ok (Arena.get_eq_ok.2 find))]
    simp only [address, place, value, if_true]
    rfl
  | literal => cases place

theorem Denotes.isErrorExpr_eq (d : c.Denotes x e) (valid : c.types.isError e.ty = .ok false) :
    isErrorExpr x c = .ok (false, c) := by
  obtain ⟨node, find, ty, -⟩ := d.exists_node
  have ne : x ≠ .errorExpr := by
    rintro rfl
    exact d.plain rfl
  rw [isErrorExpr, if_neg ne, getNode, Run.bind_of_ok (ask_of_ok (Arena.get_eq_ok.2 find)), ty]
  exact ask_of_ok valid

end Compilation

end Codegen
