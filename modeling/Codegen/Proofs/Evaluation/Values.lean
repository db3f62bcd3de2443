import Codegen.Proofs.Compilation.Spends
import Codegen.Proofs.Evaluation.Denotes

/-!
Using an expression. Where its value is used, the instructions below it go on to compute the value:
an object is loaded last, and a literal is put together from its members first. Where its address is
used, they stay as they are.
-/

namespace Codegen

namespace Compilation

variable {c c' c'' : Compilation} {x : NodeId} {node node' : Node}

/-- One node is new or has changed; instructions may be new. -/
structure Sets (c c' : Compilation) (x : NodeId) (node : Node) : Prop where
  find : c'.arena.find? x = some node
  others : ∀ {n}, n ≠ x → c'.arena.find? n = c.arena.find? n
  store : ∀ {i inst}, c.insts.find? i = some inst → c'.insts.find? i = some inst

namespace Sets

theorem trans (h : c.Sets c' x node) (h' : c'.Sets c'' x node') : c.Sets c'' x node' where
  find := h'.find
  others ne := (h'.others ne).trans (h.others ne)
  store found := h'.store (h.store found)

theorem allocas (h : c.Sets c' x node) {j : InstId} (alloca : c.insts.Allocates j) :
    c'.insts.Allocates j :=
  have ⟨ty, name, t, found⟩ := alloca
  ⟨ty, name, t, h.store found⟩

theorem spares (h : c.Sets c' x node) {k : NodeId} (out : ¬c.arena.Below k x) : c.Spares c' k where
  nodes below := h.others fun e => out (e ▸ below)
  insts _ _ found _ := h.store found
  allocas := h.allocas

/-- An expression stays one if only its own node changes, and its children do not. -/
theorem isExprTree (h : c.Sets c' x node') (find : c.arena.find? x = some node)
    (kids : node'.kids = node.kids) (expr : node'.isExpr = node.isExpr)
    (tree : c.arena.IsExprTree x) : c'.arena.IsExprTree x := by
  have same (n : NodeId) : c'.arena.kidsOf n = c.arena.kidsOf n := by
    by_cases e : n = x
    · rw [e, Arena.kidsOf_eq_of_find? find, Arena.kidsOf_eq_of_find? h.find, kids]
    · exact Arena.kidsOf_congr (h.others e)
  intro n found below find'
  rw [Arena.below_congr same] at below
  by_cases e : n = x
  · subst e
    cases h.find.symm.trans find'
    rw [expr]
    exact tree n node .refl find
  · exact tree n found below ((h.others e).symm.trans find')

end Sets

theorem Extends.sets (h : c.Extends c') (h' : c'.Sets c'' x node) : c.Sets c'' x node where
  find := h'.find
  others ne := (h'.others ne).trans (by rw [h.arena])
  store found := h'.store ((h.store (InstStore.lt_of_find? found)).trans found)

theorem sets_set (find : c.arena.find? x = some node) (node' : Node) :
    c.Sets { c with arena := c.arena.set x node' } x node' where
  find := Arena.find?_set (Arena.isLive_of_find? find)
  others ne := Arena.find?_set_of_ne ne
  store found := found

theorem sets_add (node : Node) :
    c.Sets { c with arena := (c.arena.add node).2 } ⟨c.arena.size⟩ node where
  find := Arena.find?_add c.arena node
  others ne := Arena.find?_add_of_ne ne
  store found := found

end Compilation

namespace Build

open Compilation

variable {c c' : Compilation} {x : NodeId} {node : Node} {u : Unit}

theorem sets_attach {kind : InstKind} {ty : TypeId} {i : InstId}
    (find : c.arena.find? x = some node) (run : attach x kind ty c = .ok (i, c')) :
    c.Sets c' x { node with insts := node.insts ++ [i] } ∧ c'.insts.find? i = some ⟨kind, ty⟩ := by
  obtain ⟨_, found, -, rfl, rfl⟩ := attach_ok run
  cases find.symm.trans found
  have created := idle_createInst kind ty c _ _ trivial rfl
  exact ⟨created.sets (sets_set (created.arena ▸ find) _), InstStore.find?_create ..⟩

theorem sets_update {f : Node → Node} (find : c.arena.find? x = some node)
    (run : changeArena (·.update x f) c = .ok (u, c')) : c.Sets c' x (f node) := by
  rw [update_ok run find]
  exact sets_set find _

theorem sets_finishComposite {v : Value} (find : c.arena.find? x = some node)
    (run : changeArena (·.finishComposite x v) c = .ok (u, c')) : node.kind = .composite .building ∧
      c.Sets c' x { node with kind := .composite .finalized, value := some v } := by
  obtain ⟨arena, step, rfl⟩ := changeArena_ok run
  obtain ⟨_, found, kind, rfl⟩ := Arena.finishComposite_ok step
  cases find.symm.trans found
  exact ⟨kind, sets_set find _⟩

theorem sets_attachValue {kind : InstKind} {ty : TypeId} (find : c.arena.find? x = some node)
    (run : attachValue x kind ty c = .ok (u, c')) : ∃ i,
    c.Sets c' x { node with insts := node.insts ++ [i], value := some (.inst i) } ∧
      c'.insts.find? i = some ⟨kind, ty⟩ := by
  obtain ⟨i, c₁, attached, run⟩ := Run.bind_ok.1 run
  obtain ⟨sets, found⟩ := sets_attach find attached
  have sets' := sets_update sets.find run
  exact ⟨i, sets.trans sets', sets'.store found⟩

/-! ## Types -/

/-- Steps that leave the types alone. -/
def retyping : Law where
  start _ := True
  holds c c' := c'.types = c.types
  refl _ := rfl
  trans h h' := h'.trans h
  keeps _ _ := trivial

abbrev SameTypes {α : Type} (op : Build α) : Prop := Obeys retyping op

theorem sameTypes_changeArena (step : Arena → Except Fault Arena) : SameTypes (changeArena step) :=
  fun _ _ _ _ run => by
    obtain ⟨arena, -, rfl⟩ := changeArena_ok run
    rfl

theorem sameTypes_settle (id : NodeId) : SameTypes (settle id) := by
  intro c v c' _ run
  obtain ⟨_, _, -, -, ⟨-, -, -, rfl⟩ | ⟨-, -, rfl⟩⟩ := settle_cases run <;> rfl

theorem sameTypes_attach (id : NodeId) (kind : InstKind) (ty : TypeId) :
    SameTypes (attach id kind ty) := by
  intro c i c' _ run
  obtain ⟨_, -, -, -, rfl⟩ := attach_ok run
  rfl

theorem sameTypes_rvalueWithin (fuel : Nat) (id : NodeId) : SameTypes (rvalueWithin fuel id) := by
  induction fuel generalizing id with
  | zero => exact .throw _
  | succ fuel ih =>
    exact .bind (.ask _) fun node =>
      .ite (.bind (.mapM ih) fun _ => .bind (sameTypes_attach _ _ _) fun _ =>
      .bind (sameTypes_changeArena _) fun _ => sameTypes_settle id) (sameTypes_settle id)

theorem sameTypes_rvalue (id : NodeId) : SameTypes (rvalue id) :=
  .bind .get fun _ => sameTypes_rvalueWithin _ id

end Build

namespace Compilation

open Build

variable {c c' : Compilation} {x : NodeId} {node : Node} {v w : Value} {e : Expr}
  {hand ks rest : List NodeId} {es : List Expr} {α β : Type}

/-! ## Trees at hand -/

theorem Revises.exists_kids {P : NodeId → Prop} (h : c.Revises c' P) {n : NodeId} {node' : Node}
    (find' : c'.arena.find? n = some node') :
    ∃ node, c.arena.find? n = some node ∧ node'.kids = node.kids := by
  cases find : c.arena.find? n with
  | none => simp [h.dead find] at find'
  | some node =>
    obtain ⟨node'', find'', kids, -⟩ := h.nodes find
    cases find'.symm.trans find''
    exact ⟨node, rfl, kids⟩

theorem Revises.isTree {P : NodeId → Prop} (h : c.Revises c' P) (t : c.arena.IsTree x) :
    c'.arena.IsTree x := by
  refine ⟨fun {n node'} below find' => ?_, fun {n node' k} below find' kid => ?_⟩ <;>
    obtain ⟨node, find, kids⟩ := h.exists_kids find' <;> rw [h.below] at below
  · rw [kids]
    exact (t.apart below find).imp fun {x y} apart n bx by' => apart n (h.below ▸ bx)
      (h.below ▸ by')
  · rw [h.below]
    exact t.not_below below find (kids ▸ kid)

theorem Tidy.isTree (t : c.Tidy hand) (sound : c.Sound) (mem : x ∈ hand)
    (find : c.arena.find? x = some node) : c.arena.IsTree x :=
  Arena.isTree_of_sharing sound.sentinelsBare
    (t.forest.sharing_eq sound.owned (Arena.isLive_of_find? find) (t.roots x mem))

theorem Tidy.pairwise_apart (t : c.Tidy (ks ++ rest)) (plain : ∀ k ∈ ks, ¬k.isSentinel) :
    ks.Pairwise c.arena.Apart := by
  have nodup : ks.Nodup := by
    have apart := (t.sublist (List.sublist_append_left ks rest)).apart
    rwa [List.filter_eq_self.2 fun k mem => by simpa using plain k mem] at apart
  refine nodup.imp_of_mem fun {x y} mx my ne n bx by' => absurd ?_ ne
  exact t.forest.eq_of_below (t.roots x (by simp [mx])) (t.roots y (by simp [my])) bx by'

theorem Tidy.ne_of_pair {y : NodeId} (t : c.Tidy ([x, y] ++ rest)) (plain : ¬y.isSentinel) :
    x ≠ y :=
  have first : c.Tidy (x :: (y :: rest)) := t
  first.ne_head plain (by simp)

/-! ## Values -/

/-- An object is loaded after its address was computed. -/
theorem computes_settle (find : c.arena.find? x = some node) (value : node.value = some v)
    (address : node.flags.address = e.isPlace) (ty : node.ty = e.ty) (h : c.Computes x v e.eval)
    (run : settle x c = .ok (w, c')) : c'.Computes x w e.read := by
  obtain ⟨node', find', run⟩ := ask_bind_ok run
  cases find.symm.trans (Arena.get_eq_ok.1 find')
  simp only [value, address, ty] at run
  cases place : e.isPlace with
  | false =>
    simp only [place, Bool.false_eq_true, if_false] at run
    cases run
    rwa [Expr.read_of_not_isPlace place]
  | true =>
    simp only [place, if_true] at run
    obtain ⟨load, c₁, attached, run⟩ := Run.bind_ok.1 run
    obtain ⟨_, c₂, valued, run⟩ := Run.bind_ok.1 run
    obtain ⟨_, c₃, flagged, run⟩ := Run.bind_ok.1 run
    cases run
    obtain ⟨sets, found⟩ := sets_attach find attached
    have sets' := sets_update sets.find valued
    have later := sets'.trans (sets_update sets'.find flagged)
    have all := sets.trans later
    obtain ⟨code, emits, runs⟩ := h.code
    refine ⟨h.plain, all.isExprTree find rfl rfl h.tree, code ++ [load],
      emits.append find all.find rfl rfl fun n ne => all.others ne, ?_⟩
    refine (runs.frame (fun _ _ _ found _ => all.store found) all.allocas).snoc
      (later.store found) rfl
      rfl (.one (fun _ => Operation.load) (fun _ _ => rfl) (Expr.read_of_isPlace place))

/-- Trees that have nothing in common, as the members of a literal are. -/
structure Members (c : Compilation) (ks : List NodeId) (es : List Expr) : Prop where
  apart : ks.Pairwise c.arena.Apart
  trees : ∀ k ∈ ks, c.arena.IsTree k
  count : ks.length = es.length
  denotes : ∀ {i : Nat} {k e}, ks[i]? = some k → es[i]? = some e → ¬k.isSentinel → c.Denotes k e

/-- What happens to one member leaves the others alone. -/
theorem Members.tail {k : NodeId} (h : c.Members (k :: ks) (e :: es)) (o : c.Orderly)
    (r : c.Revises c' fun n => c.arena.Below k n) : c'.Members ks es := by
  obtain ⟨away, apart⟩ := List.pairwise_cons.1 h.apart
  have spares (k' : NodeId) (mem : k' ∈ ks) : c.Spares c' k' :=
    r.spares o fun below below' => r.plain below' (away k' mem _ below' below)
  refine ⟨apart.imp_of_mem fun mx my apart => (spares _ mx).apart (spares _ my) apart,
    fun k' mem => r.isTree (h.trees k' (by simp [mem])), Nat.succ.inj h.count,
    fun {i k' e'} at' at'' plain' => ?_⟩
  exact (h.denotes (i := i + 1) at' at'' plain').frame (spares k' (List.mem_of_getElem? at'))

/-- Expressions are used one after the other. -/
theorem ready_mapM {use : NodeId → Build Value} (within : ∀ k, Within k (use k))
    (steady : ∀ k, Steady (use k))
    (each : ∀ {c c' : Compilation} {k : NodeId} {e : Expr} {v : Value}, c.Sound → c.Orderly →
      c.arena.IsTree k → c.Denotes k e → use k c = .ok (v, c') → c'.Computes k v e.read)
    {vs : List Value} (sound : c.Sound) (o : c.Orderly) (members : c.Members ks es)
    (run : ks.mapM use c = .ok (vs, c')) : c'.Ready ks vs (es.map Expr.read) := by
  induction ks generalizing c es vs with
  | nil =>
    cases es with
    | cons e es => cases members.count
    | nil =>
      cases run
      exact .nil
  | cons k ks ih =>
    cases es with
    | nil => cases members.count
    | cons e es =>
      rw [List.mapM_cons] at run
      obtain ⟨v, c₁, first, run⟩ := Run.bind_ok.1 run
      obtain ⟨vs, c₂, later, run⟩ := Run.bind_ok.1 run
      cases run
      have h := (within k).revises c v c₁ o first
      obtain ⟨sound₁, -⟩ := steady k c v c₁ sound first
      have computes := each sound o (members.trees k (by simp))
        (members.denotes (i := 0) rfl rfl (h.plain .refl)) first
      have others := revises_each within (h.orderly o) later
      refine .cons ((others.spares (h.orderly o) fun below ⟨k', mem, below'⟩ => ?_).computes
        computes) (ih sound₁ (h.orderly o) (members.tail o h) later)
      rw [h.below] at below below'
      exact h.plain below ((List.pairwise_cons.1 members.apart).1 k' mem _ below below')

theorem computes_rvalueWithin (fuel : Nat) (sound : c.Sound) (o : c.Orderly) (t : c.arena.IsTree x)
    (d : c.Denotes x e) (run : rvalueWithin fuel x c = .ok (v, c')) : c'.Computes x v e.read := by
  induction fuel generalizing c c' x e v with
  | zero => cases run
  | succ fuel ih =>
    obtain ⟨sound', -⟩ := keeps_rvalueWithin (fuel + 1) x .none c v c' sound trivial run
    rw [rvalueWithin] at run
    obtain ⟨node', find', run⟩ := ask_bind_ok run
    cases d with
    | done find built value address ty computes =>
      cases find.symm.trans (Arena.get_eq_ok.1 find')
      simp only [built, Bool.false_eq_true, if_false] at run
      exact computes_settle find value address ty computes run
    | @literal x ty es node plain tree find building insts address type count members =>
      obtain rfl : node = node' := Option.some.inj (find.symm.trans (Arena.get_eq_ok.1 find'))
      subst type
      simp only [building, if_true] at run
      obtain ⟨elems, c₁, first, run⟩ := Run.bind_ok.1 run
      obtain ⟨i, c₂, attached, run⟩ := Run.bind_ok.1 run
      obtain ⟨_, c₃, finished, run⟩ := Run.bind_ok.1 run
      have ready := ready_mapM (within_rvalueWithin fuel)
        (fun k => (keeps_rvalueWithin fuel k .none).forget.steady) ih sound o
        ⟨t.apart .refl find, fun k mem => t.kid sound.sentinelsBare find mem, count, members⟩ first
      have h := revises_each (within_rvalueWithin fuel) o first
      have out (k : NodeId) (mem : k ∈ node.kids) : ¬c₁.arena.Below k x := by
        rw [h.below]
        exact t.not_below .refl find mem
      have find₁ : c₁.arena.find? x = some node :=
        (h.frame fun b => b.elim fun _ b => t.not_below .refl find b.1 b.2).trans find
      obtain ⟨sets, found⟩ := sets_attach find₁ attached
      obtain ⟨-, sets'⟩ := sets_finishComposite sets.find finished
      have all := sets.trans sets'
      -- an aggregate has its value at once
      obtain ⟨node', find', run⟩ := ask_bind_ok run
      cases all.find.symm.trans (Arena.get_eq_ok.1 find')
      simp only [address, Bool.false_eq_true, if_false] at run
      cases run
      rw [Expr.read_of_not_isPlace rfl]
      have spares (k : NodeId) (mem : k ∈ node.kids) : c₁.Spares c' k := all.spares (out k mem)
      have apart : node.kids.Pairwise c'.arena.Apart :=
        ((h.isTree t).apart .refl find₁).imp_of_mem fun mx my => (spares _ mx).apart (spares _ my)
      exact (ready.frame spares).computes all.find rfl sound' apart plain rfl (by simp [insts])
        (sets'.store found) rfl rfl .members

/-- The value of one of the expressions at hand was used. -/
structure Used (c c' : Compilation) (hand : List NodeId) (x : NodeId) (v : Value) (e : Expr) :
    Prop where
  sound : c'.Sound
  tidy : c'.Tidy hand
  computes : c'.Computes x v e.read
  spares : ∀ y ∈ hand, y ≠ x → c.Spares c' y
  ty : ∀ {node}, c'.arena.find? x = some node → node.ty = e.ty
  types : c'.types = c.types

theorem used_rvalue (sound : c.Sound) (t : c.Tidy hand) (mem : x ∈ hand) (d : c.Denotes x e)
    (run : rvalue x c = .ok (v, c')) : c.Used c' hand x v e := by
  obtain ⟨node, find, ty, -⟩ := d.exists_node
  have h := (within_rvalue x).revises c v c' t.toOrderly run
  obtain ⟨sound', -⟩ := keeps_rvalue (P := .none) c v c' sound trivial run
  refine ⟨sound', h.tidy t, ?_, fun y mem' ne => h.spares t.toOrderly fun below below' => ne ?_,
    fun {node'} find' => ?_, sameTypes_rvalue x c v c' trivial run⟩
  · rw [rvalue, Run.get_bind] at run
    exact computes_rvalueWithin _ sound t.toOrderly (t.isTree sound mem find) d run
  · exact t.forest.eq_of_below (t.roots y mem') (t.roots x mem) below below'
  · obtain ⟨node'', find'', -, ty'⟩ := h.nodes find
    cases find'.symm.trans find''
    rw [ty', ty]

theorem rel_of_getElem? {R : α → β → Prop} {xs : List α} {ys : List β} (h : List.Forall₂ R xs ys)
    {i : Nat} {x : α} {y : β} (at' : xs[i]? = some x) (at'' : ys[i]? = some y) : R x y := by
  obtain ⟨lt, rfl⟩ := List.getElem?_eq_some_iff.1 at'
  obtain ⟨lt', rfl⟩ := List.getElem?_eq_some_iff.1 at''
  exact h.get lt lt'

theorem exists_rel_of_mem {R : α → β → Prop} {xs : List α} {ys : List β} (h : List.Forall₂ R xs ys)
    {x : α} (mem : x ∈ xs) : ∃ y, R x y := by
  induction h with
  | nil => cases mem
  | cons head _ ih =>
    rcases List.mem_cons.1 mem with rfl | mem
    · exact ⟨_, head⟩
    · exact ih mem

/-- The values of several expressions at hand are used one after the other. -/
theorem ready_operands {xs : List NodeId} {vs : List Value} (sound : c.Sound)
    (t : c.Tidy (xs ++ rest)) (ds : List.Forall₂ c.Denotes xs es)
    (run : xs.mapM rvalue c = .ok (vs, c')) :
    c'.Sound ∧ c'.Tidy (xs ++ rest) ∧ c'.Ready xs vs (es.map Expr.read) := by
  have h := revises_each within_rvalue t.toOrderly run
  obtain ⟨sound', -⟩ := Obeys.mapM steady_rvalue c vs c' sound run
  have plain (k : NodeId) (mem : k ∈ xs) : ¬k.isSentinel := h.plain ⟨k, mem, .refl⟩
  refine ⟨sound', h.tidy t, ready_mapM within_rvalue steady_rvalue ?_ sound t.toOrderly
    ⟨t.pairwise_apart plain,
    fun k mem => ?_, ds.length_eq, fun at' at'' _ => rel_of_getElem? ds at' at''⟩ run⟩
  · intro c c' k e v sound o t d run
    rw [rvalue, Run.get_bind] at run
    exact computes_rvalueWithin _ sound o t d run
  · obtain ⟨e, d⟩ := exists_rel_of_mem ds mem
    obtain ⟨node, find, -⟩ := d.exists_node
    exact t.isTree sound (by simp [mem]) find

/-- The address of an object is there already. -/
theorem lvalue_ok (d : c.Denotes x e) (run : lvalue x c = .ok (v, c')) :
    e.isPlace = true ∧ c' = c ∧ c.Computes x v e.eval := by
  obtain ⟨node', find', run⟩ := ask_bind_ok run
  cases d with
  | done find _ value address _ computes =>
    cases find.symm.trans (Arena.get_eq_ok.1 find')
    simp only [value, address] at run
    cases place : e.isPlace with
    | false =>
      simp only [place, Bool.false_eq_true, if_false] at run
      cases run
    | true =>
      simp only [place, if_true] at run
      cases run
      exact ⟨rfl, rfl, computes⟩
  | literal _ _ find _ _ address =>
    cases find.symm.trans (Arena.get_eq_ok.1 find')
    simp only [address, Bool.false_eq_true, if_false] at run
    cases run

theorem lvalue_bind_ok {k : Value → Build α} {r : α × Compilation} (d : c.Denotes x e)
    (run : (lvalue x >>= k) c = .ok r) :
    ∃ v, e.isPlace = true ∧ c.Computes x v e.eval ∧ k v c = .ok r := by
  obtain ⟨v, c₁, used, later⟩ := Run.bind_ok.1 run
  obtain ⟨place, same, computes⟩ := lvalue_ok d used
  exact ⟨v, place, computes, same ▸ later⟩

end Compilation

end Codegen
