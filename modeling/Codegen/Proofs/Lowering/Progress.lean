import Codegen.Proofs.Lowering.Exits
import Codegen.Proofs.Lowering.Open
import Codegen.Proofs.Lowering.Switch
import Codegen.Proofs.Tree.Unfold

/-!
Lowering succeeds. Where each node has the children and values that its kind asks for, no label is
placed twice and no instruction is owned twice, the cursor is on an open block whenever something
is laid out, and every instruction is live when its turn comes.
-/

namespace Codegen

/-- A live return. -/
def InstStore.IsReturn (s : InstStore) (id : InstId) : Prop :=
  ∃ inst v, s.find? id = some inst ∧ inst.kind = .ret v

/-! ## Trees that can be lowered -/

namespace Arena

theorem WellFormed.kind_of_sentinel {a : Arena} (h : a.WellFormed) {x : NodeId} {node : Node}
    (s : x.isSentinel) (find : a.find? x = some node) {owner : FuncId} {l : LabelId} :
    node.kind ≠ .labelStmt owner l := by
  obtain ⟨expr, findExpr, kindExpr⟩ := h.errorExpr
  obtain ⟨stmt, findStmt, kindStmt⟩ := h.errorStmt
  simp only [NodeId.isSentinel, Bool.or_eq_true, beq_iff_eq] at s
  rcases s with rfl | rfl
  · cases find.symm.trans findExpr
    simp [kindExpr]
  · cases find.symm.trans findStmt
    simp [kindStmt]

theorem WellFormed.eq_errorExpr {a : Arena} (h : a.WellFormed) {x : NodeId} {node : Node}
    (s : x.isSentinel) (find : a.find? x = some node) (expr : node.isExpr) : x = .errorExpr := by
  obtain ⟨stmt, findStmt, kind⟩ := h.errorStmt
  simp only [NodeId.isSentinel, Bool.or_eq_true, beq_iff_eq] at s
  refine s.resolve_right ?_
  rintro rfl
  cases find.symm.trans findStmt
  rw [Node.isExpr, kind] at expr
  cases expr

theorem placesLabel_of_mem_gather {a : Arena} {fuel : Nat} {id : NodeId} {l : LabelId}
    (mem : l ∈ a.gather NodeKind.labels fuel id) : a.PlacesLabel id l := by
  obtain ⟨n, node, reaches, find, mem⟩ := exists_of_mem_gather mem
  obtain ⟨owner, kind⟩ := NodeKind.mem_labels.1 mem
  exact ⟨n, node, owner, reaches, find, kind⟩

/-- A statement that can be lowered into a function. All that it reaches is live and complete, no
node or instruction is shared, labels are the function's own and placed once, and whatever is
branched on has a value. -/
structure Lowerable (a : Arena) (insts : InstStore) (func : FuncId) (root : NodeId) : Prop where
  shaped : a.WellFormed
  stmt : ∃ node, a.find? root = some node ∧ node.isStmt
  live : ∀ {n}, a.Reaches root n → a.isLive n
  complete : ∀ {n node}, a.Reaches root n → a.find? n = some node →
    node.kind.takes node.kids.length
  single : a.sharing root = .ok []
  insts : ∀ {n i}, a.Reaches root n → i ∈ a.instsOf n → (insts.find? i).isSome
  labels : ∀ {n node owner l}, a.Reaches root n → a.find? n = some node →
    node.kind = .labelStmt owner l ∨ node.kind = .gotoStmt owner l → owner = func
  once : ∀ {n m node node' owner owner' l}, a.Reaches root n → a.Reaches root m →
    a.find? n = some node → a.find? m = some node' → node.kind = .labelStmt owner l →
    node'.kind = .labelStmt owner' l → n = m
  cond : ∀ {n node k}, a.Reaches root n → a.find? n = some node → node.kind = .ifStmt →
    node.kids[0]? = some k → (a.value? k).isSome
  values : ∀ {n node layout i k}, a.Reaches root n → a.find? n = some node →
    node.kind = .switchStmt layout → i < layout.valueCount → node.kids[i]? = some k →
    (a.value? k).isSome

/-- The error expression, where a root reaches it, owns its returns alone among expressions, and
each of them once. The integrity check passes over sentinels. -/
def OwnsReturns (a : Arena) (insts : InstStore) (root : NodeId) : Prop :=
  a.Reaches root .errorExpr →
    (a.instsOf .errorExpr).Pairwise (fun i j => i = j → ¬insts.IsReturn i) ∧
    ∀ {n node i}, a.Reaches root n → a.find? n = some node → node.isExpr → insts.IsReturn i →
      i ∈ a.instsOf .errorExpr → i ∈ a.instsOf n → n = .errorExpr

section

variable {a : Arena} {insts : InstStore} {func : FuncId} {root : NodeId} {nodes : List NodeId}

namespace Lowerable

variable {n x : NodeId}

variable {node node' : Node}

theorem pairwise_instsOf (h : a.Lowerable insts func root) (own : a.OwnsReturns insts root)
    (r : a.Reaches root x) (find : a.find? x = some node) (expr : node.isExpr) :
    (a.instsOf x).Pairwise fun i j => i = j → ¬insts.IsReturn i := by
  obtain ⟨nodes, spread⟩ := exists_spread_of_sharing h.single
  rcases h.shaped.below_of_reaches r with s | b
  · cases h.shaped.eq_errorExpr s find expr
    exact (own r).1
  · have nodup := (List.nodup_flatMap.1 spread.insts_nodup).1 x
      (spread.mem_of_below spread.root_mem b)
    exact nodup.imp fun ne e => absurd e ne

/-- No two expressions own one return. -/
theorem owner_unique (h : a.Lowerable insts func root) (own : a.OwnsReturns insts root) {y : NodeId}
    {i : InstId} (ret : insts.IsReturn i) (rx : a.Reaches root x) (fx : a.find? x = some node)
    (ex : node.isExpr) (ry : a.Reaches root y) (fy : a.find? y = some node') (ey : node'.isExpr)
    (ix : i ∈ a.instsOf x) (iy : i ∈ a.instsOf y) : x = y := by
  obtain ⟨nodes, spread⟩ := exists_spread_of_sharing h.single
  rcases h.shaped.below_of_reaches rx with s | bx
  · cases h.shaped.eq_errorExpr s fx ex
    exact ((own rx).2 ry fy ey ret ix iy).symm
  rcases h.shaped.below_of_reaches ry with s | below
  · cases h.shaped.eq_errorExpr s fy ey
    exact (own ry).2 rx fx ex ret iy ix
  by_contra ne
  have apart := (List.nodup_flatMap.1 spread.insts_nodup).2
  have symm : Std.Symm (Function.onFun List.Disjoint a.instsOf) :=
    ⟨fun _ _ d => List.disjoint_symm d⟩
  exact apart.forall (spread.mem_of_below spread.root_mem bx)
    (spread.mem_of_below spread.root_mem below) ne ix iy

theorem exists_node (h : a.Lowerable insts func root) (r : a.Reaches root n) :
    ∃ node, a.find? n = some node :=
  Option.isSome_iff_exists.1 (h.live r)

/-- A label is placed below one child at most. -/
theorem pairwise_kids (h : a.Lowerable insts func root) {node : Node} (r : a.Reaches root n)
    (find : a.find? n = some node) :
    node.kids.Pairwise fun x y => ∀ {l}, a.PlacesLabel x l → ¬a.PlacesLabel y l := by
  obtain ⟨nodes, spread⟩ := exists_spread_of_sharing h.single
  rcases h.shaped.below_of_reaches r with s | b
  · rw [h.shaped.kids_of_sentinel s find]
    exact .nil
  have mem := spread.mem_of_below spread.root_mem b
  have nodup : (a.kidsOf n).Nodup := spread.nodup_kidsOf mem
  simp only [kidsOf, find, Option.elim_some, List.Nodup, List.pairwise_filter] at nodup
  refine nodup.imp_of_mem ?_
  rintro x y hx hy ne l ⟨m, nodeₘ, owner, rx, findₘ, kind⟩ ⟨m', node', owner', ry, find', kind'⟩
  have step : ∀ {k}, k ∈ node.kids → a.Reaches root k := fun kid => r.tail ⟨node, find, kid⟩
  have same := h.once ((step hx).trans rx) ((step hy).trans ry) findₘ find' kind kind'
  subst same
  have other : ¬m.isSentinel := fun s => h.shaped.kind_of_sentinel s findₘ kind
  have below : ∀ {k}, a.Reaches k m → ¬k.isSentinel ∧ a.Below k m := fun {k} rk =>
    ⟨fun s => other (h.shaped.eq_of_reaches s rk ▸ s),
      (h.shaped.below_of_reaches rk).resolve_left other⟩
  obtain ⟨sx, bx⟩ := below rx
  obtain ⟨sy, below⟩ := below ry
  exact spread.not_below_both mem ((mem_kidsOf find).2 ⟨hx, sx⟩) ((mem_kidsOf find).2 ⟨hy, sy⟩)
    (ne (by simpa using sx) (by simpa using sy)) bx below

/-- However far down one looks, no label is placed twice. -/
theorem nodup_gather (h : a.Lowerable insts func root) (fuel : Nat) (r : a.Reaches root n) :
    (a.gather NodeKind.labels fuel n).Nodup := by
  induction fuel generalizing n with
  | zero => exact .nil
  | succ fuel ih =>
    obtain ⟨node, find⟩ := h.exists_node r
    have below : (node.kids.flatMap (a.gather NodeKind.labels fuel)).Nodup := by
      refine List.nodup_flatMap.2 ⟨fun k kid => ih (r.tail ⟨node, find, kid⟩), ?_⟩
      refine (h.pairwise_kids r find).imp fun apart l left right => ?_
      exact apart (placesLabel_of_mem_gather left) (placesLabel_of_mem_gather right)
    rw [gather_succ find]
    cases kind : node.kind
    case labelStmt owner l =>
      rw [(h.shaped.nodes find).kids_eq_nil (by rw [kind]; rfl)]
      exact List.nodup_singleton l
    all_goals exact below

end Lowerable

end

end Arena

/-! ## Walks that succeed -/

section

variable {a : Arena} {insts : InstStore} {func : FuncId} {root x : NodeId}

/-- A state on the way: nodes are as they were or empty, and what they still own is live. -/
structure Fit (a : Arena) (insts : InstStore) (func : FuncId) (root : NodeId) (s : Lowering) :
    Prop where
  func_eq : s.func = func
  nodes : ∀ n, s.arena.find? n = a.find? n ∨ s.arena.find? n = (a.find? n).map Node.bare
  live : ∀ {n node i}, a.Reaches root n → a.find? n = some node → node.isExpr →
    i ∈ s.arena.instsOf n → (s.insts.find? i).isSome
  returns : ∀ {i}, s.insts.IsReturn i → insts.IsReturn i

namespace Fit

variable {s : Lowering} {n : NodeId}

theorem find (h : Fit a insts func root s) {node : Node} (find : a.find? n = some node) :
    ∃ node', s.arena.find? n = some node' ∧ node'.kind = node.kind ∧ node'.kids = node.kids ∧
      node'.value = node.value := by
  rcases h.nodes n with e | e
  · exact ⟨node, e.trans find, rfl, rfl, rfl⟩
  · rw [find] at e
    exact ⟨node.bare, e, rfl, rfl, rfl⟩

theorem value? (h : Fit a insts func root s) {v : Value} (has : a.value? n = some v) :
    s.arena.value? n = some v := by
  obtain ⟨node, find, has⟩ := Option.bind_eq_some_iff.1 has
  obtain ⟨node', find', _, _, value⟩ := h.find find
  simp [Arena.value?, find', value, has]

theorem subset_instsOf (h : Fit a insts func root s) (n : NodeId) :
    s.arena.instsOf n ⊆ a.instsOf n := by
  intro i mem
  rcases h.nodes n with e | e
  · rwa [Arena.instsOf, e] at mem
  · rw [Arena.instsOf, e] at mem
    cases found : a.find? n <;> simp [found, Node.bare] at mem

theorem redraft (h : Fit a insts func root s) (d : Draft) : Fit a insts func root (s.redraft d) :=
  ⟨h.1, h.2, h.3, h.4⟩

theorem test (h : Fit a insts func root s) {scrutinee value : Value} {body : BlockId}
    {s' : Lowering}
    (run : Lower.test scrutinee value body s = .ok ((), s')) : Fit a insts func root s' := by
  obtain ⟨-, rfl⟩ := Lower.test_eq_ok.1 run
  refine ⟨h.func_eq, h.nodes, fun r find expr mem => ?_, ?_⟩
  · obtain ⟨inst, found⟩ := Option.isSome_iff_exists.1 (h.live r find expr mem)
    have lt := InstStore.lt_of_find? found
    rw [InstStore.find?_create_of_ne fun e => by simp [e, InstStore.create] at lt]
    exact h.live r find expr mem
  · rintro i ⟨inst, v, found, ret⟩
    by_cases e : i = (s.insts.create (.compare .eqEq scrutinee value) .bool).1
    · rw [e, InstStore.find?_create] at found
      cases found
      cases ret
    · exact h.returns ⟨inst, v, by rwa [InstStore.find?_create_of_ne e] at found, ret⟩

end Fit

/-- Live instructions can be placed if no return is among them twice. Only returns are freed. -/
theorem exists_forM_place {placed : List LabelId} {reserved : List BlockId} {is : List InstId}
    {R : InstId → Prop} {s : Lowering} (ready : s.draft.Balanced placed reserved)
    (returns : ∀ {i}, s.insts.IsReturn i → R i) (once : is.Pairwise fun i j => i = j → ¬R i)
    (live : ∀ i ∈ is, (s.insts.find? i).isSome) :
    ∃ s', is.forM Lower.place s = .ok ((), s') ∧ s'.func = s.func ∧ s'.arena = s.arena ∧
      s'.draft.Balanced placed reserved ∧ (∀ i, s'.insts.IsReturn i → R i) ∧
      ∀ i, (i ∈ is → ¬R i) → s'.insts.find? i = s.insts.find? i := by
  induction is generalizing s with
  | nil => exact ⟨s, rfl, rfl, rfl, ready, fun _ => returns, fun _ _ => rfl⟩
  | cons i rest ih =>
    have ⟨out, once⟩ := List.pairwise_cons.1 once
    obtain ⟨inst, found⟩ := Option.isSome_iff_exists.1 (live i (by simp))
    obtain ⟨s₁, first, func, arena, ready₁, returns₁, kept⟩ : ∃ s₁, Lower.place i s = .ok ((), s₁) ∧
        s₁.func = s.func ∧ s₁.arena = s.arena ∧ s₁.draft.Balanced placed reserved ∧
        (∀ j, s₁.insts.IsReturn j → R j) ∧
        ∀ j, (i = j → ¬R i) → s₁.insts.find? j = s.insts.find? j := by
      have isOpen := ready.isOpen_cursor
      by_cases ret : ∃ v, inst.kind = .ret v
      · obtain ⟨v, kind⟩ := ret
        have mine : R i := returns ⟨inst, v, found, kind⟩
        refine ⟨_, Lower.place_eq_ok.2 ⟨isOpen, inst, found, .inl ⟨v, kind, rfl⟩⟩, rfl, rfl,
          ready.drop _, fun j ⟨other, w, found', kind'⟩ => ?_,
          fun j free => InstStore.find?_free_of_ne fun e => free e.symm mine⟩
        by_cases e : j = i
        · exact e ▸ mine
        · exact returns ⟨other, w, (InstStore.find?_free_of_ne e).symm.trans found', kind'⟩
      · exact ⟨_, Lower.place_eq_ok.2 ⟨isOpen, inst, found, .inr ⟨not_exists.1 ret, rfl⟩⟩, rfl, rfl,
          ready.add _, fun _ => returns, fun _ _ => rfl⟩
    obtain ⟨s', later, func', arena', ready', returns', kept'⟩ :=
      ih ready₁ (fun {j} => returns₁ j) once fun j mem => by
        rw [kept j (out j mem)]
        exact live j (by simp [mem])
    refine ⟨s', (Run.bind_of_ok first _).trans later, func'.trans func, arena'.trans arena, ready',
      returns', fun j free => ?_⟩
    rw [kept' j fun mem => free (by simp [mem]), kept j fun e => e ▸ free (by simp [e])]

/-- A node's own instructions can be placed: nothing else that is still to come owns them. -/
theorem Fit.exists_placeInsts {placed : List LabelId} {reserved : List BlockId} {s : Lowering}
    {node₀ : Node} (h : Fit a insts func root s) (can : a.Lowerable insts func root)
    (own : a.OwnsReturns insts root) (r : a.Reaches root x) (find₀ : a.find? x = some node₀)
    (expr : node₀.isExpr) (ready : s.draft.Balanced placed reserved) :
    ∃ s', Lower.placeInsts x s = .ok ((), s') ∧ Fit a insts func root s' ∧
      s'.draft.Balanced placed reserved := by
  obtain ⟨node, find, _⟩ := h.find find₀
  have mine : s.arena.instsOf x = node.insts := by simp [Arena.instsOf, find]
  have once : node.insts.Pairwise fun i j => i = j → ¬insts.IsReturn i := by
    rw [← mine]
    rcases h.nodes x with e | e
    · rw [Arena.instsOf, e]
      exact can.pairwise_instsOf own r find₀ expr
    · rw [Arena.instsOf, e, find₀]
      exact .nil
  have isLive := Arena.isLive_of_find? find
  let emptied : Lowering := { s with arena := s.arena.set x { node with insts := [] } }
  obtain ⟨s', run, func', arena', ready', returns, kept⟩ := exists_forM_place (s := emptied) ready
    h.returns once fun i mem => h.live r find₀ expr (mine ▸ mem)
  have take : s.arena.takeInsts x = .ok (node.insts, emptied.arena) := by
    simp [Arena.takeInsts, Arena.get_eq_ok.2 find, bind, Except.bind, pure, Except.pure, emptied]
  refine ⟨s', ?_, ⟨func'.trans h.func_eq, fun n => ?_, fun {n node' i} rn fn en mem => ?_,
    fun {i} => returns i⟩, ready'⟩
  · rw [Lower.placeInsts, Run.get_bind, Run.bind_of_ok (Run.lift_of_ok take)]
    exact run
  · rw [arena']
    by_cases e : n = x
    · subst e
      right
      rw [Arena.find?_set isLive]
      rcases h.nodes n with e | e
      · rw [← e, find]
        rfl
      · rw [find₀, find] at e
        rw [find₀, Option.some.inj e]
        rfl
    · rw [Arena.find?_set_of_ne e]
      exact h.nodes n
  · have ne : n ≠ x := by
      rintro rfl
      simp [Arena.instsOf, arena', emptied, Arena.find?_set isLive] at mem
    have there : i ∈ s.arena.instsOf n := by
      rw [arena', Arena.instsOf, Arena.find?_set_of_ne ne] at mem
      exact mem
    have free : i ∈ node.insts → ¬insts.IsReturn i := fun mem ret =>
      ne (can.owner_unique own ret rn fn en r find₀ expr (h.subset_instsOf n there)
        (h.subset_instsOf x (mine ▸ mem)))
    rw [kept i free]
    exact h.live rn fn en there

/-- The labels placed below nodes. -/
def Arena.labelsBelow (a : Arena) (F : Nat) (xs : List NodeId) : List LabelId :=
  xs.flatMap (a.gather NodeKind.labels F)

/-- A walk below nodes `xs` succeeds where the labels below them are new. It places them and leaves
the cursor on an open block. -/
def Goes (a : Arena) (insts : InstStore) (func : FuncId) (root : NodeId) (fuel : Nat)
    (xs : List NodeId) (walk : Lower Unit) : Prop :=
  ∀ ⦃F s placed reserved⦄, fuel ≤ F → Fit a insts func root s → s.draft.Balanced placed reserved →
    (a.labelsBelow F xs ++ placed).Nodup →
    ∃ s', walk s = .ok ((), s') ∧ Fit a insts func root s' ∧
      s'.draft.Balanced (a.labelsBelow F xs ++ placed) reserved

theorem Arena.labelsBelow_cons (F : Nat) (x : NodeId) (xs : List NodeId) :
    a.labelsBelow F (x :: xs) = a.labelsBelow F [x] ++ a.labelsBelow F xs := by
  simp [labelsBelow]

theorem Arena.labelsBelow_append (F : Nat) (xs ys : List NodeId) :
    a.labelsBelow F (xs ++ ys) = a.labelsBelow F xs ++ a.labelsBelow F ys :=
  List.flatMap_append

/-- A node that places no label itself. -/
theorem Arena.labelsBelow_node {F : Nat} {node : Node} (find : a.find? x = some node)
    (none : node.kind.labels = []) : a.labelsBelow (F + 1) [x] = a.labelsBelow F node.kids := by
  simp [labelsBelow, gather_succ find, none]

theorem Arena.labelsBelow_blank {F : Nat} {node : Node} (find : a.find? x = some node)
    (none : node.kind.labels = []) (kids : node.kids = []) : a.labelsBelow F [x] = [] := by
  cases F with
  | zero => rfl
  | succ F => rw [labelsBelow_node find none, kids]; rfl

theorem goes_forM {fuel : Nat} {walk : NodeId → Lower Unit} {xs : List NodeId}
    (each : ∀ x ∈ xs, Goes a insts func root fuel [x] (walk x)) :
    Goes a insts func root fuel xs (xs.forM walk) := by
  induction xs with
  | nil => exact fun _ s _ _ _ fit ready _ => ⟨s, rfl, fit, ready⟩
  | cons x rest ih =>
    intro F s placed reserved le fit ready nodup
    rw [Arena.labelsBelow_cons] at nodup ⊢
    obtain ⟨s₁, first, fit₁, ready₁⟩ := each x (by simp) le fit ready (nodup_first nodup)
    obtain ⟨s', later, fit', ready'⟩ := ih (fun y mem => each y (by simp [mem])) le fit₁ ready₁
      (nodup_second nodup)
    exact ⟨s', (Run.bind_of_ok first _).trans later, fit', ready'.both⟩

/-- Every part of the walk succeeds that has enough steps for what is below its node. -/
structure Advances (a : Arena) (insts : InstStore) (func : FuncId) (root : NodeId)
    (nodes : List NodeId) (fuel : Nat) : Prop where
  stmt : ∀ {x node}, a.Reaches root x → a.find? x = some node → node.isStmt →
    2 * Arena.rank nodes x < fuel → Goes a insts func root fuel [x] (Lower.walk fuel x)
  choice : ∀ {x node cond thenStmt elseStmt}, a.Reaches root x → a.find? x = some node →
    node.kind = .ifStmt → node.kids = [cond, thenStmt, elseStmt] → 2 * Arena.rank nodes x ≤ fuel →
    Goes a insts func root fuel node.kids (Lower.walkIf fuel cond thenStmt elseStmt)
  switch : ∀ {x node layout}, a.Reaches root x → a.find? x = some node →
    node.kind = .switchStmt layout → 2 * Arena.rank nodes x ≤ fuel →
    Goes a insts func root fuel node.kids (Lower.walkSwitch fuel node.kids layout.cases)
  expr : ∀ {x node}, a.Reaches root x → a.find? x = some node → ¬node.isStmt →
    2 * Arena.rank nodes x < fuel → Goes a insts func root fuel [x] (Lower.emit fuel x)

namespace Advances

variable {nodes kids : List NodeId} {fuel stmtIndex : Nat} {x : NodeId} {node : Node}

section

variable (can : a.Lowerable insts func root) (spread : a.Spread root nodes) (r : a.Reaches root x)
  (find : a.find? x = some node)

include can spread r find

theorem rank_lt {k : NodeId} (kid : k ∈ node.kids) (enough : 2 * Arena.rank nodes x ≤ fuel + 1) :
    2 * Arena.rank nodes k < fuel := by
  have := spread.rank_lt can.shaped r find kid
  omega

variable (h : Advances a insts func root nodes fuel) {k : NodeId} {i : Nat}
  (enough : 2 * Arena.rank nodes x ≤ fuel + 1)

include h enough

theorem kid_stmt (at' : node.kids[i]? = some k) (wants : node.kind.wantsStmt i) :
    Goes a insts func root fuel [k] (Lower.walk fuel k) := by
  have kid := List.mem_of_getElem? at'
  have reach := r.tail ⟨node, find, kid⟩
  obtain ⟨child, found⟩ := can.exists_node reach
  have stmt := ((can.shaped.nodes find).kids at').2 found
  exact h.stmt reach found (stmt.trans wants) (rank_lt can spread r find kid enough)

theorem kid_expr (at' : node.kids[i]? = some k) (wants : node.kind.wantsStmt i = false) :
    Goes a insts func root fuel [k] (Lower.emit fuel k) := by
  have kid := List.mem_of_getElem? at'
  have reach := r.tail ⟨node, find, kid⟩
  obtain ⟨child, found⟩ := can.exists_node reach
  have stmt := ((can.shaped.nodes find).kids at').2 found
  exact h.expr reach found (by simp [stmt, wants]) (rank_lt can spread r find kid enough)

theorem child (kid : k ∈ node.kids) : Goes a insts func root fuel [k]
    (do if (← Lower.node k).isStmt then Lower.walk fuel k else Lower.emit fuel k) := by
  intro F s placed reserved le fit ready nodup
  have reach := r.tail ⟨node, find, kid⟩
  have lt := rank_lt can spread r find kid enough
  obtain ⟨child, found⟩ := can.exists_node reach
  obtain ⟨child', found', kind, _⟩ := fit.find found
  have same : child'.isStmt = child.isStmt := by rw [Node.isStmt, Node.isStmt, kind]
  rw [Run.bind_of_ok (Lower.node_eq found'), same]
  split
  · rename_i stmt
    exact h.stmt reach found stmt lt le fit ready nodup
  · rename_i expr
    exact h.expr reach found expr lt le fit ready nodup

theorem emit (own : a.OwnsReturns insts root) (expr : ¬node.isStmt) :
    Goes a insts func root (fuel + 1) [x] (Lower.emit (fuel + 1) x) := by
  intro F s placed reserved le fit ready nodup
  obtain ⟨F, rfl⟩ : ∃ n, F = n + 1 := ⟨F - 1, by omega⟩
  have isExpr : node.isExpr := by simpa [Node.isExpr_eq] using expr
  have none : node.kind.labels = [] := (NodeKind.labels_of_isExpr isExpr).1
  rw [Arena.labelsBelow_node find none] at nodup ⊢
  obtain ⟨node', find', _, kids, _⟩ := fit.find find
  obtain ⟨s₁, first, fit₁, ready₁⟩ := goes_forM (fun k kid => child can spread r find h enough kid)
    (by omega) fit ready nodup
  obtain ⟨s₂, last, fit₂, ready₂⟩ := fit₁.exists_placeInsts can own r find isExpr ready₁
  refine ⟨s₂, ?_, fit₂, ready₂⟩
  rw [Lower.emit, Run.bind_of_ok (Lower.node_eq find'), kids, Run.bind_of_ok first, last]

end

/-! ## Switches -/

theorem goes_values (scrutinee : Value) (body : BlockId) {xs : List NodeId}
    (each : ∀ x ∈ xs, Goes a insts func root fuel [x] (Lower.emit fuel x) ∧ (a.value? x).isSome) :
    Goes a insts func root fuel xs (xs.forM fun value => do
      Lower.emit fuel value
      Lower.test scrutinee (← Lower.valueOf value) body) := by
  refine goes_forM fun x mem F s placed reserved le fit ready nodup => ?_
  obtain ⟨goes, has⟩ := each x mem
  obtain ⟨value, has⟩ := Option.isSome_iff_exists.1 has
  obtain ⟨s₁, first, fit₁, ready₁⟩ := goes le fit ready nodup
  have second : Lower.test scrutinee value body s₁ = .ok ((), _) :=
    Lower.test_eq_ok.2 ⟨ready₁.isOpen_cursor, rfl⟩
  refine ⟨_, ?_, fit₁.test second, (ready₁.add _).pass _ _⟩
  rw [Run.bind_of_ok first, Run.bind_of_ok (Lower.valueOf_eq (fit₁.value? has)), second]

theorem goes_testCases {scrutinee : Value} (place : Nat → BlockId) {counts : List Nat}
    {body valueIndex : Nat} (bound : valueIndex + total counts ≤ kids.length)
    (each : ∀ x ∈ (kids.drop valueIndex).take (total counts),
      Goes a insts func root fuel [x] (Lower.emit fuel x) ∧ (a.value? x).isSome) :
    Goes a insts func root fuel ((kids.drop valueIndex).take (total counts))
      (Lower.testCases fuel kids scrutinee ((SwitchLayout.place counts valueIndex stmtIndex).zip
        ((List.range' body counts.length).map place))) := by
  induction counts generalizing body valueIndex stmtIndex with
  | nil => exact fun _ s _ _ _ fit ready _ => ⟨s, rfl, fit, ready⟩
  | cons count rest ih =>
    intro F s placed reserved le fit ready nodup
    rw [total] at bound
    rw [slice_values] at each nodup ⊢
    rw [Arena.labelsBelow_append] at nodup ⊢
    obtain ⟨s₁, first, fit₁, ready₁⟩ := goes_values scrutinee (place body)
      (fun x mem => each x (List.mem_append_left _ mem)) le fit ready (nodup_first nodup)
    obtain ⟨s₂, later, fit₂, ready₂⟩ :=
      ih (by omega) (fun x mem => each x (List.mem_append_right _ mem))
      le fit₁ ready₁ (nodup_second nodup)
    refine ⟨s₂, ?_, fit₂, ready₂.both⟩
    have slice := Lower.childrenFrom_eq_ok.2 (⟨by omega, rfl⟩ : valueIndex + count ≤ kids.length ∧
      _)
    refine (Run.bind_of_ok (a := ()) ?_ _).trans later
    exact (Run.bind_of_ok (Run.lift_of_ok slice) _).trans first

theorem exists_walkCases {counts : List Nat} (base valueIndex : Nat) {F : Nat} {s : Lowering}
    {placed : List LabelId} {reserved : List BlockId}
    (bound : stmtIndex + counts.length ≤ kids.length)
    (each : ∀ x ∈ (kids.drop stmtIndex).take counts.length,
      Goes a insts func root fuel [x] (Lower.walk fuel x))
    (le : fuel ≤ F) (fit : Fit a insts func root s)
    (ready : (s.draft.moveTo ⟨base⟩).Balanced placed
      ((List.range' (base + 1) counts.length).map BlockId.mk ++ reserved))
    (nodup : (a.labelsBelow F ((kids.drop stmtIndex).take counts.length) ++ placed).Nodup) :
    ∃ s', Lower.walkCases fuel kids (((SwitchLayout.place counts valueIndex stmtIndex).zip
        ((List.range' base counts.length).map BlockId.mk)).zip
        ((List.range' (base + 1) counts.length).map BlockId.mk)) s = .ok ((), s') ∧
      Fit a insts func root s' ∧ (s'.draft.moveTo ⟨base + counts.length⟩).Balanced
        (a.labelsBelow F ((kids.drop stmtIndex).take counts.length) ++ placed) reserved := by
  induction counts generalizing base valueIndex stmtIndex s placed with
  | nil => exact ⟨s, rfl, fit, ready⟩
  | cons count rest ih =>
    rw [List.length_cons] at bound
    have lt : stmtIndex < kids.length := by omega
    rw [slice_bodies (List.getElem?_eq_getElem lt)] at each nodup ⊢
    rw [Arena.labelsBelow_append] at nodup ⊢
    rw [List.length_cons, List.range'_succ, List.map_cons, List.cons_append] at ready
    obtain ⟨s₁, first, fit₁, ready₁⟩ := each kids[stmtIndex] (by simp) le
      (fit.redraft (s.draft.moveTo ⟨base⟩)) ready (nodup_first nodup)
    obtain ⟨s₂, later, fit₂, ready₂⟩ := ih (base + 1) (valueIndex + count)
      (by omega) (fun x mem => each x (by simp [mem]))
      (fit₁.redraft (s₁.draft.close (.jump ⟨base + 1⟩))) (ready₁.turn _) (nodup_second nodup)
    refine ⟨s₂, ?_, fit₂, ?_⟩
    · refine (Run.bind_of_ok (a := ()) ?_ _).trans later
      have child := Lower.childAt_eq_ok.2 (List.getElem?_eq_getElem lt)
      refine Lower.moveTo_bind_ok.2 ⟨ready.cursor_lt, ?_⟩
      rw [Run.bind_of_ok (Run.lift_of_ok child), Run.bind_of_ok first]
      exact Lower.terminate_eq_ok.2 ⟨ready₁.isOpen_cursor, rfl⟩
    · rw [List.length_cons, Nat.add_comm rest.length, ← Nat.add_assoc]
      exact ready₂.both

section

variable (can : a.Lowerable insts func root) (spread : a.Spread root nodes) (r : a.Reaches root x)
  (find : a.find? x = some node) (h : Advances a insts func root nodes fuel)
  (enough : 2 * Arena.rank nodes x ≤ fuel + 1)

include can spread r find h enough

theorem walkSwitch {layout : SwitchLayout} (kind : node.kind = .switchStmt layout) :
    Goes a insts func root (fuel + 1) node.kids
      (Lower.walkSwitch (fuel + 1) node.kids layout.cases) := by
  intro F s placed reserved le fit ready nodup
  have count : node.kids.length = layout.childCount := by
    have takes := can.complete r find
    rw [kind] at takes
    exact beq_iff_eq.1 takes
  have all := SwitchLayout.walked_eq count
  rw [layout.childCount_eq] at count
  have values : ∀ {i k}, i < 1 + total layout.counts → node.kids[i]? = some k →
      Goes a insts func root fuel [k] (Lower.emit fuel k) ∧ (a.value? k).isSome := by
    intro i k lt at'
    rw [← layout.valueCount_eq] at lt
    exact ⟨kid_expr can spread r find h enough at'
      (by rw [kind]; simpa [NodeKind.wantsStmt] using lt), can.values r find kind lt at'⟩
  have stmts : ∀ {i k}, ¬i < 1 + total layout.counts → node.kids[i]? = some k →
      Goes a insts func root fuel [k] (Lower.walk fuel k) := by
    intro i k ge at'
    rw [← layout.valueCount_eq] at ge
    exact kid_stmt can spread r find h enough at'
      (by rw [kind]; simpa [NodeKind.wantsStmt] using ge)
  obtain ⟨scrutinee, child⟩ : ∃ k, node.kids[0]? = some k :=
    ⟨_, List.getElem?_eq_getElem (by omega)⟩
  have head : node.kids.take 1 = [scrutinee] := by
    rw [List.take_one, List.head?_eq_getElem?, child]
    rfl
  have parts : a.labelsBelow F node.kids = a.labelsBelow F [scrutinee] ++
      (a.labelsBelow F ((node.kids.drop 1).take (total layout.counts)) ++
        a.labelsBelow F ((node.kids.drop (1 + total layout.counts)).take
          layout.counts.length)) := by
    rw [← Arena.labelsBelow_append, ← Arena.labelsBelow_append, ← head]
    exact congrArg _ all.symm
  rw [parts] at nodup ⊢
  have nodup₂ := nodup_second nodup
  obtain ⟨goes, has⟩ := values (by omega) child
  obtain ⟨value, has⟩ := Option.isSome_iff_exists.1 has
  obtain ⟨s₁, first, fit₁, ready₁⟩ := goes (F := F) (by omega) fit ready (nodup_first nodup)
  obtain ⟨s₂, tests, fit₂, ready₂⟩ := goes_testCases BlockId.mk (by omega)
    (fun x mem => by
      obtain ⟨i, _, lt, at'⟩ := exists_getElem?_of_mem_slice mem
      exact values (by omega) at')
    (by omega) (fit₁.redraft (s₁.draft.newSwitch layout.counts.length)) (ready₁.newSwitch _)
    (nodup_first nodup₂)
  rw [List.range'_succ, List.map_cons, List.cons_append] at ready₂
  let exit : Terminator := .jump ⟨s₁.draft.size +
    (SwitchCase.lastDefault layout.cases).getD layout.counts.length⟩
  obtain ⟨s₃, bodies, fit₃, ready₃⟩ := exists_walkCases _ _ (by omega)
    (fun x mem => by
      obtain ⟨i, ge, _, at'⟩ := exists_getElem?_of_mem_slice mem
      exact stmts (by omega) at')
    (by omega) (fit₂.redraft (s₂.draft.close exit)) (ready₂.turn _) (nodup_second nodup₂)
  refine ⟨s₃.redraft (s₃.draft.moveTo ⟨s₁.draft.size + layout.counts.length⟩), ?_, fit₃.redraft _,
    ready₃.both.both⟩
  refine (walkSwitch_eq child first (fit₁.value? has)).trans ((Run.bind_of_ok tests _).trans ?_)
  exact Lower.terminate_bind_ok.2 ⟨ready₂.isOpen_cursor, (Run.bind_of_ok bodies _).trans
    (Lower.moveTo_eq_ok.2 ⟨ready₃.cursor_lt, rfl⟩)⟩

theorem walkIf {cond thenStmt elseStmt : NodeId} (kind : node.kind = .ifStmt)
    (kids : node.kids = [cond, thenStmt, elseStmt]) :
    Goes a insts func root (fuel + 1) node.kids
      (Lower.walkIf (fuel + 1) cond thenStmt elseStmt) := by
  intro F s placed reserved le fit ready nodup
  have evaluates := kid_expr (k := cond) (i := 0) can spread r find h enough (by simp [kids])
    (by rw [kind]; rfl)
  have walks : ∀ {k i}, node.kids[i]? = some k → i ≠ 0 →
      Goes a insts func root fuel [k] (Lower.walk fuel k) := fun at' ne =>
    kid_stmt can spread r find h enough at'
      (by rw [kind]; simpa [NodeKind.wantsStmt] using Nat.pos_of_ne_zero ne)
  have has := can.cond r find kind (k := cond) (by simp [kids])
  obtain ⟨value, has⟩ := Option.isSome_iff_exists.1 has
  obtain ⟨elseNode, findElse⟩ :=
    can.exists_node (n := elseStmt) (r.tail ⟨node, find, by simp [kids]⟩)
  rw [kids, Arena.labelsBelow_cons, Arena.labelsBelow_cons F thenStmt] at nodup ⊢
  have nodup₂ := nodup_second nodup
  -- the condition
  obtain ⟨s₁, first, fit₁, ready₁⟩ := evaluates (F := F) (by omega) fit ready (nodup_first nodup)
  obtain ⟨elseNode', findElse', kindElse, _⟩ := fit₁.find findElse
  have forked {first second : String} := Draft.isOpen_newBlock
    (Draft.isOpen_newBlock ready₁.isOpen_cursor first) second
  by_cases empty : elseNode.kind = .emptyStmt
  · have none : a.labelsBelow F [elseStmt] = [] := Arena.labelsBelow_blank findElse
      (by rw [empty]; rfl) ((can.shaped.nodes findElse).kids_eq_nil (by rw [empty]; rfl))
    rw [none, List.append_nil] at nodup₂ ⊢
    obtain ⟨s₂, second, fit₂, ready₂⟩ := walks (k := thenStmt) (i := 1) (by simp [kids]) (by simp)
      (by omega) (fit₁.redraft (s₁.draft.fork value)) (ready₁.fork value) nodup₂
    have join := (ready₂.turn (.jump ⟨s₁.draft.size + 1⟩)).cursor_lt
    rw [Draft.size_turn] at join
    exact ⟨_, Lower.walkIf_eq_ok.2 ⟨value, _, _, first, fit₁.value? has, findElse',
      .ifThen (kindElse.trans empty) forked second ready₂.isOpen_cursor join⟩, fit₂.redraft _,
      (ready₂.turn _).both⟩
  · obtain ⟨s₂, second, fit₂, ready₂⟩ := walks (k := thenStmt) (i := 1) (by simp [kids]) (by simp)
      (by omega) (fit₁.redraft (s₁.draft.forkElse value)) (ready₁.forkElse value)
      (nodup_first nodup₂)
    let turned := s₂.draft.turn (.jump ⟨s₁.draft.size + 2⟩) ⟨s₁.draft.size + 1⟩
    obtain ⟨s₃, third, fit₃, ready₃⟩ := walks (k := elseStmt) (i := 2) (by simp [kids]) (by simp)
      (by omega) (fit₂.redraft turned) (ready₂.turn _) (nodup_second nodup₂)
    have turn := (ready₂.turn (.jump ⟨s₁.draft.size + 2⟩)).cursor_lt
    have join := (ready₃.turn (.jump ⟨s₁.draft.size + 2⟩)).cursor_lt
    rw [Draft.size_turn] at turn join
    exact ⟨_, Lower.walkIf_eq_ok.2 ⟨value, _, _, first, fit₁.value? has, findElse',
      .ifElse (kindElse ▸ empty) (Draft.isOpen_newBlock forked _) second ready₂.isOpen_cursor third
        ready₃.isOpen_cursor turn join⟩, fit₃.redraft _, (ready₃.both.turn _).both⟩

omit enough in
theorem walk (stmt : node.isStmt) (lt : 2 * Arena.rank nodes x < fuel + 1) :
    Goes a insts func root (fuel + 1) [x] (Lower.walk (fuel + 1) x) := by
  intro F s placed reserved le fit ready nodup
  have enough := Nat.le_of_lt lt
  obtain ⟨F, rfl⟩ : ∃ n, F = n + 1 := ⟨F - 1, by omega⟩
  obtain ⟨node', find', sameKind, sameKids, _⟩ := fit.find find
  have fine := can.complete r find
  have shape := can.shaped.nodes find
  rw [Lower.walk, Run.bind_of_ok (Lower.node_eq find'), sameKind, sameKids]
  cases kind : node.kind
  case blockStmt =>
    rw [Arena.labelsBelow_node find (by rw [kind]; rfl)] at nodup ⊢
    exact goes_forM (fun k kid => by
      obtain ⟨i, at'⟩ := List.mem_iff_getElem?.1 kid
      exact kid_stmt can spread r find h enough at' (by rw [kind]; rfl)) (by omega) fit ready nodup
  case exprStmt =>
    rw [Arena.labelsBelow_node find (by rw [kind]; rfl)] at nodup ⊢
    rw [NodeKind.takes_eq (n := 1) (by rw [kind]; rfl)] at fine
    obtain ⟨k, kids⟩ := List.length_eq_one_iff.1 (beq_iff_eq.1 fine).symm
    have goes := kid_expr can spread r find h enough (k := k) (i := 0) (by simp [kids])
      (by rw [kind]; rfl)
    rw [kids] at nodup ⊢
    exact goes (by omega) fit ready nodup
  case ifStmt =>
    rw [Arena.labelsBelow_node find (by rw [kind]; rfl)] at nodup ⊢
    rw [NodeKind.takes_eq (n := 3) (by rw [kind]; rfl)] at fine
    obtain ⟨cond, thenStmt, elseStmt, kids⟩ := List.length_eq_three.1 (beq_iff_eq.1 fine).symm
    have goes := h.choice r find kind kids (by omega)
    rw [kids] at goes nodup ⊢
    exact goes (by omega) fit ready nodup
  case labelStmt owner l =>
    have mine : owner = s.func := (can.labels r find (.inl kind)).trans fit.func_eq.symm
    have own : a.labelsBelow (F + 1) [x] = [l] := by
      simp [Arena.labelsBelow, Arena.gather_succ find, kind, NodeKind.labels,
        shape.kids_eq_nil (by rw [kind]; rfl)]
    rw [own] at nodup ⊢
    simp only [mine]
    have ready' := ready.label (List.nodup_cons.1 nodup).1 (.jump (s.draft.target l))
    have there := ready'.cursor_lt
    rw [Draft.size_turn] at there
    exact ⟨_, (Run.bind_of_ok (Lower.labelBlock_eq_ok.2 ⟨rfl, rfl, rfl⟩) _).trans
      (Lower.turn_eq_ok.2 ⟨(ready.meet l).isOpen_cursor, there, rfl⟩), fit.redraft _, ready'⟩
  case gotoStmt owner l =>
    have mine : owner = s.func := (can.labels r find (.inr kind)).trans fit.func_eq.symm
    rw [Arena.labelsBelow_blank find (by rw [kind]; rfl) (shape.kids_eq_nil (by rw [kind]; rfl))]
    simp only [mine]
    refine ⟨_, (Run.bind_of_ok (Lower.labelBlock_eq_ok.2 ⟨rfl, rfl, rfl⟩) _).trans
      (Lower.drop_eq_ok.2 ⟨?_, rfl⟩), fit.redraft _, (ready.meet l).drop _⟩
    exact (ready.meet l).isOpen_cursor
  case switchStmt layout =>
    rw [Arena.labelsBelow_node find (by rw [kind]; rfl)] at nodup ⊢
    exact h.switch r find kind (by omega) (by omega) fit ready nodup
  case emptyStmt | errorStmt =>
    rw [Arena.labelsBelow_blank find (by rw [kind]; rfl) (shape.kids_eq_nil (by rw [kind]; rfl))]
    exact ⟨s, rfl, fit, ready⟩
  all_goals
    rw [Node.isStmt, kind] at stmt
    cases stmt

end

end Advances

theorem advances (can : a.Lowerable insts func root) (own : a.OwnsReturns insts root)
    {nodes : List NodeId} (spread : a.Spread root nodes) (fuel : Nat) :
    Advances a insts func root nodes fuel := by
  induction fuel with
  | zero =>
    refine ⟨fun _ _ _ lt => by omega, fun {x node cond _ _} r find _ kids le => ?_,
      fun {x node layout} r find kind le => ?_, fun _ _ _ lt => by omega⟩
    · have := spread.rank_lt can.shaped r find (k := cond) (by simp [kids])
      omega
    · have takes := can.complete r find
      rw [kind] at takes
      have count : node.kids.length = layout.childCount := beq_iff_eq.1 takes
      rw [layout.childCount_eq] at count
      have := spread.rank_lt can.shaped r find (List.getElem_mem (n := 0) (by omega))
      omega
  | succ fuel ih =>
    exact ⟨fun r find stmt lt => Advances.walk can spread r find ih stmt lt,
      fun r find kind kids le => Advances.walkIf can spread r find ih le kind kids,
      fun r find kind le => Advances.walkSwitch can spread r find ih le kind,
      fun r find expr lt => Advances.emit can spread r find ih (Nat.le_of_lt lt) own expr⟩

/-- A statement can be lowered without running into an assertion, whatever is nested in it. -/
theorem exists_lowerBody (can : a.Lowerable insts func root) (own : a.OwnsReturns insts root)
    (entry : List InstId) (void : Bool) :
    ∃ body a' insts', lowerBody func a insts root entry void = .ok (body, a', insts') := by
  obtain ⟨nodes, spread⟩ := Arena.exists_spread_of_sharing can.single
  obtain ⟨node, find, stmt⟩ := can.stmt
  have small := spread.rank_le
  let start := Lowering.start func a insts
  have first : Lower.append entry start = .ok ((), start.redraft (start.draft.add entry)) :=
    Lower.append_eq_ok.2 ⟨by rfl, rfl⟩
  have fit : Fit a insts func root (start.redraft (start.draft.add entry)) :=
    ⟨rfl, fun _ => .inl rfl, fun r _ _ mem => can.insts r mem, id⟩
  have nodup : (a.labelsBelow (8 * (a.size + 1)) [root] ++ []).Nodup := by
    rw [List.append_nil, Arena.labelsBelow, List.flatMap_singleton]
    exact can.nodup_gather _ .refl
  obtain ⟨s, run, _⟩ := (advances can own spread (8 * (a.size + 1))).stmt .refl find stmt (by omega)
    (Nat.le_refl _) fit (Draft.balanced_start entry) nodup
  have all : Lower.tree entry (8 * (a.size + 1)) root start = .ok ((), s) :=
    (Run.bind_of_ok first _).trans run
  exact ⟨s.builder.finish void, s.arena, s.insts, bind_eq_ok.2 ⟨((), s), all, rfl⟩⟩

end

def returnStore : InstStore := ⟨#[some ⟨.ret none, .void⟩], 1⟩

/-- A condition that returns, with a jump in one branch and its label in the other. -/
def restlessArena : Arena :=
  ⟨Arena.initial.nodes ++ #[
    some { Node.fresh .const [] .bool .synthetic with
      value := some (.const (.bool true)), flags := ⟨false, true⟩, insts := [⟨0⟩] },
    some (Node.fresh (.gotoStmt ⟨0⟩ ⟨0⟩) [] .void .synthetic),
    some (Node.fresh (.labelStmt ⟨0⟩ ⟨0⟩) [] .void .synthetic),
    some (Node.fresh .ifStmt [⟨2⟩, ⟨3⟩, ⟨4⟩] .void .synthetic)]⟩

theorem built_restlessArena : restlessArena.Built := by
  let one := (Arena.initial.makeLeaf .const .bool (.const (.bool true)) ⟨false, true⟩ .synthetic).2
  let two := one.set ⟨2⟩ { Node.fresh .const [] .bool .synthetic with
    value := some (.const (.bool true)), flags := ⟨false, true⟩, insts := [⟨0⟩] }
  let three := (two.add (.fresh (.gotoStmt ⟨0⟩ ⟨0⟩) [] .void .synthetic)).2
  let four := (three.add (.fresh (.labelStmt ⟨0⟩ ⟨0⟩) [] .void .synthetic)).2
  have own : one.appendInst ⟨2⟩ ⟨0⟩ = .ok two := rfl
  have jump : two.make (.gotoStmt ⟨0⟩ ⟨0⟩) [] .void .synthetic = .ok (⟨3⟩, three) := rfl
  have label : three.make (.labelStmt ⟨0⟩ ⟨0⟩) [] .void .synthetic = .ok (⟨4⟩, four) := rfl
  have choice : four.make .ifStmt [⟨2⟩, ⟨3⟩, ⟨4⟩] .void .synthetic = .ok (⟨5⟩, restlessArena) := rfl
  have built := (Arena.Built.initial.edit .makeLeaf).edit (.appendInst own)
  exact ((built.edit (.make (by simp) jump)).edit (.make (by simp) label)).edit
    (.make (by simp) choice)

theorem exists_lowerBody_restless :
    restlessArena.Lowerable returnStore ⟨0⟩ ⟨5⟩ ∧ restlessArena.OwnsReturns returnStore ⟨5⟩ ∧
      ∃ body a' insts', lowerBody ⟨0⟩ restlessArena returnStore ⟨5⟩ [] true =
        .ok (body, a', insts') := by
  have reached : ∀ {n}, restlessArena.Reaches ⟨5⟩ n → n = ⟨5⟩ ∨ n = ⟨2⟩ ∨ n = ⟨3⟩ ∨ n = ⟨4⟩ :=
    fun r => by simpa using r.mem [⟨5⟩, ⟨2⟩, ⟨3⟩, ⟨4⟩] (by decide) (by decide)
  have can : restlessArena.Lowerable returnStore ⟨0⟩ ⟨5⟩ := by
    refine ⟨built_restlessArena.wellFormed, ⟨_, rfl, rfl⟩, fun r => ?_, fun r find => ?_, by rfl,
      fun r mem => ?_, fun r find kind => ?_, fun r r' find find' kind kind' => ?_,
      fun r find kind at' => ?_, fun r find kind => ?_⟩
    · rcases reached r with rfl | rfl | rfl | rfl <;> rfl
    · rcases reached r with rfl | rfl | rfl | rfl <;> cases find <;> rfl
    · rcases reached r with rfl | rfl | rfl | rfl <;> decide +revert
    · rcases reached r with rfl | rfl | rfl | rfl <;> cases find <;>
        rcases kind with kind | kind <;> cases kind <;> rfl
    · rcases reached r with rfl | rfl | rfl | rfl <;> cases find <;> cases kind
      rcases reached r' with rfl | rfl | rfl | rfl <;> cases find' <;> cases kind'
      rfl
    · rcases reached r with rfl | rfl | rfl | rfl <;> cases find <;> cases kind
      cases at'
      rfl
    · rcases reached r with rfl | rfl | rfl | rfl <;> cases find <;> cases kind
  have own : restlessArena.OwnsReturns returnStore ⟨5⟩ := by
    intro r
    rcases reached r with e | e | e | e <;> cases e
  exact ⟨can, own, exists_lowerBody can own [] true⟩

/-! ## Sentinels that own instructions -/

/-- An expression and the error expression own the same return. -/
def sharedReturnArena : Arena :=
  ⟨#[
    some { Node.fresh .error [] .error .synthetic with insts := [⟨0⟩] },
    some (Node.fresh .errorStmt [] .void .synthetic),
    some { Node.fresh .const [] .bool .synthetic with
      value := some (.const (.bool true)), flags := ⟨false, true⟩, insts := [⟨0⟩] },
    some (Node.fresh .exprStmt [⟨2⟩] .void .synthetic),
    some (Node.fresh .exprStmt [⟨0⟩] .void .synthetic),
    some (Node.fresh .blockStmt [⟨3⟩, ⟨4⟩] .void .synthetic)]⟩

theorem built_sharedReturnArena : sharedReturnArena.Built := by
  let one := (Arena.initial.makeLeaf .const .bool (.const (.bool true)) ⟨false, true⟩ .synthetic).2
  let two := one.set ⟨2⟩ { Node.fresh .const [] .bool .synthetic with
    value := some (.const (.bool true)), flags := ⟨false, true⟩, insts := [⟨0⟩] }
  let three := two.set ⟨0⟩ { Node.fresh .error [] .error .synthetic with insts := [⟨0⟩] }
  let four := (three.add (.fresh .exprStmt [⟨2⟩] .void .synthetic)).2
  let five := (four.add (.fresh .exprStmt [⟨0⟩] .void .synthetic)).2
  have own : one.appendInst ⟨2⟩ ⟨0⟩ = .ok two := rfl
  have ownToo : two.appendInst ⟨0⟩ ⟨0⟩ = .ok three := rfl
  have stmt : three.make .exprStmt [⟨2⟩] .void .synthetic = .ok (⟨3⟩, four) := rfl
  have error : four.make .exprStmt [⟨0⟩] .void .synthetic = .ok (⟨4⟩, five) := rfl
  have block : five.make .blockStmt [⟨3⟩, ⟨4⟩] .void .synthetic = .ok (⟨5⟩, sharedReturnArena) :=
    rfl
  have built₁ := (Arena.Built.initial.edit .makeLeaf).edit (.appendInst own)
  have built₂ := (built₁.edit (.appendInst ownToo)).edit (.make (by simp) stmt)
  exact (built₂.edit (.make (by simp) error)).edit (.make (by simp) block)

/-- The integrity check passes over sentinels, so it does not see that a return is owned twice. The
return is freed where it is met first, and lowering fails where it is met again. -/
theorem lowerBody_sharedReturn :
    sharedReturnArena.Lowerable returnStore ⟨0⟩ ⟨5⟩ ∧
      lowerBody ⟨0⟩ sharedReturnArena returnStore ⟨5⟩ [] true = .error (.freedInst ⟨0⟩) := by
  have reached : ∀ {n}, sharedReturnArena.Reaches ⟨5⟩ n →
      n = ⟨5⟩ ∨ n = ⟨3⟩ ∨ n = ⟨4⟩ ∨ n = ⟨2⟩ ∨ n = ⟨0⟩ := fun r => by
    simpa using r.mem [⟨5⟩, ⟨3⟩, ⟨4⟩, ⟨2⟩, ⟨0⟩] (by decide) (by decide)
  refine ⟨⟨built_sharedReturnArena.wellFormed, ⟨_, rfl, rfl⟩, fun r => ?_, fun r find => ?_, by rfl,
    fun r mem => ?_, fun r find kind => ?_, fun r _ find _ kind _ => ?_, fun r find kind => ?_,
    fun r find kind => ?_⟩, by decide +kernel⟩
  · rcases reached r with rfl | rfl | rfl | rfl | rfl <;> rfl
  · rcases reached r with rfl | rfl | rfl | rfl | rfl <;> cases find <;> rfl
  · rcases reached r with rfl | rfl | rfl | rfl | rfl <;> decide +revert
  · rcases reached r with rfl | rfl | rfl | rfl | rfl <;> cases find <;>
      rcases kind with kind | kind <;> cases kind
  · rcases reached r with rfl | rfl | rfl | rfl | rfl <;> cases find <;> cases kind
  · rcases reached r with rfl | rfl | rfl | rfl | rfl <;> cases find <;> cases kind
  · rcases reached r with rfl | rfl | rfl | rfl | rfl <;> cases find <;> cases kind

end Codegen
