import Codegen.Proofs.Compilation.Takes

/-!
Nodes that are taken for good: statements that join a block, trees that become a body, an initial
value or a constant of the unit.
-/

namespace Codegen

namespace Compilation

variable {c c' : Compilation} {root : NodeId} {rest : List NodeId}

/-- A tree dies. Its instructions may die with it, and so may returns elsewhere. -/
structure Prunes (c c' : Compilation) (root : NodeId) : Prop where
  size : c'.arena.size = c.arena.size
  frame : ∀ {n}, ¬(¬root.isSentinel ∧ c.arena.Below root n) → c'.arena.find? n = c.arena.find? n
  dead : ∀ {n}, ¬root.isSentinel → c.arena.Below root n → c'.arena.find? n = none
  insts_le : c.insts.slots.size ≤ c'.insts.slots.size
  store : ∀ {n i inst}, ¬(¬root.isSentinel ∧ c.arena.Below root n) → i ∈ c.arena.instsOf n →
    c.insts.find? i = some inst → inst.kind.isRet = false → c'.insts.find? i = some inst
  allocas : ∀ {j}, c.insts.Allocates j → c'.insts.Allocates j
  slots : ∀ {j}, c'.Reserves j → c.Reserves j
  types : c'.types = c.types

namespace Prunes

theorem nodes (h : c.Prunes c' root) {n : NodeId} {node : Node}
    (find : c'.arena.find? n = some node) : c.arena.find? n = some node := by
  by_cases out : ¬root.isSentinel ∧ c.arena.Below root n
  · simp [h.dead out.1 out.2] at find
  · exact (h.frame out).symm.trans find

theorem forest (h : c.Prunes c' root) (forest : c.arena.Forest) (isRoot : c.arena.IsRoot root) :
    c'.arena.Forest := by
  by_cases s : root.isSentinel
  · have same (n : NodeId) := h.frame (n := n) fun out => out.1 s
    refine forest.of_kidsOf (fun n => Arena.kidsOf_congr (same n)) fun n live => ?_
    rwa [Arena.isLive, same]
  · exact forest.prune isRoot (fun n out => h.frame fun both => out both.2) fun n => h.dead s

theorem orderly (h : c.Prunes c' root) (o : c.Orderly) (isRoot : c.arena.IsRoot root) :
    c'.Orderly where
  sentinels := h.size ▸ o.sentinels
  forest := h.forest o.forest isRoot
  blank {id node} s find := by
    refine o.blank s ((h.frame fun out => ?_).symm.trans find)
    exact Arena.not_isSentinel_of_below out.1 out.2 s
  insts {n i} mem := by
    by_cases out : ¬root.isSentinel ∧ c.arena.Below root n
    · simp [Arena.instsOf, h.dead out.1 out.2] at mem
    · rw [Arena.instsOf, h.frame out] at mem
      exact Nat.lt_of_lt_of_le (o.insts mem) h.insts_le
  slots slot := h.allocas (o.slots (h.slots slot))

/-- The other roots stay as they are. -/
theorem tidy (h : c.Prunes c' root) (t : c.Tidy (root :: rest)) :
    c'.Tidy rest ∧ c.Leaves c' rest := by
  have isRoot := t.roots root (by simp)
  have away {x n : NodeId} (mem : x ∈ rest) (plain : ¬x.isSentinel) (below : c.arena.Below x n) :
      ¬(¬root.isSentinel ∧ c.arena.Below root n) := by
    rintro ⟨-, other⟩
    have e := t.forest.eq_of_below isRoot (t.roots x (by simp [mem])) other below
    exact t.ne_head plain mem e
  have t' := t.sublist (List.sublist_cons_self root rest)
  refine ⟨⟨h.orderly t.toOrderly isRoot, t'.apart, fun n mem p kid => ?_,
    fun n mem => h.size ▸ t'.known n mem⟩, fun x mem plain _ n below => ?_, h.allocas⟩
  · by_cases out : ¬root.isSentinel ∧ c.arena.Below root p
    · simp [Arena.kidsOf, h.dead out.1 out.2] at kid
    · rw [Arena.kidsOf_congr (h.frame out)] at kid
      exact t'.roots n mem p kid
  · have out := away mem plain below
    exact ⟨h.frame out, fun i attached inst => h.store out attached⟩

end Prunes

/-- A root becomes the last statement of a block. -/
theorem Tidy.append {block k : NodeId} {node : Node} (t : c.Tidy (k :: rest))
    (find : c.arena.find? block = some node) (stmt : node.isExpr = false)
    (live : c.arena.isLive k) :
    let c' := { c with arena := c.arena.set block { node with kids := node.kids ++ [k] } }
    c'.Tidy rest ∧ c.Leaves c' rest := by
  intro c'
  have alive := Arena.isLive_of_find? find
  have t' := t.sublist (List.sublist_cons_self k rest)
  have frame {n : NodeId} (ne : n ≠ block) : c'.arena.find? n = c.arena.find? n :=
    Arena.find?_set_of_ne ne
  have self : c'.arena.find? block = some { node with kids := node.kids ++ [k] } :=
    Arena.find?_set alive
  have insts (n : NodeId) : c'.arena.instsOf n = c.arena.instsOf n := by
    by_cases e : n = block
    · rw [e, Arena.instsOf_eq_of_find? self, Arena.instsOf_eq_of_find? find]
    · rw [Arena.instsOf, frame e]
      rfl
  have orderly : c'.Orderly := by
    refine ⟨(Arena.size_set ..).symm ▸ t.sentinels, t.forest.append find (t.roots k (by simp)) live,
      fun {id other} s found => ?_, fun {n i} mem => t.insts (insts n ▸ mem), t.slots⟩
    by_cases e : id = block
    · subst e
      have blank := t.blank s find
      cases self.symm.trans found
      exact blank
    · exact t.blank s ((frame e).symm.trans found)
  refine ⟨⟨orderly, t'.apart, fun n mem p kid => ?_, fun n mem => ?_⟩,
    fun x mem plain tree n below => ?_, fun alloca => alloca⟩
  · rcases Arena.kid_of_append find kid with ⟨-, rfl⟩ | kid
    · exact t.ne_head (Arena.not_isSentinel_of_mem_kidsOf ‹_›) mem rfl
    · exact t'.roots n mem p kid
  · exact (Arena.size_set ..).symm ▸ t'.known n mem
  · have ne : n ≠ block := by
      rintro rfl
      simp [tree n node below find] at stmt
    exact ⟨frame ne, fun _ _ _ found _ => found⟩

end Compilation

namespace Build

variable {c c' c₀ : Compilation} {root block : NodeId} {rest constants : List NodeId} {u : Unit}

/-! ## Blocks -/

theorem tidy_appendChild {k : NodeId} (t : c.Tidy (k :: rest))
    (run : changeArena (·.appendChild block k) c = .ok (u, c')) :
    c'.Tidy rest ∧ c.Leaves c' rest := by
  obtain ⟨arena, step, rfl⟩ := changeArena_ok run
  obtain ⟨node, child, find, kind, found, -, rfl⟩ := Arena.appendChild_ok step
  have stmt : node.isExpr = false := by simp [Node.isExpr, kind, NodeKind.isExpr, NodeKind.isStmt]
  exact t.append find stmt (Arena.isLive_of_find? found)

theorem tidy_addToBlock {stmts : List NodeId}
    (t : c.Tidy ((if block = .errorStmt ∨ .errorStmt ∈ stmts then [] else stmts) ++ rest))
    (run : addToBlock block stmts c = .ok (u, c')) : c'.Tidy rest ∧ c.Leaves c' rest := by
  rw [addToBlock] at run
  split at run
  · rename_i refused
    obtain ⟨-, rfl⟩ := Run.pure_ok run
    rw [if_pos refused] at t
    exact ⟨t, .refl _ _⟩
  · rename_i fine
    rw [if_neg fine] at t
    clear fine
    induction stmts generalizing c with
    | nil =>
      cases run
      exact ⟨t, .refl _ _⟩
    | cons k stmts ih =>
      obtain ⟨c₁, first, later⟩ := Run.forM_cons_ok run
      obtain ⟨t₁, leaves⟩ := tidy_appendChild t first
      obtain ⟨t₂, leaves'⟩ := ih t₁ later
      exact ⟨t₂, (leaves.mono fun n mem => List.mem_append_right stmts mem).trans leaves'⟩

/-! ## Destruction -/

/-- A tree dies with its instructions, which are no one else's and no slots. -/
theorem prunes_destroy (sound : c.Sound) (run : destroy root .all c = .ok (u, c')) :
    c.Prunes c' root := by
  rw [destroy, Run.get_bind] at run
  obtain ⟨⟨arena, insts⟩, e, run⟩ := Run.lift_bind_ok run
  cases run
  have razed := Arena.razed_of_destroyWithin _ e
  refine ⟨razed.size, razed.spared, razed.dead_of_below (by decide),
    Nat.le_of_eq razed.slots.symm, fun {n i inst} out mem found _ => ?_,
    sound.allocates_of_razed razed, fun h => h, rfl⟩
  rcases razed.store i with same | ⟨-, m, doomed, attached⟩
  · exact same.trans found
  · have owner := sound.owned.unique mem attached
    exact absurd ⟨doomed.1, owner ▸ doomed.2.1⟩ out

theorem tidy_setGlobalInit {var : VarId} {init : NodeId} (sound : c.Sound)
    (t : c.Tidy ((if c.affirms (isErrorVar var) ∨
      c.affirms (isErrorExpr init) then [] else [init]) ++ rest))
    (run : setGlobalInit var init c = .ok (u, c')) : c'.Tidy rest ∧ c.Leaves c' rest := by
  have done (refused : c.affirms (isErrorVar var) ∨ c.affirms (isErrorExpr init))
      (e : c' = c) : c'.Tidy rest ∧ c.Leaves c' rest := by
    rw [if_pos refused] at t
    exact ⟨e ▸ t, e ▸ .refl _ _⟩
  rw [setGlobalInit] at run
  have run := isErrorVar_bind_ok run
  split at run
  · exact done (.inl ‹_›) (Run.pure_ok run).2
  rename_i fine
  have run := isErrorExpr_bind_ok run
  split at run
  · exact done (.inr ‹_›) (Run.pure_ok run).2
  rename_i fine'
  rw [if_neg (by simp [fine, fine'])] at t
  obtain ⟨v, -, run⟩ := getVariable_bind_ok run
  cases storage : v.storage <;> simp only [storage] at run
  case global global =>
    obtain ⟨value, -, run⟩ := ask_bind_ok run
    obtain ⟨data, -, run⟩ := ask_bind_ok run
    split at run
    · cases run
    obtain ⟨_, c₁, set, run⟩ := Run.bind_ok.1 run
    obtain ⟨sound₁, -⟩ := steady_setGlobals _ c _ c₁ sound set
    have beside : c.Extends c₁ := by
      cases set
      exact .of_same rfl rfl rfl rfl
    obtain ⟨t', leaves⟩ := (prunes_destroy sound₁ run).tidy (beside.tidy t)
    exact ⟨t', (beside.leaves t.toOrderly).trans leaves⟩
  all_goals cases run

/-- Whether an expression is an error does not change while others die. -/
theorem affirms_isErrorExpr_eq {expr : NodeId} {b : Bool} (types : c.types = c₀.types)
    (nodes : ∀ {n node}, c.arena.find? n = some node → c₀.arena.find? n = some node)
    (asked : isErrorExpr expr c = .ok (b, c')) : c₀.affirms (isErrorExpr expr) = b := by
  rw [isErrorExpr] at asked
  rw [Compilation.affirms, isErrorExpr]
  split at asked
  · obtain ⟨rfl, -⟩ := Run.pure_ok asked
    rw [if_pos ‹_›]
    rfl
  · rw [if_neg ‹_›]
    obtain ⟨node, find, asked⟩ := getNode_bind_ok asked
    obtain ⟨answer, -⟩ := ask_ok asked
    have got : getNode expr c₀ = .ok (node, c₀) := by
      rw [getNode, ask, Run.get_bind]
      exact Run.lift_of_ok (Arena.get_eq_ok.2 (nodes find))
    rw [Run.bind_of_ok got, isErrorType, ask, Run.get_bind, ← types, Run.lift_of_ok answer]

/-- Constants are taken one after the other, but for errors. -/
theorem tidy_takeConstants {values : List GlobalInit} (types : c.types = c₀.types)
    (nodes : ∀ {n node}, c.arena.find? n = some node → c₀.arena.find? n = some node)
    (sound : c.Sound)
    (t : c.Tidy (constants.filter (fun constant => !c₀.affirms (isErrorExpr constant)) ++ rest))
    (run : takeConstants constants c = .ok (values, c')) : c'.Tidy rest ∧ c.Leaves c' rest := by
  induction constants generalizing c values with
  | nil =>
    obtain ⟨-, rfl⟩ := Run.pure_ok run
    exact ⟨t, .refl _ _⟩
  | cons constant constants ih =>
    rw [takeConstants] at run
    obtain ⟨b, c₁, asked, run⟩ := Run.bind_ok.1 run
    have same := affirms_isErrorExpr_eq types nodes asked
    rw [isErrorExpr_same asked] at run
    cases b with
    | true =>
      rw [List.filter_cons_of_neg (by simp [same])] at t
      exact ih types nodes sound t run
    | false =>
      rw [List.filter_cons_of_pos (by simp [same])] at t
      obtain ⟨value, -, run⟩ := ask_bind_ok run
      obtain ⟨_, c₁, destroyed, run⟩ := Run.bind_ok.1 run
      obtain ⟨later, c₂, taken, run⟩ := Run.bind_ok.1 run
      obtain ⟨-, rfl⟩ := Run.pure_ok run
      have dies := prunes_destroy sound destroyed
      obtain ⟨t₁, leaves⟩ := dies.tidy t
      obtain ⟨sound₁, -⟩ := steady_destroy constant c _ c₁ sound destroyed
      obtain ⟨t₂, leaves'⟩ := ih (dies.types.trans types) (fun find => nodes (dies.nodes find))
        sound₁ t₁ taken
      exact ⟨t₂, (leaves.mono fun n mem => List.mem_append_right _ mem).trans leaves'⟩

theorem tidy_definitions {types : List TypeId} {functions : List FuncId} {vars : List VarId}
    {defs : Definitions} (sound : c.Sound)
    (t : c.Tidy (constants.filter (fun constant => !c.affirms (isErrorExpr constant)) ++ rest))
    (run : definitions types constants functions vars c = .ok (defs, c')) :
    c'.Tidy rest ∧ c.Leaves c' rest := by
  obtain ⟨values, c₁, taken, run⟩ := Run.bind_ok.1 run
  obtain ⟨t₁, leaves⟩ := tidy_takeConstants rfl (fun find => find) sound t taken
  have later := Obeys.bind (L := idling) (obeys_takeGlobals vars) (fun _ => .bind (.filterM fun _ =>
    .bind (.ask _) fun _ => .pure _) fun _ => .bind (.mapM fun _ => .ask _) fun _ => .pure _)
    c₁ defs c' trivial run
  exact ⟨later.tidy t₁, leaves.trans (later.leaves t₁.toOrderly)⟩

/-! ## Bodies -/

/-- The tree of a body dies. Its instructions are in the body now, but for returns. -/
theorem prunes_defines {func : FuncId} {f f' : Function} {entry : List InstId}
    {insts insts' : InstStore} {void : Bool} {body : Body} {a : Arena} (sound : c.Sound)
    (h : Defines func root c c' f f' entry insts void body a insts') : c.Prunes c' root := by
  obtain ⟨opens, rfl⟩ := (sound.functions f (Array.mem_of_getElem? h.found)).opens h.materialized
  have live := h.isLive_iff sound.shaped
  refine ⟨h.size_eq, fun {n} out => ?_, fun {n} plain below => ?_,
    Nat.le_trans opens.size_le h.later.size_le,
    fun {n i inst} _ mem found noRet => ?_, h.allocates opens,
      fun {j} reserved => ?_, by rw [h.rest]⟩
  · rcases h.find?_cases sound n with same | ⟨gone, plain⟩
    · exact same
    · have alive : ¬c'.arena.isLive n := by simp [Arena.isLive, gone]
      rw [live n, not_and, Classical.not_not] at alive
      cases find : c.arena.find? n with
      | none => exact gone
      | some node =>
        obtain ⟨below, -⟩ := alive (Arena.isLive_of_find? find)
        have s : root.isSentinel := by
          by_contra s
          exact out ⟨s, below⟩
        have e := sound.shaped.eq_of_reaches s (Arena.reaches_of_below below)
        exact absurd (e ▸ s) plain
  · have dead : ¬c'.arena.isLive n := fun alive =>
      ((live n).1 alive).2 ⟨below, Arena.not_isSentinel_of_below plain below⟩
    simpa [Arena.isLive] using dead
  · have early := (opens.old (InstStore.lt_of_find? found)).trans found
    rcases h.later.kept early with kept | ⟨-, v, ret⟩
    · exact kept
    · simp [ret, InstKind.isRet] at noRet
  · rw [h.rest] at reserved
    rcases reserved with slot | ⟨g, mem, spill⟩
    · exact .inl slot
    · rcases Compilation.mem_of_mem_modify mem with rfl | mem
      · exact .inr ⟨f, Array.mem_of_getElem? h.found, spill⟩
      · exact .inr ⟨g, mem, spill⟩

theorem tidy_setBody {func : FuncId} {done : Bool} (sound : c.Sound)
    (t : c.Tidy ((if done then [root] else []) ++ rest))
    (run : setBody func root c = .ok (done, c')) :
    c'.Tidy rest ∧ c.Leaves c' rest := by
  obtain ⟨rfl, rfl⟩ | ⟨rfl, f, f', entry, insts, void, body, a, insts', defines⟩ := setBody_ok run
  · exact ⟨t, .refl _ _⟩
  · exact (prunes_defines sound defines).tidy t

end Build

end Codegen
