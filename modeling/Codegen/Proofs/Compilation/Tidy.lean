import Codegen.Proofs.Compilation.Slots
import Codegen.Proofs.Tree.Forest

/-!
Compilations whose nodes are a forest, with some of its roots at hand, and how they change: beside
the nodes, or within some of the trees.
-/

namespace Codegen

/-- An expression without statements in it. -/
def Arena.IsExprTree (a : Arena) (x : NodeId) : Prop :=
  ∀ n node, a.Below x n → a.find? n = some node → node.isExpr

namespace Compilation

variable {c c' c'' : Compilation} {hand rest : List NodeId} {P Q : NodeId → Prop}

/-- The slot of a variable, or of a parameter of a function. -/
def Reserves (c : Compilation) (j : InstId) : Prop :=
  c.IsSlot j ∨ ∃ f ∈ c.functions, j ∈ f.spills.map (·.2)

/-- The nodes are a forest, sentinels have no value, and what is attached or a slot exists. -/
structure Orderly (c : Compilation) : Prop where
  sentinels : 2 ≤ c.arena.size
  forest : c.arena.Forest
  blank : ∀ {id node}, id.isSentinel → c.arena.find? id = some node →
    node.value = none ∧ node.isBuilding = false
  insts : ∀ {n i}, i ∈ c.arena.instsOf n → i.index < c.insts.slots.size
  slots : ∀ {j}, c.Reserves j → c.insts.Allocates j

/-- The nodes are a forest, and some of its roots are at hand, each of them once. -/
structure Tidy (c : Compilation) (hand : List NodeId) : Prop extends c.Orderly where
  apart : (hand.filter (!·.isSentinel)).Nodup
  roots : ∀ n ∈ hand, c.arena.IsRoot n
  known : ∀ n ∈ hand, n.index < c.arena.size

theorem Tidy.mono (h : c.Tidy hand) (sub : ∀ n ∈ rest, n ∈ hand)
    (apart : (rest.filter (!·.isSentinel)).Nodup) : c.Tidy rest :=
  ⟨h.toOrderly, apart, fun n mem => h.roots n (sub n mem), fun n mem => h.known n (sub n mem)⟩

theorem Tidy.perm (h : c.Tidy hand) (perm : hand.Perm rest) : c.Tidy rest :=
  h.mono (fun _ mem => perm.mem_iff.2 mem) ((perm.filter _).nodup_iff.1 h.apart)

theorem Tidy.sublist (h : c.Tidy hand) (sub : rest.Sublist hand) : c.Tidy rest :=
  h.mono (fun _ mem => sub.subset mem) (h.apart.sublist (sub.filter _))

/-- What is in one part of the hand is not in the other. -/
theorem Tidy.not_mem (h : c.Tidy (hand ++ rest)) {n : NodeId} (plain : ¬n.isSentinel)
    (mem : n ∈ rest) : n ∉ hand := by
  have apart := h.apart
  rw [List.filter_append] at apart
  intro other
  exact (List.nodup_append.1 apart).2.2 n (by simp [other, plain]) n (by simp [mem, plain]) rfl

theorem Tidy.ne_head {root n : NodeId} (h : c.Tidy (root :: rest)) (plain : ¬n.isSentinel)
    (mem : n ∈ rest) : root ≠ n := by
  rintro rfl
  have apart := h.apart
  rw [List.filter_cons_of_pos (by simpa using plain)] at apart
  exact (List.nodup_cons.1 apart).1 (by simp [mem, plain])

/-- The expressions among some roots are as they were, but for returns in them; no slot is lost. -/
structure Leaves (c c' : Compilation) (hand : List NodeId) : Prop where
  trees : ∀ x ∈ hand, ¬x.isSentinel → c.arena.IsExprTree x → ∀ n, c.arena.Below x n →
    c'.arena.find? n = c.arena.find? n ∧ ∀ i ∈ c.arena.instsOf n, ∀ inst,
      c.insts.find? i = some inst → inst.kind.isRet = false → c'.insts.find? i = some inst
  allocas : ∀ {j}, c.insts.Allocates j → c'.insts.Allocates j

namespace Leaves

theorem refl (c : Compilation) (hand : List NodeId) : c.Leaves c hand :=
  ⟨fun _ _ _ _ _ _ => ⟨rfl, fun _ _ _ found _ => found⟩, fun h => h⟩

theorem mono (h : c.Leaves c' hand) (sub : ∀ n ∈ rest, n ∈ hand) : c.Leaves c' rest :=
  ⟨fun x mem => h.trees x (sub x mem), h.allocas⟩

theorem below_iff (h : c.Leaves c' hand) {x n : NodeId} (mem : x ∈ hand) (plain : ¬x.isSentinel)
    (tree : c.arena.IsExprTree x) : c'.arena.Below x n ↔ c.arena.Below x n := by
  have frame := fun n below => (h.trees x mem plain tree n below).1
  refine ⟨fun below => ?_, Arena.below_of_frame frame⟩
  induction below with
  | refl => exact .refl
  | tail _ kid ih =>
    refine ih.tail ?_
    rwa [← Arena.kidsOf_congr (frame _ ih)]

theorem isExprTree (h : c.Leaves c' hand) {x : NodeId} (mem : x ∈ hand) (plain : ¬x.isSentinel)
    (tree : c.arena.IsExprTree x) : c'.arena.IsExprTree x := by
  intro n node below find
  have below := (h.below_iff mem plain tree).1 below
  rw [(h.trees x mem plain tree n below).1] at find
  exact tree n node below find

theorem trans (h : c.Leaves c' hand) (h' : c'.Leaves c'' hand) : c.Leaves c'' hand := by
  refine ⟨fun x mem plain tree n below => ?_, fun alloca => h'.allocas (h.allocas alloca)⟩
  obtain ⟨same, insts⟩ := h.trees x mem plain tree n below
  obtain ⟨same', insts'⟩ := h'.trees x mem plain (h.isExprTree mem plain tree) n
    ((h.below_iff mem plain tree).2 below)
  refine ⟨same'.trans same, fun i attached inst found noRet => ?_⟩
  refine insts' i ?_ inst (insts i attached inst found noRet) noRet
  rwa [Arena.instsOf, same]

end Leaves

/-! ## Changes beside the nodes -/

/-- The nodes are the same, instructions may be new, and so may slots. -/
structure Extends (c c' : Compilation) : Prop where
  arena : c'.arena = c.arena
  insts_le : c.insts.slots.size ≤ c'.insts.slots.size
  store : ∀ {i : InstId}, i.index < c.insts.slots.size → c'.insts.find? i = c.insts.find? i
  slots : ∀ {j}, c'.Reserves j → c.Reserves j ∨ c'.insts.Allocates j

namespace Extends

theorem of_same (arena : c'.arena = c.arena) (insts : c'.insts = c.insts) (vars : c'.vars = c.vars)
    (functions : c'.functions = c.functions) : c.Extends c' := by
  refine ⟨arena, by simp [insts], fun _ => by rw [insts], fun {j} slot => .inl ?_⟩
  rwa [Reserves, IsSlot, vars, functions] at slot

theorem trans (h : c.Extends c') (h' : c'.Extends c'') : c.Extends c'' := by
  have allocas {j : InstId} : c'.insts.Allocates j → c''.insts.Allocates j :=
    fun ⟨ty, name, t, found⟩ => ⟨ty, name, t, (h'.store (InstStore.lt_of_find? found)).trans found⟩
  refine ⟨h'.arena.trans h.arena, Nat.le_trans h.insts_le h'.insts_le,
    fun lt => (h'.store (Nat.lt_of_lt_of_le lt h.insts_le)).trans (h.store lt), fun slot => ?_⟩
  rcases h'.slots slot with slot | alloca
  · exact (h.slots slot).imp_right allocas
  · exact .inr alloca

theorem allocas (h : c.Extends c') {j : InstId} (alloca : c.insts.Allocates j) :
    c'.insts.Allocates j := by
  obtain ⟨ty, name, t, found⟩ := alloca
  exact ⟨ty, name, t, (h.store (InstStore.lt_of_find? found)).trans found⟩

theorem orderly (h : c.Extends c') (o : c.Orderly) : c'.Orderly where
  sentinels := h.arena ▸ o.sentinels
  forest := h.arena ▸ o.forest
  blank s find := o.blank s (h.arena ▸ find)
  insts mem := Nat.lt_of_lt_of_le (o.insts (h.arena ▸ mem)) h.insts_le
  slots slot := (h.slots slot).elim (fun old => h.allocas (o.slots old)) id

theorem tidy (h : c.Extends c') (t : c.Tidy hand) : c'.Tidy hand :=
  ⟨h.orderly t.toOrderly, t.apart, h.arena ▸ t.roots, h.arena ▸ t.known⟩

theorem leaves (h : c.Extends c') (o : c.Orderly) : c.Leaves c' hand := by
  refine ⟨fun x _ _ _ n _ => ⟨by rw [h.arena], fun i mem inst found _ => ?_⟩, h.allocas⟩
  exact (h.store (o.insts mem)).trans found

end Extends

/-! ## Changes of nodes -/

/-- Some nodes get instructions and values; no node gets or loses children. -/
structure Revises (c c' : Compilation) (P : NodeId → Prop) : Prop where
  size : c'.arena.size = c.arena.size
  nodes : ∀ {n node}, c.arena.find? n = some node →
    ∃ node', c'.arena.find? n = some node' ∧ node'.kids = node.kids ∧ node'.ty = node.ty
  dead : ∀ {n}, c.arena.find? n = none → c'.arena.find? n = none
  frame : ∀ {n}, ¬P n → c'.arena.find? n = c.arena.find? n
  plain : ∀ {n}, P n → ¬n.isSentinel
  insts_le : c.insts.slots.size ≤ c'.insts.slots.size
  store : ∀ {i : InstId}, i.index < c.insts.slots.size → c'.insts.find? i = c.insts.find? i
  insts : ∀ {n i}, i ∈ c'.arena.instsOf n → i ∈ c.arena.instsOf n ∨ i.index < c'.insts.slots.size
  slots : ∀ {j}, c'.Reserves j → c.Reserves j ∨ c'.insts.Allocates j

namespace Revises

theorem of_extends (h : c.Extends c') (plain : ∀ {n}, P n → ¬n.isSentinel) : c.Revises c' P where
  size := by rw [h.arena]
  nodes find := ⟨_, h.arena ▸ find, rfl, rfl⟩
  dead find := h.arena ▸ find
  frame _ := by rw [h.arena]
  plain := plain
  insts_le := h.insts_le
  store := h.store
  insts mem := .inl (h.arena ▸ mem)
  slots := h.slots

theorem refl (c : Compilation) (plain : ∀ {n}, P n → ¬n.isSentinel) : c.Revises c P :=
  of_extends (.of_same rfl rfl rfl rfl) plain

theorem allocas (h : c.Revises c' P) {j : InstId} (alloca : c.insts.Allocates j) :
    c'.insts.Allocates j := by
  obtain ⟨ty, name, t, found⟩ := alloca
  exact ⟨ty, name, t, (h.store (InstStore.lt_of_find? found)).trans found⟩

theorem trans (h : c.Revises c' P) (h' : c'.Revises c'' P) : c.Revises c'' P where
  size := h'.size.trans h.size
  nodes find := by
    obtain ⟨node', find', kids, ty⟩ := h.nodes find
    obtain ⟨node'', find'', kids', ty'⟩ := h'.nodes find'
    exact ⟨node'', find'', kids'.trans kids, ty'.trans ty⟩
  dead find := h'.dead (h.dead find)
  frame out := (h'.frame out).trans (h.frame out)
  plain := h.plain
  insts_le := Nat.le_trans h.insts_le h'.insts_le
  store lt := (h'.store (Nat.lt_of_lt_of_le lt h.insts_le)).trans (h.store lt)
  insts mem := by
    rcases h'.insts mem with mem | lt
    · exact (h.insts mem).imp_right fun lt => Nat.lt_of_lt_of_le lt h'.insts_le
    · exact .inr lt
  slots slot := by
    rcases h'.slots slot with slot | alloca
    · exact (h.slots slot).imp_right h'.allocas
    · exact .inr alloca

theorem mono (h : c.Revises c' P) (sub : ∀ {n}, P n → Q n) (plain : ∀ {n}, Q n → ¬n.isSentinel) :
    c.Revises c' Q :=
  { h with frame := fun out => h.frame fun p => out (sub p), plain := plain }

theorem kidsOf (h : c.Revises c' P) (n : NodeId) : c'.arena.kidsOf n = c.arena.kidsOf n := by
  cases find : c.arena.find? n with
  | none => rw [Arena.kidsOf, Arena.kidsOf, h.dead find, find]
  | some node =>
    obtain ⟨node', find', kids, -⟩ := h.nodes find
    rw [Arena.kidsOf_eq_of_find? find, Arena.kidsOf_eq_of_find? find', kids]

theorem below (h : c.Revises c' P) : c'.arena.Below = c.arena.Below := Arena.below_congr h.kidsOf

theorem orderly (h : c.Revises c' P) (o : c.Orderly) : c'.Orderly where
  sentinels := h.size ▸ o.sentinels
  forest := o.forest.of_kidsOf h.kidsOf fun n live => by
    obtain ⟨node, find⟩ := Option.isSome_iff_exists.1 live
    obtain ⟨node', find', -⟩ := h.nodes find
    exact Arena.isLive_of_find? find'
  blank s find := o.blank s ((h.frame fun p => h.plain p s).symm.trans find)
  insts mem := by
    rcases h.insts mem with mem | lt
    · exact Nat.lt_of_lt_of_le (o.insts mem) h.insts_le
    · exact lt
  slots slot := (h.slots slot).elim (fun old => h.allocas (o.slots old)) id

theorem tidy (h : c.Revises c' P) (t : c.Tidy hand) : c'.Tidy hand where
  toOrderly := h.orderly t.toOrderly
  apart := t.apart
  roots n mem p kid := t.roots n mem p (h.kidsOf p ▸ kid)
  known n mem := h.size ▸ t.known n mem

/-- What is below one root is not below the others. -/
theorem leaves {x : NodeId} (h : c.Revises c' (c.arena.Below x)) (t : c.Tidy (hand ++ rest))
    (mem : x ∈ hand) : c.Leaves c' rest := by
  refine ⟨fun y memy plain _ n below => ⟨h.frame fun below' => ?_,
    fun i attached inst found _ => ?_⟩, h.allocas⟩
  · have e := t.forest.eq_of_below (t.roots x (by simp [mem])) (t.roots y (by simp [memy]))
      below' below
    exact t.not_mem plain memy (e ▸ mem)
  · exact (h.store (t.insts attached)).trans found

end Revises

/-- A node gets another value, other flags, or an instruction that exists. -/
theorem revises_set {id : NodeId} {node node' : Node} (find : c.arena.find? id = some node)
    (plain : ¬id.isSentinel) (kids : node'.kids = node.kids) (ty : node'.ty = node.ty)
    (insts : ∀ i ∈ node'.insts, i ∈ node.insts ∨ i.index < c.insts.slots.size) :
    c.Revises { c with arena := c.arena.set id node' } (c.arena.Below id) := by
  have live := Arena.isLive_of_find? find
  refine ⟨Arena.size_set .., fun {n old} found => ?_, fun {n} gone => ?_, fun {n} out => ?_,
    Arena.not_isSentinel_of_below plain, Nat.le_refl _, fun _ => rfl, fun {n i} mem => ?_, .inl⟩
  · by_cases e : n = id
    · subst e
      cases find.symm.trans found
      exact ⟨node', Arena.find?_set live, kids, ty⟩
    · exact ⟨old, (Arena.find?_set_of_ne e).trans found, rfl, rfl⟩
  · have ne : n ≠ id := by
      rintro rfl
      simp [find] at gone
    exact (Arena.find?_set_of_ne ne).trans gone
  · refine Arena.find?_set_of_ne ?_
    rintro rfl
    exact out .refl
  · by_cases e : n = id
    · subst e
      rw [Arena.instsOf_eq_of_find? (Arena.find?_set live)] at mem
      rw [Arena.instsOf_eq_of_find? find]
      exact insts i mem
    · left
      rwa [Arena.instsOf, Arena.find?_set_of_ne e] at mem

/-- A node gets new instructions. -/
theorem Extends.revises_set {id : NodeId} {node : Node} {code : List InstId} (ext : c.Extends c')
    (node' : Node) (find : c.arena.find? id = some node) (plain : ¬id.isSentinel)
    (kids : node'.kids = node.kids) (ty : node'.ty = node.ty)
    (insts : node'.insts = node.insts ++ code)
    (known : ∀ i ∈ code, i.index < c'.insts.slots.size) :
    c.Revises { c' with arena := c'.arena.set id node' } (c.arena.Below id) := by
  have found : c'.arena.find? id = some node := ext.arena ▸ find
  have set := Compilation.revises_set found plain kids ty fun i mem =>
    (List.mem_append.1 (insts ▸ mem)).imp_right (known i)
  rw [show c'.arena.Below = c.arena.Below by rw [ext.arena]] at set
  exact (Revises.of_extends ext (Arena.not_isSentinel_of_below plain)).trans set

end Compilation

end Codegen
