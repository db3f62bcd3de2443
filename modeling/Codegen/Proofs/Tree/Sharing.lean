import Codegen.Proofs.Tree.Below
import Mathlib.Data.List.Perm.Subperm

/-!
The single-parent check is exact. It ends on every graph of live nodes, cycles included, comes to
each node below the root once, and reports every child slot and every instruction beyond the first.
-/

namespace Codegen

/-- The expression that a violation is about. -/
def Violation.expr? : Violation → Option NodeId
  | .sharedExpr node _ => some node
  | .sharedStmt .. | .sharedInst .. => none

/-- The statement that a violation is about. -/
def Violation.stmt? : Violation → Option NodeId
  | .sharedStmt node _ => some node
  | .sharedExpr .. | .sharedInst .. => none

namespace Arena

variable {a : Arena} {root n : NodeId}

/-- A violation says whether its node is an expression or a statement. -/
def Classifies (a : Arena) (v : Violation) : Prop :=
  (∀ n, v.expr? = some n → ∃ node, a.find? n = some node ∧ node.isExpr) ∧
    ∀ n, v.stmt? = some n → ∃ node, a.find? n = some node ∧ node.isStmt

/-- There are no more live nodes than places for them. -/
theorem length_le_size {nodes : List NodeId} (nodup : nodes.Nodup)
    (live : ∀ id ∈ nodes, a.isLive id) : nodes.length ≤ a.size := by
  have distinct : (nodes.map NodeId.index).Nodup := nodup.map fun x y e => by
    cases x
    cases y
    exact congrArg NodeId.mk e
  have bounded : nodes.map NodeId.index ⊆ List.range a.size := by
    intro i mem
    obtain ⟨id, old, rfl⟩ := List.mem_map.1 mem
    obtain ⟨node, find⟩ := Option.isSome_iff_exists.1 (live id old)
    exact List.mem_range.2 (lt_of_find? find)
  simpa using (List.subperm_of_subset distinct bounded).length_le

namespace Survey

/-- What is reported was met before, and is reported for what it is. -/
structure Reports (a : Arena) (s : Survey) : Prop where
  seen : ∀ n ∈ s.sharedNodes, n ∈ s.seen
  owned : ∀ i ∈ s.sharedInsts, i ∈ s.owned
  classified : ∀ v ∈ s.found, a.Classifies v

variable {s s' : Survey}

theorem Reports.own (h : Reports a s) (id : NodeId) (inst : InstId) :
    Reports a (s.own id inst) := by
  unfold Survey.own
  split
  · rename_i first known
    have old : inst ∈ s.owned := by
      obtain ⟨_, _, e, _⟩ := List.lookup_eq_some_iff.1 known
      simp [Survey.owned, e]
    refine ⟨h.seen, fun i mem => ?_, fun v mem => ?_⟩
    · rcases List.mem_cons.1 mem with rfl | mem
      · exact old
      · exact h.owned i mem
    · rcases List.mem_cons.1 mem with rfl | mem
      · exact ⟨by simp [Violation.expr?], by simp [Violation.stmt?]⟩
      · exact h.classified v mem
  · exact ⟨h.seen, fun i mem => List.mem_cons_of_mem _ (h.owned i mem), h.classified⟩

theorem Reports.meet {parent kid : NodeId} (h : Reports a s) (run : meet a parent s kid = .ok s') :
    Reports a s' := by
  unfold Survey.meet at run
  split at run
  · cases run
    exact h
  split at run
  · rename_i old
    obtain ⟨node, got, e⟩ := bind_eq_ok.1 run
    have find := get_eq_ok.1 got
    cases e
    refine ⟨fun n mem => ?_, fun i mem => ?_, fun v mem => ?_⟩
    · obtain ⟨v, mem, about⟩ := List.mem_filterMap.1 mem
      rcases List.mem_cons.1 mem with rfl | mem
      · split at about <;> cases about <;> exact old
      · exact h.seen n (List.mem_filterMap.2 ⟨v, mem, about⟩)
    · obtain ⟨v, mem, about⟩ := List.mem_filterMap.1 mem
      rcases List.mem_cons.1 mem with rfl | mem
      · split at about <;> cases about
      · exact h.owned i (List.mem_filterMap.2 ⟨v, mem, about⟩)
    · rcases List.mem_cons.1 mem with rfl | mem
      · by_cases stmt : node.isStmt
        · simp only [stmt, if_true]
          refine ⟨by simp [Violation.expr?], fun n e => ?_⟩
          cases e
          exact ⟨node, find, stmt⟩
        · simp only [stmt]
          refine ⟨fun n e => ?_, by simp [Violation.stmt?]⟩
          cases e
          exact ⟨node, find, by simpa [Node.isExpr_eq] using stmt⟩
      · exact h.classified v mem
  · cases run
    exact ⟨fun n mem => List.mem_cons_of_mem _ (h.seen n mem), h.owned, h.classified⟩

theorem Reports.visit {id : NodeId} (h : Reports a s) (run : visit a id s = .ok s') :
    Reports a s' := by
  obtain ⟨node, _, run⟩ := bind_eq_ok.1 run
  have owned : ∀ (insts : List InstId) {s : Survey}, Reports a s →
      Reports a (insts.foldl (Survey.own id) s) := by
    intro insts
    induction insts with
    | nil => exact fun h => h
    | cons inst rest ih => exact fun h => ih (h.own id inst)
  have met : ∀ (kids : List NodeId) {s s' : Survey}, Reports a s →
      kids.foldlM (Survey.meet a id) s = .ok s' → Reports a s' := by
    intro kids
    induction kids with
    | nil =>
      intro s s' h run
      cases run
      exact h
    | cons kid rest ih =>
      intro s s' h run
      obtain ⟨s₁, first, later⟩ := bind_eq_ok.1 run
      exact ih (h.meet first) later
  exact met _ (owned _ h) run

/-! ## The check ends -/

theorem Accounts.below {done : List NodeId} (h : Accounts a root done s) :
    ∀ n ∈ s.seen, a.Below root n := by
  intro n mem
  rcases List.mem_cons.1 (h.nodes.mem_iff.1 (List.mem_append_left _ mem)) with rfl | slot
  · exact .refl
  · obtain ⟨p, before, kid⟩ := List.mem_flatMap.1 slot
    exact (h.order.below p before).tail kid

theorem Accounts.length_le {done : List NodeId} (h : Accounts a root done s) :
    done.length ≤ a.size :=
  length_le_size (List.nodup_append.1 (h.seen.nodup_iff.1 h.nodup)).1 h.live

section

variable (live : ∀ n, a.Below root n → a.isLive n)

include live

theorem exists_visit {done rest : List NodeId} {id : NodeId} {s : Survey}
    (h : Accounts a root done s) (top : s.stack = id :: rest) :
    ∃ s', visit a id { s with stack := rest } = .ok s' := by
  have here : a.Below root id := h.below id (h.seen.mem_iff.2 (by simp [top]))
  obtain ⟨node, find⟩ := Option.isSome_iff_exists.1 (live id here)
  have met : ∀ (kids : List NodeId) (s : Survey), kids ⊆ node.kids →
      ∃ s', kids.foldlM (Survey.meet a id) s = .ok s' := by
    intro kids
    induction kids with
    | nil => exact fun s _ => ⟨s, rfl⟩
    | cons kid more ih =>
      intro s sub
      obtain ⟨s₁, first⟩ : ∃ s₁, Survey.meet a id s kid = .ok s₁ := by
        unfold Survey.meet
        split
        · exact ⟨_, rfl⟩
        rename_i other
        split
        · have kid : kid ∈ a.kidsOf id := (mem_kidsOf find).2 ⟨sub (by simp), by simpa using other⟩
          obtain ⟨child, found⟩ := Option.isSome_iff_exists.1 (live _ (here.tail kid))
          exact ⟨_, bind_eq_ok.2 ⟨child, get_eq_ok.2 found, rfl⟩⟩
        · exact ⟨_, rfl⟩
      obtain ⟨s', later⟩ := ih s₁ fun x mem => sub (by simp [mem])
      exact ⟨s', bind_eq_ok.2 ⟨s₁, first, later⟩⟩
  obtain ⟨s', run⟩ := met node.kids.reverse
    (node.insts.foldl (Survey.own id) { s with stack := rest }) fun x mem => List.mem_reverse.1 mem
  exact ⟨s', bind_eq_ok.2 ⟨node, get_eq_ok.2 find, run⟩⟩

/-- Each turn looks into one more node, so that the turns do not run out. -/
theorem exists_run {fuel : Nat} {done : List NodeId} {s : Survey} (h : Accounts a root done s)
    (reports : Reports a s) (enough : a.size < fuel + done.length) :
    ∃ done' s', run a fuel s = .ok s' ∧ Accounts a root done' s' ∧ Reports a s' ∧
      s'.stack = [] := by
  induction fuel generalizing done s with
  | zero =>
    have := h.length_le
    omega
  | succ fuel ih =>
    cases top : s.stack with
    | nil => exact ⟨done, s, by simp only [run, top], h, reports, top⟩
    | cons id rest =>
      obtain ⟨s₁, v⟩ := exists_visit live h top
      have popped : Reports a { s with stack := rest } :=
        ⟨reports.seen, reports.owned, reports.classified⟩
      obtain ⟨done', s', run', rest'⟩ := ih (h.visit top v) (popped.visit v) (by
        rw [List.length_cons]
        omega)
      exact ⟨done', s', by simp only [run, top]; exact bind_eq_ok.2 ⟨s₁, v, run'⟩, rest'⟩

end

end Survey

/-! ## Counts -/

/-- The child slots of some nodes. -/
def slots (a : Arena) (nodes : List NodeId) : List NodeId :=
  nodes.flatMap fun n => (a.find? n).elim [] (·.kids)

theorem count_slots (h : ¬n.isSentinel) (nodes : List NodeId) :
    (a.slots nodes).count n = (nodes.flatMap a.kidsOf).count n := by
  induction nodes with
  | nil => rfl
  | cons id rest ih =>
    simp only [slots, List.flatMap_cons, List.count_append] at ih ⊢
    rw [ih, kidsOf, List.count_filter (by simpa using h)]

/-- A report about a node is one about an expression or one about a statement. -/
theorem count_node? (found : List Violation) (n : NodeId) :
    (found.filterMap Violation.node?).count n =
      (found.filterMap Violation.expr?).count n + (found.filterMap Violation.stmt?).count n := by
  induction found with
  | nil => rfl
  | cons v rest ih =>
    cases v with
    | sharedInst =>
      simpa [List.filterMap_cons, Violation.node?, Violation.expr?, Violation.stmt?] using ih
    | sharedExpr m =>
      simp only [List.filterMap_cons, Violation.node?, Violation.expr?, Violation.stmt?,
        List.count_cons, ih]
      omega
    | sharedStmt m =>
      simp only [List.filterMap_cons, Violation.node?, Violation.expr?, Violation.stmt?,
        List.count_cons, ih]
      omega

/-- What the check finds among nodes: all that is below the root, and a report for each child slot
and each instruction beyond the first. The root takes up a slot of its own. -/
structure Accounted (a : Arena) (root : NodeId) (nodes : List NodeId) (found : List Violation) :
    Prop where
  nodup : nodes.Nodup
  mem_iff : ∀ n, n ∈ nodes ↔ a.Below root n
  shared : (nodes ++ found.filterMap Violation.node?).Perm (root :: nodes.flatMap a.kidsOf)
  insts : ∃ owned : List InstId, owned.Nodup ∧ found.filterMap Violation.inst? ⊆ owned ∧
    (owned ++ found.filterMap Violation.inst?).Perm (nodes.flatMap a.instsOf)
  classified : ∀ v ∈ found, a.Classifies v

theorem exists_accounted (live : ∀ n, a.Below root n → a.isLive n) :
    ∃ nodes found, a.sharing root = .ok found ∧ a.Accounted root nodes found := by
  obtain ⟨nodes, s, run, accounts, reports, empty⟩ := Survey.exists_run live
    (Survey.accounts_start a root)
    ⟨by simp [Survey.sharedNodes], by simp [Survey.sharedInsts], by simp⟩
    (by simp : a.size < a.size + 1 + ([] : List NodeId).length)
  have seen : s.seen.Perm nodes := by simpa [empty] using accounts.seen
  have kids : ∀ n, n ∈ s.seen ↔ n ∈ root :: nodes.flatMap a.kidsOf := fun n => by
    rw [← accounts.nodes.mem_iff, List.mem_append]
    exact ⟨.inl, fun h => h.elim id (reports.seen n)⟩
  have shared : (s.found.reverse.filterMap Violation.inst?).Perm s.sharedInsts := by
    rw [List.filterMap_reverse]
    exact List.reverse_perm _
  refine ⟨nodes, s.found.reverse, bind_eq_ok.2 ⟨s, run, rfl⟩, seen.nodup_iff.1 accounts.nodup,
    fun n => ⟨fun mem => accounts.below n (seen.mem_iff.2 mem), fun below => ?_⟩, ?_,
    ⟨s.owned, accounts.owned_nodup, fun i mem => reports.owned i (shared.mem_iff.1 mem),
      (shared.append_left _).trans accounts.insts⟩,
    fun v mem => reports.classified v (List.mem_reverse.1 mem)⟩
  · induction below with
    | refl => exact seen.mem_iff.1 ((kids root).2 (by simp))
    | tail _ kid ih =>
      exact seen.mem_iff.1 ((kids _).2 (List.mem_cons_of_mem _ (List.mem_flatMap.2 ⟨_, ih, kid⟩)))
  · rw [List.filterMap_reverse]
    exact (seen.symm.append (List.reverse_perm _)).trans accounts.nodes

namespace Accounted

variable {nodes : List NodeId} {found : List Violation} {n : NodeId}
  (h : a.Accounted root nodes found)

include h

/-- A node below the root is reported for every slot that it is in but one, the root for all. -/
theorem count_reports (below : a.Below root n) :
    (found.filterMap Violation.node?).count n =
      (nodes.flatMap a.kidsOf).count n - if n = root then 0 else 1 := by
  have once : nodes.count n = 1 := List.count_eq_one_of_mem h.nodup ((h.mem_iff n).2 below)
  have all := h.shared.count_eq n
  rw [List.count_append, once, List.count_cons] at all
  by_cases e : n = root
  · simp only [e, beq_self_eq_true, if_true] at all ⊢
    omega
  · have : (root == n) = false := by simpa using fun h => e h.symm
    simp only [this, e, if_false] at all ⊢
    simp at all
    omega

theorem count_exprs {node : Node} (find : a.find? n = some node) :
    (found.filterMap Violation.expr?).count n =
      if node.isExpr then (found.filterMap Violation.node?).count n else 0 := by
  have none : ∀ {p : Violation → Option NodeId}, (∀ v ∈ found, p v ≠ some n) →
      (found.filterMap p).count n = 0 := fun {p} none =>
    List.count_eq_zero.2 fun mem => by
      obtain ⟨v, mem, e⟩ := List.mem_filterMap.1 mem
      exact none v mem e
  split
  · rename_i expr
    rw [count_node?, none (p := Violation.stmt?) fun v mem e => ?_, Nat.add_zero]
    obtain ⟨node', find', stmt⟩ := (h.classified v mem).2 n e
    cases find.symm.trans find'
    simp [Node.isExpr_eq, stmt] at expr
  · rename_i stmt
    refine none fun v mem e => ?_
    obtain ⟨node', find', expr⟩ := (h.classified v mem).1 n e
    cases find.symm.trans find'
    exact stmt expr

theorem count_stmts {node : Node} (find : a.find? n = some node) :
    (found.filterMap Violation.stmt?).count n =
      if node.isStmt then (found.filterMap Violation.node?).count n else 0 := by
  have all := count_node? found n
  have exprs := h.count_exprs find
  rw [Node.isExpr_eq] at exprs
  cases e : node.isStmt <;> simp [e] at exprs ⊢ <;> omega

theorem count_insts (i : InstId) :
    (found.filterMap Violation.inst?).count i = (nodes.flatMap a.instsOf).count i - 1 := by
  obtain ⟨owned, nodup, sub, perm⟩ := h.insts
  have all := perm.count_eq i
  rw [List.count_append] at all
  by_cases mem : i ∈ owned
  · have := List.count_eq_one_of_mem nodup mem
    omega
  · have := List.count_eq_zero.2 mem
    have := List.count_eq_zero.2 fun again => mem (sub again)
    omega

/-- Nothing is reported just when no slot and no instruction comes twice, and no slot is the
root's. -/
theorem eq_nil_iff : found = [] ↔
    (nodes.flatMap a.kidsOf).Nodup ∧ root ∉ nodes.flatMap a.kidsOf ∧
      (nodes.flatMap a.instsOf).Nodup := by
  constructor
  · rintro rfl
    obtain ⟨owned, nodup, _, perm⟩ := h.insts
    have slots : nodes.Perm (root :: nodes.flatMap a.kidsOf) := by simpa using h.shared
    have apart := List.nodup_cons.1 (slots.nodup_iff.1 h.nodup)
    exact ⟨apart.2, apart.1, (by simpa using perm : owned.Perm _).nodup_iff.1 nodup⟩
  · rintro ⟨kids, top, insts⟩
    obtain ⟨owned, _, sub, perm⟩ := h.insts
    have node : ∀ v ∈ found, v.node? = none := by
      intro v mem
      cases about : v.node? with
      | none => rfl
      | some n =>
        have again := List.mem_filterMap.2 ⟨v, mem, about⟩
        have nodup := h.shared.nodup_iff.2 (List.nodup_cons.2 ⟨top, kids⟩)
        have below : n ∈ nodes := by
          rcases List.mem_cons.1
            (h.shared.mem_iff.1 (List.mem_append_right _ again)) with rfl | slot
          · exact (h.mem_iff n).2 .refl
          · obtain ⟨p, parent, kid⟩ := List.mem_flatMap.1 slot
            exact (h.mem_iff n).2 (((h.mem_iff p).1 parent).tail kid)
        exact absurd rfl ((List.nodup_append.1 nodup).2.2 n below n again)
    have inst : ∀ v ∈ found, v.inst? = none := by
      intro v mem
      cases about : v.inst? with
      | none => rfl
      | some i =>
        have again := List.mem_filterMap.2 ⟨v, mem, about⟩
        have nodup := perm.nodup_iff.2 insts
        exact absurd rfl ((List.nodup_append.1 nodup).2.2 i (sub again) i again)
    refine List.eq_nil_iff_forall_not_mem.2 fun v mem => ?_
    have := node v mem
    have := inst v mem
    cases v <;> simp_all [Violation.node?, Violation.inst?]

end Accounted

theorem not_isSentinel_of_mem_kidsOf {p k : NodeId} (kid : k ∈ a.kidsOf p) : ¬k.isSentinel := by
  simpa using (List.mem_filter.1 kid).2

theorem nodup_slots_iff (nodes : List NodeId) :
    (nodes.flatMap a.kidsOf).Nodup ↔ ∀ n, ¬n.isSentinel → (a.slots nodes).count n ≤ 1 := by
  rw [List.nodup_iff_count_le_one]
  constructor
  · intro nodup n other
    rw [count_slots other]
    exact nodup n
  · intro once n
    by_cases sentinel : n.isSentinel
    · have none : n ∉ nodes.flatMap a.kidsOf := by
        intro mem
        obtain ⟨p, _, kid⟩ := List.mem_flatMap.1 mem
        exact not_isSentinel_of_mem_kidsOf kid sentinel
      rw [List.count_eq_zero.2 none]
      exact Nat.zero_le 1
    · rw [← count_slots sentinel]
      exact once n sentinel

theorem mem_slots_iff {nodes : List NodeId} :
    n ∈ nodes.flatMap a.kidsOf ↔ ¬n.isSentinel ∧ n ∈ a.slots nodes := by
  simp only [slots, kidsOf, List.mem_flatMap, List.mem_filter]
  constructor
  · rintro ⟨p, mem, kid, other⟩
    exact ⟨by simpa using other, p, mem, kid⟩
  · rintro ⟨other, p, mem, kid⟩
    exact ⟨p, mem, kid, by simpa using other⟩

/-- The single-parent check ends on every graph of live nodes and reports each child slot and each
instruction beyond the first, and the root's slots, all of them. Without a report what is below the
root is a tree. -/
theorem sharing_exact (live : ∀ n, a.Below root n → a.isLive n) :
    ∃ nodes found, a.sharing root = .ok found ∧ nodes.Nodup ∧ (∀ n, n ∈ nodes ↔ a.Below root n) ∧
      (∀ n node, a.Below root n → ¬n.isSentinel → a.find? n = some node →
        let extra := (a.slots nodes).count n - if n = root then 0 else 1
        (found.filterMap Violation.expr?).count n = (if node.isExpr then extra else 0) ∧
          (found.filterMap Violation.stmt?).count n = if node.isStmt then extra else 0) ∧
      (∀ i, (found.filterMap Violation.inst?).count i = (nodes.flatMap a.instsOf).count i - 1) ∧
      (found = [] ↔ (∀ n, ¬n.isSentinel → (a.slots nodes).count n ≤ 1) ∧
        (¬root.isSentinel → root ∉ a.slots nodes) ∧ (nodes.flatMap a.instsOf).Nodup) ∧
      (found = [] →
        (∀ n, a.Below root n → n ≠ root → (a.slots nodes).count n = 1) ∧
          ∀ p k, a.Below root p → k ∈ a.kidsOf p → ¬a.Below k p) := by
  obtain ⟨nodes, found, run, h⟩ := exists_accounted live
  refine ⟨nodes, found, run, h.nodup, h.mem_iff, ?_, h.count_insts, ?_, ?_⟩
  · intro n node below other find
    rw [count_slots other, ← h.count_reports below]
    exact ⟨h.count_exprs find, h.count_stmts find⟩
  · rw [h.eq_nil_iff, nodup_slots_iff, mem_slots_iff, not_and]
  · rintro rfl
    obtain ⟨spread, tree⟩ := exists_spread_of_sharing run
    constructor
    · intro n below other
      have unreported := h.count_reports below
      rcases Relation.ReflTransGen.cases_tail below with rfl | ⟨p, above, kid⟩
      · exact absurd rfl other
      have slot : n ∈ nodes.flatMap a.kidsOf := List.mem_flatMap.2 ⟨p, (h.mem_iff p).2 above, kid⟩
      have := List.count_pos_iff.2 slot
      rw [count_slots (not_isSentinel_of_mem_kidsOf kid)]
      simp only [List.filterMap_nil, List.count_nil, other, if_false] at unreported
      omega
    · intro p k below kid
      exact tree.not_below_kid (tree.mem_of_below tree.root_mem below) kid

/-- A constant that owns an instruction twice, in a statement that a block holds twice, along with
itself. -/
def tangledArena : Arena :=
  ⟨initial.nodes ++ #[
    some { Node.fresh .const [] .bool .synthetic with insts := [⟨0⟩, ⟨0⟩] },
    some (Node.fresh .exprStmt [⟨2⟩] .void .synthetic),
    some (Node.fresh .blockStmt [⟨3⟩, ⟨4⟩, ⟨1⟩, ⟨3⟩, ⟨1⟩] .void .synthetic)]⟩

theorem isLive_tangledArena (below : tangledArena.Below ⟨4⟩ n) : tangledArena.isLive n := by
  have closed : n = ⟨4⟩ ∨ n = ⟨3⟩ ∨ n = ⟨2⟩ := by
    induction below with
    | refl => exact .inl rfl
    | tail _ kid ih =>
      rcases ih with rfl | rfl | rfl
      · have : _ ∈ [(⟨3⟩ : NodeId), ⟨4⟩, ⟨3⟩] := kid
        simp at this
        tauto
      · have : _ ∈ [(⟨2⟩ : NodeId)] := kid
        simp at this
        tauto
      · cases kid
  rcases closed with rfl | rfl | rfl <;> rfl

/-- The check ends on the cycle, with a report for one of the statement's two slots, for the only
slot of the block and for one of the instruction's two places. -/
theorem sharing_exact_tangledArena :
    (∀ n, tangledArena.Below ⟨4⟩ n → tangledArena.isLive n) ∧
      tangledArena.sharing ⟨4⟩ =
        .ok [.sharedStmt ⟨4⟩ ⟨4⟩, .sharedStmt ⟨3⟩ ⟨4⟩, .sharedInst ⟨0⟩ ⟨2⟩ ⟨2⟩] ∧
      ∃ nodes, (∀ n, n ∈ nodes ↔ tangledArena.Below ⟨4⟩ n) ∧
        1 = (tangledArena.slots nodes).count ⟨3⟩ - 1 ∧ 1 = (tangledArena.slots nodes).count ⟨4⟩ ∧
        1 = (nodes.flatMap tangledArena.instsOf).count ⟨0⟩ - 1 := by
  have live : ∀ n, tangledArena.Below ⟨4⟩ n → tangledArena.isLive n := fun _ => isLive_tangledArena
  have run : tangledArena.sharing ⟨4⟩ =
      .ok [.sharedStmt ⟨4⟩ ⟨4⟩, .sharedStmt ⟨3⟩ ⟨4⟩, .sharedInst ⟨0⟩ ⟨2⟩ ⟨2⟩] := rfl
  obtain ⟨nodes, found, run', _, mem_iff, reports, insts, _⟩ := sharing_exact live
  cases run.symm.trans run'
  have kid : (⟨3⟩ : NodeId) ∈ tangledArena.kidsOf ⟨4⟩ := by decide
  have stmt := (reports ⟨3⟩ _ (.single kid) (by decide) rfl).2
  have block := (reports ⟨4⟩ _ .refl (by decide) rfl).2
  exact ⟨live, run, nodes, mem_iff, stmt, block, insts ⟨0⟩⟩

end Arena

end Codegen
