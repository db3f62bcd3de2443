import Codegen.Proofs.Outcome
import Codegen.Tree.Integrity
import Mathlib.Data.List.Perm.Basic

/-!
The accounts of the single-parent check. Every child slot of the nodes that were looked into is
either the first that leads to its child, which then waits or was looked into, or is reported.
Instructions are accounted for in the same way.
-/

namespace Codegen

/-- The node that a violation is about. -/
def Violation.node? : Violation → Option NodeId
  | .sharedExpr node _ | .sharedStmt node _ => some node
  | .sharedInst .. => none

/-- The instruction that a violation is about. -/
def Violation.inst? : Violation → Option InstId
  | .sharedInst inst .. => some inst
  | .sharedExpr .. | .sharedStmt .. => none

namespace Arena

/-- The children of a node, sentinels left out. -/
def kidsOf (a : Arena) (id : NodeId) : List NodeId :=
  ((a.find? id).elim [] (·.kids)).filter (!·.isSentinel)

def instsOf (a : Arena) (id : NodeId) : List InstId := (a.find? id).elim [] (·.insts)

/-- Each node is the root or a child of an earlier one. The latest node comes first. -/
def Descends (a : Arena) (root : NodeId) : List NodeId → Prop
  | [] => True
  | id :: earlier => (id = root ∨ ∃ p ∈ earlier, id ∈ a.kidsOf p) ∧ Descends a root earlier

namespace Survey

/-- Instructions that have an owner. -/
def owned (s : Survey) : List InstId := s.owners.map (·.1)

/-- Nodes reported, once for each report. -/
def sharedNodes (s : Survey) : List NodeId := s.found.filterMap Violation.node?

def sharedInsts (s : Survey) : List InstId := s.found.filterMap Violation.inst?

/-- After a look into the nodes `done`, the latest first. -/
structure Accounts (a : Arena) (root : NodeId) (done : List NodeId) (s : Survey) : Prop where
  live : ∀ id ∈ done, a.isLive id
  order : a.Descends root done
  nodup : s.seen.Nodup
  seen : s.seen.Perm (done ++ s.stack)
  nodes : (s.seen ++ s.sharedNodes).Perm (root :: done.flatMap a.kidsOf)
  owned_nodup : s.owned.Nodup
  insts : (s.owned ++ s.sharedInsts).Perm (done.flatMap a.instsOf)

theorem accounts_start (a : Arena) (root : NodeId) :
    Accounts a root [] ⟨[root], [], [root], []⟩ where
  live := by simp
  order := trivial
  nodup := by simp
  seen := by simp
  nodes := by simp [sharedNodes]
  owned_nodup := by simp [owned]
  insts := by simp [owned, sharedInsts]

/-! ## Instructions -/

/-- What a node's instructions change. -/
structure Owns (s s' : Survey) (insts : List InstId) : Prop where
  seen_eq : s'.seen = s.seen
  stack_eq : s'.stack = s.stack
  nodes_eq : s'.sharedNodes = s.sharedNodes
  nodup : s.owned.Nodup → s'.owned.Nodup
  perm : (s'.owned ++ s'.sharedInsts).Perm (insts ++ (s.owned ++ s.sharedInsts))

theorem owns_own (id : NodeId) (s : Survey) (inst : InstId) : Owns s (s.own id inst) [inst] := by
  unfold own
  split
  · exact ⟨rfl, rfl, rfl, fun h => h, List.perm_middle⟩
  · rename_i none
    have new : inst ∉ s.owned := by
      intro h
      obtain ⟨⟨i, p⟩, mem, rfl⟩ := List.mem_map.1 h
      exact absurd none (by simpa [List.lookup_eq_none_iff] using ⟨p, mem⟩)
    exact ⟨rfl, rfl, rfl, fun h => List.nodup_cons.2 ⟨new, h⟩, by simp [owned, sharedInsts]⟩

theorem owns_foldl (id : NodeId) (insts : List InstId) (s : Survey) :
    Owns s (insts.foldl (own id) s) insts := by
  induction insts generalizing s with
  | nil => exact ⟨rfl, rfl, rfl, fun h => h, .refl _⟩
  | cons inst rest ih =>
    have h := owns_own id s inst
    have h' := ih (s.own id inst)
    refine ⟨h'.seen_eq.trans h.seen_eq, h'.stack_eq.trans h.stack_eq, h'.nodes_eq.trans h.nodes_eq,
      fun n => h'.nodup (h.nodup n), ?_⟩
    exact h'.perm.trans ((h.perm.append_left rest).trans List.perm_middle)

/-! ## Nodes -/

/-- What children change. -/
structure Meets (s s' : Survey) (kids : List NodeId) : Prop where
  owners_eq : s'.owners = s.owners
  insts_eq : s'.sharedInsts = s.sharedInsts
  waiting : ∃ new, s'.seen = new ++ s.seen ∧ s'.stack = new ++ s.stack
  nodup : s.seen.Nodup → s'.seen.Nodup
  perm : (s'.seen ++ s'.sharedNodes).Perm (kids ++ (s.seen ++ s.sharedNodes))

theorem Meets.refl (s : Survey) : Meets s s [] :=
  ⟨rfl, rfl, ⟨[], rfl, rfl⟩, fun h => h, .refl _⟩

variable {a : Arena} {s s' : Survey}

theorem Meets.trans {s₁ s₂ : Survey} {kids more : List NodeId} (h : Meets s s₁ kids)
    (h' : Meets s₁ s₂ more) : Meets s s₂ (more ++ kids) := by
  obtain ⟨new, e, f⟩ := h.waiting
  obtain ⟨new', e', f'⟩ := h'.waiting
  refine ⟨h'.owners_eq.trans h.owners_eq, h'.insts_eq.trans h.insts_eq,
    ⟨new' ++ new, by rw [e', e, List.append_assoc], by rw [f', f, List.append_assoc]⟩,
    fun n => h'.nodup (h.nodup n), ?_⟩
  rw [List.append_assoc]
  exact h'.perm.trans (h.perm.append_left more)

theorem meets_meet {parent kid : NodeId} (h : meet a parent s kid = .ok s') :
    Meets s s' ([kid].filter (!·.isSentinel)) := by
  unfold meet at h
  split at h
  · rename_i sentinel
    cases h
    simpa [sentinel] using Meets.refl s
  rename_i other
  have only : [kid].filter (!·.isSentinel) = [kid] := by simpa using other
  rw [only]
  split at h
  · obtain ⟨node, _, e⟩ := bind_eq_ok.1 h
    cases e
    refine ⟨rfl, ?_, ⟨[], rfl, rfl⟩, fun n => n, ?_⟩
    · simp only [sharedInsts]
      split <;> rfl
    · have : ∀ v, v.node? = some kid → (v :: s.found).filterMap Violation.node? =
        kid :: s.found.filterMap Violation.node? := fun v e => by simp [e]
      simp only [sharedNodes]
      rw [this _ (by split <;> rfl)]
      exact List.perm_middle
  · rename_i new
    cases h
    exact ⟨rfl, rfl, ⟨[kid], rfl, rfl⟩, fun n => List.nodup_cons.2 ⟨new, n⟩, .refl _⟩

theorem meets_foldlM {parent : NodeId} {kids : List NodeId}
    (h : kids.foldlM (meet a parent) s = .ok s') :
    Meets s s' (kids.reverse.filter (!·.isSentinel)) := by
  induction kids generalizing s with
  | nil =>
    cases h
    exact .refl _
  | cons kid rest ih =>
    obtain ⟨s₁, first, later⟩ := bind_eq_ok.1 h
    rw [List.reverse_cons, List.filter_append]
    exact (meets_meet first).trans (ih later)

/-! ## Turns -/

theorem Accounts.visit {root id : NodeId} {done rest : List NodeId} (h : Accounts a root done s)
    (top : s.stack = id :: rest) (v : visit a id { s with stack := rest } = .ok s') :
    Accounts a root (id :: done) s' := by
  obtain ⟨node, found, e⟩ := bind_eq_ok.1 v
  have find : a.find? id = some node := get_eq_ok.1 found
  have kids : a.kidsOf id = node.kids.filter (!·.isSentinel) := by simp [kidsOf, find]
  have insts : a.instsOf id = node.insts := by simp [instsOf, find]
  have o := owns_foldl id node.insts { s with stack := rest }
  have m := meets_foldlM e
  generalize node.insts.foldl (own id) { s with stack := rest } = s₁ at o m
  rw [List.reverse_reverse, ← kids] at m
  refine ⟨?_, ⟨?_, h.order⟩, m.nodup (o.seen_eq ▸ h.nodup), ?_, ?_, ?_, ?_⟩
  · intro p mem
    rcases List.mem_cons.1 mem with rfl | mem
    · simp [isLive, find]
    · exact h.live p mem
  · have seen : id ∈ s.seen := h.seen.mem_iff.2 (by simp [top])
    simpa using h.nodes.mem_iff.1 (List.mem_append_left _ seen)
  · obtain ⟨new, e₁, e₂⟩ := m.waiting
    rw [e₁, e₂, o.seen_eq, o.stack_eq]
    refine (h.seen.append_left new).trans (List.perm_iff_count.2 fun x => ?_)
    simp only [top, List.count_append, List.count_cons]
    omega
  · have := m.perm
    rw [o.seen_eq, o.nodes_eq] at this
    exact this.trans ((h.nodes.append_left _).trans List.perm_middle)
  · rw [owned, m.owners_eq]
    exact o.nodup h.owned_nodup
  · rw [owned, m.owners_eq, m.insts_eq, List.flatMap_cons, insts]
    exact o.perm.trans (h.insts.append_left _)

/-- A run that ends has looked into every node that it met. -/
theorem Accounts.run {root : NodeId} {fuel : Nat} {done : List NodeId} (h : Accounts a root done s)
    (r : run a fuel s = .ok s') : ∃ done', Accounts a root done' s' ∧ s'.stack = [] := by
  induction fuel generalizing done s with
  | zero => cases r
  | succ fuel ih =>
    unfold Survey.run at r
    split at r
    · rename_i empty
      cases r
      exact ⟨done, h, empty⟩
    · rename_i id rest top
      obtain ⟨s₁, v, later⟩ := bind_eq_ok.1 r
      exact ih (h.visit top v) later

end Survey

theorem exists_accounts_of_sharing {a : Arena} {root : NodeId} {found : List Violation}
    (h : a.sharing root = .ok found) :
    ∃ done s, Survey.Accounts a root done s ∧ s.stack = [] ∧ found = s.found.reverse := by
  obtain ⟨s, r, e⟩ := bind_eq_ok.1 h
  cases e
  obtain ⟨done, accounts, empty⟩ := (Survey.accounts_start a root).run r
  exact ⟨done, s, accounts, empty, rfl⟩

end Arena

end Codegen
