import Codegen.Proofs.Tree.Destruction
import Codegen.Proofs.Tree.Sharing
import Codegen.Tree.Make
import Mathlib.Data.Finset.Card
import Mathlib.Order.Interval.Finset.Nat

/-!
Where destruction ends. A node is given up only after all that is below it, so a node that is below
itself is descended into for ever. There is no other way not to end.
-/

namespace Codegen

namespace Arena

open Relation

variable {mode : DestroyMode} {a a' : Arena} {s s' : InstStore} {id k n root : NodeId} {node : Node}
  {kids : List NodeId} {step : NodeId → Arena × InstStore → Except Fault (Arena × InstStore)}

/-- A descent from a node can run in a circle. -/
def Circular (a : Arena) (root : NodeId) : Prop :=
  ∃ p k, a.Below root p ∧ k ∈ a.kidsOf p ∧ a.Below k p

namespace Circular

theorem of_below (below : a.Below id n) : a.Circular n → a.Circular id
  | ⟨p, k, reached, kid, back⟩ => ⟨p, k, below.trans reached, kid, back⟩

/-- The way to a circle, and round it, leads through a child. -/
theorem exists_kid (h : a.Circular id) : ∃ k ∈ a.kidsOf id, a.Circular k := by
  obtain ⟨p, k, reached, kid, back⟩ := h
  rcases ReflTransGen.cases_head reached with rfl | ⟨k', kid', reached⟩
  · exact ⟨k, kid, id, k, back, kid, back⟩
  · exact ⟨k', kid', p, k, reached, kid, back⟩

theorem of_thins (thins : a.Thins a') : a'.Circular id → a.Circular id
  | ⟨p, k, reached, kid, back⟩ => ⟨p, k, thins.below reached, thins p kid, thins.below back⟩

/-- A change that leaves all nodes on the way to circles alone leaves the circles. -/
theorem of_frame (frame : ∀ n, a.Circular n → a'.kidsOf n = a.kidsOf n) (h : a.Circular id) :
    a'.Circular id := by
  obtain ⟨p, k, reached, kid, back⟩ := h
  have circle : a.Circular p := ⟨p, k, .refl, kid, back⟩
  have way {x : NodeId} (below : a.Below x p) : a'.Below x p := by
    induction below using ReflTransGen.head_induction_on with
    | refl => exact .refl
    | head kid below ih => exact .head (frame _ (circle.of_below (.head kid below)) ▸ kid) ih
  exact ⟨p, k, way reached, frame p circle ▸ kid, way back⟩

end Circular

/-- There is no circle where children have lower numbers than their parents. -/
theorem not_circular_of_descending (descends : ∀ p k, k ∈ a.kidsOf p → k.index < p.index) :
    ¬a.Circular id := by
  rintro ⟨p, k, -, kid, back⟩
  have le {x y : NodeId} (below : a.Below x y) : y.index ≤ x.index := by
    induction below with
    | refl => exact Nat.le_refl _
    | tail _ kid ih => exact Nat.le_trans (Nat.le_of_lt (descends _ _ kid)) ih
  have := descends p k kid
  have := le back
  omega

/-! ## No circle where destruction ended -/

/-- Children that were destroyed one after the other lead to no circle: what one of them destroys is
below it, so circles that were there before are there for the next. -/
theorem not_circular_of_foldlM
    (each : ∀ {k a a' s s'}, step k (a, s) = .ok (a', s') →
      Razed mode (a.Doomed k) a s a' s' ∧ (k.isSentinel ∨ ¬a.Circular k))
    (run : kids.foldlM (fun state kid => step kid state) (a, s) = .ok (a', s')) (mem : k ∈ kids) :
    k.isSentinel ∨ ¬a.Circular k := by
  induction kids generalizing a s with
  | nil => cases mem
  | cons kid rest ih =>
    rw [List.foldlM_cons] at run
    obtain ⟨⟨a₁, s₁⟩, first, run⟩ := bind_eq_ok.1 run
    obtain ⟨razed, ends⟩ := each first
    rcases List.mem_cons.1 mem with rfl | mem
    · exact ends
    refine (ih run mem).imp_right fun later circle => later (circle.of_frame fun n around => ?_)
    have same : a₁.find? n = a.find? n := razed.spared fun ⟨other, below⟩ =>
      ends.resolve_left other (around.of_below below)
    rw [kidsOf, same, kidsOf]

theorem not_circular_of_destroyWithin (fuel : Nat)
    (run : destroyWithin mode fuel id (a, s) = .ok (a', s')) : id.isSentinel ∨ ¬a.Circular id := by
  induction fuel generalizing id a s a' s' with
  | zero => cases run
  | succ fuel ih =>
    obtain ⟨skip, -, -⟩ | ⟨node, a₁, -, find, kids, -⟩ := destroyWithin_ok run
    · refine skip.imp_right fun dead circle => ?_
      obtain ⟨k, kid, -⟩ := circle.exists_kid
      simp [kidsOf, dead] at kid
    · refine .inr fun circle => ?_
      obtain ⟨k, kid, circle⟩ := circle.exists_kid
      obtain ⟨mem, other⟩ := (mem_kidsOf find).1 kid
      have ends := not_circular_of_foldlM (fun run => ⟨razed_of_destroyWithin fuel run, ih run⟩)
        kids mem
      refine ends.resolve_left other (circle.of_frame fun n _ => ?_)
      rw [kidsOf_stripped find]

/-! ## Destruction ends where there is no circle -/

section

open Classical

/-- How many nodes with children are below a node. -/
noncomputable def inner (a : Arena) (id : NodeId) : Nat :=
  ((Finset.range a.size).filter fun i => a.Below id ⟨i⟩ ∧ a.kidsOf ⟨i⟩ ≠ []).card

theorem lt_size_of_kidsOf (kids : a.kidsOf n ≠ []) : n.index < a.size := by
  cases find : a.find? n with
  | none => simp [kidsOf, find] at kids
  | some node => exact lt_of_find? find

/-- Sentinels are not below a live node, so there is less below it than there are nodes. -/
theorem inner_lt_size (other : ¬id.isSentinel) (live : a.isLive id) :
    a.inner id + 1 < a.size + 1 := by
  have two {n : NodeId} (other : ¬n.isSentinel) : 2 ≤ n.index := by
    obtain ⟨_ | _ | i⟩ := n
    · cases other rfl
    · cases other rfl
    · simp
  have le : a.inner id ≤ (Finset.Ico 2 a.size).card := by
    refine Finset.card_le_card fun i mem => ?_
    obtain ⟨lt, below, -⟩ := Finset.mem_filter.1 mem
    refine Finset.mem_Ico.2 ⟨?_, Finset.mem_range.1 lt⟩
    rcases ReflTransGen.cases_tail below with e | ⟨p, -, kid⟩
    · exact @two ⟨i⟩ (e ▸ other)
    · exact two (not_isSentinel_of_mem_kidsOf kid)
  obtain ⟨node, find⟩ := Option.isSome_iff_exists.1 live
  have := lt_of_find? find
  have := two other
  rw [Nat.card_Ico] at le
  omega

theorem Thins.inner_le (thins : a.Thins a') (id : NodeId) : a'.inner id ≤ a.inner id := by
  refine Finset.card_le_card fun i mem => ?_
  obtain ⟨-, below, kids⟩ := Finset.mem_filter.1 mem
  have before : a.kidsOf ⟨i⟩ ≠ [] := fun none => kids (List.subset_nil.1 (none ▸ thins ⟨i⟩))
  exact Finset.mem_filter.2
    ⟨Finset.mem_range.2 (lt_size_of_kidsOf before), thins.below below, before⟩

/-- Away from circles there is less below a child: its parent is not. -/
theorem inner_lt (ends : ¬a.Circular id) (kid : k ∈ a.kidsOf id) : a.inner k < a.inner id := by
  have kids : a.kidsOf id ≠ [] := List.ne_nil_of_mem kid
  refine Finset.card_lt_card (Finset.ssubset_iff_of_subset (fun i mem => ?_) |>.2
    ⟨id.index, ?_, ?_⟩)
  · obtain ⟨lt, below, inside⟩ := Finset.mem_filter.1 mem
    exact Finset.mem_filter.2 ⟨lt, .head kid below, inside⟩
  · exact Finset.mem_filter.2 ⟨Finset.mem_range.2 (lt_size_of_kidsOf kids), .refl, kids⟩
  · intro mem
    obtain ⟨-, back, -⟩ := Finset.mem_filter.1 mem
    exact ends ⟨id, k, .refl, kid, back⟩

end

/-- Children are destroyed one after the other as each of them can be destroyed by itself, in an
arena that only gets thinner. -/
theorem exists_foldlM (thins : ∀ {k a a' s s'}, step k (a, s) = .ok (a', s') → a.Thins a')
    (each : ∀ k ∈ kids, ∀ {a'}, a.Thins a' → ∀ s, ∃ r, step k (a', s) = .ok r) (so_far : a.Thins a')
    (s : InstStore) : ∃ r, kids.foldlM (fun state kid => step kid state) (a', s) = .ok r := by
  induction kids generalizing a' s with
  | nil => exact ⟨_, rfl⟩
  | cons kid rest ih =>
    obtain ⟨⟨a₁, s₁⟩, first⟩ := each kid (by simp) so_far s
    obtain ⟨r, later⟩ := ih (fun k mem => each k (by simp [mem]))
      (fun n k mem => so_far n (thins first n mem)) s₁
    refine ⟨r, ?_⟩
    rw [List.foldlM_cons]
    exact bind_eq_ok.2 ⟨_, first, later⟩

theorem destroyWithin_ends {fuel : Nat} (ends : id.isSentinel ∨ ¬a.Circular id)
    (enough : a.inner id + 1 < fuel) (s : InstStore) :
    ∃ r, destroyWithin mode fuel id (a, s) = .ok r := by
  induction fuel generalizing id a s with
  | zero => omega
  | succ fuel ih =>
    by_cases sentinel : id.isSentinel
    · exact ⟨_, destroyWithin_of_skip fuel (.inl sentinel)⟩
    cases find : a.find? id with
    | none => exact ⟨_, destroyWithin_of_skip fuel (.inr find)⟩
    | some node =>
      have ends := ends.resolve_left sentinel
      have stripped : a.Thins (a.stripped mode id node) :=
        fun n => by rw [kidsOf_stripped find]; simp
      obtain ⟨r, kids⟩ : ∃ r, node.kids.foldlM (fun state kid => destroyWithin mode fuel kid state)
          (a.stripped mode id node, s.stripped mode node) = .ok r := by
        refine exists_foldlM (fun run => (razed_of_destroyWithin fuel run).thins)
          (fun k mem {a'} thins s => ?_) stripped _
        by_cases other : k.isSentinel
        · obtain ⟨fuel, rfl⟩ : ∃ n, fuel = n + 1 := ⟨fuel - 1, by omega⟩
          exact ⟨_, destroyWithin_of_skip fuel (.inl other)⟩
        have kid := (mem_kidsOf find).2 ⟨mem, other⟩
        refine ih (.inr fun circle => ends ?_) ?_ s
        · exact (Circular.of_thins thins circle).of_below (.single kid)
        · have := inner_lt ends kid
          have := thins.inner_le k
          omega
      rw [destroyWithin_of_find fuel sentinel find]
      exact ⟨_, bind_eq_ok.2 ⟨_, kids, rfl⟩⟩

/-- The only way to fail is not to end. -/
theorem endless_of_foldlM (each : ∀ {k state fault}, step k state = .error fault → fault = .endless)
    {state : Arena × InstStore} {fault : Fault}
    (run : kids.foldlM (fun state kid => step kid state) state = .error fault) :
    fault = .endless := by
  induction kids generalizing state with
  | nil => cases run
  | cons kid rest ih =>
    rw [List.foldlM_cons] at run
    cases first : step kid state with
    | error e =>
      rw [first] at run
      cases run
      exact each first
    | ok state₁ =>
      rw [first] at run
      exact ih run

theorem endless_of_destroyWithin {fuel : Nat} {state : Arena × InstStore} {fault : Fault}
    (run : destroyWithin mode fuel id state = .error fault) : fault = .endless := by
  induction fuel generalizing id state fault with
  | zero => exact (Except.error.inj run).symm
  | succ fuel ih =>
    obtain ⟨a, s⟩ := state
    by_cases sentinel : id.isSentinel
    · rw [destroyWithin_of_skip fuel (.inl sentinel)] at run
      cases run
    cases find : a.find? id with
    | none =>
      rw [destroyWithin_of_skip fuel (.inr find)] at run
      cases run
    | some node =>
      rw [destroyWithin_of_find fuel sentinel find] at run
      cases kids : node.kids.foldlM (fun state kid => destroyWithin mode fuel kid state)
          (a.stripped mode id node, s.stripped mode node) with
      | error e =>
        rw [kids] at run
        cases run
        exact endless_of_foldlM ih kids
      | ok r =>
        rw [kids] at run
        cases run

theorem exists_destroy (mode : DestroyMode) (ends : root.isSentinel ∨ ¬a.Circular root)
    (s : InstStore) : ∃ r, a.destroy s root mode = .ok r := by
  by_cases sentinel : root.isSentinel
  · exact ⟨_, destroyWithin_of_skip a.size (.inl sentinel)⟩
  by_cases live : a.isLive root
  · exact destroyWithin_ends ends (inner_lt_size sentinel live) s
  · exact ⟨_, destroyWithin_of_skip a.size (.inr (by simpa [isLive] using live))⟩

/-- Above a circle no number of steps down is enough. -/
theorem destroyWithin_of_circular (other : ¬root.isSentinel) (circle : a.Circular root) (fuel : Nat)
    (s : InstStore) : destroyWithin mode fuel root (a, s) = .error .endless := by
  cases run : destroyWithin mode fuel root (a, s) with
  | error fault => rw [endless_of_destroyWithin run]
  | ok r => exact absurd circle ((not_circular_of_destroyWithin fuel run).resolve_left other)

/-- Destruction ends exactly where no circle is below the root, or the root is a sentinel, which is
not looked into. Otherwise no number of steps down is enough. -/
theorem destroy_ends_iff (a : Arena) (s : InstStore) (root : NodeId) (mode : DestroyMode) :
    ((∃ r, a.destroy s root mode = .ok r) ↔ root.isSentinel ∨ ¬a.Circular root) ∧
      (¬root.isSentinel → a.Circular root →
        ∀ fuel, destroyWithin mode fuel root (a, s) = .error .endless) :=
  ⟨⟨fun ⟨_, run⟩ => not_circular_of_destroyWithin _ run, fun ends => exists_destroy mode ends s⟩,
    fun other circle fuel => destroyWithin_of_circular other circle fuel s⟩

/-- A block that was added to itself is reported by the single-parent check and cannot be
destroyed. -/
theorem endless_of_block_in_itself : ∃ block a₀ a,
    initial.makeVoid .blockStmt [] .synthetic = .ok (block, a₀) ∧
      a₀.appendChild block block = .ok a ∧ a.sharing block = .ok [.sharedStmt block block] ∧
      ∀ mode fuel s, destroyWithin mode fuel block (a, s) = .error .endless := by
  refine ⟨⟨2⟩, _, _, rfl, rfl, rfl, fun mode fuel s => ?_⟩
  exact destroyWithin_of_circular (by decide) ⟨⟨2⟩, ⟨2⟩, .refl, by decide, .refl⟩ fuel s

end Arena

end Codegen
