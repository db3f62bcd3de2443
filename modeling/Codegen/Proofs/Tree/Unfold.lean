import Codegen.Proofs.Tree.Shape
import Codegen.Proofs.Tree.Sharing

/-!
A tree, unfolded from its root. Without sharing, every node but the sentinels comes up once.
-/

namespace Codegen.Arena

/-- How far up a node stands. Children stand lower than their parents. -/
def rank (nodes : List NodeId) (id : NodeId) : Nat :=
  if id.isSentinel then 0 else nodes.idxOf id + 1

variable {a : Arena} {root n x : NodeId} {nodes : List NodeId}

theorem Spread.rank_lt (h : a.Spread root nodes) (shaped : a.WellFormed) {k : NodeId} {node : Node}
    (r : a.Reaches root n) (find : a.find? n = some node) (kid : k ∈ node.kids) :
    rank nodes k < rank nodes n := by
  have other : ¬n.isSentinel := fun s => by simp [shaped.kids_of_sentinel s find] at kid
  have mem := h.mem_of_below h.root_mem ((shaped.below_of_reaches r).resolve_left other)
  rw [rank, rank, if_neg other]
  split
  · omega
  · rename_i s
    have := h.idxOf_lt mem ((mem_kidsOf find).2 ⟨kid, s⟩)
    omega

theorem Spread.rank_le (h : a.Spread root nodes) : rank nodes root ≤ a.size := by
  have := length_le_size h.nodup_nodes h.live
  have := List.idxOf_lt_length_of_mem h.root_mem
  rw [rank]
  split <;> omega

theorem WellFormed.eq_of_reaches (h : a.WellFormed) (s : x.isSentinel) (r : a.Reaches x n) :
    n = x := by
  rcases Relation.ReflTransGen.cases_head r with e | ⟨k, ⟨node, find, kid⟩, _⟩
  · exact e.symm
  · simp [h.kids_of_sentinel s find] at kid

/-- What is reached stays within nodes that have all their children. -/
theorem Reaches.mem (r : a.Reaches root n) (nodes : List NodeId) (here : root ∈ nodes)
    (closed : ∀ p ∈ nodes, ((a.find? p).elim [] (·.kids)) ⊆ nodes) : n ∈ nodes := by
  induction r with
  | refl => exact here
  | tail _ edge ih =>
    obtain ⟨node, find, kid⟩ := edge
    exact closed _ ih (by simpa [find] using kid)

/-- What is below a node is live, and fewer than a number of steps down. -/
def Within (a : Arena) : Nat → NodeId → Prop
  | 0, _ => False
  | n + 1, id => ∃ node, a.find? id = some node ∧ ∀ k ∈ node.kids, a.Within n k

namespace Within

variable {k x : NodeId} {n : Nat}

theorem mono {m : Nat} (h : a.Within m x) (le : m ≤ n) : a.Within n x := by
  induction m generalizing n x with
  | zero => cases h
  | succ m ih =>
    obtain ⟨n, rfl⟩ : ∃ k, n = k + 1 := ⟨n - 1, by omega⟩
    obtain ⟨node, find, kids⟩ := h
    exact ⟨node, find, fun k kid => ih (kids k kid) (by omega)⟩

theorem isLive (h : a.Within n x) : a.isLive x := by
  cases n with
  | zero => cases h
  | succ n =>
    obtain ⟨node, find, _⟩ := h
    simp [Arena.isLive, find]

theorem kid (h : a.Within (n + 1) x) (kid : k ∈ a.kidsOf x) : a.Within n k := by
  obtain ⟨node, find, kids⟩ := h
  exact kids k ((mem_kidsOf find).1 kid).1

theorem below {y : NodeId} (h : a.Within n x) (below : a.Below x y) : a.Within n y := by
  induction below with
  | refl => exact h
  | tail _ kid ih =>
    cases n with
    | zero => cases ih
    | succ n => exact (ih.kid kid).mono (Nat.le_succ n)

/-- There is no way round in a circle. -/
theorem not_below {p : NodeId} (h : a.Within n p) (kid : k ∈ a.kidsOf p) : ¬a.Below k p := by
  intro circle
  induction n with
  | zero => cases h
  | succ n ih => exact ih ((h.kid kid).below circle)

end Within

/-- The nodes fewer than a number of steps below a node, once for every way down. -/
def unfold (a : Arena) : Nat → NodeId → List NodeId
  | 0, _ => []
  | n + 1, id => id :: ((a.find? id).elim [] (·.kids)).flatMap (a.unfold n)

theorem reaches_of_mem_unfold {F : Nat} (mem : n ∈ a.unfold F x) : a.Reaches x n := by
  induction F generalizing x with
  | zero => simp [unfold] at mem
  | succ F ih =>
    rcases List.mem_cons.1 mem with rfl | mem
    · exact .refl
    obtain ⟨k, kid, mem⟩ := List.mem_flatMap.1 mem
    cases find : a.find? x with
    | none => simp [find] at kid
    | some node => exact (ih mem).head ⟨node, find, by simpa [find] using kid⟩

theorem reaches_of_below (below : a.Below x n) : a.Reaches x n := by
  induction below with
  | refl => exact .refl
  | @tail p k _ kid ih =>
    cases find : a.find? p with
    | none => simp [kidsOf, find] at kid
    | some node => exact ih.tail ⟨node, find, ((mem_kidsOf find).1 kid).1⟩

/-- Below a sentinel there are only sentinels. -/
theorem WellFormed.unfold_sentinel (shaped : a.WellFormed) (s : x.isSentinel) (F : Nat) :
    (a.unfold F x).filter (!·.isSentinel) = [] := by
  refine List.filter_eq_nil_iff.2 fun n mem => ?_
  rw [shaped.eq_of_reaches s (reaches_of_mem_unfold mem)]
  simpa using s

namespace Spread

variable {x : NodeId} (h : a.Spread root nodes) (shaped : a.WellFormed)

include h shaped

theorem mem_unfold {F : Nat} {n : NodeId} (above : a.Below root x) (lt : rank nodes x < F)
    (below : a.Below x n) : n ∈ a.unfold F x := by
  induction F generalizing x with
  | zero => omega
  | succ F ih =>
    rcases Relation.ReflTransGen.cases_head below with rfl | ⟨k, kid, below⟩
    · exact List.mem_cons_self
    obtain ⟨node, find⟩ := Option.isSome_iff_exists.1 (h.live x (h.mem_iff.2 above))
    have mem := ((mem_kidsOf find).1 kid).1
    have lower := h.rank_lt shaped (reaches_of_below above) find mem
    refine List.mem_cons_of_mem _ (List.mem_flatMap.2 ⟨k, by simpa [find] using mem, ?_⟩)
    exact ih (above.tail kid) (by omega) below

/-- Below a root without sharing, no node comes up twice. -/
theorem nodup_unfold (F : Nat) (above : a.Below root x) :
    ((a.unfold F x).filter (!·.isSentinel)).Nodup := by
  induction F generalizing x with
  | zero => exact .nil
  | succ F ih =>
    by_cases s : x.isSentinel
    · rw [shaped.unfold_sentinel s]
      exact .nil
    have memx := h.mem_iff.2 above
    obtain ⟨node, find⟩ := Option.isSome_iff_exists.1 (h.live x memx)
    -- what comes up below a child, sentinels left out, is below it in the tree
    have under : ∀ {k n}, n ∈ (a.unfold F k).filter (!·.isSentinel) → ¬k.isSentinel ∧
        a.Below k n := by
      intro k n mem
      obtain ⟨mem, other⟩ := List.mem_filter.1 mem
      have reach := reaches_of_mem_unfold mem
      refine ⟨fun sk => ?_, (shaped.below_of_reaches reach).resolve_left (by simpa using other)⟩
      rw [shaped.eq_of_reaches sk reach] at other
      simp [sk] at other
    rw [unfold, find, Option.elim_some, List.filter_cons_of_pos (by simpa using s),
      List.filter_flatMap]
    refine List.nodup_cons.2 ⟨fun mem => ?_, List.nodup_flatMap.2 ⟨fun k kid => ?_, ?_⟩⟩
    · obtain ⟨k, kid, mem⟩ := List.mem_flatMap.1 mem
      obtain ⟨sk, below⟩ := under mem
      exact h.not_below_kid memx ((mem_kidsOf find).2 ⟨kid, sk⟩) below
    · by_cases sk : k.isSentinel
      · rw [shaped.unfold_sentinel sk]
        exact .nil
      · exact ih (above.tail ((mem_kidsOf find).2 ⟨kid, sk⟩))
    · have nodup : (a.kidsOf x).Nodup := h.nodup_kidsOf memx
      simp only [kidsOf, find, Option.elim_some, List.Nodup, List.pairwise_filter] at nodup
      refine nodup.imp_of_mem fun {k k'} kid kid' ne n mem mem' => ?_
      obtain ⟨sk, below⟩ := under mem
      obtain ⟨sk', below'⟩ := under mem'
      exact h.not_below_both memx ((mem_kidsOf find).2 ⟨kid, sk⟩) ((mem_kidsOf find).2 ⟨kid', sk'⟩)
        (ne (by simpa using sk) (by simpa using sk')) below below'

/-- What sentinels do not have is found among the nodes of the tree. -/
theorem perm_unfold {β : Type} {f : NodeId → List β} (none : ∀ n, n.isSentinel → f n = [])
    {F : Nat} (lt : rank nodes root < F) :
    ((a.unfold F root).flatMap f).Perm (nodes.flatMap f) := by
  have others : ∀ l : List NodeId, (l.filter (!·.isSentinel)).flatMap f = l.flatMap f := by
    intro l
    induction l with
    | nil => rfl
    | cons n rest ih =>
      by_cases s : n.isSentinel
      · simp [s, none n s, ih]
      · simp [s, ih]
  have perm : ((a.unfold F root).filter (!·.isSentinel)).Perm (nodes.filter (!·.isSentinel)) := by
    rw [List.perm_ext_iff_of_nodup (h.nodup_unfold shaped F .refl) (h.nodup_nodes.filter _)]
    intro n
    simp only [List.mem_filter, h.mem_iff]
    refine and_congr_left fun other => ⟨fun mem => ?_, h.mem_unfold shaped .refl lt⟩
    exact (shaped.below_of_reaches (reaches_of_mem_unfold mem)).resolve_left (by simpa using other)
  rw [← others, ← others nodes]
  exact perm.flatMap_right f

end Spread

end Codegen.Arena
