import Codegen.Proofs.Outcome
import Codegen.Proofs.Tree.Below
import Codegen.Tree.Destroy

/-!
What destruction leaves. It takes the live nodes below the root, no others, and their instructions
as far as the mode asks for it. All else that is said of destruction follows from this.
-/

namespace Codegen

namespace InstStore

theorem find?_freeAll (s : InstStore) (ids : List InstId) (i : InstId) :
    (s.freeAll ids).find? i = if i ∈ ids then none else s.find? i := by
  induction ids generalizing s with
  | nil => rfl
  | cons id rest ih =>
    refine (ih (s.free id)).trans ?_
    by_cases e : i = id
    · simp [e]
    · simp [e, find?_free_of_ne e]

theorem size_slots_freeAll (s : InstStore) (ids : List InstId) :
    (s.freeAll ids).slots.size = s.slots.size := by
  induction ids generalizing s with
  | nil => rfl
  | cons id rest ih => exact (ih (s.free id)).trans (size_slots_free s id)

/-- The store in which the children of a node are destroyed: unless instructions are kept, those of
the node itself are freed. -/
def stripped (s : InstStore) (mode : DestroyMode) (node : Node) : InstStore :=
  if mode = .wrappers then s else s.freeAll node.insts

end InstStore

/-- What remains of a node that is destroyed. -/
def DestroyMode.remains (mode : DestroyMode) (node : Option Node) : Option Node :=
  if mode = .instructions then node.map ({ · with insts := [] }) else none

theorem DestroyMode.remains_remains (mode : DestroyMode) (node : Option Node) :
    mode.remains (mode.remains node) = mode.remains node := by
  unfold remains
  split
  · cases node <;> rfl
  · rfl

namespace Arena

open Relation

variable {mode : DestroyMode} {a a' a₁ a₂ : Arena} {s s' s₁ s₂ : InstStore} {id k n root : NodeId}
  {node : Node} {doomed doomed' : NodeId → Prop}

/-! ## One step of destruction -/

/-- The arena in which the children of a node are destroyed. -/
def stripped (a : Arena) (mode : DestroyMode) (id : NodeId) (node : Node) : Arena :=
  if mode = .wrappers then a else a.set id { node with insts := [] }

theorem find?_stripped (find : a.find? id = some node) :
    (a.stripped mode id node).find? id =
      some (if mode = .wrappers then node else { node with insts := [] }) := by
  unfold stripped
  split
  · exact find
  · exact find?_set (isLive_of_find? find)

theorem find?_stripped_of_ne (ne : n ≠ id) : (a.stripped mode id node).find? n = a.find? n := by
  unfold stripped
  split
  · rfl
  · exact find?_set_of_ne ne

@[simp] theorem size_stripped : (a.stripped mode id node).size = a.size := by
  unfold stripped
  split <;> simp

theorem kidsOf_stripped (find : a.find? id = some node) :
    (a.stripped mode id node).kidsOf = a.kidsOf := by
  funext n
  by_cases e : n = id
  · subst e
    simp only [kidsOf, find?_stripped find, find]
    split <;> rfl
  · simp only [kidsOf, find?_stripped_of_ne e]

theorem destroyWithin_of_skip (fuel : Nat) (skip : id.isSentinel ∨ a.find? id = none) :
    destroyWithin mode (fuel + 1) id (a, s) = .ok (a, s) := by
  have none : (if id.isSentinel then none else a.find? id) = none := by
    rcases skip with sentinel | dead
    · rw [if_pos sentinel]
    · rw [dead, ite_self]
  rw [destroyWithin, none]

theorem destroyWithin_of_find (fuel : Nat) (other : ¬id.isSentinel)
    (find : a.find? id = some node) : destroyWithin mode (fuel + 1) id (a, s) = (do
      let (a, insts) ← node.kids.foldlM (fun state kid => destroyWithin mode fuel kid state)
        (a.stripped mode id node, s.stripped mode node)
      return (if mode = .instructions then a else a.kill id, insts)) := by
  have some : (if id.isSentinel then none else a.find? id) = some node := by rw [if_neg other, find]
  rw [destroyWithin, some]
  by_cases wrappers : mode = .wrappers
  · simp only [stripped, InstStore.stripped, if_pos wrappers]
  · simp only [stripped, InstStore.stripped, if_neg wrappers]

/-- What a step of destruction can be: nothing is done, or a live node is stripped, its children are
destroyed one after the other, and it dies unless it is to stay. -/
theorem destroyWithin_ok {fuel : Nat}
    (run : destroyWithin mode (fuel + 1) id (a, s) = .ok (a', s')) :
    ((id.isSentinel ∨ a.find? id = none) ∧ a' = a ∧ s' = s) ∨
      ∃ node a₁, ¬id.isSentinel ∧ a.find? id = some node ∧
        node.kids.foldlM (fun state kid => destroyWithin mode fuel kid state)
          (a.stripped mode id node, s.stripped mode node) = .ok (a₁, s') ∧
        a' = if mode = .instructions then a₁ else a₁.kill id := by
  by_cases sentinel : id.isSentinel
  · rw [destroyWithin_of_skip fuel (.inl sentinel)] at run
    cases run
    exact .inl ⟨.inl sentinel, rfl, rfl⟩
  cases find : a.find? id with
  | none =>
    rw [destroyWithin_of_skip fuel (.inr find)] at run
    cases run
    exact .inl ⟨.inr rfl, rfl, rfl⟩
  | some node =>
    rw [destroyWithin_of_find fuel sentinel find] at run
    obtain ⟨⟨a₁, s₁⟩, kids, run⟩ := bind_eq_ok.1 run
    cases run
    exact .inr ⟨node, a₁, sentinel, rfl, kids, rfl⟩

/-- What stripping a node and killing it keeps, destruction keeps. -/
theorem destroyWithin_keeps {P : Arena → InstStore → Prop}
    (strip : ∀ {a s id node}, a.find? id = some node → P a s →
      P (a.stripped mode id node) (s.stripped mode node))
    (kill : ∀ {a s id}, ¬id.isSentinel → P a s → P (a.kill id) s) {fuel : Nat}
    (run : destroyWithin mode fuel id (a, s) = .ok (a', s')) (before : P a s) : P a' s' := by
  induction fuel generalizing id a s a' s' with
  | zero => cases run
  | succ fuel ih =>
    obtain ⟨-, rfl, rfl⟩ | ⟨node, a₁, other, find, kids, rfl⟩ := destroyWithin_ok run
    · exact before
    have stripped := strip find before
    suffices P a₁ s' by
      split
      · exact this
      · exact kill other this
    clear run
    generalize node.kids = rest, a.stripped mode id node = b,
      s.stripped mode node = t at kids stripped
    -- the children, one after the other
    induction rest generalizing b t with
    | nil =>
      cases kids
      exact stripped
    | cons kid rest later =>
      rw [List.foldlM_cons] at kids
      obtain ⟨⟨b', t'⟩, first, kids⟩ := bind_eq_ok.1 kids
      exact later b' t' kids (ih first stripped)

/-- The instructions of a tree stay where only its nodes are destroyed. -/
theorem store_of_destroyWithin_wrappers {fuel : Nat}
    (run : destroyWithin .wrappers fuel id (a, s) = .ok (a', s')) : s' = s := by
  refine destroyWithin_keeps (P := fun _ t => t = s) (fun _ same => ?_) (fun _ same => same) run rfl
  exact same

/-- Fewer nodes, and each with the children that it had. -/
def Thins (a a' : Arena) : Prop := ∀ n, a'.kidsOf n ⊆ a.kidsOf n

theorem Thins.below {a a' : Arena} (h : a.Thins a') {x n : NodeId} (below : a'.Below x n) :
    a.Below x n := by
  induction below with
  | refl => exact .refl
  | tail _ kid ih => exact ih.tail (h _ kid)

/-- The nodes that go with a root: itself and what is reached from it, as far as it is live and
reached through live nodes, sentinels left out. -/
def Doomed (a : Arena) (root n : NodeId) : Prop := ¬root.isSentinel ∧ a.Below root n ∧ a.isLive n

/-- A state after some nodes were destroyed. Their instructions are freed unless these are to stay,
and nothing else has changed. -/
structure Razed (mode : DestroyMode) (doomed : NodeId → Prop) (a : Arena) (s : InstStore)
    (a' : Arena) (s' : InstStore) : Prop where
  size : a'.size = a.size
  slots : s'.slots.size = s.slots.size
  gone : ∀ n, doomed n → a'.find? n = mode.remains (a.find? n)
  frame : ∀ n, ¬doomed n → a'.find? n = a.find? n
  freed : mode ≠ .wrappers → ∀ n i, doomed n → i ∈ a.instsOf n → s'.find? i = none
  kept : ∀ i, (mode = .wrappers ∨ ∀ n, doomed n → i ∉ a.instsOf n) → s'.find? i = s.find? i

namespace Razed

theorem nothing (mode : DestroyMode) (a : Arena) (s : InstStore) (none : ∀ n, ¬doomed n) :
    Razed mode doomed a s a s where
  size := rfl
  slots := rfl
  gone n h := absurd h (none n)
  frame _ _ := rfl
  freed _ n _ h := absurd h (none n)
  kept _ _ := rfl

theorem congr (h : Razed mode doomed a s a' s') (same : ∀ n, doomed' n ↔ doomed n) :
    Razed mode doomed' a s a' s' := by
  rwa [show doomed' = doomed from funext fun n => propext (same n)]

/-- A node is what it was, or what remains of it. -/
theorem find (h : Razed mode doomed a s a' s') (n : NodeId) :
    a'.find? n = a.find? n ∨ a'.find? n = mode.remains (a.find? n) := by
  by_cases d : doomed n
  · exact .inr (h.gone n d)
  · exact .inl (h.frame n d)

/-- An instruction is what it was, or it is freed, and then a node had it that is destroyed. -/
theorem store (h : Razed mode doomed a s a' s') (i : InstId) :
    s'.find? i = s.find? i ∨ s'.find? i = none ∧ ∃ n, doomed n ∧ i ∈ a.instsOf n := by
  by_cases free : mode ≠ .wrappers ∧ ∃ n, doomed n ∧ i ∈ a.instsOf n
  · obtain ⟨frees, n, d, mem⟩ := free
    exact .inr ⟨h.freed frees n i d mem, n, d, mem⟩
  · refine .inl (h.kept i ?_)
    by_cases wrappers : mode = .wrappers
    · exact .inl wrappers
    · exact .inr fun n d mem => free ⟨wrappers, n, d, mem⟩

theorem dead_inst (h : Razed mode doomed a s a' s') {i : InstId} (dead : s.find? i = none) :
    s'.find? i = none := (h.store i).elim (·.trans dead) And.left

theorem trans (h : Razed mode doomed a s a₁ s₁) (h' : Razed mode doomed' a₁ s₁ a₂ s₂) :
    Razed mode (fun n => doomed n ∨ doomed' n) a s a₂ s₂ where
  size := h'.size.trans h.size
  slots := h'.slots.trans h.slots
  gone n d := by
    by_cases first : doomed n
    · rcases h'.find n with e | e
      · rw [e, h.gone n first]
      · rw [e, h.gone n first, mode.remains_remains]
    · rw [h'.gone n (d.resolve_left first), h.frame n first]
  frame n d := by rw [h'.frame n fun d' => d (.inr d'), h.frame n fun d' => d (.inl d')]
  freed frees n i d mem := by
    by_cases first : doomed n
    · exact h'.dead_inst (h.freed frees n i first mem)
    · refine h'.freed frees n i (d.resolve_left first) ?_
      rwa [instsOf, h.frame n first]
  kept i out := by
    refine (h'.kept i (out.imp_right fun out n d mem => ?_)).trans
      (h.kept i (out.imp_right fun out n d => out n (.inl d)))
    by_cases first : doomed n
    · rw [instsOf, h.gone n first, DestroyMode.remains] at mem
      split at mem
      · cases find : a.find? n <;> simp [find] at mem
      · simp at mem
    · rw [instsOf, h.frame n first] at mem
      exact out n (.inr d) mem

theorem thins (h : Razed mode doomed a s a' s') : a.Thins a' := by
  intro n
  rcases h.find n with e | e
  · rw [kidsOf, e, kidsOf]
    exact List.Subset.refl _
  · rw [kidsOf, e, kidsOf, DestroyMode.remains]
    split
    · cases a.find? n <;> simp
    · simp

theorem isLive (h : Razed mode doomed a s a' s') (live : a'.isLive n) : a.isLive n := by
  rcases h.find n with e | e
  · rwa [Arena.isLive, e] at live
  · rw [Arena.isLive, e, DestroyMode.remains] at live
    split at live
    · simpa [Arena.isLive] using live
    · simp at live

end Razed

/-! ## What is doomed -/

theorem doomed_iff (other : ¬id.isSentinel) (find : a.find? id = some node) :
    a.Doomed id n ↔ n = id ∨ ∃ k ∈ node.kids, a.Doomed k n := by
  constructor
  · rintro ⟨-, below, live⟩
    rcases ReflTransGen.cases_head below with e | ⟨k, kid, below⟩
    · exact .inl e.symm
    · obtain ⟨mem, otherKid⟩ := (mem_kidsOf find).1 kid
      exact .inr ⟨k, mem, otherKid, below, live⟩
  · rintro (rfl | ⟨k, mem, otherKid, below, live⟩)
    · exact ⟨other, .refl, isLive_of_find? find⟩
    · exact ⟨other, .head ((mem_kidsOf find).2 ⟨mem, otherKid⟩) below, live⟩

/-- After one destruction another dooms what it would have doomed before, as far as it is not gone:
whoever is reached through a node that is gone went along with it. -/
theorem Razed.doomed_or (h : Razed mode (a.Doomed id) a s a₁ s₁) :
    a.Doomed id n ∨ a₁.Doomed k n ↔ a.Doomed id n ∨ a.Doomed k n := by
  constructor
  · exact Or.imp_right fun ⟨other, below, live⟩ => ⟨other, h.thins.below below, h.isLive live⟩
  · intro d
    by_cases first : a.Doomed id n
    · exact .inl first
    obtain ⟨other, below, live⟩ := d.resolve_left first
    have same {x : NodeId} (below : a.Below x n) : a₁.find? x = a.find? x :=
      h.frame x fun ⟨otherRoot, reached, _⟩ => first ⟨otherRoot, reached.trans below, live⟩
    have way {x : NodeId} (below : a.Below x n) : a₁.Below x n := by
      induction below using ReflTransGen.head_induction_on with
      | refl => exact .refl
      | head kid below ih =>
        refine .head ?_ ih
        rwa [kidsOf, same (.head kid below)]
    refine .inr ⟨other, way below, ?_⟩
    rwa [Arena.isLive, same .refl]

theorem doomed_stripped (find : a.find? id = some node) :
    (a.stripped mode id node).Doomed k n ↔ a.Doomed k n := by
  have live : (a.stripped mode id node).isLive n = a.isLive n := by
    by_cases e : n = id
    · simp [Arena.isLive, e, find?_stripped find, find]
    · simp [Arena.isLive, find?_stripped_of_ne e]
  rw [Doomed, Doomed, live, Below, Below, kidsOf_stripped find]

/-! ## What destruction does -/

theorem razed_of_foldlM {step : NodeId → Arena × InstStore → Except Fault (Arena × InstStore)}
    (each : ∀ {k a a' s s'}, step k (a, s) = .ok (a', s') → Razed mode (a.Doomed k) a s a' s')
    {kids : List NodeId}
    (run : kids.foldlM (fun state kid => step kid state) (a, s) = .ok (a', s')) :
    Razed mode (fun n => ∃ k ∈ kids, a.Doomed k n) a s a' s' := by
  induction kids generalizing a s with
  | nil =>
    cases run
    exact .nothing _ _ _ fun n ⟨k, mem, _⟩ => List.not_mem_nil mem
  | cons kid rest ih =>
    rw [List.foldlM_cons] at run
    obtain ⟨⟨a₁, s₁⟩, first, run⟩ := bind_eq_ok.1 run
    have one := each first
    refine (one.trans (ih run)).congr fun n => ?_
    constructor
    · rintro ⟨k, mem, d⟩
      rcases List.mem_cons.1 mem with rfl | mem
      · exact .inl d
      · exact (one.doomed_or.2 (.inr d)).imp_right fun d => ⟨k, mem, d⟩
    · rintro (d | ⟨k, mem, d⟩)
      · exact ⟨kid, by simp, d⟩
      · rcases one.doomed_or.1 (.inr d) with d | d
        · exact ⟨kid, by simp, d⟩
        · exact ⟨k, by simp [mem], d⟩

/-- A node was stripped, what its children doom was destroyed, and the node itself dies unless it is
to stay. -/
theorem Razed.of_stripped (find : a.find? id = some node)
    (kids : Razed mode doomed (a.stripped mode id node) (s.stripped mode node) a₁ s') :
    Razed mode (fun n => n = id ∨ doomed n) a s
      (if mode = .instructions then a₁ else a₁.kill id) s' where
  size := by
    have size := kids.size.trans size_stripped
    split
    · exact size
    · rwa [size_kill]
  slots := by
    refine kids.slots.trans ?_
    unfold InstStore.stripped
    split
    · rfl
    · exact InstStore.size_slots_freeAll s node.insts
  gone n d := by
    by_cases e : n = id
    · subst e
      split
      · rename_i stays
        have same : mode.remains ((a.stripped mode n node).find? n) = mode.remains (a.find? n) := by
          rw [find?_stripped find, find]
          simp [DestroyMode.remains, stays]
        have left : (a.stripped mode n node).find? n = mode.remains (a.find? n) := by
          rw [find?_stripped find, find]
          simp [DestroyMode.remains, stays]
        exact (kids.find n).elim (·.trans left) (·.trans same)
      · rename_i dies
        rw [find?_kill, DestroyMode.remains, if_neg dies]
    · have there := kids.gone n (d.resolve_left e)
      rw [find?_stripped_of_ne e] at there
      split
      · exact there
      · rwa [find?_kill_of_ne e]
  frame n d := by
    have e : n ≠ id := fun e => d (.inl e)
    have there := kids.frame n fun d' => d (.inr d')
    rw [find?_stripped_of_ne e] at there
    split
    · exact there
    · rwa [find?_kill_of_ne e]
  freed frees n i d mem := by
    by_cases e : n = id
    · subst e
      refine kids.dead_inst ?_
      rw [InstStore.stripped, if_neg frees]
      rw [InstStore.find?_freeAll, if_pos (by simpa [instsOf, find] using mem)]
    · refine kids.freed frees n i (d.resolve_left e) ?_
      rwa [instsOf, find?_stripped_of_ne e]
  kept i out := by
    refine (kids.kept i (out.imp_right fun out n d mem => ?_)).trans ?_
    · by_cases e : n = id
      · subst e
        refine out n (.inl rfl) ?_
        rw [instsOf, find?_stripped find] at mem
        rw [instsOf, find]
        split at mem
        · exact mem
        · cases mem
      · rw [instsOf, find?_stripped_of_ne e] at mem
        exact out n (.inr d) mem
    · unfold InstStore.stripped
      split
      · rfl
      · rename_i frees
        rw [InstStore.find?_freeAll, if_neg]
        exact fun mem => out.resolve_left frees id (.inl rfl) (by simpa [instsOf, find] using mem)

theorem razed_of_destroyWithin (fuel : Nat)
    (run : destroyWithin mode fuel id (a, s) = .ok (a', s')) :
    Razed mode (a.Doomed id) a s a' s' := by
  induction fuel generalizing id a s a' s' with
  | zero => cases run
  | succ fuel ih =>
    obtain ⟨skip, rfl, rfl⟩ | ⟨node, a₁, other, find, kids, rfl⟩ := destroyWithin_ok run
    · refine .nothing mode a' s' fun n ⟨other, below, live⟩ => ?_
      have dead := skip.resolve_left other
      rcases ReflTransGen.cases_head below with rfl | ⟨k, kid, -⟩
      · simp [Arena.isLive, dead] at live
      · simp [kidsOf, dead] at kid
    · refine (Razed.of_stripped find (razed_of_foldlM ih kids)).congr fun n => ?_
      simp only [doomed_iff other find, doomed_stripped find]

namespace Razed

theorem find_of_dies (h : Razed mode doomed a s a' s') (dies : mode ≠ .instructions) (n : NodeId) :
    a'.find? n = a.find? n ∨ a'.find? n = none := by
  have found := h.find n
  rwa [DestroyMode.remains, if_neg dies] at found

/-- What is not below the root is not destroyed with it. -/
theorem spared (h : Razed mode (a.Doomed root) a s a' s')
    (out : ¬(¬root.isSentinel ∧ a.Below root n)) :
    a'.find? n = a.find? n := h.frame n fun ⟨other, below, _⟩ => out ⟨other, below⟩

/-- Below a root that dies nothing lives. -/
theorem dead_of_below (h : Razed mode (a.Doomed root) a s a' s') (dies : mode ≠ .instructions)
    (other : ¬root.isSentinel) (below : a.Below root n) : a'.find? n = none := by
  rcases h.find_of_dies dies n with same | dead
  · cases find : a.find? n with
    | none => exact same.trans find
    | some node =>
      rw [h.gone n ⟨other, below, isLive_of_find? find⟩, DestroyMode.remains, if_neg dies]
  · exact dead

end Razed

end Arena

end Codegen
