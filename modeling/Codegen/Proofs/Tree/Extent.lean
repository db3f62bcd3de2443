import Codegen.Proofs.Tree.Circles

/-!
How far destruction goes: to the live nodes below the root, no further, and to all of them. In the
modes that leave nodes standing a shared node is gone through several times, which does no more than
one time.
-/

namespace Codegen

/-! ## The count of live instructions -/

namespace InstStore

/-- The stores that come about: instructions are created and freed, in any order. -/
inductive Built : InstStore → Prop
  | initial : Built initial
  | create {s : InstStore} (kind : InstKind) (ty : TypeId) : Built s → Built (s.create kind ty).2
  | free {s : InstStore} (id : InstId) : Built s → Built (s.free id)

/-- How many instructions are live, counted one by one. -/
def liveCount (s : InstStore) : Nat := s.slots.countP Option.isSome

theorem Built.freeAll {s : InstStore} (built : s.Built) (ids : List InstId) :
    (s.freeAll ids).Built := by
  induction ids generalizing s with
  | nil => exact built
  | cons id rest ih => exact ih (built.free id)

theorem liveCount_free {s : InstStore} {id : InstId} (live : s.isLive id) :
    (s.free id).liveCount + 1 = s.liveCount := by
  obtain ⟨inst, find⟩ := Option.isSome_iff_exists.1 live
  have lt := lt_of_find? find
  have at_id : s.slots[id.index] = some inst := by
    simpa [find?, Array.getElem?_eq_getElem lt] using find
  have set : (s.free id).slots = s.slots.set id.index none lt := by
    rw [free, if_pos live]
    apply Array.ext_getElem?
    intro i
    rw [Array.getElem?_modify, Array.getElem?_set]
    split
    · rename_i e
      simp [← e, Array.getElem?_eq_getElem lt]
    · rfl
  have some : 0 < s.slots.countP Option.isSome :=
    Array.countP_pos_iff.2 ⟨_, Array.getElem_mem lt, by rw [at_id]; rfl⟩
  rw [liveCount, liveCount, set, Array.countP_set, at_id]
  simp only [Option.isSome_some, Option.isSome_none, if_true]
  simp
  omega

theorem Built.live_eq {s : InstStore} (built : s.Built) : s.live = s.liveCount := by
  induction built with
  | initial => rfl
  | create kind ty _ ih => simp [InstStore.create, liveCount, ih]
  | @free s id _ ih =>
    by_cases live : s.isLive id
    · have := liveCount_free live
      simp only [InstStore.free, if_pos live] at this ⊢
      omega
    · simpa only [InstStore.free, if_neg live] using ih

end InstStore

namespace Arena

open Relation

variable {mode : DestroyMode} {a a' a₁ a₂ : Arena} {s s' s₁ s₂ : InstStore} {id k n : NodeId}
  {node : Node} {doomed doomed' : NodeId → Prop}

/-! ## Instructions are counted -/

theorem built_of_destroyWithin {fuel : Nat} (built : s.Built)
    (run : destroyWithin mode fuel id (a, s) = .ok (a', s')) : s'.Built := by
  refine destroyWithin_keeps (P := fun _ t => t.Built) (fun {_ t _ node} _ built => ?_)
    (fun _ built => built) run built
  unfold InstStore.stripped
  split
  · exact built
  · exact built.freeAll node.insts

/-! ## Once is enough -/

theorem set_eq_self (find : a.find? id = some node) : a.set id node = a := by
  obtain ⟨nodes⟩ := a
  refine congrArg Arena.mk (Array.ext_getElem? fun i => ?_)
  rw [Array.getElem?_modify]
  split
  · rename_i e
    rw [find?, Option.join_eq_some_iff] at find
    simp [← e, show nodes[id.index]? = _ from find]
  · rfl

theorem stripped_eq_self (find : a.find? id = some node) (bare : node.insts = []) (s : InstStore) :
    (a.stripped mode id node, s.stripped mode node) = (a, s) := by
  have same : { node with insts := [] } = node := by rw [← bare]
  unfold stripped InstStore.stripped
  rw [same, set_eq_self find, bare]
  exact congrArg₂ Prod.mk (ite_self _) (ite_self _)

/-- Where no node owns an instruction there is nothing to free. -/
theorem destroyWithin_bare {fuel : Nat} {r : Arena × InstStore}
    (bare : ∀ n, a.Doomed id n → a.instsOf n = [])
    (run : destroyWithin .instructions fuel id (a, s) = .ok r) : r = (a, s) := by
  induction fuel generalizing id r with
  | zero => cases run
  | succ fuel ih =>
    obtain ⟨a', s'⟩ := r
    obtain ⟨-, rfl, rfl⟩ | ⟨node, a₁, other, find, kids, e⟩ := destroyWithin_ok run
    · rfl
    have own : node.insts = [] := by
      simpa [instsOf, find] using bare id ((doomed_iff other find).2 (.inl rfl))
    rw [stripped_eq_self find own] at kids
    have each (k : NodeId) (mem : k ∈ node.kids) {r : Arena × InstStore}
        (run : destroyWithin .instructions fuel k (a, s) = .ok r) : r = (a, s) :=
      ih (fun n d => bare n ((doomed_iff other find).2 (.inr ⟨k, mem, d⟩))) run
    have : (a₁, s') = (a, s) := by
      clear own run find bare
      generalize node.kids = rest at kids each
      induction rest with
      | nil => exact (Except.ok.inj kids).symm
      | cons kid rest later =>
        rw [List.foldlM_cons] at kids
        obtain ⟨r, first, kids⟩ := bind_eq_ok.1 kids
        cases each kid (by simp) first
        exact later kids fun k mem => each k (by simp [mem])
    cases this
    rw [e]
    rfl

/-- What was destroyed is not there for a second destruction. -/
theorem destroy_again {root : NodeId} (run : a.destroy s root mode = .ok (a', s')) :
    a'.destroy s' root mode = .ok (a', s') := by
  have razed := razed_of_destroyWithin _ run
  by_cases sentinel : root.isSentinel
  · exact destroyWithin_of_skip _ (.inl sentinel)
  cases found : a'.find? root with
  | none => exact destroyWithin_of_skip _ (.inr found)
  | some node =>
    have live : a.isLive root := razed.isLive (isLive_of_find? found)
    have stays : mode = .instructions := by
      by_contra dies
      rw [razed.gone root ⟨sentinel, .refl, live⟩, DestroyMode.remains, if_neg dies] at found
      cases found
    subst stays
    have ends : ¬a'.Circular root := fun circle =>
      (not_circular_of_destroyWithin _ run).resolve_left sentinel (circle.of_thins razed.thins)
    obtain ⟨r, again⟩ := exists_destroy .instructions (.inr ends) s'
    rw [again, destroyWithin_bare (fun n d => ?_) again]
    have d : a.Doomed root n := ⟨sentinel, razed.thins.below d.2.1, razed.isLive d.2.2⟩
    rw [instsOf, razed.gone n d, DestroyMode.remains, if_pos rfl]
    cases a.find? n <;> rfl

/-- Where no circle is below the root, destruction ends and takes exactly the live nodes that are
reached from the root through live nodes, along with the instructions that they own, as far as the
mode asks for it; the store keeps count of what is live; and to destroy again changes nothing. -/
theorem destroy_exact {root : NodeId} (ends : ¬a.Circular root) (s : InstStore)
    (mode : DestroyMode) :
    ∃ a' s', a.destroy s root mode = .ok (a', s') ∧ Razed mode (a.Doomed root) a s a' s' ∧
      (s.Built → s.live = s.liveCount ∧ s'.live = s'.liveCount) ∧
      a'.destroy s' root mode = .ok (a', s') := by
  obtain ⟨⟨a', s'⟩, run⟩ := exists_destroy mode (.inr ends) s
  exact ⟨a', s', run, razed_of_destroyWithin _ run,
    fun built => ⟨built.live_eq, (built_of_destroyWithin built run).live_eq⟩, destroy_again run⟩

/-- A block that holds a statement twice, a child that was destroyed before and a sentinel. The
constant in the statement owns an instruction, and so does another constant. -/
def sharedArena : Arena :=
  ⟨initial.nodes ++ #[none, some { Node.fresh .const [] .bool .synthetic with insts := [⟨0⟩] },
    some (Node.fresh .exprStmt [⟨3⟩] .void .synthetic),
    some (Node.fresh .blockStmt [⟨4⟩, ⟨2⟩, ⟨1⟩, ⟨4⟩] .void .synthetic),
    some { Node.fresh .const [] .bool .synthetic with insts := [⟨1⟩] }]⟩

/-- Two instructions. -/
def sharedStore : InstStore :=
  ((InstStore.initial.create (.ret none) .void).2.create (.ret none) .void).2

/-- The instructions of the block go, and nothing else does. -/
theorem destroy_exact_shared : ¬sharedArena.Circular ⟨5⟩ ∧
    ∃ a' s', sharedArena.destroy sharedStore ⟨5⟩ .instructions = .ok (a', s') ∧
      Razed .instructions (sharedArena.Doomed ⟨5⟩) sharedArena sharedStore a' s' ∧
      s'.find? ⟨0⟩ = none ∧ s'.find? ⟨1⟩ = sharedStore.find? ⟨1⟩ ∧
        a'.find? ⟨6⟩ = sharedArena.find? ⟨6⟩ ∧
      s'.live = 1 ∧ s'.liveCount = 1 ∧
      a'.destroy s' ⟨5⟩ .instructions = .ok (a', s') := by
  have descends : ∀ i < 7, ∀ k ∈ sharedArena.kidsOf ⟨i⟩, k.index < i := by decide
  have ends : ¬sharedArena.Circular ⟨5⟩ := not_circular_of_descending fun p k kid =>
    descends p.index (lt_size_of_kidsOf (List.ne_nil_of_mem kid)) k kid
  obtain ⟨a', s', run, razed, counted, again⟩ := destroy_exact ends sharedStore .instructions
  have built : sharedStore.Built := .create _ _ (.create _ _ .initial)
  have ⟨gone, kept, other, live⟩ : s'.find? ⟨0⟩ = none ∧ s'.find? ⟨1⟩ = sharedStore.find? ⟨1⟩ ∧
      a'.find? ⟨6⟩ = sharedArena.find? ⟨6⟩ ∧ s'.live = 1 := by
    cases run
    exact ⟨rfl, rfl, rfl, rfl⟩
  exact ⟨ends, a', s', run, razed, gone, kept, other, live, (counted built).2 ▸ live, again⟩

end Arena

end Codegen
