import Codegen.Proofs.Compilation.Slots
import Mathlib.Data.List.Nodup

/-!
What opens the entry block of a function: every slot that waits, each once, and then the stores of
arguments into slots.
-/

namespace Codegen.Function

variable {f f' : Function} {s s' : InstStore} {entry : List InstId}

/-- The stores of arguments are new instructions in a row. -/
theorem storeArguments_eq {spills : List (Nat × InstId)} {stores : List InstId}
    (e : storeArguments spills s = (stores, s')) :
    stores = (List.range' s.slots.size spills.length).map InstId.mk ∧
      s'.slots.size = s.slots.size + spills.length ∧
      (∀ {i : InstId}, i.index < s.slots.size → s'.find? i = s.find? i) ∧
      ∀ {p index slot}, spills[p]? = some (index, slot) →
        s'.find? ⟨s.slots.size + p⟩ = some ⟨.store (.inst slot) (.param index), .void⟩ := by
  induction spills generalizing s stores with
  | nil =>
    cases e
    exact ⟨rfl, rfl, fun _ => rfl, by simp⟩
  | cons spill rest ih =>
    obtain ⟨index, slot⟩ := spill
    obtain ⟨more, s₁, e₁⟩ : ∃ more s₁, storeArguments rest
      (s.create (.store (.inst slot) (.param index)) .void).2 = (more, s₁) := ⟨_, _, rfl⟩
    simp only [storeArguments, e₁] at e
    cases e
    obtain ⟨rfl, size, old, new⟩ := ih e₁
    have one : (s.create (.store (.inst slot) (.param index)) .void).2.slots.size =
        s.slots.size + 1 := by simp [InstStore.create]
    rw [one] at size old new
    refine ⟨?_, by rw [size, List.length_cons]; omega, fun {i} lt => ?_,
      fun {p index' slot'} at' => ?_⟩
    · rw [one, List.length_cons, List.range'_succ, List.map_cons]
      rfl
    · rw [old (Nat.lt_succ_of_lt lt), InstStore.find?_create_of_ne]
      exact fun h => by simp [h, InstStore.create] at lt
    · cases p with
      | zero =>
        cases at'
        rw [old (by simp)]
        exact InstStore.find?_create s _ _
      | succ p =>
        have := new (p := p) at'
        rwa [Nat.add_assoc, Nat.add_comm 1] at this

/-- The parameters that wait, in order, each with its slot. -/
def waitingSpills (f : Function) : List (Nat × InstId) :=
  f.pendingSpills.mergeSort.filterMap fun index => (f.spillSlot? index).map (index, ·)

theorem mem_waitingSpills {index : Nat} {slot : InstId} :
    (index, slot) ∈ f.waitingSpills ↔ index ∈ f.pendingSpills ∧ f.spillSlot? index = some slot := by
  unfold waitingSpills
  rw [List.mem_filterMap]
  constructor
  · rintro ⟨i, mem, e⟩
    obtain ⟨slot', found, pair⟩ := Option.map_eq_some_iff.1 e
    cases pair
    exact ⟨(List.mergeSort_perm _ _).mem_iff.1 mem, found⟩
  · rintro ⟨mem, found⟩
    exact ⟨index, (List.mergeSort_perm _ _).mem_iff.2 mem, by simp [found]⟩

/-- No slot waits for two parameters. -/
theorem Sound.nodup_waitingSpills (h : f.Sound s) : (f.waitingSpills.map (·.2)).Nodup := by
  have slots : f.waitingSpills.map (·.2) = f.pendingSpills.mergeSort.filterMap f.spillSlot? := by
    rw [waitingSpills, List.map_filterMap]
    congr
    funext index
    cases f.spillSlot? index <;> rfl
  rw [slots]
  refine List.Nodup.filterMap (fun i i' slot mem mem' => ?_)
    ((List.mergeSort_perm _ _).nodup_iff.2 h.pending)
  have pair := List.inj_on_of_nodup_map h.slots (mem_spills mem) (mem_spills mem') rfl
  exact (Prod.mk.inj pair).1

/-- What is known of the instructions that open an entry block. -/
structure Opens (f : Function) (s : InstStore) (entry : List InstId) (s' : InstStore) : Prop where
  nodup : entry.Nodup
  waits : ∀ {j}, f.Waits j → j ∈ entry
  size_le : s.slots.size ≤ s'.slots.size
  old : ∀ {i : InstId}, i.index < s.slots.size → s'.find? i = s.find? i
  fresh : ∀ {j}, j ∈ entry → s.Allocates j ∨ s.slots.size ≤ j.index ∧ j.index < s'.slots.size
  operands : ∀ {p id j}, entry[p]? = some id → s'.Uses id j → j ∈ entry.take p

/-- The slots that wait, those of parameters first. -/
def waitingSlots (f : Function) : List InstId := f.waitingSpills.map (·.2) ++ f.pendingLocals

theorem Sound.allocates (h : f.Sound s) {j : InstId} (mem : j ∈ f.waitingSlots) :
    s.Allocates j := by
  rcases List.mem_append.1 mem with mem | mem
  · obtain ⟨⟨index, slot⟩, spilled, rfl⟩ := List.mem_map.1 mem
    have spill := mem_spills (mem_waitingSpills.1 spilled).2
    exact h.allocas _ (List.mem_append_right _ (List.mem_map.2 ⟨_, spill, rfl⟩))
  · exact h.allocas _ (List.mem_append_left _ mem)

theorem Sound.nodup_waitingSlots (h : f.Sound s) : f.waitingSlots.Nodup := by
  refine List.nodup_append.2 ⟨h.nodup_waitingSpills, h.locals, fun j spilled k local_ e => ?_⟩
  subst e
  obtain ⟨⟨index, slot⟩, mem, rfl⟩ := List.mem_map.1 spilled
  exact h.apart _ local_ (List.mem_map.2 ⟨_, mem_spills (mem_waitingSpills.1 mem).2, rfl⟩)

theorem Waits.mem_waitingSlots {j : InstId} (h : f.Waits j) : j ∈ f.waitingSlots := by
  rcases h with pending | ⟨index, mem, slot⟩
  · exact List.mem_append_right _ pending
  · exact List.mem_append_left _ (List.mem_map.2 ⟨(index, j), mem_waitingSpills.2 ⟨mem, slot⟩, rfl⟩)

/-- The entry is made of the slots that wait and of a store for each parameter among them. -/
theorem materializeEntry_ok (e : f.materializeEntry s = (entry, f', s')) :
    entry = f.waitingSlots ++ (List.range' s.slots.size f.waitingSpills.length).map InstId.mk ∧
      f' = { f with pendingSpills := [], pendingLocals := [] } ∧
      s'.slots.size = s.slots.size + f.waitingSpills.length ∧
      (∀ {i : InstId}, i.index < s.slots.size → s'.find? i = s.find? i) ∧
      ∀ {p index slot}, f.waitingSpills[p]? = some (index, slot) →
        s'.find? ⟨s.slots.size + p⟩ = some ⟨.store (.inst slot) (.param index), .void⟩ := by
  obtain ⟨stores, s₁, e₁⟩ : ∃ stores s₁, storeArguments f.waitingSpills s = (stores, s₁) :=
    ⟨_, _, rfl⟩
  have unfolded : f.materializeEntry s = (f.waitingSlots ++ stores,
      { f with pendingSpills := [], pendingLocals := [] }, s₁) := by
    simp only [materializeEntry, ← waitingSpills.eq_1, e₁, waitingSlots]
  cases e.symm.trans unfolded
  obtain ⟨rfl, size, old, new⟩ := storeArguments_eq e₁
  exact ⟨rfl, rfl, size, old, new⟩

theorem Sound.lt_of_waitingSlots (h : f.Sound s) {j : InstId} (mem : j ∈ f.waitingSlots) :
    j.index < s.slots.size := by
  obtain ⟨_, _, _, find⟩ := h.allocates mem
  exact InstStore.lt_of_find? find

/-- Slots use nothing, and a store uses the slot of its parameter. -/
theorem Sound.operands_entry (h : f.Sound s) (e : f.materializeEntry s = (entry, f', s')) {p : Nat}
    {id j : InstId} (at' : entry[p]? = some id) (use : s'.Uses id j) : j ∈ entry.take p := by
  obtain ⟨rfl, _, _, old, new⟩ := materializeEntry_ok e
  obtain ⟨inst, find, operand⟩ := use
  rw [List.getElem?_append] at at'
  split at at'
  · have mem := List.mem_of_getElem? at'
    obtain ⟨_, _, _, alloca⟩ := h.allocates mem
    cases find.symm.trans ((old (h.lt_of_waitingSlots mem)).trans alloca)
    cases operand
  · rename_i later
    rw [List.getElem?_map] at at'
    obtain ⟨n, e, rfl⟩ := Option.map_eq_some_iff.1 at'
    obtain ⟨bound, rfl⟩ := List.getElem?_eq_some_iff.1 e
    simp only [List.length_range'] at bound
    have store := new (List.getElem?_eq_getElem bound)
    simp only [List.getElem_range', Nat.one_mul] at find
    cases find.symm.trans store
    have own : j = f.waitingSpills[p - f.waitingSlots.length].2 := by
      simpa [InstKind.operands] using operand
    have mem : j ∈ f.waitingSlots :=
      own ▸ List.mem_append_left _ (List.mem_map.2 ⟨_, List.getElem_mem bound, rfl⟩)
    rw [List.take_append]
    exact List.mem_append_left _ (by rwa [List.take_of_length_le (by omega)])

theorem Sound.opens (h : f.Sound s) (e : f.materializeEntry s = (entry, f', s')) :
    f.Opens s entry s' ∧ f' = { f with pendingSpills := [], pendingLocals := [] } := by
  have operands : ∀ {p id j}, entry[p]? = some id → s'.Uses id j → j ∈ entry.take p :=
    h.operands_entry e
  obtain ⟨rfl, rfl, size, old, _⟩ := materializeEntry_ok e
  have store : ∀ {i : InstId}, i ∈ (List.range' s.slots.size f.waitingSpills.length).map InstId.mk →
      s.slots.size ≤ i.index ∧ i.index < s'.slots.size := by
    intro i mem
    obtain ⟨n, within, rfl⟩ := List.mem_map.1 mem
    rw [size]
    exact List.mem_range'_1.1 within
  refine ⟨?_, rfl⟩
  constructor
  · refine List.nodup_append.2 ⟨h.nodup_waitingSlots, ?_, fun j mem k mem' e => ?_⟩
    · exact List.Nodup.map (fun x y e => congrArg InstId.index e) List.nodup_range'
    · subst e
      have := h.lt_of_waitingSlots mem
      have := store mem'
      omega
  · exact fun waits => List.mem_append_left _ waits.mem_waitingSlots
  · omega
  · exact old
  · intro j mem
    exact (List.mem_append.1 mem).imp h.allocates store
  · exact operands

end Codegen.Function
