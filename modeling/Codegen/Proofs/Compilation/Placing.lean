import Codegen.Proofs.Compilation.Entry

/-!
Stack slots over a whole run. Slots are asked for, added and placed in any order; what was placed
and what still waits account for every slot, each once.
-/

namespace Codegen

/-- What happened to the slots of a function. -/
inductive SlotEvent where
  /-- The slot of a parameter was asked for. -/
  | spilled (index : Nat) (slot : InstId)
  /-- The slot of a local was added. -/
  | added (slot : InstId)
  /-- What waited was placed. -/
  | placed (entry : List InstId)
  deriving DecidableEq

namespace SlotEvent

def isPlaced : SlotEvent → Bool
  | placed _ => true
  | _ => false

def slot? : SlotEvent → Option InstId
  | spilled _ slot | added slot => some slot
  | placed _ => none

def local? : SlotEvent → Option InstId
  | added slot => some slot
  | _ => none

def entry : SlotEvent → List InstId
  | placed entry => entry
  | _ => []

/-- The slots that were asked for or added, the latest first, like the events. -/
def slots (h : List SlotEvent) : List InstId := h.filterMap slot?

/-- The slots of locals that were added. -/
def locals (h : List SlotEvent) : List InstId := h.filterMap local?

/-- All that was placed. -/
def entries (h : List SlotEvent) : List InstId := h.flatMap entry

/-- What happened since slots were placed. -/
def recent (h : List SlotEvent) : List SlotEvent := h.takeWhile (!·.isPlaced)

/-- What happened until slots were placed. -/
def earlier (h : List SlotEvent) : List SlotEvent := h.dropWhile (!·.isPlaced)

/-- A parameter whose slot was first asked for since slots were placed. -/
def IsNew (h : List SlotEvent) (index : Nat) (slot : InstId) : Prop :=
  spilled index slot ∈ recent h ∧ ∀ other, spilled index other ∉ earlier h

variable {h : List SlotEvent} {e : SlotEvent} {index : Nat} {slot : InstId}

theorem mem_recent_or_earlier : e ∈ h ↔ e ∈ recent h ∨ e ∈ earlier h := by
  rw [← List.mem_append, recent, earlier, List.takeWhile_append_dropWhile]

theorem mem_slots_of_spilled (mem : spilled index slot ∈ h) : slot ∈ slots h :=
  List.mem_filterMap.2 ⟨_, mem, rfl⟩

end SlotEvent

open SlotEvent

namespace Function

/-- What can happen to a function that starts out without slots: the slot of a parameter is asked
for; a local gets a slot, which is an instruction that was not used so far; the slots that wait are
placed; and anything else that leaves them alone. The latest event comes first. -/
inductive History : Function → InstStore → List SlotEvent → Prop
  | start {f : Function} (s : InstStore) : f.spills = [] → f.pendingSpills = [] →
    f.pendingLocals = [] → History f s []
  | spill {f f' s s' h slot} (index : Nat) (ty ptrType : TypeId) (name : Name) : History f s h →
    f.spillSlotFor index ty ptrType name s = (slot, f', s') →
    History f' s' (.spilled index slot :: h)
  | add {f s h} (slot : InstId) : History f s h → slot.index < s.slots.size → slot ∉ slots h →
    slot ∉ entries h → History (f.addPendingLocal slot) s (.added slot :: h)
  | place {f f' s s' h entry} : History f s h → f.materializeEntry s = (entry, f', s') →
    History f' s' (.placed entry :: h)
  | other {f f' s s' h} : History f s h → s.slots.size ≤ s'.slots.size → f'.spills = f.spills →
    f'.pendingSpills = f.pendingSpills → f'.pendingLocals = f.pendingLocals → History f' s' h

variable {f f' : Function} {s s' : InstStore} {h : List SlotEvent} {slot : InstId} {index : Nat}
  {entry : List InstId}

/-- A function's slots agree with what happened to them. -/
structure Accounted (f : Function) (s : InstStore) (h : List SlotEvent) : Prop where
  spillSlot : ∀ {index slot}, f.spillSlot? index = some slot ↔ .spilled index slot ∈ h
  apart : ∀ {i j slot}, .spilled i slot ∈ h → .spilled j slot ∈ h → i = j
  pending : f.pendingSpills.Nodup
  mem_pending : ∀ {index}, index ∈ f.pendingSpills ↔ ∃ slot, IsNew h index slot
  locals : f.pendingLocals = (locals (recent h)).reverse
  nodup : (entries h ++ f.waitingSlots).Nodup
  complete : ∀ slot ∈ slots h, slot ∈ entries h ++ f.waitingSlots
  waits : ∀ slot ∈ f.waitingSlots, slot ∈ slots h
  bound : ∀ id ∈ slots h ++ entries h, id.index < s.slots.size

/-- The function after a parameter got a slot. -/
def withSpill (f : Function) (index : Nat) (slot : InstId) : Function :=
  { f with spills := f.spills ++ [(index, slot)], pendingSpills := f.pendingSpills ++ [index] }

namespace Accounted

/-- The slots that wait, in any order. -/
theorem perm_waitingSlots (f : Function) :
    f.waitingSlots.Perm (f.pendingSpills.filterMap f.spillSlot? ++ f.pendingLocals) := by
  have slots : f.waitingSpills.map (·.2) = f.pendingSpills.mergeSort.filterMap f.spillSlot? := by
    rw [waitingSpills, List.map_filterMap]
    congr
    funext index
    cases f.spillSlot? index <;> rfl
  rw [waitingSlots, slots]
  exact ((List.mergeSort_perm _ _).filterMap _).append_right _

theorem start (s : InstStore) (spills : f.spills = []) (pending : f.pendingSpills = [])
    (locals : f.pendingLocals = []) : f.Accounted s [] where
  spillSlot := by simp [spillSlot?, spills]
  apart := by simp
  pending := by simp [pending]
  mem_pending := by simp [pending, IsNew, recent]
  locals := by rw [locals]; rfl
  nodup := by simp [entries, waitingSlots, waitingSpills, pending, locals]
  complete := by simp [slots]
  waits := by simp [waitingSlots, waitingSpills, pending, locals]
  bound := by simp [slots, entries]

theorem other (acc : f.Accounted s h) (grown : s.slots.size ≤ s'.slots.size)
    (spills : f'.spills = f.spills)
    (pending : f'.pendingSpills = f.pendingSpills) (locals : f'.pendingLocals = f.pendingLocals) :
    f'.Accounted s' h := by
  have slot? : f'.spillSlot? = f.spillSlot? := by
    funext index
    rw [spillSlot?, spills, spillSlot?]
  have waiting : f'.waitingSlots = f.waitingSlots := by
    rw [waitingSlots, waitingSlots, waitingSpills, waitingSpills, pending, locals, slot?]
  exact ⟨slot? ▸ acc.spillSlot, acc.apart, pending ▸ acc.pending, pending ▸ acc.mem_pending,
    locals.trans acc.locals, waiting ▸ acc.nodup, waiting ▸ acc.complete, waiting ▸ acc.waits,
    fun id mem => Nat.lt_of_lt_of_le (acc.bound id mem) grown⟩

/-- The slot of a parameter is asked for again. -/
theorem spill_again (acc : f.Accounted s h) (found : f.spillSlot? index = some slot) :
    f.Accounted s (.spilled index slot :: h) := by
  have known := acc.spillSlot.1 found
  have same {e : SlotEvent} : e ∈ .spilled index slot :: h ↔ e ∈ h :=
    ⟨fun mem => (List.mem_cons.1 mem).elim (· ▸ known) fun mem => mem, List.mem_cons_of_mem _⟩
  have new {i : Nat} {other : InstId} : IsNew (.spilled index slot :: h) i other ↔
      IsNew h i other := by
    refine and_congr_left fun first => ⟨fun mem => ?_, List.mem_cons_of_mem _⟩
    rcases List.mem_cons.1 mem with e | mem
    · cases e
      exact (mem_recent_or_earlier.1 known).resolve_right (first slot)
    · exact mem
  exact {
    spillSlot := acc.spillSlot.trans same.symm
    apart := fun mem mem' => acc.apart (same.1 mem) (same.1 mem')
    pending := acc.pending
    mem_pending := by simp only [new]; exact acc.mem_pending
    locals := acc.locals
    nodup := acc.nodup
    complete := List.forall_mem_cons.2 ⟨acc.complete slot (mem_slots_of_spilled known),
      acc.complete⟩
    waits := fun j mem => List.mem_cons_of_mem _ (acc.waits j mem)
    bound := List.forall_mem_cons.2
      ⟨acc.bound slot (List.mem_append_left _ (mem_slots_of_spilled known)), acc.bound⟩ }

theorem spillSlot?_withSpill (none : f.spillSlot? index = none) (i : Nat) :
    (f.withSpill index slot).spillSlot? i = if i = index then some slot else f.spillSlot? i := by
  unfold spillSlot? at none ⊢
  rw [withSpill, List.lookup_append]
  split
  · rename_i e
    simp [e, none]
  · rename_i ne
    simp [List.lookup_cons, beq_false_of_ne ne]

theorem perm_withSpill (none : f.spillSlot? index = none) (new : index ∉ f.pendingSpills) :
    (f.withSpill index slot).waitingSlots.Perm (slot :: f.waitingSlots) := by
  have same : f.pendingSpills.filterMap (f.withSpill index slot).spillSlot? =
      f.pendingSpills.filterMap f.spillSlot? := List.filterMap_congr fun i mem => by
    rw [spillSlot?_withSpill none, if_neg (ne_of_mem_of_not_mem mem new)]
  have last : (f.withSpill index slot).spillSlot? index = some slot := by
    rw [spillSlot?_withSpill none, if_pos rfl]
  refine (perm_waitingSlots _).trans (.trans ?_ ((perm_waitingSlots f).symm.cons slot))
  change ((f.pendingSpills ++ [index]).filterMap (f.withSpill index slot).spillSlot? ++
    f.pendingLocals).Perm _
  rw [List.filterMap_append, same, List.filterMap_cons_some last, List.filterMap_nil,
    List.append_assoc]
  exact List.perm_middle

/-- A parameter gets its slot, which is a new instruction. -/
theorem spill_new (acc : f.Accounted s h) (none : f.spillSlot? index = none)
    (fresh : slot = ⟨s.slots.size⟩) (grown : s.slots.size < s'.slots.size) :
    (f.withSpill index slot).Accounted s' (.spilled index slot :: h) := by
  have unknown (other : InstId) : .spilled index other ∉ h := fun mem => by
    cases none.symm.trans (acc.spillSlot.2 mem)
  have unused : slot ∉ slots h ++ entries h := fun mem => by
    have := acc.bound slot mem
    simp [fresh] at this
  have notPending : index ∉ f.pendingSpills := fun mem => by
    obtain ⟨other, new, -⟩ := acc.mem_pending.1 mem
    exact unknown other (mem_recent_or_earlier.2 (.inl new))
  have new {i : Nat} {other : InstId} : IsNew (.spilled index slot :: h) i other ↔
      i = index ∧ other = slot ∨ IsNew h i other := by
    constructor
    · rintro ⟨mem, first⟩
      rcases List.mem_cons.1 mem with e | mem
      · cases e
        exact .inl ⟨rfl, rfl⟩
      · exact .inr ⟨mem, first⟩
    · rintro (⟨rfl, rfl⟩ | ⟨mem, first⟩)
      · exact ⟨List.mem_cons_self, fun j mem => unknown j (mem_recent_or_earlier.2 (.inr mem))⟩
      · exact ⟨List.mem_cons_of_mem _ mem, first⟩
  have perm : (f.withSpill index slot).waitingSlots.Perm (slot :: f.waitingSlots) :=
    perm_withSpill none notPending
  exact {
    spillSlot := fun {i other} => by
      rw [spillSlot?_withSpill none]
      split
      · rename_i e
        subst e
        simp [unknown, eq_comm]
      · rename_i ne
        simp [acc.spillSlot, ne]
    apart := fun {i j other} mem mem' => by
      rcases List.mem_cons.1 mem with e | mem <;> rcases List.mem_cons.1 mem' with e' | mem'
      · cases e
        cases e'
        rfl
      · cases e
        exact absurd (List.mem_append_left _ (mem_slots_of_spilled mem')) unused
      · cases e'
        exact absurd (List.mem_append_left _ (mem_slots_of_spilled mem)) unused
      · exact acc.apart mem mem'
    pending := List.nodup_append.2 ⟨acc.pending, by simp, fun i mem k mem' e => by
      cases List.mem_singleton.1 mem'
      exact notPending (e ▸ mem)⟩
    mem_pending := fun {i} => by
      change i ∈ f.pendingSpills ++ [index] ↔ _
      simp only [new, List.mem_append, List.mem_singleton, acc.mem_pending, exists_or,
        exists_and_left, exists_eq, and_true]
      exact or_comm
    locals := acc.locals
    nodup := by
      refine (perm.append_left _).nodup_iff.2
        (List.perm_middle.nodup_iff.2 (List.nodup_cons.2 ⟨?_, acc.nodup⟩))
      refine fun mem => unused (List.mem_append.2 ?_)
      exact (List.mem_append.1 mem).symm.imp_left (acc.waits slot)
    complete := fun j mem => by
      rw [List.mem_append, perm.mem_iff, List.mem_cons]
      rcases List.mem_cons.1 mem with rfl | mem
      · exact .inr (.inl rfl)
      · exact (List.mem_append.1 (acc.complete j mem)).imp_right .inr
    waits := fun j mem => by
      rcases List.mem_cons.1 (perm.mem_iff.1 mem) with rfl | mem
      · exact List.mem_cons_self
      · exact List.mem_cons_of_mem _ (acc.waits j mem)
    bound := List.forall_mem_cons.2
      ⟨fresh ▸ grown, fun j mem => Nat.lt_trans (acc.bound j mem) grown⟩ }

/-- A local gets its slot. -/
theorem add (acc : f.Accounted s h) (lt : slot.index < s.slots.size) (unused : slot ∉ slots h)
    (unplaced : slot ∉ entries h) : (f.addPendingLocal slot).Accounted s (.added slot :: h) := by
  have waiting : (f.addPendingLocal slot).waitingSlots = f.waitingSlots ++ [slot] :=
    (List.append_assoc ..).symm
  exact {
    spillSlot := acc.spillSlot.trans (by simp)
    apart := fun mem mem' => acc.apart (by simpa using mem) (by simpa using mem')
    pending := acc.pending
    mem_pending := fun {i} => acc.mem_pending.trans <| exists_congr fun j => by
      have : spilled i j ∈ recent (.added slot :: h) ↔ spilled i j ∈ recent h :=
        List.mem_cons.trans (or_iff_right (by simp))
      exact and_congr_left fun _ => this.symm
    locals := by
      change f.pendingLocals ++ [slot] = (slot :: SlotEvent.locals (recent h)).reverse
      rw [acc.locals, List.reverse_cons]
    nodup := by
      rw [waiting, ← List.append_assoc]
      refine List.nodup_append.2 ⟨acc.nodup, by simp, fun j mem k mem' e => ?_⟩
      cases List.mem_singleton.1 mem'
      subst e
      exact (List.mem_append.1 mem).elim unplaced fun mem => unused (acc.waits j mem)
    complete := fun j mem => by
      rw [waiting, ← List.append_assoc]
      rcases List.mem_cons.1 mem with rfl | mem
      · exact List.mem_append_right _ (by simp)
      · exact List.mem_append_left _ (acc.complete j mem)
    waits := fun j mem => by
      rw [waiting, List.mem_append, List.mem_singleton] at mem
      exact List.mem_cons.2 (mem.symm.imp_right (acc.waits j))
    bound := List.forall_mem_cons.2 ⟨lt, acc.bound⟩ }

/-- What waits is placed. -/
theorem place (acc : f.Accounted s h) (e : f.materializeEntry s = (entry, f', s')) :
    f'.Accounted s' (.placed entry :: h) := by
  obtain ⟨rfl, rfl, size, -, -⟩ := materializeEntry_ok e
  clear e
  generalize stores : (List.range' s.slots.size f.waitingSpills.length).map InstId.mk = new
  have fresh : ∀ j ∈ new, s.slots.size ≤ j.index ∧ j.index < s'.slots.size := by
    intro j mem
    rw [← stores] at mem
    obtain ⟨n, within, rfl⟩ := List.mem_map.1 mem
    rw [size]
    exact List.mem_range'_1.1 within
  have nodup : new.Nodup := by
    rw [← stores]
    exact List.Nodup.map (fun x y e => congrArg InstId.index e) List.nodup_range'
  have nothing : waitingSlots { f with pendingSpills := [], pendingLocals := [] } = [] := by
    simp [waitingSlots, waitingSpills]
  have old : ∀ j ∈ entries h ++ f.waitingSlots, j.index < s.slots.size := fun j mem =>
    acc.bound j (List.mem_append.2 ((List.mem_append.1 mem).symm.imp_left (acc.waits j)))
  have perm : (entries (.placed (f.waitingSlots ++ new) :: h)).Perm
      ((entries h ++ f.waitingSlots) ++ new) := by
    rw [List.append_assoc]
    exact List.perm_append_comm
  exact {
    spillSlot := acc.spillSlot.trans (by simp)
    apart := fun mem mem' => acc.apart (by simpa using mem) (by simpa using mem')
    pending := List.nodup_nil
    mem_pending := by simp [IsNew, recent, isPlaced]
    locals := rfl
    nodup := by
      rw [nothing, List.append_nil, perm.nodup_iff]
      refine List.nodup_append.2 ⟨acc.nodup, nodup, fun j mem k mem' e => ?_⟩
      subst e
      have := old j mem
      have := fresh j mem'
      omega
    complete := fun j mem => by
      rw [nothing, List.append_nil, perm.mem_iff]
      exact List.mem_append_left _ (acc.complete j mem)
    waits := by simp [nothing]
    bound := fun j mem => by
      rw [List.mem_append, perm.mem_iff, List.mem_append] at mem
      rcases mem with mem | mem | mem
      · have := acc.bound j (List.mem_append_left _ mem)
        omega
      · have := old j mem
        omega
      · exact (fresh j mem).2 }

end Accounted

theorem History.accounted (hist : History f s h) : f.Accounted s h := by
  induction hist with
  | start s spills pending locals => exact .start s spills pending locals
  | spill index ty ptrType name _ e acc =>
    unfold spillSlotFor at e
    split at e
    · rename_i found
      cases e
      exact acc.spill_again found
    · rename_i none
      cases e
      exact acc.spill_new none rfl (by simp)
  | add slot _ lt unused unplaced acc => exact acc.add lt unused unplaced
  | place _ e acc => exact acc.place e
  | other _ grown spills pending locals acc => exact acc.other grown spills pending locals

/-- What is placed: the slots of parameters first asked for since slots were placed, in the order of
the parameters; the slots of locals added since, in order; and a new store of each of those
parameters into its slot. -/
structure Places (h : List SlotEvent) (s : InstStore) (entry : List InstId) (s' : InstStore)
    (spills : List (Nat × InstId)) (stores : List InstId) : Prop where
  entry : entry = spills.map (·.2) ++ (locals (recent h)).reverse ++ stores
  sorted : spills.Pairwise (·.1 < ·.1)
  mem_spills : ∀ {index slot}, (index, slot) ∈ spills ↔ IsNew h index slot
  stores : List.Forall₂ (fun spill store => s.slots.size ≤ store.index ∧
    s'.find? store = some ⟨.store (.inst spill.2) (.param spill.1), .void⟩) spills stores
  size : s'.slots.size = s.slots.size + spills.length
  old : ∀ {i : InstId}, i.index < s.slots.size → s'.find? i = s.find? i

namespace Accounted

theorem sorted_waitingSpills (acc : f.Accounted s h) : f.waitingSpills.Pairwise (·.1 < ·.1) := by
  have le : f.pendingSpills.mergeSort.Pairwise (· ≤ ·) := by
    have sorted : f.pendingSpills.mergeSort.Pairwise fun i j => decide (i ≤ j) :=
      List.pairwise_mergeSort (fun i j k ij jk => by simp at *; omega) (fun i j => by simp; omega) _
    simpa using sorted
  have ne : f.pendingSpills.mergeSort.Pairwise (· ≠ ·) :=
    (List.mergeSort_perm _ _).nodup_iff.2 acc.pending
  refine (le.and ne).filterMap _ fun i j lt p found q found' => ?_
  obtain ⟨_, _, rfl⟩ := Option.map_eq_some_iff.1 found
  obtain ⟨_, _, rfl⟩ := Option.map_eq_some_iff.1 found'
  exact Nat.lt_of_le_of_ne lt.1 lt.2

theorem mem_waitingSpills_iff (acc : f.Accounted s h) :
    (index, slot) ∈ f.waitingSpills ↔ IsNew h index slot := by
  rw [mem_waitingSpills, acc.mem_pending, acc.spillSlot]
  constructor
  · rintro ⟨⟨other, new⟩, mem⟩
    refine ⟨?_, new.2⟩
    exact (mem_recent_or_earlier.1 mem).resolve_right (new.2 slot)
  · exact fun new => ⟨⟨slot, new⟩, mem_recent_or_earlier.2 (.inl new.1)⟩

theorem places (acc : f.Accounted s h) (e : f.materializeEntry s = (entry, f', s')) :
    ∃ spills stores, Places h s entry s' spills stores := by
  obtain ⟨rfl, -, size, old, new⟩ := materializeEntry_ok e
  refine ⟨f.waitingSpills, (List.range' s.slots.size f.waitingSpills.length).map InstId.mk, ?_,
    acc.sorted_waitingSpills, acc.mem_waitingSpills_iff, ?_, size, old⟩
  · rw [waitingSlots, acc.locals]
  · refine List.forall₂_iff_get.2 ⟨by simp, fun p lt lt' => ?_⟩
    simp only [List.get_eq_getElem, List.getElem_map, List.getElem_range', Nat.one_mul]
    exact ⟨Nat.le_add_right _ _, new (List.getElem?_eq_getElem lt)⟩

theorem places_nothing (acc : f.Accounted s h) (spills : ∀ index slot, ¬IsNew h index slot)
    (none : SlotEvent.locals (recent h) = []) (e : f.materializeEntry s = (entry, f', s')) :
    entry = [] ∧ s' = s := by
  have pending : f.pendingSpills = [] := List.eq_nil_iff_forall_not_mem.2 fun index mem =>
    (acc.mem_pending.1 mem).elim (spills index)
  have locals : f.pendingLocals = [] := by rw [acc.locals, none, List.reverse_nil]
  simp [materializeEntry, pending, locals, storeArguments] at e
  exact ⟨e.1, e.2.2.symm⟩

end Accounted

/-- Every slot is placed exactly once. A parameter keeps its slot for ever, and two parameters never
share one. Over a whole run nothing is placed twice. Whenever slots are placed, it is the ones that
are new, each parameter's with a store of the parameter; after that none is missing; and where none
is new, nothing is placed and no instruction is made. -/
theorem slots_placed_once (hist : History f s h) :
    (∀ {i j slot slot'}, .spilled i slot ∈ h → .spilled j slot' ∈ h → (i = j ↔ slot = slot')) ∧
      (entries h).Nodup ∧
      ∀ {entry f' s'}, f.materializeEntry s = (entry, f', s') →
        (∃ spills stores, Places h s entry s' spills stores) ∧
        (entries (.placed entry :: h)).Nodup ∧
        (∀ slot ∈ slots h, slot ∈ entries (.placed entry :: h)) ∧
        ((∀ index slot, ¬IsNew h index slot) → locals (recent h) = [] → entry = [] ∧ s' = s) := by
  have acc := hist.accounted
  refine ⟨fun {i j slot slot'} mem mem' => ⟨?_, ?_⟩, acc.nodup.of_append_left, fun e => ?_⟩
  · rintro rfl
    exact Option.some.inj ((acc.spillSlot.2 mem).symm.trans (acc.spillSlot.2 mem'))
  · rintro rfl
    exact acc.apart mem mem'
  · have after := acc.place e
    refine ⟨acc.places e, after.nodup.of_append_left, fun slot mem => ?_, fun spills none =>
      acc.places_nothing spills none e⟩
    have placed := after.complete slot (by simpa [slots, List.filterMap_cons, slot?] using mem)
    refine (List.mem_append.1 placed).resolve_right fun waits => ?_
    obtain ⟨-, rfl, -⟩ := materializeEntry_ok e
    simp [waitingSlots, waitingSpills] at waits

/-- A local and two parameters get slots, which are placed; one of the parameters is asked for
again. -/
theorem slots_placed_once_interleaved : ∃ f s, ∃ h : List SlotEvent, History f s h ∧
    h = [.placed [], .spilled 1 ⟨1⟩, .placed [⟨2⟩, ⟨1⟩, ⟨0⟩, ⟨3⟩, ⟨4⟩], .spilled 0 ⟨2⟩,
      .spilled 1 ⟨1⟩, .added ⟨0⟩] ∧ (entries h).Nodup := by
  have start : History .error ⟨#[some ⟨.alloca .void .empty, .void⟩], 1⟩ [] := .start _ rfl rfl rfl
  have added := start.add ⟨0⟩ (by decide) (by decide) (by decide)
  have spilled := (added.spill 1 .void .void .empty rfl).spill 0 .void .void .empty rfl
  have hist := ((spilled.place rfl).spill 1 .void .void .empty rfl).place rfl
  refine ⟨_, _, _, hist, ?_, (slots_placed_once hist).2.1⟩
  simp [List.mergeSort, List.MergeSort.Internal.splitInTwo, storeArguments, error, declare,
    addPendingLocal, spillSlot?, lookup_cons_eq_ite, InstStore.create]

end Function

end Codegen
