import Codegen.Proofs.Evaluation.Literals
import Codegen.Proofs.Evaluation.Statements
import Codegen.Proofs.Requests.Sentinels

/-!
Array literals. Values are put into slots, each at its index, and slots that stay empty get zeros.
That succeeds exactly if no index is out of range or given twice and there is room for the slots and
for the zeros, and the result is the same in whatever order the values are given.
-/

namespace Codegen

/-! ## Slots -/

section

variable {α : Type} {pairs pairs' : List (Nat × α)} {i : Nat} {v : α}

theorem lookup_eq_some_iff (once : (pairs.map (·.1)).Nodup) :
    pairs.lookup i = some v ↔ (i, v) ∈ pairs := by
  induction pairs with
  | nil => simp
  | cons pair rest ih =>
    obtain ⟨j, w⟩ := pair
    have ⟨new, once⟩ := List.nodup_cons.1 once
    by_cases e : i = j
    · subst e
      have other : (i, v) ∉ rest := fun mem => new (List.mem_map.2 ⟨_, mem, rfl⟩)
      simp [other, eq_comm]
    · have ne : (i == j) = false := by simpa using e
      simp [List.lookup_cons, ne, ih once, e]

theorem lookup_eq_none_iff : pairs.lookup i = none ↔ i ∉ pairs.map (·.1) := by
  rw [List.lookup_eq_none_iff]
  simp only [List.mem_map, not_exists, not_and]
  exact forall₂_congr fun p _ => by rw [bne_iff_ne]; exact ne_comm

theorem lookup_eq_of_perm (once : (pairs.map (·.1)).Nodup) (perm : pairs'.Perm pairs) :
    pairs'.lookup i = pairs.lookup i := by
  have once' : (pairs'.map (·.1)).Nodup := ((perm.map (·.1)).nodup_iff).2 once
  refine Option.ext fun v => ?_
  rw [lookup_eq_some_iff once, lookup_eq_some_iff once', perm.mem_iff]

end

namespace Build

open Compilation (slotsOf)

variable {pairs : List (Nat × NodeId)} {slots : Array (Option NodeId)}

/-- Slots can be filled exactly if those that are named are there and empty, and none is named
twice. -/
theorem fillSlots_ok_iff : (∃ slots', fillSlots pairs slots = .ok slots') ↔
    (∀ i ∈ pairs.map (·.1), slots[i]? = some none) ∧ (pairs.map (·.1)).Nodup := by
  induction pairs generalizing slots with
  | nil => simp [fillSlots]
  | cons pair rest ih =>
    obtain ⟨index, val⟩ := pair
    rw [fillSlots, List.map_cons, List.nodup_cons, List.forall_mem_cons]
    split
    · rename_i out
      simp [out]
    · rename_i taken
      simp [taken]
    · rename_i empty
      rw [ih]
      -- the slot that was filled just now is empty no more
      have later : (∀ i ∈ rest.map (·.1), (slots.modify index fun _ => some val)[i]? = some none) ↔
          (∀ i ∈ rest.map (·.1), slots[i]? = some none) ∧ index ∉ rest.map (·.1) := by
        constructor
        · intro all
          have new : index ∉ rest.map (·.1) := fun mem => by
            simpa [Array.getElem?_modify, empty] using all index mem
          refine ⟨fun i mem => ?_, new⟩
          have ne : index ≠ i := fun e => new (e ▸ mem)
          simpa [Array.getElem?_modify, ne] using all i mem
        · rintro ⟨all, new⟩ i mem
          have ne : index ≠ i := fun e => new (e ▸ mem)
          simpa [Array.getElem?_modify, ne] using all i mem
      rw [later]
      simp only [empty, true_and]
      tauto

variable {length i : Nat}

theorem slotsOf_of_mem {v : NodeId} (once : (pairs.map (·.1)).Nodup) (lt : i < length)
    (mem : (i, v) ∈ pairs) : (slotsOf pairs length)[i]? = some (some v) := by
  simp [slotsOf, lt, (lookup_eq_some_iff once).2 mem]

theorem slotsOf_of_not_mem (lt : i < length) (free : i ∉ pairs.map (·.1)) :
    (slotsOf pairs length)[i]? = some none := by
  simp [slotsOf, lt, lookup_eq_none_iff.2 free]

theorem slotsOf_of_perm {pairs' : List (Nat × NodeId)} (once : (pairs.map (·.1)).Nodup)
    (perm : pairs'.Perm pairs) : slotsOf pairs' length = slotsOf pairs length :=
  List.map_congr_left fun _ _ => lookup_eq_of_perm once perm

/-- As many slots stay empty as there are positions without a value. -/
theorem countP_slotsOf (once : (pairs.map (·.1)).Nodup)
    (range : ∀ i ∈ pairs.map (·.1), i < length) :
    (slotsOf pairs length).countP (·.isNone) = length - pairs.length := by
  have given : (List.range length).countP (· ∈ pairs.map (·.1)) = (pairs.map (·.1)).length := by
    rw [List.countP_eq_length_filter]
    refine ((List.perm_ext_iff_of_nodup (List.nodup_range.filter _) once).2 fun i => ?_).length_eq
    simpa using range i
  have free : (slotsOf pairs length).countP (·.isNone) =
      (List.range length).countP fun i => ¬(decide (i ∈ pairs.map (·.1)) = true) := by
    rw [slotsOf, List.countP_map]
    refine List.countP_congr fun i _ => ?_
    simpa using lookup_eq_none_iff
  have all := List.length_eq_countP_add_countP (l := List.range length) (· ∈ pairs.map (·.1))
  rw [List.length_range, given, ← free, List.length_map] at all
  omega

theorem mem_of_mem_slotsOf {v : NodeId} (mem : some v ∈ slotsOf pairs length) :
    ∃ i, (i, v) ∈ pairs := by
  obtain ⟨i, -, found⟩ := List.mem_map.1 mem
  obtain ⟨before, after, split, -⟩ := List.lookup_eq_some_iff.1 found
  exact ⟨i, split ▸ by simp⟩

end Build

/-! ## Zeros -/

/-- The zero of a type. -/
def Node.zero (elem : TypeId) : Node :=
  { Node.fresh .const [] elem .synthetic with
    value := some (.const (.zero elem)), flags := ⟨false, true⟩ }

namespace Arena

/-- The arena with zeros at its next free numbers. -/
def addZeros (a : Arena) (elem : TypeId) (n : Nat) : Arena :=
  ⟨a.nodes ++ Array.replicate n (some (Node.zero elem))⟩

variable {a : Arena} {elem : TypeId} {n : Nat}

@[simp] theorem size_addZeros : (a.addZeros elem n).size = a.size + n := by
  simp [addZeros, size]

theorem find?_addZeros_of_lt {id : NodeId} (lt : id.index < a.size) :
    (a.addZeros elem n).find? id = a.find? id := by
  simp [addZeros, find?, Array.getElem?_append_left lt]

theorem find?_addZeros {k : Nat} (lt : k < n) :
    (a.addZeros elem n).find? ⟨a.size + k⟩ = some (.zero elem) := by
  simp [addZeros, find?, size, lt]

theorem addZeros_succ : a.addZeros elem (n + 1) = (a.add (.zero elem)).2.addZeros elem n := by
  simp only [addZeros, add, Arena.mk.injEq]
  rw [Array.replicate_succ', Array.push_eq_append, Array.append_assoc]

end Arena

section

variable {slots : List (Option NodeId)} {i j : Nat}

/-- The number of empty slots before a position. -/
def gapsBefore (slots : List (Option NodeId)) (i : Nat) : Nat := (slots.take i).countP (·.isNone)

theorem gapsBefore_lt (empty : slots[i]? = some none) (lt : i < j) :
    gapsBefore slots i < gapsBefore slots j := by
  have grown : gapsBefore slots (i + 1) = gapsBefore slots i + 1 := by
    simp [gapsBefore, List.take_add_one, empty]
  have : gapsBefore slots (i + 1) ≤ gapsBefore slots j :=
    (List.take_sublist_take_left lt).countP_le
  omega

theorem gapsBefore_inj (empty : slots[i]? = some none) (empty' : slots[j]? = some none)
    (same : gapsBefore slots i = gapsBefore slots j) : i = j := by
  rcases Nat.lt_trichotomy i j with lt | e | lt
  · have := gapsBefore_lt empty lt
    omega
  · exact e
  · have := gapsBefore_lt empty' lt
    omega

/-- The children for slots, where zeros have the numbers from some number on. -/
def fillGaps (slots : List (Option NodeId)) (next : Nat) : List NodeId :=
  slots.mapIdx fun i slot => slot.getD ⟨next + gapsBefore slots i⟩

theorem getElem?_fillGaps (next : Nat) : (fillGaps slots next)[i]? =
    slots[i]?.map fun slot => slot.getD ⟨next + gapsBefore slots i⟩ := List.getElem?_mapIdx

theorem fillGaps_some (val : NodeId) (next : Nat) :
    fillGaps (some val :: slots) next = val :: fillGaps slots next := by
  simp [fillGaps, gapsBefore]

theorem fillGaps_none (next : Nat) :
    fillGaps (none :: slots) next = ⟨next⟩ :: fillGaps slots (next + 1) := by
  simp [fillGaps, gapsBefore, Nat.add_assoc, Nat.add_comm 1]

end

namespace Build

/-- The child for a slot. -/
def fillSlot (elem : TypeId) : Option NodeId → Build NodeId
  | some val => pure val
  | none => zero elem

/-- Slots that stayed empty get zeros, in their order. -/
theorem mapM_fillSlot {elem : TypeId} {c : Compilation} (plain : c.types.isError elem = .ok false)
    (slots : List (Option NodeId)) :
    slots.mapM (fillSlot elem) c = .ok (fillGaps slots c.arena.size,
      { c with arena := c.arena.addZeros elem (slots.countP (·.isNone)) }) := by
  induction slots generalizing c with
  | nil =>
    simp only [Arena.addZeros, List.countP_nil, Array.replicate_zero, Array.append_empty]
    rfl
  | cons slot rest ih =>
    cases slot with
    | some val =>
      rw [List.mapM_cons, fillSlot, pure_bind, Run.bind_of_ok (ih plain), fillGaps_some]
      rfl
    | none =>
      have first : fillSlot elem none c =
          .ok (⟨c.arena.size⟩, { c with arena := (c.arena.add (.zero elem)).2 }) := by
        rw [fillSlot, zero, isErrorType, Run.bind_of_ok (ask_of_ok plain)]
        rfl
      rw [List.mapM_cons, Run.bind_of_ok first,
        Run.bind_of_ok (ih (c := { c with arena := (c.arena.add (.zero elem)).2 }) plain),
        List.countP_cons_of_pos rfl, Arena.addZeros_succ, fillGaps_none, Arena.size_add]
      rfl

end Build

/-! ## Literals -/

namespace Compilation

open Build

/-- A live expression that is no error. -/
def IsOperand (c : Compilation) (v : NodeId) : Prop :=
  v ≠ .errorExpr ∧ ∃ node, c.arena.find? v = some node ∧ node.isExpr ∧
    c.types.isError node.ty = .ok false

theorem IsOperand.errs_eq {c : Compilation} {v : NodeId} (h : c.IsOperand v) :
    c.errs (.expr v) = .ok false := by
  obtain ⟨other, node, find, -, valid⟩ := h
  rw [errs, if_neg other, Arena.get_eq_ok.2 find]
  exact valid

variable {c : Compilation} {ty elem : TypeId} {length : Nat} {indexes : List Nat}
  {vals : List NodeId} {span : Span} {slots : Array (Option NodeId)}

/-- The literal of slots. -/
def literalOf (ty elem : TypeId) (span : Span) (slots : List (Option NodeId)) : Build NodeId := do
  let kids ← slots.mapM (fillSlot elem)
  if nodeLimit ≤ (← get).arena.size then throw (.tooMany "nodes")
  else makeNode (.composite .building) kids ty span

/-- Once the arguments have been looked at, the literal is made from the slots alone. -/
theorem arrayLiteral_eq (array : c.types.underlyingForm ty = .ok (.array elem length))
    (valid : c.types.isError ty = .ok false) (operands : ∀ v ∈ vals, c.IsOperand v) :
    arrayLiteral ty indexes vals span c =
      if indexes.length ≠ vals.length then .error (.arrayLiteralCount indexes.length vals.length)
      else if slotLimit ≤ length then .error .capacityOverflow
      else fillSlots (indexes.zip vals) (Array.replicate length none) >>= fun slots =>
        literalOf ty elem span slots.toList c := by
  have looked : (Arg.type (A := Category.Handle) ty :: vals.map .expr).anyM c.errs = .ok false := by
    refine anyM_eq_ok_false.2 (List.forall_mem_cons.2 ⟨valid, fun a mem => ?_⟩)
    obtain ⟨v, given, rfl⟩ := List.mem_map.1 mem
    exact (operands v given).errs_eq
  have guarded : Guarded (.type ty :: vals.map .expr) _ (arrayLiteral ty indexes vals span) _ :=
    .type <| .last <| .exprs vals <| .nil _ _
  rw [guarded.eq_body looked]
  split
  · rfl
  · rw [Run.bind_of_ok (ask_of_ok array)]
    change (if slotLimit ≤ length then _ else _ : Build NodeId) c = _
    split
    · rfl
    · cases fillSlots (indexes.zip vals) (Array.replicate length none) <;> rfl

theorem literalOf_eq {slots : List (Option NodeId)} (valid : c.types.isError elem = .ok false) :
    literalOf ty elem span slots c =
      if nodeLimit ≤ c.arena.size + slots.countP (·.isNone) then .error (.tooMany "nodes")
      else makeNode (.composite .building) (fillGaps slots c.arena.size) ty span
        { c with arena := c.arena.addZeros elem (slots.countP (·.isNone)) } := by
  rw [literalOf, Run.bind_of_ok (mapM_fillSlot valid slots), Run.get_bind, Arena.size_addZeros]
  split <;> rfl

/-- A literal is made from slots that hold operands or nothing. -/
theorem literal_of_slots {slots : List (Option NodeId)} (valid : c.types.isError elem = .ok false)
    (operands : ∀ v, some v ∈ slots → c.IsOperand v)
    (room : c.arena.size + slots.countP (·.isNone) < nodeLimit) (ty : TypeId) (span : Span) :
    ∃ id c', literalOf ty elem span slots c = .ok (id, c') ∧
      c'.arena.find? id =
        some (.fresh (.composite .building) (fillGaps slots c.arena.size) ty span) ∧
      ∀ i : Nat, slots[i]? = some none →
        c'.arena.find? ⟨c.arena.size + gapsBefore slots i⟩ = some (.zero elem) := by
  let a := c.arena.addZeros elem (slots.countP (·.isNone))
  have zeros {i : Nat} (empty : slots[i]? = some none) :
      a.find? ⟨c.arena.size + gapsBefore slots i⟩ = some (.zero elem) := by
    refine Arena.find?_addZeros ?_
    have lt := gapsBefore_lt empty (List.getElem?_eq_some_iff.1 empty).1
    rwa [gapsBefore, gapsBefore, List.take_length] at lt
  have exprs (k : NodeId) (mem : k ∈ fillGaps slots c.arena.size) :
      ∃ node, a.find? k = some node ∧ node.isExpr := by
    obtain ⟨i, here⟩ := List.mem_iff_getElem?.1 mem
    rw [getElem?_fillGaps] at here
    obtain ⟨slot, held, rfl⟩ := Option.map_eq_some_iff.1 here
    cases slot with
    | none => exact ⟨_, zeros held, rfl⟩
    | some v =>
      obtain ⟨-, node, find, expr, -⟩ := operands v (List.mem_of_getElem? held)
      exact ⟨node, (Arena.find?_addZeros_of_lt (Arena.lt_of_find? find)).trans find, expr⟩
  obtain ⟨id, c', made⟩ : ∃ id c',
    makeNode (.composite .building) (fillGaps slots c.arena.size) ty span
      { c with arena := a } = .ok (id, c') := exists_makeNode rfl (fun _ => rfl) exprs ty span
  refine ⟨id, c', by rw [literalOf_eq valid, if_neg (Nat.not_le.2 room), made], ?_⟩
  obtain ⟨rfl, rfl⟩ := makeNode_ok made
  refine ⟨Arena.find?_add _ _, fun i empty => (Arena.find?_add_of_ne fun e => ?_).trans
    (zeros empty)⟩
  have := Arena.lt_of_find? (zeros empty)
  rw [e] at this
  exact Nat.lt_irrefl _ this

theorem arrayLiteral_ok_iff {r : NodeId × Compilation}
    (array : c.types.underlyingForm ty = .ok (.array elem length))
    (valid : c.types.isError ty = .ok false) (operands : ∀ v ∈ vals, c.IsOperand v) :
    arrayLiteral ty indexes vals span c = .ok r ↔
      (length < slotLimit ∧ indexes.length = vals.length ∧ (∀ i ∈ indexes, i < length) ∧
        indexes.Nodup) ∧ literalOf ty elem span (slotsOf (indexes.zip vals) length) c = .ok r := by
  rw [arrayLiteral_eq array valid operands]
  by_cases small : length < slotLimit
  case neg =>
    split
    · simp_all
    · simp [small, Nat.not_lt.1 small]
  by_cases count : indexes.length = vals.length
  · have fits := @fillSlots_ok_iff (indexes.zip vals) (Array.replicate length none)
    rw [List.map_fst_zip (by omega)] at fits
    have range : (∀ i ∈ indexes, (Array.replicate length (none : Option NodeId))[i]? = some none) ↔
        ∀ i ∈ indexes, i < length := forall₂_congr fun i _ => by simp [Array.getElem?_replicate]
    rw [range] at fits
    rw [if_neg (by simpa using count), if_neg (Nat.not_le.2 small), bind_eq_ok, ← fits]
    constructor
    · rintro ⟨slots, filled, made⟩
      rw [toList_of_fillSlots filled] at made
      exact ⟨⟨small, count, slots, filled⟩, made⟩
    · rintro ⟨⟨-, -, slots, filled⟩, made⟩
      rw [← toList_of_fillSlots filled] at made
      exact ⟨slots, filled, made⟩
  · rw [if_pos count]
    simp [count]

/-- The same values for the same indexes make the same literal, in whatever order they are given. -/
theorem arrayLiteral_of_perm {r : NodeId × Compilation} {indexes' : List Nat} {vals' : List NodeId}
    (array : c.types.underlyingForm ty = .ok (.array elem length))
    (valid : c.types.isError ty = .ok false) (operands : ∀ v ∈ vals, c.IsOperand v)
    (run : arrayLiteral ty indexes vals span c = .ok r) (count' : indexes'.length = vals'.length)
    (perm : (indexes'.zip vals').Perm (indexes.zip vals)) :
    arrayLiteral ty indexes' vals' span c = .ok r := by
  obtain ⟨⟨small, count, range, once⟩, made⟩ := (arrayLiteral_ok_iff array valid operands).1 run
  have order := perm.map (·.1)
  have values := perm.map (·.2)
  rw [List.map_fst_zip (by omega), List.map_fst_zip (by omega)] at order
  rw [List.map_snd_zip (by omega), List.map_snd_zip (by omega)] at values
  have operands' (v : NodeId) (mem : v ∈ vals') : c.IsOperand v := operands v (values.mem_iff.1 mem)
  refine (arrayLiteral_ok_iff array valid operands').2 ⟨⟨small, count', ?_, order.nodup_iff.2 once⟩,
    ?_⟩
  · exact fun i mem => range i (order.mem_iff.1 mem)
  · rwa [slotsOf_of_perm (by rwa [List.map_fst_zip (by omega)]) perm]

/-- An array literal is made exactly if there are as many indexes as values, all of them in range
and no two the same, the slots fit a vector, and there are numbers left for the zeros and for the
literal itself. Then each value stands at its index, and everywhere else stands a new zero of its
own. Whoever gives the same values for the same indexes in another order makes the same literal. -/
theorem arrayLiteral_places (array : c.types.underlyingForm ty = .ok (.array elem length))
    (valid : c.types.isError ty = .ok false) (validElem : c.types.isError elem = .ok false)
    (operands : ∀ v ∈ vals, c.IsOperand v) :
    ((∃ r, arrayLiteral ty indexes vals span c = .ok r) ↔
      indexes.length = vals.length ∧ (∀ i ∈ indexes, i < length) ∧ indexes.Nodup ∧
        length < slotLimit ∧ c.arena.size + (length - indexes.length) < nodeLimit) ∧
    ∀ id c', arrayLiteral ty indexes vals span c = .ok (id, c') → ∃ node,
      c'.arena.find? id = some node ∧ node.kind = .composite .building ∧ node.ty = ty ∧
      node.kids.length = length ∧
      (∀ (k i : Nat) v, indexes[k]? = some i → vals[k]? = some v → node.kids[i]? = some v) ∧
      (∀ i < length, i ∉ indexes → ∃ z, node.kids[i]? = some z ∧ c.arena.size ≤ z.index ∧
        c'.arena.find? z = some (.zero elem)) ∧
      (∀ (i j : Nat) z, i ∉ indexes → j ∉ indexes → node.kids[i]? = some z →
        node.kids[j]? = some z → i = j) ∧
      ∀ indexes' vals', indexes'.length = vals'.length →
        (indexes'.zip vals').Perm (indexes.zip vals) →
        arrayLiteral ty indexes' vals' span c = .ok (id, c') := by
  have ok_iff {r} : arrayLiteral ty indexes vals span c = .ok r ↔ _ :=
    arrayLiteral_ok_iff array valid operands
  have given (v : NodeId) (mem : some v ∈ slotsOf (indexes.zip vals) length) : c.IsOperand v := by
    obtain ⟨i, mem⟩ := mem_of_mem_slotsOf mem
    exact operands v (List.of_mem_zip mem).2
  have keys (count : indexes.length = vals.length) : (indexes.zip vals).map (·.1) = indexes :=
    List.map_fst_zip (by omega)
  have gaps (count : indexes.length = vals.length) (range : ∀ i ∈ indexes, i < length)
      (once : indexes.Nodup) : (slotsOf (indexes.zip vals) length).countP (·.isNone) =
        length - indexes.length := by
    rw [countP_slotsOf (by rwa [keys count]) (by rwa [keys count]), List.length_zip, ← count,
      Nat.min_self]
  have room {r} (made : literalOf ty elem span (slotsOf (indexes.zip vals) length) c = .ok r) :
      c.arena.size + (slotsOf (indexes.zip vals) length).countP (·.isNone) < nodeLimit := by
    rw [literalOf_eq validElem] at made
    split at made
    · cases made
    · exact Nat.not_le.1 ‹_›
  refine ⟨⟨fun ⟨_, run⟩ => ?_, fun ⟨count, range, once, small, left⟩ => ?_⟩, fun _ _ run => ?_⟩
  · obtain ⟨⟨small, count, range, once⟩, made⟩ := ok_iff.1 run
    exact ⟨count, range, once, small, gaps count range once ▸ room made⟩
  · obtain ⟨id, c', made, -⟩ := literal_of_slots validElem given
      (by rwa [gaps count range once]) ty span
    exact ⟨_, ok_iff.2 ⟨⟨small, count, range, once⟩, made⟩⟩
  obtain ⟨⟨-, count, range, once⟩, run'⟩ := ok_iff.1 run
  obtain ⟨id, c', made, find, zeros⟩ := literal_of_slots validElem given (room run') ty span
  cases made.symm.trans run'
  have keys := keys count
  have size : (fillGaps (slotsOf (indexes.zip vals) length) c.arena.size).length = length := by
    simp [fillGaps, slotsOf]
  -- positions that are not mentioned have empty slots, and so zeros in the order of the gaps
  have empty {i : Nat} (lt : i < length) (free : i ∉ indexes) :
      (slotsOf (indexes.zip vals) length)[i]? = some none := slotsOf_of_not_mem lt (by rwa [keys])
  have gap {i : Nat} (lt : i < length) (free : i ∉ indexes) :
      (fillGaps (slotsOf (indexes.zip vals) length) c.arena.size)[i]? =
        some ⟨c.arena.size + gapsBefore (slotsOf (indexes.zip vals) length) i⟩ := by
    rw [getElem?_fillGaps, empty lt free]
    rfl
  refine ⟨_, find, rfl, rfl, size, fun k i v index value => ?_, fun i lt free => ?_,
    fun i j z free free' here here' => ?_, fun indexes' vals' => arrayLiteral_of_perm array valid
    operands run⟩
  · have mem : (i, v) ∈ indexes.zip vals :=
      List.mem_of_getElem? (List.getElem?_zip_eq_some.2 ⟨index, value⟩)
    rw [Node.fresh, getElem?_fillGaps,
      slotsOf_of_mem (by rwa [keys]) (range i (List.mem_of_getElem? index)) mem]
    rfl
  · exact ⟨_, gap lt free, Nat.le_add_right .., zeros i (empty lt free)⟩
  · have lt : i < length := size ▸ (List.getElem?_eq_some_iff.1 here).1
    have lt' : j < length := size ▸ (List.getElem?_eq_some_iff.1 here').1
    refine gapsBefore_inj (empty lt free) (empty lt' free') ?_
    have same := (gap lt free).symm.trans (here.trans (here'.symm.trans (gap lt' free')))
    simpa using same

/-- Arrays of as many integers as do not fit a vector of slots. -/
def hugeUnit : Compilation :=
  { Compilation.initial .standard with
    types := ((TypeTable.initial .standard).push (.array .i64 slotLimit) none).2 }

/-- A length of 64 bits may still be too large. -/
theorem arrayLiteral_hugeUnit :
    hugeUnit.types.underlyingForm ⟨14⟩ = .ok (.array .i64 slotLimit) ∧ slotLimit < Word.limit ∧
      hugeUnit.types.isError ⟨14⟩ = .ok false ∧ hugeUnit.types.isError .i64 = .ok false ∧
      arrayLiteral ⟨14⟩ [] [] .synthetic hugeUnit = .error .capacityOverflow := by
  have array : hugeUnit.types.underlyingForm ⟨14⟩ = .ok (.array .i64 slotLimit) := by rfl
  have valid : hugeUnit.types.isError ⟨14⟩ = .ok false := by rfl
  refine ⟨array, by decide, valid, by rfl, ?_⟩
  rw [arrayLiteral_eq array valid (by simp), if_neg (by simp), if_pos (Nat.le_refl _)]

/-- Arrays of three truth values, and two of these. -/
def flagsUnit : Compilation :=
  { Compilation.initial .standard with
    types := ((TypeTable.initial .standard).push (.array .bool 3) none).2
    arena := ((Arena.initial.makeConst .bool (.bool true) .synthetic).2.makeConst .bool
      (.bool false) .synthetic).2 }

/-- The last value is given first, and a zero stands between the two. -/
theorem arrayLiteral_places_gap : ∃ id c' node z,
    arrayLiteral ⟨14⟩ [2, 0] [⟨3⟩, ⟨2⟩] .synthetic flagsUnit = .ok (id, c') ∧
      arrayLiteral ⟨14⟩ [0, 2] [⟨2⟩, ⟨3⟩] .synthetic flagsUnit = .ok (id, c') ∧
      c'.arena.find? id = some node ∧ node.kids = [⟨2⟩, z, ⟨3⟩] ∧
        c'.arena.find? z = some (.zero .bool) := by
  have array : flagsUnit.types.underlyingForm ⟨14⟩ = .ok (.array .bool 3) := by rfl
  have operands : ∀ v ∈ [⟨3⟩, ⟨2⟩], flagsUnit.IsOperand v := by
    simp only [List.forall_mem_cons, List.not_mem_nil, false_implies, implies_true, and_true]
    exact ⟨⟨by decide, _, rfl, rfl, rfl⟩, by decide, _, rfl, rfl, rfl⟩
  obtain ⟨made, places⟩ := @arrayLiteral_places _ _ _ _ [2, 0] _ .synthetic array (by rfl)
    (by rfl) operands
  obtain ⟨⟨id, c'⟩, run⟩ := made.2 (by decide)
  obtain ⟨node, find, -, -, length, given, zeros, -, orders⟩ := places id c' run
  obtain ⟨z, gap, -, zero⟩ := zeros 1 (by decide) (by decide)
  refine ⟨id, c', node, z, run, orders _ _ rfl (.swap _ _ _), find, ?_, zero⟩
  obtain ⟨kids, e⟩ : ∃ kids, node.kids = kids := ⟨_, rfl⟩
  match kids, e ▸ length with
  | [x, y, w], _ =>
    have first := given 1 0 ⟨2⟩ rfl rfl
    have last := given 0 2 ⟨3⟩ rfl rfl
    simp_all

end Compilation

end Codegen
