import Codegen.Proofs.Types.Pointers
import Mathlib.Order.Bounds.Basic
import Mathlib.Tactic.Choose

/-!
Natural layout. The layout of a type over all natural numbers, read off its form: each field of a
struct starts at the least offset that is aligned for it, and a struct takes the least size that is
aligned for all of them. Layouts that are answered are these, and offsets of fields agree with them.
-/

namespace Codegen

/-! ## Rounding -/

/-- The multiples of an alignment that are not below an offset. -/
def alignedFrom (align offset : Nat) : Set Nat := {n | align ∣ n ∧ offset ≤ n}

theorem Word.isLeast_of_roundUp {offset align n : Nat}
    (rounded : Word.roundUp offset align = .ok n) : IsLeast (alignedFrom align offset) n := by
  unfold Word.roundUp at rounded
  split at rounded
  case isTrue => cases rounded
  rename_i nonzero
  have positive : 0 < align := Nat.pos_of_ne_zero nonzero
  obtain ⟨rfl, -⟩ := Word.mul_eq_ok.1 rounded
  -- `offset + align - 1` is split into whole alignments and a rest
  have split := Nat.div_add_mod (offset + align - 1) align
  have rest := Nat.mod_lt (offset + align - 1) positive
  rw [Nat.mul_comm] at split
  refine ⟨⟨Nat.dvd_mul_left .., by omega⟩, ?_⟩
  rintro m ⟨⟨count, rfl⟩, above⟩
  rw [Nat.mul_comm align]
  refine Nat.mul_le_mul_right align (Nat.le_of_lt_succ ?_)
  rw [Nat.div_lt_iff_lt_mul positive, Nat.succ_mul, Nat.mul_comm]
  omega

theorem isLeast_powerAtLeast (n : Nat) :
    IsLeast {m | m.isPowerOfTwo ∧ n ≤ m} (powerAtLeast n) := by
  rw [powerAtLeast, Nat.one_shiftLeft]
  split
  · exact ⟨⟨⟨0, rfl⟩, by assumption⟩, fun m h => Nat.pos_of_isPowerOfTwo h.1⟩
  · refine ⟨⟨⟨_, rfl⟩, ?_⟩, ?_⟩
    · have := Nat.lt_log2_self (n := n - 1)
      omega
    · rintro m ⟨⟨k, rfl⟩, above⟩
      refine Nat.pow_le_pow_right (by decide) (Nat.succ_le_of_lt ((Nat.log2_lt (by omega)).2 ?_))
      omega

/-- Of two powers of two the smaller divides the larger. -/
theorem dvd_of_isPowerOfTwo {m n : Nat} (hm : m.isPowerOfTwo) (hn : n.isPowerOfTwo) (le : m ≤ n) :
    m ∣ n := by
  obtain ⟨i, rfl⟩ := hm
  obtain ⟨j, rfl⟩ := hn
  exact Nat.pow_dvd_pow 2 ((Nat.pow_le_pow_iff_right (by decide)).1 le)

/-! ## Fields in a row -/

/-- Fields laid out from an offset on. Field `i` starts at `start i`, and the fields before it reach
up to `reach i`. -/
structure Row (fields : List Layout) (offset : Nat) (start reach : Nat → Nat) : Prop where
  first : reach 0 = offset
  aligned : ∀ {i l}, fields[i]? = some l → IsLeast (alignedFrom l.align (reach i)) (start i)
  next : ∀ {i l}, fields[i]? = some l → reach (i + 1) = start i + l.size

namespace Row

variable {l : Layout} {fields : List Layout} {offset i j : Nat}
  {start reach start' reach' : Nat → Nat}

theorem cons {s : Nat} (aligned : IsLeast (alignedFrom l.align offset) s)
    (row : Row fields (s + l.size) start reach) :
    Row (l :: fields) offset (fun | 0 => s | i + 1 => start i)
      fun | 0 => offset | i + 1 => reach i where
  first := rfl
  aligned {i _} at' := by
    cases i with
    | zero =>
      cases at'
      exact aligned
    | succ i => exact row.aligned at'
  next {i _} at' := by
    cases i with
    | zero =>
      cases at'
      exact row.first
    | succ i => exact row.next at'

theorem tail (row : Row (l :: fields) offset start reach) :
    Row fields (start 0 + l.size) (fun i => start (i + 1)) fun i => reach (i + 1) where
  first := row.next (i := 0) rfl
  aligned {i _} at' := row.aligned (i := i + 1) at'
  next {i _} at' := row.next (i := i + 1) at'

theorem reach_le_start (row : Row fields offset start reach) (at' : fields[i]? = some l) :
    reach i ≤ start i := (row.aligned at').1.2

/-- Fields reach ever further. -/
theorem reach_le (row : Row fields offset start reach) (le : i ≤ j) (inside : j ≤ fields.length) :
    reach i ≤ reach j := by
  induction le with
  | refl => exact Nat.le_refl _
  | @step k _ ih =>
    have at' : fields[k]? = some fields[k] := List.getElem?_eq_getElem inside
    calc
      reach i ≤ reach k := ih (Nat.le_of_succ_le inside)
      _ ≤ start k := row.reach_le_start at'
      _ ≤ start k + fields[k].size := Nat.le_add_right ..
      _ = reach (k + 1) := (row.next at').symm

theorem reach_unique (row : Row fields offset start reach) (row' : Row fields offset start' reach')
    (inside : i ≤ fields.length) : reach i = reach' i := by
  induction i with
  | zero => rw [row.first, row'.first]
  | succ i ih =>
    have at' : fields[i]? = some fields[i] := List.getElem?_eq_getElem inside
    have same := row'.aligned at'
    rw [← ih (Nat.le_of_succ_le inside)] at same
    rw [row.next at', row'.next at', (row.aligned at').unique same]

end Row

/-- Alignments of a target are powers of two, and a pointer fills up its own. -/
structure Target.Aligned (target : Target) : Prop where
  pointer : target.pointerAlign.isPowerOfTwo
  integer : target.maxIntAlign.isPowerOfTwo
  whole : target.pointerAlign ∣ target.pointerSize

namespace TypeTable

open Relation

/-! ## The natural layout of a type -/

/-- The bytes and the alignment that a type has by nature. A type that waits for its definition has
those of a pointer if it is going to be stored as one, and otherwise none. -/
inductive Natural (t : TypeTable) : TypeId → Layout → Prop
  | void {id : TypeId} (known : t.form id = .ok .void) : Natural t id ⟨0, 1⟩
  | bool {id : TypeId} (known : t.form id = .ok .bool) : Natural t id ⟨1, 1⟩
  | error {id : TypeId} (known : t.form id = .ok .error) : Natural t id ⟨1, 1⟩
  /-- An integer takes the least power of two of bytes that holds its bits. -/
  | int {id : TypeId} {bits bytes : Nat} {signed : Bool}
    (known : t.form id = .ok (.int bits signed))
      (holds : IsLeast {n | n.isPowerOfTwo ∧ bits ≤ 8 * n} bytes) :
      Natural t id ⟨bytes, min bytes t.target.maxIntAlign⟩
  | float {id : TypeId} {bits bytes : Nat} (known : t.form id = .ok (.float bits))
      (holds : 8 * bytes = bits) : Natural t id ⟨bytes, bytes⟩
  /-- A complex number is aligned as one of its two parts. -/
  | complex {id : TypeId} {bits bytes : Nat} (known : t.form id = .ok (.complex bits))
      (holds : 8 * (2 * bytes) = bits) : Natural t id ⟨2 * bytes, bytes⟩
  | pointer {id target : TypeId} (known : t.form id = .ok (.pointer target)) :
      Natural t id t.target.pointer
  | function {id result : TypeId} {params : List TypeId}
      (known : t.form id = .ok (.function params result)) : Natural t id t.target.pointer
  | placeholder {id : TypeId} {shape : Shape} {name : Name}
      (known : t.form id = .ok (.placeholder shape name))
      (small : shape = .pointer ∨ shape = .function) : Natural t id t.target.pointer
  | named {id under : TypeId} {name : Name} {l : Layout}
    (known : t.form id = .ok (.named name under))
      (inner : Natural t under l) : Natural t id l
  | array {id elem : TypeId} {length : Nat} {l : Layout}
    (known : t.form id = .ok (.array elem length))
      (inner : Natural t elem l) : Natural t id ⟨l.size * length, l.align⟩
  /-- A struct is aligned as the field with the greatest alignment, and ends where the next one
  could start. -/
  | struct {id : TypeId} {fields : List TypeId} {layouts : TypeId → Layout}
    {start reach : Nat → Nat}
      {size align : Nat} (known : t.form id = .ok (.struct fields))
      (inner : ∀ field ∈ fields, Natural t field (layouts field))
      (row : Row (fields.map layouts) 0 start reach)
      (widest : IsGreatest (insert 1 {a | ∃ field ∈ fields, a = (layouts field).align}) align)
      (whole : IsLeast (alignedFrom align (reach fields.length)) size) : Natural t id ⟨size, align⟩

variable {t : TypeTable} {id : TypeId} {l l' : Layout}

theorem Natural.unique (h : t.Natural id l) (h' : t.Natural id l') : l' = l := by
  induction h generalizing l' with
  | void known => cases h' with
    | void => rfl
    | _ known' => cases known.symm.trans known'
  | bool known => cases h' with
    | bool => rfl
    | _ known' => cases known.symm.trans known'
  | error known => cases h' with
    | error => rfl
    | _ known' => cases known.symm.trans known'
  | int known holds => cases h' with
    | int known' holds' =>
      cases known.symm.trans known'
      rw [holds.unique holds']
    | _ known' => cases known.symm.trans known'
  | float known holds => cases h' with
    | float known' holds' =>
      cases known.symm.trans known'
      obtain rfl : _ = _ := Nat.eq_of_mul_eq_mul_left (by decide) (holds.trans holds'.symm)
      rfl
    | _ known' => cases known.symm.trans known'
  | complex known holds => cases h' with
    | complex known' holds' =>
      cases known.symm.trans known'
      have same := holds.trans holds'.symm
      congr 1 <;> omega
    | _ known' => cases known.symm.trans known'
  | pointer known => cases h' with
    | pointer => rfl
    | _ known' => cases known.symm.trans known'
  | function known => cases h' with
    | function => rfl
    | _ known' => cases known.symm.trans known'
  | placeholder known => cases h' with
    | placeholder => rfl
    | _ known' => cases known.symm.trans known'
  | named known _ ih => cases h' with
    | named known' inner' =>
      cases known.symm.trans known'
      exact ih inner'
    | _ known' => cases known.symm.trans known'
  | array known _ ih => cases h' with
    | array known' inner' =>
      cases known.symm.trans known'
      rw [ih inner']
    | _ known' => cases known.symm.trans known'
  | @struct _ fields layouts _ _ _ _ known _ row widest whole ih => cases h' with
    | @struct _ _ layouts' _ _ _ _ known' inner' row' widest' whole' =>
      cases known.symm.trans known'
      have same : ∀ field ∈ fields, layouts' field = layouts field :=
        fun field mem => ih field mem (inner' field mem)
      have aligns : {a | ∃ field ∈ fields, a = (layouts' field).align} =
          {a | ∃ field ∈ fields, a = (layouts field).align} := by
        ext a
        exact exists_congr fun field => and_congr_right fun mem => by rw [same field mem]
      rw [List.map_congr_left same] at row'
      rw [aligns] at widest'
      obtain rfl := widest.unique widest'
      rw [← row.reach_unique row' (by simp)] at whole'
      rw [whole.unique whole']
    | _ known' => cases known.symm.trans known'

/-! ## Alignments -/

theorem min_isPowerOfTwo {m n : Nat} (hm : m.isPowerOfTwo) (hn : n.isPowerOfTwo) :
    (min m n).isPowerOfTwo ∧ min m n ∣ m := by
  obtain e | e := Nat.le_total m n |>.imp Nat.min_eq_left Nat.min_eq_right
  · rw [e]
    exact ⟨hm, Nat.dvd_refl m⟩
  · rw [e]
    exact ⟨hn, dvd_of_isPowerOfTwo hn hm (e ▸ Nat.min_le_left m n)⟩

/-- An alignment is a power of two, and objects in a row stay aligned. -/
theorem Natural.align (h : t.Natural id l) (regular : t.Regular) (target : t.target.Aligned) :
    l.align.isPowerOfTwo ∧ l.align ∣ l.size := by
  have one : Nat.isPowerOfTwo 1 := ⟨0, rfl⟩
  induction h with
  | void | bool | error => exact ⟨one, Nat.one_dvd _⟩
  | int _ holds => exact min_isPowerOfTwo holds.1.1 target.integer
  | @float _ _ bytes known holds =>
    have width := regular _ _ known
    obtain rfl | rfl : bytes = 2 ^ 2 ∨ bytes = 2 ^ 3 := by
      simp [TypeForm.isRegular] at width
      omega
    · exact ⟨⟨2, rfl⟩, Nat.dvd_refl _⟩
    · exact ⟨⟨3, rfl⟩, Nat.dvd_refl _⟩
  | @complex _ _ bytes known holds =>
    have width := regular _ _ known
    obtain rfl | rfl : bytes = 2 ^ 2 ∨ bytes = 2 ^ 3 := by
      simp [TypeForm.isRegular] at width
      omega
    · exact ⟨⟨2, rfl⟩, Nat.dvd_mul_left ..⟩
    · exact ⟨⟨3, rfl⟩, Nat.dvd_mul_left ..⟩
  | pointer | function | placeholder => exact ⟨target.pointer, target.whole⟩
  | named _ _ ih => exact ih
  | array _ _ ih => exact ⟨ih.1, Nat.dvd_mul_right_of_dvd ih.2 _⟩
  | struct known inner row widest whole ih =>
    refine ⟨?_, whole.1.1⟩
    obtain rfl | ⟨field, mem, rfl⟩ := widest.1
    · exact one
    · exact (ih field mem).1

/-! ## Layouts that are answered -/

/-- Fields that are placed lie in a row. -/
theorem row_of_placeFields {layout : TypeId → Except Fault (Option Layout)} {fields : List TypeId}
    {layouts : TypeId → Layout} {offset align : Nat}
    (parts : ∀ field ∈ fields, layout field = .ok (some (layouts field)))
    (placed : placeFields layout fields offset align = .ok (some l)) :
    ∃ start reach, Row (fields.map layouts) offset start reach ∧
      IsGreatest (insert align {a | ∃ field ∈ fields, a = (layouts field).align}) l.align ∧
      IsLeast (alignedFrom l.align (reach fields.length)) l.size := by
  induction fields generalizing offset align with
  | nil =>
    obtain ⟨size, rounded, e⟩ := bind_eq_ok.1 placed
    cases e
    refine ⟨fun _ => 0, fun _ => offset, ⟨rfl, nofun, nofun⟩, ?_, Word.isLeast_of_roundUp rounded⟩
    simp
  | cons field rest ih =>
    obtain ⟨found, hfield, placed⟩ := bind_eq_ok.1 placed
    cases hfield.symm.trans (parts field (by simp))
    obtain ⟨s, rounded, placed⟩ := bind_eq_ok.1 placed
    obtain ⟨stop, added, placed⟩ := bind_eq_ok.1 placed
    obtain ⟨rfl, -⟩ := Word.add_eq_ok.1 added
    obtain ⟨start, reach, row, widest, whole⟩ := ih (fun f mem => parts f (by simp [mem])) placed
    refine ⟨_, _, row.cons (Word.isLeast_of_roundUp rounded), ⟨?_, ?_⟩, whole⟩
    · obtain e | ⟨f, mem, e⟩ := widest.1
      · obtain e' | e' := max_choice align (layouts field).align
        · exact .inl (e.trans e')
        · exact .inr ⟨field, by simp, e.trans e'⟩
      · exact .inr ⟨f, by simp [mem], e⟩
    · rintro a (rfl | ⟨f, mem, rfl⟩)
      · exact (le_max_left ..).trans (widest.2 (.inl rfl))
      · obtain rfl | mem := List.mem_cons.1 mem
        · exact (le_max_right ..).trans (widest.2 (.inl rfl))
        · exact widest.2 (.inr ⟨f, mem, rfl⟩)

theorem natural_of_layoutWithin (regular : t.Regular) {n : Nat}
    (found : t.layoutWithin n id = .ok (some l)) : t.Natural id l := by
  induction n generalizing id l with
  | zero => cases found
  | succ n ih =>
    obtain ⟨form, known, found⟩ := bind_eq_ok.1 found
    cases form with
    | void => cases found; exact .void known
    | bool => cases found; exact .bool known
    | error => cases found; exact .error known
    | int bits signed =>
      cases found
      refine .int known ?_
      have least := isLeast_powerAtLeast ((bits + 7) / 8)
      refine ⟨⟨least.1.1, ?_⟩, fun m ⟨power, above⟩ => least.2 ⟨power, by omega⟩⟩
      have := least.1.2
      omega
    | float bits =>
      cases found
      have width := regular _ _ known
      simp [TypeForm.isRegular] at width
      exact .float known (by omega)
    | complex bits =>
      cases found
      have width := regular _ _ known
      simp [TypeForm.isRegular] at width
      have halves : bits / 8 = 2 * (bits / 8 / 2) := by omega
      have natural : t.Natural id ⟨2 * (bits / 8 / 2), bits / 8 / 2⟩ := .complex known (by omega)
      rwa [← halves] at natural
    | pointer target => cases found; exact .pointer known
    | function params result => cases found; exact .function known
    | placeholder shape name =>
      cases shape with
      | pointer => cases found; exact .placeholder known (.inl rfl)
      | function => cases found; exact .placeholder known (.inr rfl)
      | struct | array => cases found
    | marker => cases found
    | named name under => exact .named known (ih found)
    | array elem length =>
      obtain ⟨inner, hinner, found⟩ := bind_eq_ok.1 found
      cases inner with
      | none => cases found
      | some inner =>
        change (if _ then _ else _) = _ at found
        split at found
        · cases found
          exact .array known (ih hinner)
        · cases found
    | struct fields =>
      have : Nonempty Layout := ⟨l⟩
      choose! layouts parts using layouts_of_placeFields found
      obtain ⟨start, reach, row, widest, whole⟩ := row_of_placeFields parts found
      exact .struct known (fun field mem => ih (parts field mem)) row widest whole

/-! ## Offsets -/

/-- Offsets are found by placing the fields once more. -/
theorem offsetAfter_unique {fields : List TypeId} {layouts : TypeId → Layout} {offset i s : Nat}
    {start reach : Nat → Nat} {field : TypeId}
    (parts : ∀ field ∈ fields, t.layout field = .ok (layouts field))
    (row : Row (fields.map layouts) offset start reach) (at_index : fields[i]? = some field)
    (answered : t.offsetAfter offset (fields.take i) field = .ok s) : s = start i := by
  induction fields generalizing i offset start reach with
  | nil => cases at_index
  | cons first rest ih =>
    have aligned {l : Layout} {s : Nat} (laid : t.layout first = .ok l)
        (rounded : Word.roundUp offset l.align = .ok s) : s = start 0 := by
      cases laid.symm.trans (parts first (by simp))
      have least := row.aligned (i := 0) rfl
      rw [row.first] at least
      exact (Word.isLeast_of_roundUp rounded).unique least
    cases i with
    | zero =>
      cases at_index
      obtain ⟨l, laid, rounded⟩ := bind_eq_ok.1 answered
      exact aligned laid rounded
    | succ i =>
      obtain ⟨l, laid, answered⟩ := bind_eq_ok.1 answered
      obtain ⟨s₀, rounded, answered⟩ := bind_eq_ok.1 answered
      obtain ⟨stop, added, answered⟩ := bind_eq_ok.1 answered
      obtain ⟨rfl, -⟩ := Word.add_eq_ok.1 added
      obtain rfl := aligned laid rounded
      cases laid.symm.trans (parts first (by simp))
      exact ih (i := i) (fun f mem => parts f (by simp [mem])) row.tail at_index answered

/-- How the fields of a struct lie in its bytes. Field `i` starts at `start i`, and the fields
before it reach up to `reach i`. -/
structure FieldsLie (t : TypeTable) (id : TypeId) (fields : List TypeId) (size align : Nat)
    (start reach : Nat → Nat) : Prop where
  first : reach 0 = 0
  /-- Each field has an offset, the least that is aligned for it behind the field before. -/
  placed : ∀ i field, fields[i]? = some field → ∃ fieldSize fieldAlign,
    t.sizeOf field = .ok fieldSize ∧ t.alignOf field = .ok fieldAlign ∧
      t.offsetOf id i = .ok (start i) ∧ IsLeast (alignedFrom fieldAlign (reach i)) (start i) ∧
      reach (i + 1) = start i + fieldSize ∧ fieldAlign ∣ size
  apart : ∀ i j, i < j → j < fields.length → reach (i + 1) ≤ start j
  inside : ∀ i < fields.length, reach (i + 1) ≤ size
  whole : IsLeast (alignedFrom align (reach fields.length)) size

theorem sizeOf_eq (laid : t.layout id = .ok l) : t.sizeOf id = .ok l.size := by
  rw [sizeOf, laid]
  rfl

theorem alignOf_eq (laid : t.layout id = .ok l) : t.alignOf id = .ok l.align := by
  rw [alignOf, laid]
  rfl

/-- Where a struct has a layout its fields lie in a row. -/
theorem Asked.fieldsLie (asked : t.Asked) (target : t.target.Aligned) {fields : List TypeId}
    (found : t.structFields? id = .ok (some fields)) (laid : t.layout id = .ok l) :
    ∃ start reach, t.FieldsLie id fields l.size l.align start reach := by
  have grounded := asked.reachable.grounded
  obtain ⟨under, down, known⟩ := structFields?_eq_some.1 found
  obtain ⟨k, placed⟩ := placed_of_layoutWithin (layout_eq_ok.1 laid) down known
  have : Nonempty Layout := ⟨l⟩
  choose! layouts within using layouts_of_placeFields placed
  have parts : ∀ field ∈ fields, t.layout field = .ok (layouts field) := fun field mem =>
    layout_eq_ok.2 (grounded.layout?_of_within (within field mem))
  obtain ⟨start, reach, row, widest, whole⟩ := row_of_placeFields within placed
  have at_map {i : Nat} {field : TypeId} (at' : fields[i]? = some field) :
      (fields.map layouts)[i]? = some (layouts field) := by
    simp [at']
  have power {id : TypeId} {l : Layout} (laid : t.layout id = .ok l) : l.align.isPowerOfTwo :=
    ((natural_of_layoutWithin asked.regular (layout_eq_ok.1 laid)).align asked.regular target).1
  refine ⟨start, reach, row.first, fun i field at' => ?_, fun i j lt inside => ?_,
    fun i inside => ?_, whole⟩
  · have mem := List.mem_of_getElem? at'
    obtain ⟨s, offset⟩ := grounded.offsetAfter_isOk placed at'
    obtain rfl := offsetAfter_unique parts row at' offset
    have divides : (layouts field).align ∣ l.align :=
      dvd_of_isPowerOfTwo (power (parts field mem)) (power laid) (widest.2 (.inr ⟨field, mem, rfl⟩))
    exact ⟨_, _, sizeOf_eq (parts field mem), alignOf_eq (parts field mem),
      (offsetOf_eq asked.reachable.canonical found at').trans offset, row.aligned (at_map at'),
      row.next (at_map at'), Nat.dvd_trans divides whole.1.1⟩
  · have at' : fields[j]? = some fields[j] := List.getElem?_eq_getElem inside
    calc
      reach (i + 1) ≤ reach j := row.reach_le lt (by simpa using inside.le)
      _ ≤ start j := row.reach_le_start (at_map at')
  · calc
      reach (i + 1) ≤ reach fields.length := row.reach_le inside (by simp)
      _ ≤ l.size := whole.1.2

/-- Sizes, alignments and offsets that are answered are those of the natural layout, with no
wrap-around. They are answered together. -/
theorem Asked.layout_natural (asked : t.Asked) (target : t.target.Aligned) (id : TypeId) :
    ((∃ size, t.sizeOf id = .ok size) ↔ ∃ align, t.alignOf id = .ok align) ∧
    ∀ size align, t.sizeOf id = .ok size → t.alignOf id = .ok align →
      (∀ l, t.Natural id l ↔ l = ⟨size, align⟩) ∧ align.isPowerOfTwo ∧ align ∣ size ∧
      ∀ fields, t.structFields? id = .ok (some fields) →
        ∃ start reach, t.FieldsLie id fields size align start reach := by
  refine ⟨⟨fun ⟨size, sized⟩ => ?_, fun ⟨align, aligned⟩ => ?_⟩, fun size align sized aligned => ?_⟩
  · obtain ⟨l, laid⟩ := layout_of_sizeOf sized
    exact ⟨_, alignOf_eq laid⟩
  · obtain ⟨l, laid, -⟩ := bind_eq_ok.1 aligned
    exact ⟨_, sizeOf_eq laid⟩
  · obtain ⟨l, laid⟩ := layout_of_sizeOf sized
    cases sized.symm.trans (sizeOf_eq laid)
    cases aligned.symm.trans (alignOf_eq laid)
    have natural := natural_of_layoutWithin asked.regular (layout_eq_ok.1 laid)
    obtain ⟨power, divides⟩ := natural.align asked.regular target
    refine ⟨fun l' => ⟨natural.unique, ?_⟩, power, divides, fun fields found =>
      asked.fieldsLie target found laid⟩
    rintro rfl
    exact natural

/-- A struct below a name, with gaps between its fields and behind them. -/
theorem Asked.layout_natural_gaps :
    ∃ t : TypeTable, t.Asked ∧ t.target.Aligned ∧
      t.structFields? ⟨17⟩ = .ok (some [.bool, ⟨14⟩, ⟨15⟩, .u8]) ∧
        t.form ⟨14⟩ = .ok (.int 24 true) ∧
      t.form ⟨15⟩ = .ok (.complex 128) ∧ t.Natural ⟨17⟩ ⟨32, 8⟩ ∧ t.offsetOf ⟨17⟩ 1 = .ok 4 ∧
      ∃ start reach, t.FieldsLie ⟨17⟩ [.bool, ⟨14⟩, ⟨15⟩, .u8] 32 8 start reach := by
  let t₁ := ((initial .standard).push (.int 24 true) none).2
  let t₂ := (t₁.push (.complex 128) none).2
  let t₃ := (t₂.push (.struct [.bool, ⟨14⟩, ⟨15⟩, .u8]) none).2
  let t₄ := (t₃.push (.named .empty ⟨16⟩) none).2
  have first : Asks (initial .standard) t₁ := ⟨.integerType false 24, by simp, by decide +kernel⟩
  have second : Asks t₁ t₂ := ⟨.complexType 128, by simp, by decide +kernel⟩
  have third : Asks t₂ t₃ :=
    ⟨.structType ([.bool, ⟨14⟩, ⟨15⟩, .u8].map fun ty => ⟨.empty, ty⟩), by simp, by decide +kernel⟩
  have fourth : Asks t₃ t₄ := ⟨.namedType .empty ⟨16⟩, by simp, by decide +kernel⟩
  have asked : t₄.Asked :=
    ⟨.standard, (((ReflTransGen.single first).tail second).tail third).tail fourth⟩
  have target : t₄.target.Aligned := ⟨⟨3, rfl⟩, ⟨4, rfl⟩, Nat.dvd_refl 8⟩
  have sized : t₄.sizeOf ⟨17⟩ = .ok 32 := by decide +kernel
  have aligned : t₄.alignOf ⟨17⟩ = .ok 8 := by decide +kernel
  have fields : t₄.structFields? ⟨17⟩ = .ok (some [.bool, ⟨14⟩, ⟨15⟩, .u8]) := by decide +kernel
  obtain ⟨natural, -, -, lie⟩ := (asked.layout_natural target ⟨17⟩).2 32 8 sized aligned
  exact ⟨t₄, asked, target, fields, rfl, rfl, (natural _).2 rfl, by decide +kernel, lie _ fields⟩

end TypeTable

end Codegen
