import Codegen.Proofs.Types.Interning
import Mathlib.Data.Finset.Card
import Mathlib.Data.Finset.Range
import Mathlib.Order.WellFounded

/-!
No type holds itself by value. A placeholder is given its form only where it is not stored in what
it is given, so the components stored by value stay well-founded over every run, and the descents
through them end.
-/

namespace Codegen.TypeTable

open Relation

/-- A component stored inside another type: a field, an element, or what is below a name. -/
def PartOf (t : TypeTable) (part whole : TypeId) : Prop :=
  ∃ form, t.form whole = .ok form ∧ part ∈ form.parts

/-- A type is another one, or stored in it at any depth. -/
abbrev StoredIn (t : TypeTable) : TypeId → TypeId → Prop := ReflTransGen t.PartOf

/-- Components exist, a placeholder that waits has no components, and none holds itself. -/
structure Grounded (t : TypeTable) : Prop where
  known : ∀ {id : TypeId} {form : TypeForm}, t.form id = .ok form →
    ∀ c ∈ form.components, c.index < t.size
  waiting : ∀ {id : TypeId} {form : TypeForm} {name : Name},
    t.find? id = some ⟨form, .pending name⟩ → ∃ shape, form = .placeholder shape name
  wellFounded : WellFounded t.PartOf

/-! ## One more edge -/

/-- New edges into one point leave a relation well-founded if they close no circle. -/
theorem wellFounded_link {α : Type} {r : α → α → Prop} (wf : WellFounded r) {p : α}
    {new : α → Prop} (apart : ∀ x, new x → ¬ ReflTransGen r p x) :
    WellFounded fun a b => r a b ∨ (b = p ∧ new a) := by
  -- What is not above `p` has the same descents as before; `p` sees only such points.
  have below : ∀ x, ¬ ReflTransGen r p x → Acc (fun a b => r a b ∨ (b = p ∧ new a)) x := by
    intro x
    induction x using wf.induction with
    | _ x ih =>
      intro away
      refine ⟨x, fun y hy => ?_⟩
      obtain hy | ⟨rfl, -⟩ := hy
      · exact ih y hy fun h => away (h.tail hy)
      · exact absurd .refl away
  have atPoint : Acc (fun a b => r a b ∨ (b = p ∧ new a)) p := by
    refine ⟨p, fun y hy => ?_⟩
    obtain hy | ⟨-, hy⟩ := hy
    · refine below y fun h => ?_
      exact wf.transGen.irrefl.irrefl p (TransGen.tail' h hy)
    · exact below y (apart y hy)
  constructor
  intro x
  induction x using wf.induction with
  | _ x ih =>
    refine ⟨x, fun y hy => ?_⟩
    obtain hy | ⟨rfl, hy⟩ := hy
    · exact ih y hy
    · exact atPoint.inv (.inr ⟨rfl, hy⟩)

/-! ## The search for a type in another -/

variable {form : TypeForm} {fuel n : Nat} {id needle p part real whole : TypeId} {t : TypeTable}

theorem storedIn_of_holdsWithin (h : t.holdsWithin needle fuel id = .ok true) :
    t.StoredIn needle id := by
  induction fuel generalizing id with
  | zero => cases h
  | succ fuel ih =>
    unfold holdsWithin at h
    split at h
    · rename_i e
      rw [e]
    · obtain ⟨form, known, h⟩ := bind_eq_ok.1 h
      obtain ⟨part, mem, h⟩ := exists_of_anyM_eq_ok_true h
      exact (ih h).tail ⟨form, known, mem⟩

theorem not_storedIn_of_holdsWithin (h : t.holdsWithin needle fuel id = .ok false) :
    ¬ t.StoredIn needle id := by
  induction fuel generalizing id with
  | zero => cases h
  | succ fuel ih =>
    unfold holdsWithin at h
    split at h
    · cases h
    · rename_i ne
      obtain ⟨form, known, h⟩ := bind_eq_ok.1 h
      intro stored
      obtain e | ⟨part, stored, form', known', mem⟩ := stored.cases_tail
      · exact ne e
      · rw [known, Except.ok.injEq] at known'
        subst known'
        exact ih (anyM_eq_ok_false.1 h part mem) stored

/-! ## Every change keeps types grounded -/

theorem partOf_lt (h : t.Grounded) (sub : t.PartOf part whole) : part.index < t.size := by
  obtain ⟨form, known, mem⟩ := sub
  exact h.known known part (form.parts_subset mem)

theorem initial_grounded (target : Target) : (initial target).Grounded := by
  have bare {id : TypeId} {form : TypeForm} (known : (initial target).form id = .ok form) :
      form.components = [] := by
    obtain ⟨origin, found⟩ := form_eq_ok.1 known
    exact components_primitive form (List.mem_of_getElem? (find?_initial.1 found).1)
  constructor
  · intro id form known c hc
    rw [bare known] at hc
    cases hc
  · intro id form name found
    cases (find?_initial.1 found).2
  · refine ⟨fun id => ⟨id, fun part hp => ?_⟩⟩
    obtain ⟨form, known, mem⟩ := hp
    have mem := form.parts_subset mem
    rw [bare known] at mem
    cases mem

/-- A new entry over components that exist. -/
theorem Grounded.push (h : t.Grounded) {name? : Option Name}
    (known : ∀ c ∈ form.components, c.index < t.size)
    (waiting : ∀ name, name? = some name → ∃ shape, form = .placeholder shape name) :
    (t.push form name?).2.Grounded := by
  constructor
  · intro id form' known' c hc
    obtain ⟨o, found⟩ := form_eq_ok.1 known'
    rw [size_push]
    obtain ⟨-, e⟩ | found := find?_push_cases found
    · cases e
      exact Nat.lt_succ_of_lt (known c hc)
    · exact Nat.lt_succ_of_lt (h.known (form_eq_ok.2 ⟨o, found⟩) c hc)
  · intro id form' name found
    obtain ⟨-, e⟩ | found := find?_push_cases found
    · cases name? <;> cases e
      exact waiting name rfl
    · exact h.waiting found
  · have apart : ∀ x, x ∈ form.parts → ¬ t.StoredIn (t.push form name?).1 x := by
      intro x hx stored
      have old : (t.push form name?).1.index < t.size := by
        obtain e | ⟨y, sub, -⟩ := stored.cases_head
        · rw [e]
          exact known x (form.parts_subset hx)
        · exact partOf_lt h sub
      simp at old
    refine Subrelation.wf ?_ (wellFounded_link h.wellFounded apart)
    rintro part whole ⟨form', known', mem⟩
    obtain ⟨o, found⟩ := form_eq_ok.1 known'
    obtain ⟨e, e'⟩ | found := find?_push_cases found
    · cases e'
      exact .inr ⟨e, mem⟩
    · exact .inl ⟨form', form_eq_ok.2 ⟨o, found⟩, mem⟩

theorem partOf_define (pending : t.isPending p = true) (sub : (t.define p form).PartOf part whole) :
    t.PartOf part whole ∨ (whole = p ∧ part ∈ form.parts) := by
  obtain ⟨form', known, mem⟩ := sub
  obtain ⟨o, found⟩ := form_eq_ok.1 known
  obtain ⟨e, name, e'⟩ | ⟨-, found⟩ := find?_define_cases pending found
  · cases e'
    exact .inr ⟨e, mem⟩
  · exact .inl ⟨form', form_eq_ok.2 ⟨o, found⟩, mem⟩

/-- A placeholder gets a form that does not hold it. -/
theorem Grounded.define (h : t.Grounded) (pending : t.isPending p = true)
    (known : ∀ c ∈ form.components, c.index < t.size) (apart : ∀ x ∈ form.parts, ¬ t.StoredIn p x) :
    (t.define p form).Grounded := by
  constructor
  · intro id form' known' c hc
    obtain ⟨o, found⟩ := form_eq_ok.1 known'
    rw [size_define]
    obtain ⟨-, name, e⟩ | ⟨-, found⟩ := find?_define_cases pending found
    · cases e
      exact known c hc
    · exact h.known (form_eq_ok.2 ⟨o, found⟩) c hc
  · intro id form' name found
    obtain ⟨-, _, e⟩ | ⟨-, found⟩ := find?_define_cases pending found
    · cases e
    · exact h.waiting found
  · exact Subrelation.wf (partOf_define pending) (wellFounded_link h.wellFounded apart)

theorem Grounded.change {t' : TypeTable} (h : t.Grounded) (change : Change t t') : t'.Grounded := by
  cases change with
  | enter plain clean new =>
    refine h.push (fun c hc => ?_) (fun name e => by cases e)
    exact lt_size_of_isError_false ((hasErrorPart_eq_false.1 clean).2 c hc)
  | await shape name =>
    refine h.push (by simp [TypeForm.components]) fun other e => ?_
    cases e
    exact ⟨shape, rfl⟩
  | fail pending =>
    exact h.define pending (by simp [TypeForm.components]) (by simp [TypeForm.parts])
  | settle pending settled known sound apart =>
    refine h.define pending (h.known known) fun x hx stored => ?_
    exact not_storedIn_of_holdsWithin apart (stored.tail ⟨_, known, hx⟩)

theorem Reachable.grounded (h : t.Reachable) : t.Grounded :=
  h.induct initial_grounded fun _ _ => Grounded.change

/-! ## Descents end -/

/-- Every descent by parts from a handle ends within a number of steps. -/
def EndsWithin (t : TypeTable) : Nat → TypeId → Prop
  | 0, _ => False
  | n + 1, id => ∀ part, t.PartOf part id → t.EndsWithin n part

theorem length_le_size {path : List TypeId} (apart : path.Nodup)
    (known : ∀ x ∈ path, x.index < t.size) : path.length ≤ t.size := by
  have inj : Function.Injective TypeId.index := by
    rintro ⟨a⟩ ⟨b⟩ e
    rw [show a = b from e]
  have sub : (path.map TypeId.index).toFinset ⊆ Finset.range t.size := by
    intro i hi
    simp only [List.mem_toFinset, List.mem_map] at hi
    obtain ⟨x, hx, rfl⟩ := hi
    exact Finset.mem_range.2 (known x hx)
  have card := Finset.card_le_card sub
  rwa [List.toFinset_card_of_nodup (apart.map inj), List.length_map, Finset.card_range] at card

/-- A descent meets no handle twice, so it is no longer than the table. `path` is what it has
met. -/
theorem Grounded.endsWithin (h : t.Grounded) (path : List TypeId) (apart : path.Nodup)
    (known : ∀ x ∈ path, x.index < t.size) (above : ∀ x ∈ path, TransGen t.PartOf id x)
    (lt : id.index < t.size) (room : path.length + n = t.size) : t.EndsWithin n id := by
  have new : id ∉ path := fun mem => h.wellFounded.transGen.irrefl.irrefl id (above id mem)
  have apart' : (id :: path).Nodup := List.nodup_cons.2 ⟨new, apart⟩
  have known' : ∀ x ∈ id :: path, x.index < t.size := by
    intro x hx
    obtain rfl | hx := List.mem_cons.1 hx
    · exact lt
    · exact known x hx
  induction n generalizing id path with
  | zero =>
    have long := length_le_size apart' known'
    simp only [List.length_cons] at long
    omega
  | succ n ih =>
    intro part sub
    have above' : ∀ x ∈ id :: path, TransGen t.PartOf part x := by
      intro x hx
      obtain rfl | hx := List.mem_cons.1 hx
      · exact .single sub
      · exact (TransGen.single sub).trans (above x hx)
    have new' : part ∉ id :: path :=
      fun mem => h.wellFounded.transGen.irrefl.irrefl part (above' part mem)
    have lt' := partOf_lt h sub
    refine ih (id :: path) apart' known' above' lt' (by simp only [List.length_cons]; omega) new'
      (List.nodup_cons.2 ⟨new', apart'⟩) fun x hx => ?_
    obtain rfl | hx := List.mem_cons.1 hx
    · exact lt'
    · exact known' x hx

/-- The bound that descents run under is large enough for every handle, existing or not. -/
theorem Grounded.endsWithin_size (h : t.Grounded) (id : TypeId) : t.EndsWithin (t.size + 1) id := by
  rintro part sub
  exact h.endsWithin [] List.nodup_nil (by simp) (by simp) (partOf_lt h sub) (by simp)

theorem ends_form (t : TypeTable) (id : TypeId) : Ends (t.form id) := by
  unfold TypeTable.form
  split <;> simp [Ends]

theorem ends_isError (t : TypeTable) (id : TypeId) : Ends (t.isError id) := by
  unfold isError
  split
  · exact ends_ok true
  · exact ends_bind (ends_form t id) fun form _ => ends_pure _

theorem ends_underlyingWithin (h : t.EndsWithin n id) : Ends (t.underlyingWithin n id) := by
  induction n generalizing id with
  | zero => exact h.elim
  | succ n ih =>
    refine ends_bind (ends_form t id) fun form known => ?_
    split
    · exact ih (h _ ⟨_, known, by simp [TypeForm.parts]⟩)
    · exact ends_pure _

theorem ends_holdsWithin (h : t.EndsWithin n id) : Ends (t.holdsWithin needle n id) := by
  induction n generalizing id with
  | zero => exact h.elim
  | succ n ih =>
    unfold holdsWithin
    split
    · exact ends_ok true
    · exact ends_bind (ends_form t id) fun form known =>
        ends_anyM fun part mem => ih (h part ⟨form, known, mem⟩)

theorem ends_roundUp (offset align : Nat) : Ends (Word.roundUp offset align) := by
  unfold Word.roundUp Word.mul
  split
  · simp [Ends]
  · split <;> simp [Ends]

theorem ends_add (a b : Nat) : Ends (Word.add a b) := by
  unfold Word.add
  split <;> simp [Ends]

theorem ends_placeFields {layout : TypeId → Except Fault (Option Layout)} {fields : List TypeId}
    (h : ∀ field ∈ fields, Ends (layout field)) (offset align : Nat) :
    Ends (placeFields layout fields offset align) := by
  induction fields generalizing offset align with
  | nil => exact ends_bind (ends_roundUp offset align) fun _ _ => ends_pure _
  | cons field rest ih =>
    refine ends_bind (h field (by simp)) fun l _ => ?_
    split
    · exact ends_pure _
    · refine ends_bind (ends_roundUp _ _) fun start _ => ?_
      refine ends_bind (ends_add _ _) fun stop _ => ?_
      exact ih (fun x hx => h x (by simp [hx])) _ _

theorem ends_layoutWithin (h : t.EndsWithin n id) : Ends (t.layoutWithin n id) := by
  induction n generalizing id with
  | zero => exact h.elim
  | succ n ih =>
    refine ends_bind (ends_form t id) fun form known => ?_
    have part : ∀ {x}, x ∈ form.parts → Ends (t.layoutWithin n x) :=
      fun mem => ih (h _ ⟨form, known, mem⟩)
    cases form with
    | named name under => exact part (by simp [TypeForm.parts])
    | array elem length =>
      refine ends_bind (part (by simp [TypeForm.parts])) fun l _ => ?_
      cases l with
      | none => exact ends_pure _
      | some l =>
        dsimp only
        split
        · exact ends_pure _
        · simp [Ends, throw, throwThe, MonadExceptOf.throw]
    | struct fields => exact ends_placeFields (fun field mem => part mem) 0 1
    | placeholder shape name => cases shape <;> exact ends_pure _
    | _ => exact ends_pure _

theorem Grounded.ends_underlying (h : t.Grounded) (id : TypeId) : Ends (t.underlying id) :=
  ends_underlyingWithin (h.endsWithin_size id)

theorem Grounded.ends_holds (h : t.Grounded) (id needle : TypeId) : Ends (t.holds id needle) :=
  ends_holdsWithin (h.endsWithin_size id)

theorem Grounded.ends_layout? (h : t.Grounded) (id : TypeId) : Ends (t.layout? id) :=
  ends_layoutWithin (h.endsWithin_size id)

theorem Grounded.ends_layout (h : t.Grounded) (id : TypeId) : Ends (t.layout id) := by
  refine ends_bind (h.ends_layout? id) fun l _ => ?_
  cases l with
  | some l => exact ends_pure l
  | none => simp [Ends, throw, throwThe, MonadExceptOf.throw]

theorem Grounded.ends_offsetAfter (h : t.Grounded) (offset : Nat) (fields : List TypeId)
    (last : TypeId) : Ends (t.offsetAfter offset fields last) := by
  induction fields generalizing offset with
  | nil => exact ends_bind (h.ends_layout last) fun l _ => ends_roundUp _ _
  | cons field rest ih =>
    refine ends_bind (h.ends_layout field) fun l _ => ?_
    refine ends_bind (ends_roundUp _ _) fun start _ => ?_
    exact ends_bind (ends_add _ _) fun stop _ => ih stop

theorem Grounded.ends_offsetOf (h : t.Grounded) (id : TypeId) (index : Nat) :
    Ends (t.offsetOf id index) := by
  have fields : Ends (t.structFields? id) := by
    refine ends_bind (ends_bind (h.ends_underlying id) fun u _ => ends_form t u) fun form _ => ?_
    cases form <;> exact ends_pure _
  refine ends_bind (ends_isError t id) fun bad _ => ?_
  cases bad with
  | true => exact ends_pure _
  | false =>
    refine ends_bind fields fun found _ => ?_
    cases found with
    | none => simp [Ends, throw, throwThe, MonadExceptOf.throw]
    | some fields =>
      dsimp only
      cases fields[index]? with
      | none => simp [Ends, throw, throwThe, MonadExceptOf.throw]
      | some field => exact h.ends_offsetAfter 0 _ field

/-! ## Which definitions are refused -/

/-- The search for a type in an existing one answers, and is right. -/
theorem Grounded.holds_eq (h : t.Grounded) (lt : id.index < t.size) (needle : TypeId) :
    (t.StoredIn needle id ∧ t.holds id needle = .ok true) ∨
    (¬ t.StoredIn needle id ∧ t.holds id needle = .ok false) := by
  have answers : ∀ n id, id.index < t.size → t.EndsWithin n id →
      ∃ b, t.holdsWithin needle n id = .ok b := by
    intro n
    induction n with
    | zero => exact fun id _ e => e.elim
    | succ n ih =>
      intro id lt within
      unfold holdsWithin
      split
      · exact ⟨true, rfl⟩
      · obtain ⟨form, known⟩ := form_isOk lt
        have total : ∀ part ∈ form.parts, ∃ b, t.holdsWithin needle n part = .ok b :=
          fun part mem => ih part (partOf_lt h ⟨form, known, mem⟩) (within part ⟨form, known, mem⟩)
        rw [known]
        exact exists_anyM_eq_ok total
  obtain ⟨b, hb⟩ := answers _ id lt (h.endsWithin_size id)
  cases b with
  | true => exact .inl ⟨storedIn_of_holdsWithin hb, hb⟩
  | false => exact .inr ⟨not_storedIn_of_holdsWithin hb, hb⟩

/-- What is stored in a type stays so when a placeholder gets its form. -/
theorem Grounded.storedIn_define (h : t.Grounded) (pending : t.isPending p = true)
    {inner outer : TypeId} (stored : t.StoredIn inner outer) :
    (t.define p form).StoredIn inner outer := by
  refine ReflTransGen.mono (fun part whole sub => ?_) _ _ stored
  obtain ⟨form', known, mem⟩ := sub
  obtain ⟨o, found⟩ := form_eq_ok.1 known
  have ne : whole ≠ p := by
    rintro rfl
    obtain ⟨old, name, waiting⟩ := isPending_iff.1 pending
    obtain ⟨shape, rfl⟩ := h.waiting waiting
    rw [found] at waiting
    cases waiting
    cases mem
  exact ⟨form', form_eq_ok.2 ⟨o, by rw [find?_define_of_ne ne, found]⟩, mem⟩

/-- A form closes a circle by value exactly if the placeholder is stored in the type it comes
from. -/
theorem Grounded.circle_iff (h : t.Grounded) (pending : t.isPending p = true)
    (settled : t.isPending real = false) (known : t.form real = .ok form) :
    (∃ id, TransGen (t.define p form).PartOf id id) ↔ t.StoredIn p real := by
  constructor
  · rintro ⟨id, circle⟩
    by_contra away
    have grounded := h.define pending (h.known known)
      fun x hx stored => away (stored.tail ⟨form, known, hx⟩)
    exact grounded.wellFounded.transGen.irrefl.irrefl id circle
  · intro stored
    obtain rfl | ⟨part, stored, form', known', mem⟩ := stored.cases_tail
    · rw [pending] at settled
      cases settled
    · rw [known, Except.ok.injEq] at known'
      subst known'
      obtain ⟨old, name, waiting⟩ := isPending_iff.1 pending
      have last : (t.define p form).PartOf part p :=
        ⟨form, form_eq_ok.2 ⟨_, find?_define waiting⟩, mem⟩
      exact ⟨p, TransGen.tail' (h.storedIn_define pending stored) last⟩

/-- A definition of the right shape is refused if the placeholder is stored in it, and taken
otherwise. -/
theorem Grounded.resolve_eq (h : t.Grounded) {shape : Shape} {name : Name} {under : TypeForm}
    (pending : t.isPending p = true) (settled : t.isPending real = false)
    (intact : t.isError p = .ok false) (sound : t.isError real = .ok false)
    (waits : t.form p = .ok (.placeholder shape name)) (known : t.form real = .ok form)
    (below : t.underlyingForm real = .ok under) (fits : under.shape? = some shape) :
    (t.StoredIn p real → t.resolve p real = .ok (.error (.infiniteSize p), t)) ∧
    (¬ t.StoredIn p real → t.resolve p real = .ok (.ok .resolved, t.define p form)) := by
  have unresolved : t.isResolved p = false := by
    obtain ⟨old, other, found⟩ := isPending_iff.1 pending
    simp [isResolved_eq, found, Origin.isResolved]
  have search : t.resolve p real = do
      if ← t.holds real p then return (.error (.infiniteSize p), t)
      else return (.ok .resolved, t.define p form) := by
    simp [resolve, intact, sound, unresolved, pending, settled, waits, known, below, fits, bind,
      Except.bind]
  obtain ⟨stored, answer⟩ | ⟨apart, answer⟩ := h.holds_eq (lt_size_of_form known) p
  · refine ⟨fun _ => ?_, fun apart => absurd stored apart⟩
    rw [search, answer]
    rfl
  · refine ⟨fun stored => absurd stored apart, fun _ => ?_⟩
    rw [search, answer]
    rfl

/-- No type holds itself by value in any run, and every descent by value ends. A definition of the
right shape is refused as infinite exactly if the placeholder is stored in it, that is, exactly if
it would close a circle. -/
theorem byValue_wellFounded {t : TypeTable} (reach : t.Reachable) :
    WellFounded t.PartOf ∧
    (∀ id, Ends (t.underlying id) ∧ Ends (t.layout? id) ∧ (∀ index, Ends (t.offsetOf id index)) ∧
      ∀ needle, Ends (t.holds id needle)) ∧
    ∀ p real shape name form under, t.isPending p = true → t.isPending real = false →
      t.isError real = .ok false → t.form p = .ok (.placeholder shape name) →
      t.form real = .ok form → t.underlyingForm real = .ok under → under.shape? = some shape →
      (t.resolve p real = .ok (.error (.infiniteSize p), t) ↔ t.StoredIn p real) ∧
      (t.resolve p real = .ok (.ok .resolved, t.define p form) ↔ ¬ t.StoredIn p real) ∧
      (t.StoredIn p real ↔ ∃ id, TransGen (t.define p form).PartOf id id) := by
  have h := reach.grounded
  refine ⟨h.wellFounded, fun id => ?_, ?_⟩
  · exact ⟨h.ends_underlying id, h.ends_layout? id, h.ends_offsetOf id, h.ends_holds id⟩
  · intro p real shape name form under pending settled sound waits known below fits
    have intact : t.isError p = .ok false := by
      have ne : p ≠ .error := by
        rintro rfl
        have sentinel := form_eq_ok.2 ⟨_, reach.canonical.sentinel⟩
        rw [sentinel] at waits
        cases waits
      rw [isError, if_neg ne, waits]
      rfl
    obtain ⟨refused, taken⟩ := h.resolve_eq pending settled intact sound waits known below fits
    refine ⟨⟨fun answer => ?_, refused⟩, ⟨fun answer stored => ?_, taken⟩,
      (h.circle_iff pending settled known).symm⟩
    · by_contra apart
      rw [taken apart] at answer
      cases answer
    · rw [refused stored] at answer
      cases answer

/-- A struct with a field of its own type is refused. -/
theorem byValue_wellFounded_field :
    ∃ t : TypeTable, t.Reachable ∧ WellFounded t.PartOf ∧
      t.resolve ⟨14⟩ ⟨15⟩ = .ok (.error (.infiniteSize ⟨14⟩), t) ∧
      ∃ id, TransGen (t.define ⟨14⟩ (.struct [⟨14⟩])).PartOf id id := by
  let t₀ := ((initial .standard).placeholder .struct .empty).2
  let t := (t₀.push (.struct [⟨14⟩]) none).2
  have reach : t.Reachable := by
    refine ⟨.standard, .tail (.single ⟨.placeholder .struct .empty, rfl⟩)
      ⟨.intern (.struct [⟨14⟩]), ?_⟩⟩
    decide +kernel
  obtain ⟨wellFounded, -, refuse⟩ := byValue_wellFounded reach
  obtain ⟨refused, -, circle⟩ := refuse ⟨14⟩ ⟨15⟩ .struct .empty (.struct [⟨14⟩]) (.struct [⟨14⟩])
    rfl rfl rfl rfl rfl rfl rfl
  have stored : t.StoredIn ⟨14⟩ ⟨15⟩ := .single ⟨.struct [⟨14⟩], rfl, by decide⟩
  exact ⟨t, reach, wellFounded, refused.2 stored, circle.1 stored⟩

end Codegen.TypeTable
