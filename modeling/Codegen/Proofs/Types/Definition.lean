import Codegen.Proofs.Types.ByValue

/-!
A placeholder gets its form once. A call enters at most one form and defines at most one
placeholder that waits; it leaves every other handle as it is, and a definition that is refused
leaves them all.
-/

namespace Codegen.TypeTable

/-! ## What one call does -/

/-- At most one form is entered. -/
inductive Enters (t : TypeTable) : TypeTable → Prop
  | same : Enters t t
  | new {form : TypeForm} (plain : form.isPlaceholder = false)
      (clean : t.hasErrorPart form = .ok false) : Enters t (t.push form none).2

/-- A placeholder that waits is defined, as an error or with a form. -/
inductive Defined (t : TypeTable) (id : TypeId) : TypeTable → Prop
  | failed (pending : t.isPending id = true) : Defined t id (t.define id .error)
  | settled {real : TypeId} {form : TypeForm} (settles : t.Settles id real form) :
      Defined t id (t.define id form)

variable {d : Definition} {form : TypeForm} {id real : TypeId} {s t t' : TypeTable}

theorem Brings.enters {P : TypeForm → Prop} (h : t.Brings P t') : t.Enters t' := by
  cases h with
  | nothing => exact .same
  | form _ plain clean => exact .new plain clean

/-- A definition defines its placeholder, or only enters a form. A refused one never defines. -/
theorem Definition.effect {answer : Except PlaceholderError Resolution}
    (h : d.run t = .ok (answer, t')) :
    t.Enters t' ∨ ∃ resolution s, answer = .ok resolution ∧ t.Enters s ∧
      s.Defined d.subject t' := by
  obtain ⟨real, s, brings, h⟩ := Definition.resolves (P := fun _ => True) (fun _ _ _ => trivial) h
  have enters := brings.enters
  obtain ⟨rfl, rfl⟩ | ⟨rfl, -⟩ | ⟨rfl, form, settles, rfl⟩ := resolve_cases h
  · cases pending : s.isPending d.subject with
    | true => exact .inr ⟨_, s, rfl, enters, .failed pending⟩
    | false => exact .inl (by rwa [define_of_not_pending _ pending])
  · exact .inl enters
  · exact .inr ⟨_, s, rfl, enters, .settled settles⟩

/-- A call enters a form, creates a placeholder, or defines one. -/
theorem Step.effect (h : Step t t') :
    t.Enters t' ∨ (∃ shape name, t' = (t.placeholder shape name).2) ∨
      ∃ s id, t.Enters s ∧ s.Defined id t' := by
  obtain ⟨call, h⟩ := h
  obtain brings | await | ⟨d, -, -, answer, -, run, -, -⟩ := call.cases h
  · exact .inl brings.enters
  · exact .inr (.inl await)
  · obtain enters | ⟨-, s, -, enters, defined⟩ := Definition.effect run
    · exact .inl enters
    · exact .inr (.inr ⟨s, _, enters, defined⟩)

/-! ## Handles that exist -/

theorem find?_push_of_lt {name? : Option Name} (lt : id.index < t.size) :
    (t.push form name?).2.find? id = t.find? id := by
  refine find?_push_of_ne fun e => ?_
  rw [e] at lt
  exact Nat.lt_irrefl _ lt

theorem Enters.find? (h : t.Enters s) (lt : id.index < t.size) : s.find? id = t.find? id := by
  cases h with
  | same => rfl
  | new => exact find?_push_of_lt lt

theorem Enters.isPending (h : t.Enters s) (pending : s.isPending id = true) :
    t.isPending id = true := by
  cases h with
  | same => exact pending
  | @new form =>
    by_cases e : id = (t.push form none).1
    · rw [e, isPending_eq, find?_push] at pending
      cases pending
    · rwa [isPending_eq, find?_push_of_ne e, ← isPending_eq] at pending

theorem lt_size_of_isPending (h : t.isPending id = true) : id.index < t.size := by
  obtain ⟨form, name, found⟩ := isPending_iff.1 h
  exact lt_size_of_find? found

theorem pendingCount_push (t : TypeTable) (form : TypeForm) (name? : Option Name) :
    (t.push form name?).2.pendingCount = t.pendingCount + if name?.isSome then 1 else 0 := by
  cases name? <;> rfl

theorem Enters.pendingCount (h : t.Enters s) : s.pendingCount = t.pendingCount := by
  cases h with
  | same => rfl
  | new => rfl

theorem pendingCount_define (form : TypeForm) (pending : t.isPending id = true) :
    (t.define id form).pendingCount + 1 = t.pendingCount := by
  have waits : id ∈ t.pending := of_decide_eq_true pending
  have some := List.length_pos_of_mem waits
  simp only [TypeTable.pendingCount, TypeTable.define, TypeCache.define, waits, if_true,
    TypeCache.settle, List.length_erase_of_mem]
  omega

/-! ## What waits -/

/-- What waits for a definition is what has the form of a placeholder. -/
def Waiting (t : TypeTable) : Prop :=
  ∀ ⦃id entry⦄, t.find? id = some entry → entry.origin.isPending = entry.form.isPlaceholder

theorem Waiting.isPending_iff (h : t.Waiting) (id : TypeId) :
    t.isPending id = true ↔ ∃ shape name, t.form id = .ok (.placeholder shape name) := by
  constructor
  · intro pending
    obtain ⟨form, name, found⟩ := TypeTable.isPending_iff.1 pending
    have placeholder := h found
    cases form with
    | placeholder shape name => exact ⟨shape, name, form_eq_ok.2 ⟨_, found⟩⟩
    | _ => cases placeholder
  · rintro ⟨shape, name, known⟩
    obtain ⟨origin, found⟩ := form_eq_ok.1 known
    have waits : origin.isPending = true := h found
    simp [isPending_eq, found, waits]

theorem Waiting.plain (h : t.Waiting) (known : t.form id = .ok form)
    (settled : t.isPending id = false) : form.isPlaceholder = false := by
  obtain ⟨origin, found⟩ := form_eq_ok.1 known
  rw [← h found]
  simpa [isPending_eq, found] using settled

theorem Waiting.push (h : t.Waiting) {name? : Option Name}
    (fits : name?.isSome = form.isPlaceholder) : (t.push form name?).2.Waiting := by
  intro id entry found
  obtain ⟨-, rfl⟩ | found := find?_push_cases found
  · cases name? <;> exact fits
  · exact h found

theorem Waiting.define (h : t.Waiting) {p : TypeId} (pending : t.isPending p = true)
    (plain : form.isPlaceholder = false) : (t.define p form).Waiting := by
  intro id entry found
  obtain ⟨-, name, rfl⟩ | ⟨-, found⟩ := find?_define_cases pending found
  · exact plain.symm
  · exact h found

theorem Waiting.change (h : t.Waiting) (change : Change t t') : t'.Waiting := by
  cases change with
  | enter plain => exact h.push plain.symm
  | await shape name => exact h.push rfl
  | fail pending => exact h.define pending rfl
  | settle pending settled known => exact h.define pending (h.plain known settled)

theorem initial_waiting (target : Target) : (initial target).Waiting := by
  intro id entry found
  obtain ⟨fixed, origin⟩ := find?_initial.1 found
  have plain : ∀ form ∈ primitives, form.isPlaceholder = false := by decide
  rw [origin, plain _ (List.mem_of_getElem? fixed)]
  rfl

theorem Reachable.waiting (h : t.Reachable) : t.Waiting :=
  h.induct initial_waiting fun _ _ h => h.change

/-! ## One call -/

/-- One placeholder goes from waiting to defined, and nothing else happens to the handles there
are. -/
structure Settlement (t t' : TypeTable) (id : TypeId) : Prop where
  before : ∃ shape name, t.find? id = some ⟨.placeholder shape name, .pending name⟩
  after : ∃ form name, form.isPlaceholder = false ∧ t'.find? id = some ⟨form, .resolved name⟩
  others : ∀ other, other ≠ id → other.index < t.size → t'.find? other = t.find? other
  count : t'.pendingCount + 1 = t.pendingCount

theorem Defined.settlement (grounded : t.Grounded) (waiting : s.Waiting) (enters : t.Enters s)
    (h : s.Defined id t') : t.Settlement t' id := by
  have shown : ∃ form, s.isPending id = true ∧ form.isPlaceholder = false ∧
      t' = s.define id form := by
    cases h with
    | failed pending => exact ⟨.error, pending, rfl, rfl⟩
    | @settled _ form settles =>
      exact ⟨form, settles.pending, waiting.plain settles.known settles.settled, rfl⟩
  obtain ⟨form, pending, plain, rfl⟩ := shown
  obtain ⟨old, name, found⟩ := isPending_iff.1 pending
  have lt := lt_size_of_isPending (enters.isPending pending)
  have first := found
  rw [enters.find? lt] at first
  obtain ⟨shape, rfl⟩ := grounded.waiting first
  refine ⟨⟨shape, name, first⟩, ⟨form, name, plain, find?_define found⟩, fun other ne lt => ?_, ?_⟩
  · rw [find?_define_of_ne ne, enters.find? lt]
  · rw [pendingCount_define form pending, enters.pendingCount]

/-- A call leaves all handles as they are, or defines one placeholder. -/
theorem Step.keeps_or_settles (reach : t.Reachable) (h : Step t t') :
    ((∀ id, id.index < t.size → t'.find? id = t.find? id) ∧ t.pendingCount ≤ t'.pendingCount) ∨
      ∃ id, t.Settlement t' id := by
  obtain enters | ⟨shape, name, rfl⟩ | ⟨s, id, enters, defined⟩ := h.effect
  · exact .inl ⟨fun id lt => enters.find? lt, enters.pendingCount.ge⟩
  · exact .inl ⟨fun id lt => find?_push_of_lt lt, by simp [placeholder, pendingCount_push]⟩
  · have waiting : s.Waiting := by
      cases enters with
      | same => exact reach.waiting
      | new plain => exact reach.waiting.push plain.symm
    exact .inr ⟨id, defined.settlement reach.grounded waiting enters⟩

/-- A handle's form is another one after the call. -/
def Alters (t t' : TypeTable) (id : TypeId) : Prop :=
  id.index < t.size ∧ t'.form id ≠ t.form id

theorem form_congr (lt : id.index < t.size) (same : t'.find? id = t.find? id) :
    t'.form id = t.form id := by
  obtain ⟨form, known⟩ := form_isOk lt
  obtain ⟨origin, found⟩ := form_eq_ok.1 known
  rw [known, form_eq_ok]
  exact ⟨origin, same.trans found⟩

theorem Settlement.alters (h : t.Settlement t' id) : t.Alters t' id := by
  obtain ⟨shape, name, first⟩ := h.before
  obtain ⟨form, name', plain, last⟩ := h.after
  refine ⟨lt_size_of_find? first, fun e => ?_⟩
  rw [form_eq_ok.2 ⟨_, first⟩, form_eq_ok.2 ⟨_, last⟩] at e
  cases e
  cases plain

theorem Step.alters_iff (reach : t.Reachable) (h : Step t t') :
    t.Alters t' id ↔ t.Settlement t' id := by
  refine ⟨fun ⟨lt, ne⟩ => ?_, Settlement.alters⟩
  obtain ⟨same, -⟩ | ⟨settled, s⟩ := h.keeps_or_settles reach
  · exact absurd (form_congr lt (same id lt)) ne
  · by_cases e : id = settled
    · exact e ▸ s
    · exact absurd (form_congr lt (s.others id e lt)) ne

theorem Settlement.isPending (h : t.Settlement t' id) :
    t.isPending id = true ∧ t'.isPending id = false ∧ t'.isResolved id = true := by
  obtain ⟨shape, name, first⟩ := h.before
  obtain ⟨form, name', -, last⟩ := h.after
  simp [isPending_eq, isResolved_eq, first, last, Origin.isPending, Origin.isResolved]

/-- A placeholder no longer waits exactly because it was defined. -/
theorem Step.settlement_iff (reach : t.Reachable) (h : Step t t') :
    t.Settlement t' id ↔ t.isPending id = true ∧ t'.isPending id = false := by
  refine ⟨fun s => ⟨s.isPending.1, s.isPending.2.1⟩, fun ⟨before, after⟩ => ?_⟩
  have lt := lt_size_of_isPending before
  have kept : t'.find? id ≠ t.find? id := by
    intro same
    rw [isPending_eq, same, ← isPending_eq, before] at after
    cases after
  obtain ⟨same, -⟩ | ⟨settled, s⟩ := h.keeps_or_settles reach
  · exact absurd (same id lt) kept
  · by_cases e : id = settled
    · exact e ▸ s
    · exact absurd (s.others id e lt) kept

theorem not_isPending_and_isResolved (t : TypeTable) (id : TypeId) :
    ¬(t.isPending id = true ∧ t.isResolved id = true) := fun ⟨pending, resolved⟩ =>
  t.coherent.apart (of_decide_eq_true pending) (of_decide_eq_true resolved)

/-- What was defined stays as it is. -/
theorem Step.find?_of_isResolved (reach : t.Reachable) (h : Step t t')
    (resolved : t.isResolved id = true) : t'.find? id = t.find? id := by
  have lt : id.index < t.size := t.coherent.known (.inr (of_decide_eq_true resolved))
  obtain ⟨same, -⟩ | ⟨settled, s⟩ := h.keeps_or_settles reach
  · exact same id lt
  · refine s.others id (fun e => ?_) lt
    exact not_isPending_and_isResolved t id ⟨e ▸ s.isPending.1, resolved⟩

/-- Only creation makes a handle wait. -/
theorem Step.isPending (h : Step t t') (pending : t'.isPending id = true) :
    t.isPending id = true ∨ ∃ shape name, t.placeholder shape name = (id, t') := by
  obtain enters | ⟨shape, name, rfl⟩ | ⟨s, p, enters, defined⟩ := h.effect
  · exact .inl (enters.isPending pending)
  · by_cases e : id = (t.placeholder shape name).1
    · exact .inr ⟨shape, name, by rw [e]⟩
    · left
      rwa [isPending_eq, placeholder, find?_push_of_ne e, ← isPending_eq] at pending
  · have waits {form : TypeForm} (before : s.isPending p = true)
        (after : (s.define p form).isPending id = true) : s.isPending id = true := by
      obtain ⟨other, name, found⟩ := TypeTable.isPending_iff.1 after
      obtain ⟨-, _, e⟩ | ⟨-, found⟩ := find?_define_cases before found
      · cases e
      · exact TypeTable.isPending_iff.2 ⟨other, name, found⟩
    cases defined with
    | failed before => exact .inl (enters.isPending (waits before pending))
    | settled settles => exact .inl (enters.isPending (waits settles.pending pending))

/-! ## Answers to a definition -/

theorem Grounded.underlying_isOk (h : t.Grounded) (lt : id.index < t.size) :
    ∃ under, t.underlying id = .ok under ∧ under.index < t.size := by
  have answers : ∀ n id, id.index < t.size → t.EndsWithin n id →
      ∃ under, t.underlyingWithin n id = .ok under ∧ under.index < t.size := by
    intro n
    induction n with
    | zero => exact fun id _ e => e.elim
    | succ n ih =>
      intro id lt within
      obtain ⟨form, known⟩ := form_isOk lt
      unfold underlyingWithin
      rw [known]
      cases form with
      | named name under =>
        have part : t.PartOf under id := ⟨_, known, by simp [TypeForm.parts]⟩
        exact ih under (partOf_lt h part) (within under part)
      | _ => exact ⟨id, rfl, lt⟩
  exact answers _ id lt (h.endsWithin_size id)

theorem sameType_isOk {a b : TypeId} (ha : a.index < t.size) (hb : b.index < t.size) :
    ∃ same, t.sameType a b = .ok same := by
  obtain ⟨fa, ea⟩ := form_isOk ha
  obtain ⟨fb, eb⟩ := form_isOk hb
  unfold sameType
  rw [ea, eb]
  split
  · exact ⟨_, rfl⟩
  · split <;> exact ⟨_, rfl⟩

/-- Every definition of one existing handle by another is answered. -/
theorem Reachable.resolve_isOk (reach : t.Reachable) (hid : id.index < t.size)
    (hreal : real.index < t.size) : ∃ r, t.resolve id real = .ok r := by
  obtain ⟨idBad, eid⟩ := isError_isOk hid
  obtain ⟨realBad, ereal⟩ := isError_isOk hreal
  obtain ⟨same, esame⟩ := sameType_isOk hid hreal
  obtain ⟨under, eunder, lt⟩ := reach.grounded.underlying_isOk hreal
  obtain ⟨form, eform⟩ := form_isOk hreal
  obtain ⟨below, ebelow⟩ := form_isOk lt
  have deep : t.underlyingForm real = .ok below := by
    rw [underlyingForm, eunder]
    exact ebelow
  unfold resolve
  rw [eid, ereal]
  cases idBad with
  | true => exact ⟨_, rfl⟩
  | false =>
    cases realBad with
    | true => exact ⟨_, rfl⟩
    | false =>
      cases resolved : t.isResolved id with
      | true => exact ⟨_, rfl⟩
      | false =>
        cases pending : t.isPending id with
        | false =>
          rw [esame]
          cases same <;> exact ⟨_, rfl⟩
        | true =>
          -- a handle that waits has the form of a placeholder, so the last branch is closed
          obtain ⟨shape, name, waits⟩ := (reach.waiting.isPending_iff id).1 pending
          rw [waits, deep, eform]
          cases t.isPending real with
          | true => exact ⟨_, rfl⟩
          | false =>
            by_cases fits : below.shape? = some shape
            · obtain ⟨-, e⟩ | ⟨-, e⟩ := reach.grounded.holds_eq hreal id
              · exact ⟨_, by simp [bind, Except.bind, fits, e]; rfl⟩
              · exact ⟨_, by simp [bind, Except.bind, fits, e]; rfl⟩
            · exact ⟨_, by simp [bind, Except.bind, fits]; rfl⟩

theorem Reachable.isError_of_size_le (reach : t.Reachable) (le : t.size ≤ id.index) :
    t.isError id = .error (.indexOutOfBounds t.size id.index) := by
  have ne : id ≠ .error := by
    rintro rfl
    exact Nat.not_lt.2 le (lt_size_of_find? reach.canonical.sentinel)
  have missing : t.types[id.index]? = none := Array.getElem?_eq_none le
  rw [isError, if_neg ne, TypeTable.form, missing]
  rfl

/-- A definition stops only at a handle that does not exist. -/
theorem Reachable.fault_of_resolve (reach : t.Reachable) {fault : Fault}
    (h : t.resolve id real = .error fault) : ∃ index, fault = .indexOutOfBounds t.size index := by
  by_cases hid : id.index < t.size
  · by_cases hreal : real.index < t.size
    · obtain ⟨r, e⟩ := reach.resolve_isOk hid hreal
      rw [e] at h
      cases h
    · obtain ⟨idBad, eid⟩ := isError_isOk hid
      have ereal := reach.isError_of_size_le (Nat.not_lt.1 hreal)
      unfold resolve at h
      rw [eid, ereal] at h
      cases idBad with
      | true => cases h
      | false =>
        cases h
        exact ⟨_, rfl⟩
  · unfold resolve at h
    rw [reach.isError_of_size_le (Nat.not_lt.1 hid)] at h
    cases h
    exact ⟨_, rfl⟩

/-- A placeholder that was defined is not defined again. -/
theorem resolve_of_isResolved (resolved : t.isResolved id = true) (lt : real.index < t.size) :
    ∃ idBad realBad, t.isError id = .ok idBad ∧ t.isError real = .ok realBad ∧
      t.resolve id real =
        .ok (if idBad || realBad then .ok .errorType else .error (.alreadyResolved id), t) := by
  have settled : t.isPending id = false := by
    cases pending : t.isPending id with
    | true => exact absurd ⟨pending, resolved⟩ (not_isPending_and_isResolved t id)
    | false => rfl
  have hid : id.index < t.size := t.coherent.known (.inr (of_decide_eq_true resolved))
  obtain ⟨idBad, eid⟩ := isError_isOk hid
  obtain ⟨realBad, ereal⟩ := isError_isOk lt
  refine ⟨idBad, realBad, eid, ereal, ?_⟩
  unfold resolve
  rw [eid, ereal, define_of_not_pending _ settled, resolved]
  cases idBad <;> cases realBad <;> rfl

/-- What can be asked about a handle is as it was. -/
def Untouched (t t' : TypeTable) (id : TypeId) : Prop :=
  t'.form id = t.form id ∧ t'.isPending id = t.isPending id ∧ t'.isResolved id = t.isResolved id ∧
    t'.placeholderName? id = t.placeholderName? id

/-- A definition that is refused leaves no trace on the handles there are. -/
theorem Definition.untouched {error : PlaceholderError} (h : d.run t = .ok (.error error, t'))
    (lt : id.index < t.size) : t.Untouched t' id := by
  have same : t'.find? id = t.find? id := by
    obtain enters | ⟨_, _, e, _⟩ := Definition.effect h
    · exact enters.find? lt
    · cases e
  refine ⟨form_congr lt same, ?_⟩
  simp [isPending_eq, isResolved_eq, placeholderName?_eq, same]

/-! ## Whole runs -/

/-- The tables of a run of `n` calls on a fresh table. -/
structure History (n : Nat) (state : Nat → TypeTable) : Prop where
  start : ∃ target, state 0 = initial target
  step : ∀ i < n, Step (state i) (state (i + 1))

namespace History

variable {n i j : Nat} {state : Nat → TypeTable} {id : TypeId}

theorem reachable (run : History n state) (le : i ≤ n) : (state i).Reachable := by
  induction i with
  | zero =>
    obtain ⟨target, e⟩ := run.start
    exact ⟨target, e ▸ .refl⟩
  | succ i ih =>
    obtain ⟨target, steps⟩ := ih (by omega)
    exact ⟨target, steps.tail (run.step i le)⟩

theorem find?_of_isResolved (run : History n state) (le : i ≤ j) (last : j ≤ n)
    (resolved : (state i).isResolved id = true) : (state j).find? id = (state i).find? id := by
  induction j, le using Nat.le_induction with
  | base => rfl
  | succ j le ih =>
    have same := ih (by omega)
    rw [← same]
    refine (run.step j last).find?_of_isResolved (run.reachable (by omega)) ?_
    rwa [isResolved_eq, same, ← isResolved_eq]

theorem isResolved_later (run : History n state) (le : i ≤ j) (last : j ≤ n)
    (resolved : (state i).isResolved id = true) : (state j).isResolved id = true := by
  rwa [isResolved_eq, run.find?_of_isResolved le last resolved, ← isResolved_eq]

theorem settles_once (run : History n state) (hi : i < n) (hj : j < n)
    (first : (state i).Settlement (state (i + 1)) id)
    (second : (state j).Settlement (state (j + 1)) id) : i = j := by
  have never : ∀ {i j}, i < j → j < n → (state i).Settlement (state (i + 1)) id →
      ¬(state j).Settlement (state (j + 1)) id := by
    intro i j lt hj first second
    have resolved := run.isResolved_later lt (by omega) first.isPending.2.2
    exact not_isPending_and_isResolved _ id ⟨second.isPending.1, resolved⟩
  rcases Nat.lt_trichotomy i j with lt | e | lt
  · exact absurd second (never lt hj first)
  · exact e
  · exact absurd first (never lt hi second)

/-- Whatever waits was created as a placeholder in an earlier call. -/
theorem created (run : History n state) (le : i ≤ n) (pending : (state i).isPending id = true) :
    ∃ k < i, ∃ shape name, (state k).placeholder shape name = (id, state (k + 1)) := by
  induction i with
  | zero =>
    obtain ⟨target, e⟩ := run.start
    obtain ⟨form, name, found⟩ := TypeTable.isPending_iff.1 pending
    rw [e] at found
    obtain ⟨shape, rfl⟩ := (initial_grounded target).waiting found
    cases (find?_initial.1 found).2
  | succ i ih =>
    obtain before | ⟨shape, name, created⟩ := (run.step i le).isPending pending
    · obtain ⟨k, lt, created⟩ := ih (by omega) before
      exact ⟨k, by omega, created⟩
    · exact ⟨i, by omega, shape, name, created⟩

end History

/-- Over every run, a handle's form changes in one call at most: only for a handle created as a
placeholder, from the form of a placeholder to another, in the call after which it no longer waits.
What waits is what has the form of a placeholder, and one less waits after exactly those calls.
Later definitions are refused, and a refused definition leaves no trace. -/
theorem placeholder_defined_once {n : Nat} {state : Nat → TypeTable} (run : History n state) :
    (∀ i ≤ n, ∀ id,
      ((state i).isPending id = true ↔
        ∃ shape name, (state i).form id = .ok (.placeholder shape name)) ∧
      ¬((state i).isPending id = true ∧ (state i).isResolved id = true) ∧
      ∀ real, (state i).resolve id real ≠ .error .pendingWithForm) ∧
    (∀ i < n, ∀ id, (state i).Alters (state (i + 1)) id ↔
      (state i).isPending id = true ∧ (state (i + 1)).isPending id = false) ∧
    (∀ i < n, ∀ id, (state i).Alters (state (i + 1)) id →
      (∃ k < i, ∃ shape name, (state k).placeholder shape name = (id, state (k + 1))) ∧
      (∃ shape name form, (state i).form id = .ok (.placeholder shape name) ∧
        (state (i + 1)).form id = .ok form ∧ form.isPlaceholder = false) ∧
      (∀ j < n, (state j).Alters (state (j + 1)) id → j = i) ∧
      ∀ j, i < j → j ≤ n → ∀ real, real.index < (state j).size →
        ∃ idBad realBad, (state j).isError id = .ok idBad ∧ (state j).isError real = .ok realBad ∧
          (state j).resolve id real = .ok
            (if idBad || realBad then .ok .errorType else .error (.alreadyResolved id), state j)) ∧
    (∀ i < n,
      ((∃ id, (state i).Alters (state (i + 1)) id) →
        (state (i + 1)).pendingCount + 1 = (state i).pendingCount) ∧
      ((¬∃ id, (state i).Alters (state (i + 1)) id) →
        (state i).pendingCount ≤ (state (i + 1)).pendingCount)) ∧
    ∀ i ≤ n, ∀ (d : Definition) error t', d.run (state i) = .ok (.error error, t') →
      ∀ id, id.index < (state i).size → (state i).Untouched t' id := by
  have settles {i : Nat} (lt : i < n) {id : TypeId} :
      (state i).Alters (state (i + 1)) id ↔ (state i).Settlement (state (i + 1)) id :=
    (run.step i lt).alters_iff (run.reachable (Nat.le_of_lt lt))
  refine ⟨fun i le id => ?_, fun i lt id => ?_, fun i lt id alters => ?_, fun i lt => ?_, ?_⟩
  · have reach := run.reachable le
    refine ⟨reach.waiting.isPending_iff id, not_isPending_and_isResolved _ id, fun real h => ?_⟩
    obtain ⟨index, e⟩ := reach.fault_of_resolve h
    cases e
  · rw [settles lt, (run.step i lt).settlement_iff (run.reachable (Nat.le_of_lt lt))]
  · have s := (settles lt).1 alters
    refine ⟨run.created (Nat.le_of_lt lt) s.isPending.1, ?_, fun j hj other => ?_, ?_⟩
    · obtain ⟨shape, name, first⟩ := s.before
      obtain ⟨form, name', plain, last⟩ := s.after
      exact ⟨shape, name, form, form_eq_ok.2 ⟨_, first⟩, form_eq_ok.2 ⟨_, last⟩, plain⟩
    · exact run.settles_once hj lt ((settles hj).1 other) s
    · intro j later last real known
      exact resolve_of_isResolved (run.isResolved_later later last s.isPending.2.2) known
  · constructor
    · rintro ⟨id, alters⟩
      exact ((settles lt).1 alters).count
    · intro none
      obtain ⟨-, count⟩ | ⟨id, s⟩ :=
        (run.step i lt).keeps_or_settles (run.reachable (Nat.le_of_lt lt))
      · exact count
      · exact absurd ⟨id, s.alters⟩ none
  · intro i le d error t' refused id lt
    exact Definition.untouched refused lt

/-- A struct is declared, given its fields, and refused a second definition. -/
theorem placeholder_defined_once_struct :
    ∃ state : Nat → TypeTable, History 3 state ∧ (state 1).Alters (state 2) ⟨14⟩ ∧
      (∀ j < 3, (state j).Alters (state (j + 1)) ⟨14⟩ → j = 1) ∧
      (state 2).resolve ⟨14⟩ .bool = .ok (.error (.alreadyResolved ⟨14⟩), state 2) ∧
      ∃ t', (Definition.pointer ⟨14⟩ .bool).run (state 2) =
        .ok (.error (.alreadyResolved ⟨14⟩), t') ∧ (state 2).Untouched t' ⟨14⟩ := by
  let t₁ := ((initial .standard).placeholder .struct .empty).2
  let t₂ := ((t₁.push (.struct [.bool]) none).2).define ⟨14⟩ (.struct [.bool])
  let t₃ := (t₂.push (.pointer .bool) none).2
  let state : Nat → TypeTable
    | 0 => initial .standard
    | 1 => t₁
    | 2 => t₂
    | _ => t₃
  have refused : (Definition.pointer ⟨14⟩ .bool).run t₂ = .ok (.error (.alreadyResolved ⟨14⟩),
      t₃) := by
    decide +kernel
  have run : History 3 state := by
    refine ⟨⟨.standard, rfl⟩, fun i lt => ?_⟩
    rcases i with _ | _ | _ | i
    · exact ⟨.placeholder .struct .empty, rfl⟩
    · exact ⟨.resolveStruct ⟨14⟩ [⟨.empty, .bool⟩], by decide +kernel⟩
    · exact ⟨.resolvePointer ⟨14⟩ .bool, by decide +kernel⟩
    · omega
  obtain ⟨-, changes, alters, -, untouched⟩ := placeholder_defined_once run
  have defined : (state 1).Alters (state 2) ⟨14⟩ := (changes 1 (by decide) ⟨14⟩).2 (by decide)
  obtain ⟨-, -, once, later⟩ := alters 1 (by decide) ⟨14⟩ defined
  obtain ⟨idBad, realBad, eid, ereal, again⟩ := later 2 (by decide) (by decide) .bool (by decide)
  cases eid
  cases ereal
  exact ⟨state, run, defined, once, again, t₃, refused,
    untouched 2 (by decide) _ _ _ refused ⟨14⟩ (by decide)⟩

end Codegen.TypeTable
