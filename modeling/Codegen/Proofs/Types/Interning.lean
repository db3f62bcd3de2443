import Codegen.Proofs.Types.Runs

/-!
Interning over whole runs: a form keeps the handle that it was interned at, and a placeholder never
passes for an interned form, whatever it is defined as.
-/

namespace Codegen

/-- All components of a form, behind a pointer or not. -/
def TypeForm.components : TypeForm → List TypeId
  | .pointer target => [target]
  | .struct fields => fields
  | .array elem _ => [elem]
  | .function params result => result :: params
  | .named _ underlying => [underlying]
  | _ => []

theorem TypeForm.parts_subset (form : TypeForm) : form.parts ⊆ form.components := by
  cases form <;> simp [parts, components]

namespace TypeTable

open Relation

/-! ## Errors among components -/

variable {form : TypeForm} {id : TypeId} {t t' : TypeTable}

theorem components_primitive : ∀ form ∈ primitives, form.components = [] := by decide

theorem lt_size_of_find? {entry : TypeEntry} (h : t.find? id = some entry) : id.index < t.size := by
  exact (Array.getElem?_eq_some_iff.1 (find?_eq_some.1 h).1).1

theorem form_isOk (h : id.index < t.size) : ∃ form, t.form id = .ok form := by
  exact ⟨_, form_eq_ok.2 ⟨_, find?_eq_some.2 ⟨Array.getElem?_eq_getElem h, rfl⟩⟩⟩

theorem lt_size_of_form (h : t.form id = .ok form) : id.index < t.size := by
  obtain ⟨origin, found⟩ := form_eq_ok.1 h
  exact lt_size_of_find? found

theorem isError_isOk (h : id.index < t.size) : ∃ bad, t.isError id = .ok bad := by
  unfold isError
  split
  · exact ⟨true, rfl⟩
  · obtain ⟨form, known⟩ := form_isOk h
    exact ⟨form == .error, by rw [known]; rfl⟩

theorem lt_size_of_isError_false (h : t.isError id = .ok false) : id.index < t.size := by
  unfold isError at h
  split at h
  · simp at h
  · obtain ⟨form, known, -⟩ := bind_eq_ok.1 h
    exact lt_size_of_form known

theorem hasErrorPart_eq_anyM (h : form ≠ .error) :
    t.hasErrorPart form = form.components.anyM t.isError := by
  cases form with
  | error => exact absurd rfl h
  | function params result =>
    simp only [hasErrorPart, TypeForm.components, List.anyM_cons]
  | pointer part | array part | named _ part =>
    simp only [hasErrorPart, TypeForm.components, List.anyM_cons, List.anyM_nil]
    cases t.isError part with
    | error => rfl
    | ok b => cases b <;> rfl
  | struct fields => rfl
  | _ =>
    simp [hasErrorPart, TypeForm.components]
    rfl

theorem hasErrorPart_eq_false :
    t.hasErrorPart form = .ok false ↔
      form ≠ .error ∧ ∀ part ∈ form.components, t.isError part = .ok false := by
  by_cases h : form = .error
  · simp [h, hasErrorPart]
  · rw [hasErrorPart_eq_anyM h, anyM_eq_ok_false]
    exact ⟨fun all => ⟨h, all⟩, fun both => both.2⟩

/-- Once all components exist, one that is an error makes the whole form one. -/
theorem hasErrorPart_eq_true {part : TypeId} (known : ∀ c ∈ form.components, c.index < t.size)
    (mem : part ∈ form.components) (bad : t.isError part = .ok true) :
    t.hasErrorPart form = .ok true := by
  have ne : form ≠ .error := by
    rintro rfl
    simp [TypeForm.components] at mem
  rw [hasErrorPart_eq_anyM ne]
  exact anyM_eq_ok_true (fun c hc => isError_isOk (known c hc)) mem bad

/-! ## The handle of a form -/

/-- A form is interned at one handle, and the error sentinel is where it belongs. -/
structure Canonical (t : TypeTable) : Prop where
  unique : ∀ {a b : TypeId} {form : TypeForm},
    t.find? a = some ⟨form, .interned⟩ → t.find? b = some ⟨form, .interned⟩ → a = b
  sentinel : t.find? .error = some ⟨.error, .interned⟩

theorem Canonical.lookup? (h : t.Canonical) (found : t.find? id = some ⟨form, .interned⟩) :
    t.lookup? form = some id := by
  cases e : t.lookup? form with
  | none => exact absurd found (not_interned_of_lookup? e id)
  | some other => rw [h.unique (find?_of_lookup? e) found]

theorem Canonical.isError_of_form (h : t.Canonical) (known : t.form id = .ok form)
    (sound : form ≠ .error) : t.isError id = .ok false := by
  have ne : id ≠ .error := by
    rintro rfl
    exact sound (Except.ok.inj (known.symm.trans (form_eq_ok.2 ⟨_, h.sentinel⟩)))
  rw [isError, if_neg ne, known]
  exact congrArg Except.ok (beq_false_of_ne sound)

/-- Interned forms stay where they are. -/
theorem Change.interned (h : Change t t') (found : t.find? id = some ⟨form, .interned⟩) :
    t'.find? id = some ⟨form, .interned⟩ := by
  have old : ∀ (f : TypeForm) (name? : Option Name), id ≠ (t.push f name?).1 := by
    rintro f o rfl
    exact absurd (lt_size_of_find? found) (by simp)
  have keep : ∀ {p : TypeId} (f : TypeForm), t.isPending p = true →
      (t.define p f).find? id = some ⟨form, .interned⟩ := by
    intro p f pending
    obtain ⟨g, name, waiting⟩ := isPending_iff.1 pending
    have ne : id ≠ p := by
      rintro rfl
      rw [found] at waiting
      simp at waiting
    rw [find?_define_of_ne ne, found]
  cases h with
  | enter => rw [find?_push_of_ne (old _ _), found]
  | await => rw [placeholder, find?_push_of_ne (old _ _), found]
  | fail pending => exact keep _ pending
  | settle pending => exact keep _ pending

theorem interned_of_changes (h : ReflTransGen Change t t')
    (found : t.find? id = some ⟨form, .interned⟩) : t'.find? id = some ⟨form, .interned⟩ := by
  induction h with
  | refl => exact found
  | tail _ change ih => exact change.interned ih

theorem initial_canonical (target : Target) : (initial target).Canonical := by
  refine ⟨fun {a b form} ha hb => ?_, find?_initial.2 ⟨rfl, rfl⟩⟩
  have apart : primitives.Nodup := by decide
  have ha := (find?_initial.1 ha).1
  have lt : a.index < primitives.length := (List.getElem?_eq_some_iff.1 ha).1
  have same : a.index = b.index :=
    (List.getElem?_inj lt apart).1 (ha.trans (find?_initial.1 hb).1.symm)
  cases a
  cases b
  simp_all

/-- Only an entered form adds an interned entry, and it was looked for before. -/
theorem Change.interned_cases (h : Change t t') (found : t'.find? id = some ⟨form, .interned⟩) :
    t.find? id = some ⟨form, .interned⟩ ∨
      id = ⟨t.size⟩ ∧ t.hasErrorPart form = .ok false ∧ t.lookup? form = none := by
  cases h with
  | enter _ clean new =>
    obtain ⟨e, e'⟩ | found := find?_push_cases found
    · cases e'
      exact .inr ⟨e, clean, new⟩
    · exact .inl found
  | await =>
    obtain ⟨-, e⟩ | found := find?_push_cases found
    · cases e
    · exact .inl found
  | fail pending | settle pending =>
    obtain ⟨-, name, e⟩ | ⟨-, found⟩ := find?_define_cases pending found
    · cases e
    · exact .inl found

theorem Canonical.change (h : t.Canonical) (change : Change t t') : t'.Canonical := by
  refine ⟨fun {a b form} ha hb => ?_, change.interned h.sentinel⟩
  obtain ha | ⟨ea, -, fresh⟩ := change.interned_cases ha
  · obtain hb | ⟨-, -, fresh⟩ := change.interned_cases hb
    · exact h.unique ha hb
    · exact absurd ha (not_interned_of_lookup? fresh a)
  · obtain hb | ⟨eb, -⟩ := change.interned_cases hb
    · exact absurd hb (not_interned_of_lookup? fresh b)
    · rw [ea, eb]

theorem Reachable.canonical (h : t.Reachable) : t.Canonical :=
  h.induct initial_canonical fun _ _ => Canonical.change

/-- The fixed handles have the forms that they started with. -/
theorem Reachable.primitive (reach : t.Reachable) {i : Nat} (fixed : primitives[i]? = some form) :
    t.find? ⟨i⟩ = some ⟨form, .interned⟩ := by
  obtain ⟨target, run⟩ := reach
  exact interned_of_changes run.changes (find?_initial.2 ⟨fixed, rfl⟩)

/-- A form without errors in it is interned. -/
theorem exists_intern (plain : form.isPlaceholder = false)
    (clean : t.hasErrorPart form = .ok false) :
    ∃ id s, t.intern form = .ok (id, s) ∧ s.find? id = some ⟨form, .interned⟩ := by
  cases found : t.lookup? form with
  | some id =>
    refine ⟨id, t, ?_, find?_of_lookup? found⟩
    rw [intern, plain, clean, found]
    rfl
  | none =>
    refine ⟨_, _, ?_, find?_push t form none⟩
    rw [intern, plain, clean, found]
    rfl

theorem Change.size_le (h : Change t t') : t.size ≤ t'.size := by
  cases h <;> simp [placeholder]

theorem size_le_of_changes (h : ReflTransGen Change t t') : t.size ≤ t'.size := by
  induction h with
  | refl => exact Nat.le_refl _
  | tail _ change ih => exact Nat.le_trans ih change.size_le

/-- What interning answers is interned from then on, the error sentinel included. -/
theorem Canonical.interned_at (h : t.Canonical) (answer : t.intern form = .ok (id, t')) :
    t'.find? id = some ⟨if id = .error then .error else form, .interned⟩ := by
  obtain ⟨-, ⟨-, rfl, rfl⟩ | ⟨clean, found, rfl⟩ | ⟨clean, -, rfl, rfl⟩⟩ := intern_cases answer
  · exact h.sentinel
  · have at_ := find?_of_lookup? found
    split
    · rename_i e
      rw [e, h.sentinel] at at_
      rw [e, h.sentinel]
    · exact at_
  · have ne : (t.push form none).1 ≠ .error := by
      intro e
      exact absurd (lt_size_of_find? h.sentinel) (by simp [← e])
    rw [if_neg ne]
    exact find?_push ..

/-- A form is interned in a table that still has all of its components. -/
theorem components_lt_of_intern (answer : t.intern form = .ok (id, t')) (ne : id ≠ .error) :
    ∀ c ∈ form.components, c.index < t.size := by
  obtain ⟨-, ⟨-, e, -⟩ | ⟨clean, -⟩ | ⟨clean, -⟩⟩ := intern_cases answer
  · exact absurd e ne
  · exact fun c hc => lt_size_of_isError_false ((hasErrorPart_eq_false.1 clean).2 c hc)
  · exact fun c hc => lt_size_of_isError_false ((hasErrorPart_eq_false.1 clean).2 c hc)

/-- Interning again finds the handle, unless a component has become an error. -/
theorem Canonical.intern_again (h : t.Canonical) (plain : form.isPlaceholder = false)
    (ne : form ≠ .error) (known : ∀ c ∈ form.components, c.index < t.size)
    (found : t.find? id = some ⟨form, .interned⟩) :
    ((∃ c ∈ form.components, t.isError c = .ok true) → t.intern form = .ok (.error, t)) ∧
    (¬ (∃ c ∈ form.components, t.isError c = .ok true) → t.intern form = .ok (id, t)) := by
  constructor
  · rintro ⟨c, mem, bad⟩
    rw [intern, plain, hasErrorPart_eq_true known mem bad]
    rfl
  · intro none
    have clean : t.hasErrorPart form = .ok false := by
      refine hasErrorPart_eq_false.2 ⟨ne, fun c hc => ?_⟩
      obtain ⟨bad, hbad⟩ := isError_isOk (known c hc)
      cases bad with
      | false => exact hbad
      | true => exact absurd ⟨c, hc, hbad⟩ none
    rw [intern, plain, clean, h.lookup? found]
    rfl

/-- A form that has a handle other than the error sentinel keeps it over every run: the handle
denotes the form, and interning the form again answers the handle and adds nothing, except while a
component is an error. Two forms have two handles, and no handle of a form is a placeholder's. -/
theorem interning_stable {t t₁ : TypeTable} {form : TypeForm} {id : TypeId} (reach : t.Reachable)
    (answer : t.intern form = .ok (id, t₁)) :
    (∀ t₂, Run t₁ t₂ → t₂.isPlaceholder id = false) ∧
    (id ≠ .error → ∀ t₂, Run t₁ t₂ →
      t₂.form id = .ok form ∧
      ((∃ c ∈ form.components, t₂.isError c = .ok true) → t₂.intern form = .ok (.error, t₂)) ∧
      (¬ (∃ c ∈ form.components, t₂.isError c = .ok true) → t₂.intern form = .ok (id, t₂)) ∧
      ∀ form' id' t₃, t₂.intern form' = .ok (id', t₃) → id' ≠ .error → form' ≠ form →
        id' ≠ id) := by
  have reach₁ : t₁.Reachable := by
    obtain ⟨target, run⟩ := reach
    exact ⟨target, run.tail ⟨.intern form, by simp [Call.run, answer, bind, Except.bind]⟩⟩
  have start := reach.canonical.interned_at answer
  have plain := (intern_cases answer).1
  refine ⟨fun t₂ run => ?_, fun ne t₂ run => ?_⟩
  · have found := interned_of_changes run.changes start
    simp [isPlaceholder, isPending_eq, isResolved_eq, found, Origin.isPending, Origin.isResolved]
  · rw [if_neg ne] at start
    have canonical : t₂.Canonical := by
      obtain ⟨target, before⟩ := reach₁
      exact Reachable.canonical ⟨target, before.trans run⟩
    have found := interned_of_changes run.changes start
    have known : ∀ c ∈ form.components, c.index < t₂.size := by
      intro c hc
      have lt := components_lt_of_intern answer ne c hc
      have grown := size_le_of_changes (changes_of_intern answer)
      have later := size_le_of_changes run.changes
      omega
    have notError : form ≠ .error := by
      rintro rfl
      exact ne (canonical.unique found canonical.sentinel)
    obtain ⟨asError, again⟩ := canonical.intern_again plain notError known found
    refine ⟨form_eq_ok.2 ⟨.interned, found⟩, asError, again, ?_⟩
    intro form' id' t₃ answer' ne' differ same
    have found' := canonical.interned_at answer'
    rw [if_neg ne', same] at found'
    have kept := interned_of_changes (changes_of_intern answer') found
    rw [kept] at found'
    cases found'
    exact differ rfl

/-- A pointer to a placeholder keeps its handle when the placeholder turns out to be an error, but
is no longer found by its form. -/
theorem interning_stable_behind_failure :
    ∃ t t₁ t₂ : TypeTable, t.Reachable ∧ t.intern (.pointer ⟨14⟩) = .ok (⟨15⟩, t₁) ∧ Run t₁ t₂ ∧
      t₂.form ⟨15⟩ = .ok (.pointer ⟨14⟩) ∧ t₂.intern (.pointer ⟨14⟩) = .ok (.error, t₂) := by
  let t := ((initial .standard).placeholder .struct .empty).2
  let t₁ := (t.push (.pointer ⟨14⟩) none).2
  let t₂ := t₁.define ⟨14⟩ .error
  have reach : t.Reachable := ⟨.standard, .single ⟨.placeholder .struct .empty, rfl⟩⟩
  have answer : t.intern (.pointer ⟨14⟩) = .ok (⟨15⟩, t₁) := rfl
  have run : Run t₁ t₂ := .single ⟨.resolve ⟨14⟩ .error, rfl⟩
  obtain ⟨known, asError, -⟩ := (interning_stable reach answer).2 (by decide) t₂ run
  exact ⟨t, t₁, t₂, reach, answer, run, known, asError ⟨⟨14⟩, by decide, rfl⟩⟩

end TypeTable

end Codegen
