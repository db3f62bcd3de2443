import Codegen.Proofs.Types.Signatures

/-!
Pointers over whole runs. What a type points at, once it is known, never changes. Where no
placeholder was defined as an error, no component of a type is one, and where forms come in through
the constructors no pointer points at void.
-/

namespace Codegen

namespace TypeTable

open Relation

variable {t t' : TypeTable} {id part target : TypeId} {form : TypeForm}

/-! ## Forms that stay -/

/-- Only a placeholder that waits changes its form. -/
theorem Change.form_eq (grounded : t.Grounded) (h : Change t t') (known : t.form id = .ok form)
    (plain : form.isPlaceholder = false) : t'.form id = .ok form := by
  have added (new : TypeForm) (name? : Option Name) : (t.push new name?).2.form id = .ok form :=
    (form_congr (lt_size_of_form known) (find?_push_of_lt (lt_size_of_form known))).trans known
  have kept {p : TypeId} (new : TypeForm) (pending : t.isPending p = true) :
      (t.define p new).form id = .ok form := by
    obtain ⟨old, name, waiting⟩ := isPending_iff.1 pending
    refine form_define_of_ne new (fun e => ?_) known
    subst e
    obtain ⟨shape, rfl⟩ := grounded.waiting waiting
    cases known.symm.trans (form_eq_ok.2 ⟨_, waiting⟩)
    cases plain
  cases h with
  | enter => exact added _ _
  | await => exact added _ _
  | fail pending => exact kept _ pending
  | settle pending => exact kept _ pending

theorem Grounded.form_eq (grounded : t.Grounded) (changes : ReflTransGen Change t t')
    (known : t.form id = .ok form) (plain : form.isPlaceholder = false) :
    t'.Grounded ∧ t'.form id = .ok form := by
  induction changes with
  | refl => exact ⟨grounded, known⟩
  | tail _ change ih => exact ⟨ih.1.change change, change.form_eq ih.1 ih.2 plain⟩

theorem Reachable.form_eq (reach : t.Reachable) (run : Run t t') (known : t.form id = .ok form)
    (plain : form.isPlaceholder = false) : t'.form id = .ok form :=
  (reach.grounded.form_eq run.changes known plain).2

/-! ## What a type points at -/

theorem pointee?_eq_some : t.pointee? id = .ok (some target) ↔
    ∃ under, t.underlying id = .ok under ∧ t.form under = .ok (.pointer target) := by
  constructor
  · intro found
    obtain ⟨form, hform, found⟩ := bind_eq_ok.1 found
    obtain ⟨under, hunder, known⟩ := bind_eq_ok.1 hform
    cases form with
    | pointer other =>
      cases found
      exact ⟨under, hunder, known⟩
    | _ => cases found
  · rintro ⟨under, hunder, known⟩
    rw [pointee?, underlyingForm, hunder]
    change (t.form under >>= _) = _
    rw [known]
    rfl

theorem Reachable.pointee?_eq (reach : t.Reachable) (run : Run t t')
    (found : t.pointee? id = .ok (some target)) : t'.pointee? id = .ok (some target) := by
  obtain ⟨under, down, known⟩ := pointee?_eq_some.1 found
  have step (id : TypeId) (form : TypeForm) (known : t.form id = .ok form)
      (plain : form.isPlaceholder = false) : t'.form id = .ok form := reach.form_eq run known plain
  have down' := underlyingWithin_transfer step down known rfl
  have size := size_le_of_changes run.changes
  exact pointee?_eq_some.2 ⟨under,
    (t'.underlyingWithin_refines (Nat.succ_le_succ size) id).of_ok down', step _ _ known rfl⟩

theorem Reachable.isError_primitive (reach : t.Reachable) {i : Nat}
    (fixed : primitives[i]? = some form) (sound : form ≠ .error) : t.isError ⟨i⟩ = .ok false :=
  reach.canonical.isError_of_form (form_eq_ok.2 ⟨_, reach.primitive fixed⟩) sound

/-- A pointer to a type that is no error points at what the type is stored as. -/
theorem Reachable.pointee?_pointerType (reach : t.Reachable)
    (h : t.pointerType target = .ok (id, t')) (sound : t.isError target = .ok false) :
    t'.pointee? id = .ok (some target.stored) := by
  have parts : t.hasErrorPart (.pointer target.stored) = .ok false := by
    change t.isError target.stored = _
    unfold TypeId.stored
    split
    · exact reach.isError_primitive (i := 6) rfl (by decide)
    · exact sound
  obtain ⟨id', s, answer, found⟩ := exists_intern rfl parts
  rw [pointerType, sound] at h
  cases answer.symm.trans h
  have known := form_eq_ok.2 ⟨_, found⟩
  refine pointee?_eq_some.2 ⟨id, ?_, known⟩
  rw [underlying, underlyingWithin, known]
  rfl

/-! ## Forms of a kind -/

/-- All forms of a table are of some kind. -/
def All (P : TypeForm → Prop) (t : TypeTable) : Prop := ∀ id form, t.form id = .ok form → P form

namespace All

variable {P : TypeForm → Prop} {p : TypeId}

theorem initial (fixed : ∀ form ∈ primitives, P form) (target : Target) :
    All P (initial target) := by
  intro id form known
  obtain ⟨origin, found⟩ := form_eq_ok.1 known
  exact fixed _ (List.mem_of_getElem? (find?_initial.1 found).1)

theorem push (h : All P t) (made : P form) (name? : Option Name) :
    All P (t.push form name?).2 := by
  intro id form' known
  obtain ⟨o, found⟩ := form_eq_ok.1 known
  obtain ⟨-, e⟩ | found := find?_push_cases found
  · cases e
    exact made
  · exact h _ _ (form_eq_ok.2 ⟨_, found⟩)

theorem define (h : All P t) (made : P form) : All P (t.define p form) := by
  intro id form' known
  cases pending : t.isPending p with
  | false =>
    rw [define_of_not_pending _ pending] at known
    exact h _ _ known
  | true =>
    obtain ⟨o, found⟩ := form_eq_ok.1 known
    obtain ⟨-, name, e⟩ | ⟨-, found⟩ := find?_define_cases pending found
    · cases e
      exact made
    · exact h _ _ (form_eq_ok.2 ⟨_, found⟩)

theorem brings {Q : TypeForm → Prop} (h : All P t) (made : ∀ form, Q form → P form)
    (brings : t.Brings Q t') : All P t' := by
  cases brings with
  | nothing => exact h
  | form of => exact h.push (made _ of) _

theorem resolve (h : All P t) (failed : P .error) {real : TypeId}
    {answer : Except PlaceholderError Resolution} (run : t.resolve p real = .ok (answer, t')) :
    All P t' := by
  obtain ⟨-, rfl⟩ | ⟨rfl, -⟩ | ⟨-, form, settles, rfl⟩ := resolve_cases run
  · exact h.define failed
  · exact h
  · exact h.define (h _ _ settles.known)

/-- A call of a constructor brings in forms that constructors make, and nominal ones only with the
name that it was given. -/
theorem call {call : Call} (h : All P t) (typed : ∀ form, call ≠ .intern form)
    (made : ∀ form, form.isRegular →
      (∀ name part, form = .named name part → call = .namedType name part) → P form)
    (run : call.run t = .ok t') : All P t' := by
  have makes (form : TypeForm) (makes : call.Makes form) : P form := by
    obtain given | ⟨regular, named⟩ := makes
    · exact absurd given (typed form)
    · exact made form regular named
  obtain brings | ⟨shape, name, rfl⟩ | ⟨d, real, s, answer, -, -, brings, resolved⟩ :=
    call.cases run
  · exact h.brings makes brings
  · exact h.push (made _ rfl (by simp)) _
  · exact (h.brings makes brings).resolve (made _ rfl (by simp)) resolved

end All

/-! ## Errors -/

/-- No placeholder was defined as an error. -/
def ErrorFree (t : TypeTable) : Prop := ∀ id, t.form id = .ok .error → id = .error

instance (t : TypeTable) : Decidable t.ErrorFree :=
  decidable_of_iff (∀ k : Fin t.size, t.form ⟨k⟩ = .ok .error → (⟨k⟩ : TypeId) = .error)
    ⟨fun h id known => h ⟨id.index, lt_size_of_form known⟩ known, fun h k => h ⟨k⟩⟩

/-- What is free of errors was so before. -/
theorem ErrorFree.before (h : t'.ErrorFree) (reach : t.Reachable) (run : Run t t') : t.ErrorFree :=
  fun id known => h id (reach.form_eq run known rfl)

theorem ErrorFree.isError_eq (h : t.ErrorFree) (ne : id ≠ .error) (lt : id.index < t.size) :
    t.isError id = .ok false := by
  obtain ⟨form, known⟩ := form_isOk lt
  rw [isError, if_neg ne, known]
  refine congrArg Except.ok (beq_false_of_ne ?_)
  rintro rfl
  exact ne (h id known)

/-- The error sentinel is no component of a type. -/
theorem Reachable.component_ne_error (reach : t.Reachable) (known : t.form id = .ok form)
    (mem : part ∈ form.components) : part ≠ .error := by
  have all : All (fun form => .error ∉ form.components) t := by
    refine reach.induct (All.initial fun form fixed => ?_) fun t t' old change => ?_
    · rw [components_primitive form fixed]
      exact List.not_mem_nil
    · cases change with
      | enter _ clean =>
        refine old.push (fun mem => ?_) _
        cases (hasErrorPart_eq_false.1 clean).2 _ mem
      | await => exact old.push List.not_mem_nil _
      | fail => exact old.define List.not_mem_nil
      | settle _ _ real => exact old.define (old _ _ real)
  rintro rfl
  exact all _ _ known mem

theorem ErrorFree.isError_component (h : t.ErrorFree) (reach : t.Reachable)
    (known : t.form id = .ok form) (mem : part ∈ form.components) : t.isError part = .ok false :=
  h.isError_eq (reach.component_ne_error known mem) (reach.grounded.known known part mem)

theorem ErrorFree.isError_field (h : t.ErrorFree) (reach : t.Reachable) {fields : List TypeId}
    (found : t.structFields? id = .ok (some fields)) (mem : part ∈ fields) :
    t.isError part = .ok false := by
  obtain ⟨under, -, known⟩ := structFields?_eq_some.1 found
  exact h.isError_component reach known mem

theorem ErrorFree.isError_element (h : t.ErrorFree) (reach : t.Reachable)
    (found : t.arrayElement? id = .ok (some part)) : t.isError part = .ok false := by
  obtain ⟨form, hform, found⟩ := bind_eq_ok.1 found
  obtain ⟨under, -, known⟩ := bind_eq_ok.1 hform
  cases form with
  | array elem length =>
    cases found
    exact h.isError_component reach known (by simp [TypeForm.components])
  | _ => cases found

/-- Below the names of a type that is no error there is none. -/
theorem Reachable.underlying_ne_error (reach : t.Reachable) {n : Nat}
    {under : TypeId} (down : t.underlyingWithin n id = .ok under) (ne : id ≠ .error) :
    under ≠ .error := by
  induction n generalizing id with
  | zero => cases down
  | succ n ih =>
    obtain ⟨top, known, down⟩ := bind_eq_ok.1 down
    cases top with
    | named name part =>
      exact ih down (reach.component_ne_error known (by simp [TypeForm.components]))
    | _ =>
      cases down
      exact ne

theorem ErrorFree.isError_complexPart (h : t.ErrorFree) (reach : t.Reachable)
    (found : t.complexPart id = .ok part) (ne : id ≠ .error) : t.isError part = .ok false := by
  obtain ⟨form, hform, found⟩ := bind_eq_ok.1 found
  obtain ⟨under, down, known⟩ := bind_eq_ok.1 hform
  cases form with
  | complex bits =>
    change floatType (bits / 2) = _ at found
    unfold floatType at found
    split at found
    · obtain rfl := Except.ok.inj found
      exact reach.isError_primitive (i := 10) rfl (by decide)
    · split at found
      · obtain rfl := Except.ok.inj found
        exact reach.isError_primitive (i := 11) rfl (by decide)
      · cases found
  | error => exact absurd (h _ known) (reach.underlying_ne_error down ne)
  | _ => cases found

/-! ## Calls of constructors -/

/-- One call that returns, by way of a constructor: no form is interned as it is. -/
def Asks (t t' : TypeTable) : Prop :=
  ∃ call : Call, (∀ form, call ≠ .intern form) ∧ call.run t = .ok t'

theorem Asks.step (h : Asks t t') : Step t t' := ⟨h.choose, h.choose_spec.2⟩

theorem run_of_asks (h : ReflTransGen Asks t t') : Run t t' := by
  induction h with
  | refl => exact .refl
  | tail _ ask ih => exact ih.tail ask.step

/-- One call of a constructor that returns and brings in no name. -/
def Orders (t t' : TypeTable) : Prop :=
  ∃ call : Call, (∀ form, call ≠ .intern form) ∧ (∀ name part, call ≠ .namedType name part) ∧
    call.run t = .ok t'

@[grind →] theorem Orders.asks (h : Orders t t') : ReflTransGen Asks t t' := by
  obtain ⟨call, typed, -, run⟩ := h
  exact .single ⟨call, typed, run⟩

@[grind →] theorem orders_integerType {unsigned : Bool} {bits : Nat}
    (h : t.integerType unsigned bits = .ok (id, t')) : Orders t t' :=
  ⟨.integerType unsigned bits, nofun, nofun, by rw [Call.run, h]; rfl⟩

@[grind →] theorem orders_complexType {bits : Nat}
    (h : t.complexType bits = .ok (id, t')) : Orders t t' :=
  ⟨.complexType bits, nofun, nofun, by rw [Call.run, h]; rfl⟩

@[grind →] theorem orders_pointerType (h : t.pointerType target = .ok (id, t')) : Orders t t' :=
  ⟨.pointerType target, nofun, nofun, by rw [Call.run, h]; rfl⟩

theorem asks_pointerType (h : t.pointerType target = .ok (id, t')) : ReflTransGen Asks t t' :=
  (orders_pointerType h).asks

@[grind →] theorem orders_structType {fields : List Field}
    (h : t.structType fields = .ok (id, t')) : Orders t t' :=
  ⟨.structType fields, nofun, nofun, by rw [Call.run, h]; rfl⟩

@[grind →] theorem orders_arrayType {elem : TypeId} {length : Nat}
    (h : t.arrayType elem length = .ok (id, t')) : Orders t t' :=
  ⟨.arrayType elem length, nofun, nofun, by rw [Call.run, h]; rfl⟩

@[grind →] theorem orders_functionType {receiver : Option Field} {params results : List Field}
    {resultStruct : TypeId}
    (h : t.functionType receiver params results resultStruct = .ok (id, t')) : Orders t t' :=
  ⟨.functionType receiver params results resultStruct, nofun, nofun, by rw [Call.run, h]; rfl⟩

@[grind →] theorem asks_namedType {name : Name} {underlying : TypeId}
    (h : t.namedType name underlying = .ok (id, t')) : ReflTransGen Asks t t' :=
  .single ⟨.namedType name underlying, nofun, by rw [Call.run, h]; rfl⟩

@[grind →] theorem orders_circularPointerType
    (h : t.circularPointerType = .ok (id, t')) : Orders t t' :=
  ⟨.circularPointerType, nofun, nofun, by rw [Call.run, h]; rfl⟩

@[grind →] theorem orders_placeholder {shape : Shape} {name : Name}
    (h : t.placeholder shape name = (id, t')) : Orders t t' :=
  ⟨.placeholder shape name, nofun, nofun, by rw [Call.run, h]; rfl⟩

section

variable {answer : Except PlaceholderError Resolution}

@[grind →] theorem orders_resolve {placeholder real : TypeId}
    (h : t.resolve placeholder real = .ok (answer, t')) : Orders t t' :=
  ⟨.resolve placeholder real, nofun, nofun, by rw [Call.run, h]; rfl⟩

@[grind →] theorem orders_resolvePointer {placeholder : TypeId}
    (h : t.resolvePointer placeholder target = .ok (answer, t')) : Orders t t' :=
  ⟨.resolvePointer placeholder target, nofun, nofun, by rw [Call.run, h]; rfl⟩

@[grind →] theorem orders_resolveStruct {placeholder : TypeId} {fields : List Field}
    (h : t.resolveStruct placeholder fields = .ok (answer, t')) : Orders t t' :=
  ⟨.resolveStruct placeholder fields, nofun, nofun, by rw [Call.run, h]; rfl⟩

end

/-- No pointer points at void. -/
def NoVoidPointer (t : TypeTable) : Prop := ∀ id, t.form id ≠ .ok (.pointer .void)

/-- All forms are ones that constructors make. -/
def Regular (t : TypeTable) : Prop := ∀ id form, t.form id = .ok form → form.isRegular

/-- Tables that calls of constructors lead to. -/
def Asked (t : TypeTable) : Prop := ∃ target, ReflTransGen Asks (initial target) t

namespace Asked

theorem run (h : t.Asked) (asks : ReflTransGen Asks t t') : t'.Asked := by
  obtain ⟨target, before⟩ := h
  exact ⟨target, before.trans asks⟩

theorem reachable (h : t.Asked) : t.Reachable := by
  obtain ⟨target, asks⟩ := h
  exact ⟨target, run_of_asks asks⟩

theorem regular (h : t.Asked) : t.Regular := by
  obtain ⟨target, asks⟩ := h
  induction asks with
  | refl => exact All.initial (by decide) target
  | tail _ ask ih =>
    obtain ⟨call, typed, run⟩ := ask
    exact All.call ih typed (fun _ regular _ => regular) run

theorem noVoidPointer (h : t.Asked) : t.NoVoidPointer := fun _ known => by
  simpa [TypeForm.isRegular] using h.regular _ _ known

/-- What a pointer points at is stored as itself. -/
theorem stored_pointee (h : t.Asked) (found : t.pointee? id = .ok (some target)) :
    target.stored = target := by
  obtain ⟨under, -, known⟩ := pointee?_eq_some.1 found
  refine if_neg fun e => ?_
  exact h.noVoidPointer under (e ▸ known)

/-- A type that is no error stays so, unless some type turns out to be one. -/
theorem isError_eq (h : t.Asked) (asks : ReflTransGen Asks t t')
    (sound : t.ErrorFree → t.isError id = .ok false) (free : t'.ErrorFree) :
    t'.isError id = .ok false := by
  have run := run_of_asks asks
  have known := sound (free.before h.reachable run)
  refine free.isError_eq (fun e => ?_)
    (Nat.lt_of_lt_of_le (lt_size_of_isError_false known) (size_le_of_changes run.changes))
  rw [e] at known
  cases known

end Asked

end TypeTable

end Codegen
