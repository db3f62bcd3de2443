import Codegen.Proofs.Types.Plain

/-!
Every type has a text. A descent from the top of a type goes by handles: below the top a placeholder
goes by its name, and what was interned is over handles that were there before it, so that the
descent ends however the placeholders were defined.
-/

namespace Codegen

/-- The names in a form. -/
def TypeForm.names : TypeForm → List Name
  | .named name _ | .placeholder _ name => [name]
  | _ => []

/-- The names in an entry: those of its form, and that of a placeholder. -/
def TypeEntry.names (entry : TypeEntry) : List Name := entry.form.names ++ entry.origin.name?.toList

/-- A name that the table gave out for a string. -/
def NameTable.Gave (names : NameTable) (name : Name) : Prop := ∃ s, names.find? s = some name

theorem NameTable.Gave.exists_lookup {names : NameTable} {name : Name} (h : names.Gave name) :
    ∃ text, names.lookup name = .ok text := by
  obtain ⟨s, found⟩ := h
  exact ⟨s, by rw [lookup, find?_eq_some_iff.1 found]⟩

namespace TypeTable

/-- All names in a type table were given out by a table of names. -/
def NamedBy (t : TypeTable) (names : NameTable) : Prop :=
  ∀ ⦃id entry⦄, t.find? id = some entry → ∀ name ∈ entry.names, names.Gave name

/-- A type has a text, which any number of steps down from `n` on gives. -/
def Renders (t : TypeTable) (names : NameTable) (n : Nat) (top : Bool) (id : TypeId) : Prop :=
  ∃ text, ∀ fuel, n ≤ fuel → t.displayWithin names fuel top id = .ok text

variable {t : TypeTable} {names : NameTable} {n m : Nat} {top : Bool} {id : TypeId}
  {form : TypeForm} {origin : Origin}

theorem Renders.mono (h : t.Renders names n top id) (le : n ≤ m) : t.Renders names m top id :=
  h.imp fun _ all fuel enough => all fuel (Nat.le_trans le enough)

theorem exists_texts {cs : List TypeId} (each : ∀ c ∈ cs, t.Renders names n false c) :
    ∃ texts, ∀ fuel, n ≤ fuel → cs.mapM (t.displayWithin names fuel false) = .ok texts := by
  induction cs with
  | nil => exact ⟨[], fun _ _ => rfl⟩
  | cons c rest ih =>
    obtain ⟨text, first⟩ := each c (by simp)
    obtain ⟨texts, others⟩ := ih fun c mem => each c (by simp [mem])
    refine ⟨text :: texts, fun fuel enough => ?_⟩
    rw [List.mapM_cons]
    exact bind_eq_ok.2 ⟨text, first fuel enough, bind_eq_ok.2 ⟨texts, others fuel enough, rfl⟩⟩

/-- A type that is shown by its form has a text as its components do. -/
theorem renders_of_form (found : t.find? id = some ⟨form, origin⟩)
    (shown : top = true ∨ origin = .interned) (named : ∀ name ∈ form.names, names.Gave name)
    (each : ∀ c ∈ form.components, t.Renders names n false c) : t.Renders names (n + 1) top id := by
  have known : t.form id = .ok form := form_eq_ok.2 ⟨origin, found⟩
  have nameless : (if top then none else t.placeholderName? id) = none := by
    rcases shown with rfl | rfl
    · rfl
    · simp [placeholderName?_eq, found, Origin.name?]
  -- one step down, to the components
  suffices ∃ text, ∀ fuel, n ≤ fuel → t.displayWithin names (fuel + 1) top id = .ok text by
    obtain ⟨text, all⟩ := this
    refine ⟨text, fun fuel enough => ?_⟩
    obtain ⟨fuel, rfl⟩ : ∃ k, fuel = k + 1 := ⟨fuel - 1, by omega⟩
    exact all fuel (by omega)
  simp only [displayWithin, nameless, known]
  cases form with
  | pointer target =>
    obtain ⟨text, inner⟩ := each target (by simp [TypeForm.components])
    exact ⟨_, fun fuel enough => bind_eq_ok.2 ⟨_, rfl, bind_eq_ok.2 ⟨text, inner fuel enough, rfl⟩⟩⟩
  | struct fields =>
    obtain ⟨texts, inner⟩ := exists_texts each
    exact ⟨_, fun fuel enough =>
      bind_eq_ok.2 ⟨_, rfl, bind_eq_ok.2 ⟨texts, inner fuel enough, rfl⟩⟩⟩
  | array elem length =>
    obtain ⟨text, inner⟩ := each elem (by simp [TypeForm.components])
    exact ⟨_, fun fuel enough => bind_eq_ok.2 ⟨_, rfl, bind_eq_ok.2 ⟨text, inner fuel enough, rfl⟩⟩⟩
  | function params result =>
    have inner : ∀ c ∈ params, t.Renders names n false c := fun c mem =>
      each c (by simp [TypeForm.components, mem])
    obtain ⟨texts, inner⟩ := exists_texts inner
    obtain ⟨text, last⟩ := each result (by simp [TypeForm.components])
    exact ⟨_, fun fuel enough => bind_eq_ok.2 ⟨_, rfl, bind_eq_ok.2 ⟨texts, inner fuel enough,
      bind_eq_ok.2 ⟨text, last fuel enough, rfl⟩⟩⟩⟩
  | named name under =>
    obtain ⟨text, looked⟩ := (named name (by simp [TypeForm.names])).exists_lookup
    exact ⟨text, fun _ _ => looked⟩
  | placeholder shape name =>
    obtain ⟨text, looked⟩ := (named name (by simp [TypeForm.names])).exists_lookup
    exact ⟨_, fun _ _ => bind_eq_ok.2 ⟨_, rfl, bind_eq_ok.2 ⟨text, looked, rfl⟩⟩⟩
  | _ => exact ⟨_, fun _ _ => rfl⟩

section

variable (reach : t.Reachable) (named : t.NamedBy names)

include reach named

/-- Below the top, the number of a handle bounds the way down from it. -/
theorem Reachable.renders_below (i : Nat) (lt : i < t.size) :
    t.Renders names (i + 1) false ⟨i⟩ := by
  induction i using Nat.strong_induction_on with
  | _ i ih =>
    obtain ⟨form, known⟩ : ∃ form, t.form ⟨i⟩ = .ok form := form_isOk lt
    obtain ⟨origin, found⟩ := form_eq_ok.1 known
    have ours := named found
    cases name : origin.name? with
    | some name' =>
      -- a placeholder goes by its name
      obtain ⟨text, looked⟩ := (ours name' (by simp [TypeEntry.names, name])).exists_lookup
      refine ⟨"%" ++ text, fun fuel enough => ?_⟩
      obtain ⟨fuel, rfl⟩ : ∃ k, fuel = k + 1 := ⟨fuel - 1, by omega⟩
      simp only [displayWithin, Bool.false_eq_true, if_false, placeholderName?_eq, found,
        Option.bind_some, name]
      exact bind_eq_ok.2 ⟨text, looked, rfl⟩
    | none =>
      have interned : origin = .interned := by cases origin <;> simp_all [Origin.name?]
      subst interned
      refine renders_of_form found (.inr rfl) (fun n mem => ours n (by simp [TypeEntry.names, mem]))
        ?_
      intro c mem
      have before : c.index < i := reach.components_lt found c mem
      exact (ih c.index before (by omega)).mono before

/-- Every type has a text, whatever number of steps down is allowed from the size of the table
on. -/
theorem Reachable.renders (lt : id.index < t.size) : t.Renders names (t.size + 1) true id := by
  obtain ⟨form, known⟩ := form_isOk lt
  obtain ⟨origin, found⟩ := form_eq_ok.1 known
  refine renders_of_form found (.inl rfl)
    (fun n mem => named found n (by simp [TypeEntry.names, mem])) ?_
  intro c mem
  have there : c.index < t.size := reach.grounded.known known c mem
  exact (reach.renders_below named c.index there).mono there

end

/-- Every type of a table that calls can lead to has a text, if the names in the table are names:
the descent ends, and to allow it more steps down makes no difference. -/
theorem display_ends (reach : t.Reachable) (named : t.NamedBy names) (lt : id.index < t.size) :
    ∃ text, t.display names id = .ok text ∧
      ∀ fuel, t.size + 2 ≤ fuel → t.displayWithin names fuel true id = .ok text := by
  obtain ⟨text, all⟩ := reach.renders named lt
  exact ⟨text, all _ (by omega), fun fuel enough => all fuel (by omega)⟩

theorem run_of_foldlM {calls : List Call} {t' : TypeTable}
    (run : calls.foldlM Call.run t = .ok t') : Run t t' := by
  induction calls generalizing t with
  | nil =>
    cases run
    exact .refl
  | cons call rest ih =>
    rw [List.foldlM_cons] at run
    obtain ⟨t₁, first, run⟩ := bind_eq_ok.1 run
    exact .head ⟨call, first⟩ (ih run)

/-- Two structs `a` and `b`. The first holds the second and functions between pointers to both of
them; the second, which is defined first, points at the first and holds pointers to itself. -/
def mutualCalls : List Call :=
  [.placeholder .struct ⟨1⟩, .placeholder .struct ⟨2⟩, .pointerType ⟨14⟩, .pointerType ⟨15⟩,
    .functionType none [⟨.empty, ⟨16⟩⟩] [⟨.empty, ⟨17⟩⟩] .void, .arrayType ⟨17⟩ 3,
    .resolveStruct ⟨15⟩ [⟨.empty, ⟨16⟩⟩, ⟨.empty, ⟨19⟩⟩],
    .resolveStruct ⟨14⟩ [⟨.empty, ⟨15⟩⟩, ⟨.empty, ⟨18⟩⟩]]

/-- The table that these calls lead to. -/
def mutualTable : TypeTable :=
  ((mutualCalls.foldlM Call.run (initial .standard)).toOption).getD (initial .standard)

/-- The names of the two structs. -/
def mutualNames : NameTable := ((NameTable.initial.intern "a").2.intern "b").2

/-- Both structs have a text, in which they go by their names. -/
theorem display_ends_mutual : mutualTable.Reachable ∧ mutualTable.NamedBy mutualNames ∧
    (∀ fuel, mutualTable.size + 2 ≤ fuel → mutualTable.displayWithin mutualNames fuel true ⟨14⟩ =
      .ok "\x7b%b, fn(*%a) -> *%b\x7d") ∧
    ∀ fuel, mutualTable.size + 2 ≤ fuel → mutualTable.displayWithin mutualNames fuel true ⟨15⟩ =
      .ok "\x7b*%a, [3 x *%b]\x7d" := by
  have run : mutualCalls.foldlM Call.run (initial .standard) = .ok mutualTable := by decide +kernel
  have reach : mutualTable.Reachable := ⟨.standard, run_of_foldlM run⟩
  have named : mutualTable.NamedBy mutualNames := by
    intro id entry found name mem
    have all : ∀ i < mutualTable.size, ∀ e ∈ mutualTable.find? ⟨i⟩, ∀ name ∈ e.names,
        name = ⟨1⟩ ∨ name = ⟨2⟩ := by decide +kernel
    rcases all id.index (lt_size_of_find? found) entry found name mem with rfl | rfl
    · exact ⟨"a", by decide +kernel⟩
    · exact ⟨"b", by decide +kernel⟩
  obtain ⟨first, shown, more⟩ := display_ends reach named (by decide : (⟨14⟩ : TypeId).index < _)
  obtain ⟨second, shown', more'⟩ := display_ends reach named (by decide : (⟨15⟩ : TypeId).index < _)
  have e : mutualTable.display mutualNames ⟨14⟩ =
    .ok "\x7b%b, fn(*%a) -> *%b\x7d" := by decide +kernel
  have e' : mutualTable.display mutualNames ⟨15⟩ = .ok "\x7b*%a, [3 x *%b]\x7d" := by decide +kernel
  cases shown.symm.trans e
  cases shown'.symm.trans e'
  exact ⟨reach, named, more, more'⟩

end TypeTable

end Codegen
