import Codegen.Proofs.Types.Stability
import Codegen.Types.Display
import Codegen.Types.Flags
import Mathlib.Data.List.Forall2

/-!
Types without handles. A handle that is interned, with everything below it, denotes a tree of forms.
It denotes that tree in every later table, no other handle does, and whatever can be asked about
the handle depends on the tree and the target alone.
-/

namespace Codegen

/-- A type by what it is made of, all the way down. -/
inductive PlainType where
  | void
  | bool
  | int (bits : Nat) (signed : Bool)
  | float (bits : Nat)
  | complex (bits : Nat)
  | pointer (target : PlainType)
  | struct (fields : List PlainType)
  | array (elem : PlainType) (length : Nat)
  | function (params : List PlainType) (result : PlainType)
  | named (name : Name) (underlying : PlainType)
  | error
  deriving Repr

namespace PlainType

def isError : PlainType → Bool
  | .error => true
  | _ => false

/-- What is below nominal types. -/
def bare : PlainType → PlainType
  | .named _ under => under.bare
  | p => p

mutual

/-- Bytes and alignment on a target, where they fit a word. -/
def layout? (target : Target) : PlainType → Option Layout
  | .void => some ⟨0, 1⟩
  | .bool | .error => some ⟨1, 1⟩
  | .int bits _ => some (target.integer bits)
  | .float bits => some ⟨bits / 8, bits / 8⟩
  | .complex bits => some ⟨bits / 8, bits / 8 / 2⟩
  | .pointer _ | .function .. => some target.pointer
  | .named _ under => under.layout? target
  | .array elem length => do
    let l ← elem.layout? target
    if l.size * length < Word.limit then some ⟨l.size * length, l.align⟩ else none
  | .struct fields => place? target fields 0 1

/-- Fields one after the other, each aligned, from an offset and an alignment. -/
def place? (target : Target) : List PlainType → Nat → Nat → Option Layout
  | [], offset, align => do return ⟨← (Word.roundUp offset align).toOption, align⟩
  | field :: rest, offset, align => do
    let l ← field.layout? target
    let start ← (Word.roundUp offset l.align).toOption
    place? target rest (← (Word.add start l.size).toOption) (max align l.align)

end

/-- A form is the outermost one of a type, over handles that `R` relates to its components. -/
inductive HasForm (R : TypeId → PlainType → Prop) : PlainType → TypeForm → Prop
  | void : HasForm R .void .void
  | bool : HasForm R .bool .bool
  | int {bits : Nat} {signed : Bool} : HasForm R (.int bits signed) (.int bits signed)
  | float {bits : Nat} : HasForm R (.float bits) (.float bits)
  | complex {bits : Nat} : HasForm R (.complex bits) (.complex bits)
  | pointer {p : PlainType} {c : TypeId} (target : R c p) : HasForm R (.pointer p) (.pointer c)
  | struct {ps : List PlainType} {cs : List TypeId} (fields : List.Forall₂ R cs ps) :
      HasForm R (.struct ps) (.struct cs)
  | array {p : PlainType} {c : TypeId} {length : Nat} (elem : R c p) :
      HasForm R (.array p length) (.array c length)
  | function {ps : List PlainType} {cs : List TypeId} {p : PlainType} {c : TypeId}
      (params : List.Forall₂ R cs ps) (result : R c p) : HasForm R (.function ps p) (.function cs c)
  | named {p : PlainType} {c : TypeId} {name : Name} (under : R c p) :
      HasForm R (.named name p) (.named name c)
  | error : HasForm R .error .error

section

variable {R S : TypeId → PlainType → Prop} {p q : PlainType} {form form' : TypeForm}

theorem HasForm.mono (h : HasForm R p form) (sub : ∀ c ∈ form.components, ∀ q, R c q → S c q) :
    HasForm S p form := by
  have all {cs : List TypeId} {ps : List PlainType} (inside : cs ⊆ form.components)
      (fields : List.Forall₂ R cs ps) : List.Forall₂ S cs ps := by
    rw [List.forall₂_iff_get] at fields ⊢
    exact ⟨fields.1, fun i h h' => sub _ (inside (List.get_mem _ _)) _ (fields.2 i h h')⟩
  cases h with
  | pointer target => exact .pointer (sub _ (by simp [TypeForm.components]) _ target)
  | struct fields => exact .struct (all (by simp [TypeForm.components]) fields)
  | array elem => exact .array (sub _ (by simp [TypeForm.components]) _ elem)
  | function params result =>
    exact .function (all (by simp [TypeForm.components]) params)
      (sub _ (by simp [TypeForm.components]) _ result)
  | named under => exact .named (sub _ (by simp [TypeForm.components]) _ under)
  | void => exact .void
  | bool => exact .bool
  | int => exact .int
  | float => exact .float
  | complex => exact .complex
  | error => exact .error

theorem HasForm.form_unique (unique : Relator.LeftUnique R) (h : HasForm R p form)
    (h' : HasForm R p form') : form = form' := by
  cases h with
  | pointer target => cases h' with | pointer target' => rw [unique target target']
  | struct fields =>
    cases h' with | struct fields' => rw [List.left_unique_forall₂' unique fields fields']
  | array elem => cases h' with | array elem' => rw [unique elem elem']
  | function params result =>
    cases h' with
    | function params' result' =>
      rw [List.left_unique_forall₂' unique params params', unique result result']
  | named under => cases h' with | named under' => rw [unique under under']
  | _ => cases h'; rfl

theorem HasForm.type_unique (unique : Relator.RightUnique R) (h : HasForm R p form)
    (h' : HasForm R q form) : p = q := by
  cases h with
  | pointer target => cases h' with | pointer target' => rw [unique target target']
  | struct fields =>
    cases h' with | struct fields' => rw [List.right_unique_forall₂' unique fields fields']
  | array elem => cases h' with | array elem' => rw [unique elem elem']
  | function params result =>
    cases h' with
    | function params' result' =>
      rw [List.right_unique_forall₂' unique params params', unique result result']
  | named under => cases h' with | named under' => rw [unique under under']
  | _ => cases h'; rfl

end

end PlainType

open PlainType (HasForm)

namespace TypeTable

open Relation

/-! ## What a handle denotes -/

/-- A handle denotes a type, as far as a number of steps down show. -/
def DenotesWithin (t : TypeTable) : Nat → TypeId → PlainType → Prop
  | 0, _, _ => False
  | n + 1, id, p => ∃ form, t.find? id = some ⟨form, .interned⟩ ∧ HasForm (t.DenotesWithin n) p form

/-- A handle denotes a type: it and all that is below it are interned. -/
def Denotes (t : TypeTable) (id : TypeId) (p : PlainType) : Prop := ∃ n, t.DenotesWithin n id p

section

variable {t t' : TypeTable} {id id' : TypeId} {p q : PlainType} {n m : Nat} {cs : List TypeId}
  {form : TypeForm} {ps : List PlainType}

/-- More steps and later tables show the same. -/
theorem DenotesWithin.mono (h : t.DenotesWithin n id p) (le : n ≤ m)
    (keep : ∀ {id form}, t.find? id = some ⟨form, .interned⟩ →
      t'.find? id = some ⟨form, .interned⟩) :
    t'.DenotesWithin m id p := by
  induction n generalizing m id p with
  | zero => exact h.elim
  | succ n ih =>
    obtain ⟨m, rfl⟩ : ∃ k, m = k + 1 := ⟨m - 1, by omega⟩
    obtain ⟨form, found, fits⟩ := h
    exact ⟨form, keep found, fits.mono fun c _ q below => ih below (Nat.le_of_succ_le_succ le)⟩

theorem DenotesWithin.le (h : t.DenotesWithin n id p) (le : n ≤ m) : t.DenotesWithin m id p :=
  h.mono le fun found => found

theorem Denotes.changes (h : t.Denotes id p) (changes : ReflTransGen Change t t') :
    t'.Denotes id p :=
  ⟨h.choose, h.choose_spec.mono (Nat.le_refl _) (interned_of_changes changes)⟩

theorem Denotes.run (h : t.Denotes id p) (run : Run t t') : t'.Denotes id p := h.changes run.changes

theorem DenotesWithin.type_unique (h : t.DenotesWithin n id p) (h' : t.DenotesWithin n id q) :
    p = q := by
  induction n generalizing id p q with
  | zero => exact h.elim
  | succ n ih =>
    obtain ⟨form, found, fits⟩ := h
    obtain ⟨form', found', fits'⟩ := h'
    cases found.symm.trans found'
    have unique : Relator.RightUnique (t.DenotesWithin n) := fun _ _ _ => ih
    exact fits.type_unique unique fits'

theorem Canonical.denotesWithin_unique (canonical : t.Canonical) (h : t.DenotesWithin n id p)
    (h' : t.DenotesWithin n id' p) : id = id' := by
  induction n generalizing id id' p with
  | zero => exact h.elim
  | succ n ih =>
    obtain ⟨form, found, fits⟩ := h
    obtain ⟨form', found', fits'⟩ := h'
    have unique : Relator.LeftUnique (t.DenotesWithin n) := fun _ _ _ => ih
    cases fits.form_unique unique fits'
    exact canonical.unique found found'

/-- In one table, handles are the same exactly if they denote the same type. -/
theorem Canonical.eq_iff_of_denotes (canonical : t.Canonical) (h : t.Denotes id p)
    (h' : t.Denotes id' q) : id = id' ↔ p = q := by
  obtain ⟨n, h⟩ := h
  obtain ⟨m, h'⟩ := h'
  have long := h.le (Nat.le_max_left n m)
  have long' := h'.le (Nat.le_max_right n m)
  constructor
  · rintro rfl
    exact long.type_unique long'
  · rintro rfl
    exact canonical.denotesWithin_unique long long'

/-! ## Components come first -/

/-- The components of an interned form were there before it. -/
theorem Reachable.components_lt (reach : t.Reachable)
    (found : t.find? id = some ⟨form, .interned⟩) : ∀ c ∈ form.components, c.index < id.index := by
  revert id form
  refine reach.induct (P := fun t => ∀ {id : TypeId} {form : TypeForm},
    t.find? id = some ⟨form, .interned⟩ → ∀ c ∈ form.components, c.index < id.index) ?_ ?_
  · intro target id form found c hc
    rw [components_primitive form (List.mem_of_getElem? (find?_initial.1 found).1)] at hc
    cases hc
  · intro t t' old change id form found
    obtain found | ⟨rfl, clean, -⟩ := change.interned_cases found
    · exact old found
    · exact fun c hc => lt_size_of_isError_false ((hasErrorPart_eq_false.1 clean).2 c hc)

/-- So no descent from a handle is longer than the table. -/
theorem Denotes.within (h : t.Denotes id p) (reach : t.Reachable) :
    t.DenotesWithin t.size id p := by
  obtain ⟨n, h⟩ := h
  have short : t.DenotesWithin (id.index + 1) id p := by
    induction n generalizing id p with
    | zero => exact h.elim
    | succ n ih =>
      obtain ⟨form, found, fits⟩ := h
      exact ⟨form, found, fits.mono fun c hc q below =>
        (ih below).le (reach.components_lt found c hc)⟩
  have ⟨form, found, _⟩ := short
  exact short.le (lt_size_of_find? found)

theorem Denotes.hasForm (h : t.Denotes id p) :
    ∃ form, t.find? id = some ⟨form, .interned⟩ ∧ HasForm t.Denotes p form := by
  obtain ⟨n, h⟩ := h
  cases n with
  | zero => exact h.elim
  | succ n =>
    obtain ⟨form, found, fits⟩ := h
    exact ⟨form, found, fits.mono fun c _ q below => ⟨n, below⟩⟩

theorem exists_within_of_forall₂ (h : List.Forall₂ t.Denotes cs ps) :
    ∃ n, List.Forall₂ (t.DenotesWithin n) cs ps := by
  induction h with
  | nil => exact ⟨0, .nil⟩
  | cons first _ ih =>
    obtain ⟨n, first⟩ := first
    obtain ⟨m, rest⟩ := ih
    exact ⟨max n m, .cons (first.le (Nat.le_max_left n m))
      (rest.imp fun _ _ below => below.le (Nat.le_max_right n m))⟩

/-- An interned form over handles that denote its components. -/
theorem denotes_of_hasForm (found : t.find? id = some ⟨form, .interned⟩)
    (fits : HasForm t.Denotes p form) : t.Denotes id p := by
  have at_ {n : Nat} (fits : HasForm (t.DenotesWithin n) p form) : t.Denotes id p :=
    ⟨n + 1, form, found, fits⟩
  cases fits with
  | pointer target => exact at_ (.pointer target.choose_spec)
  | struct fields => exact at_ (.struct (exists_within_of_forall₂ fields).choose_spec)
  | array elem => exact at_ (.array elem.choose_spec)
  | function params result =>
    obtain ⟨n, params⟩ := exists_within_of_forall₂ params
    obtain ⟨m, result⟩ := result
    exact at_ (.function (params.imp fun _ _ below => below.le (Nat.le_max_left n m))
      (result.le (Nat.le_max_right n m)))
  | named under => exact at_ (.named under.choose_spec)
  | void => exact at_ (n := 0) .void
  | bool => exact at_ (n := 0) .bool
  | int => exact at_ (n := 0) .int
  | float => exact at_ (n := 0) .float
  | complex => exact at_ (n := 0) .complex
  | error => exact at_ (n := 0) .error

theorem Denotes.isError (h : t.Denotes id p) (canonical : t.Canonical) :
    t.isError id = .ok p.isError := by
  obtain ⟨form, found, fits⟩ := h.hasForm
  have same : (form == .error) = p.isError := by cases fits <;> rfl
  unfold TypeTable.isError
  split
  · rename_i e
    subst e
    cases found.symm.trans canonical.sentinel
    rw [← same]
    rfl
  · rw [form_eq_ok.2 ⟨_, found⟩, ← same]
    rfl

/-! ## Layouts -/

theorem toOption_placeFields {layout : TypeId → Except Fault (Option Layout)} {target : Target}
    (h : List.Forall₂ (fun c p => (layout c).toOption = (p.layout? target).map some) cs ps)
    (offset align : Nat) :
    (placeFields layout cs offset align).toOption =
      (PlainType.place? target ps offset align).map some := by
  induction h generalizing offset align with
  | nil =>
    rw [placeFields, PlainType.place?, toOption_bind]
    cases (Word.roundUp offset align).toOption <;> rfl
  | @cons c p _ _ first _ ih =>
    rw [placeFields, PlainType.place?, toOption_bind, first]
    cases p.layout? target with
    | none => rfl
    | some l =>
      change (Word.roundUp offset l.align >>= fun start => Word.add start l.size >>= fun stop =>
        placeFields layout _ stop (max align l.align)).toOption = _
      rw [toOption_bind]
      change _ = Option.map some ((Word.roundUp offset l.align).toOption.bind _)
      cases (Word.roundUp offset l.align).toOption with
      | none => rfl
      | some start =>
        change (Word.add start l.size >>= _).toOption = Option.map some
          ((Word.add start l.size).toOption.bind _)
        rw [toOption_bind]
        cases (Word.add start l.size).toOption with
        | none => rfl
        | some stop => exact ih stop (max align l.align)

theorem DenotesWithin.layout (h : t.DenotesWithin n id p) (le : n ≤ m) :
    (t.layoutWithin m id).toOption = (p.layout? t.target).map some := by
  induction n generalizing m id p with
  | zero => exact h.elim
  | succ n ih =>
    obtain ⟨m, rfl⟩ : ∃ k, m = k + 1 := ⟨m - 1, by omega⟩
    have deeper {c : TypeId} {q : PlainType} (below : t.DenotesWithin n c q) :
        (t.layoutWithin m c).toOption = (q.layout? t.target).map some :=
      ih below (Nat.le_of_succ_le_succ le)
    obtain ⟨form, found, fits⟩ := h
    rw [layoutWithin, form_eq_ok.2 ⟨_, found⟩]
    cases fits with
    | struct fields =>
      rw [PlainType.layout?]
      exact toOption_placeFields (fields.imp fun _ _ => deeper) 0 1
    | @array q c length elem =>
      change (t.layoutWithin m c >>= _).toOption = _
      rw [toOption_bind, deeper elem, PlainType.layout?]
      cases q.layout? t.target with
      | none => rfl
      | some l =>
        change (if _ then _ else _ : Except Fault (Option Layout)).toOption =
          Option.map some (if _ then _ else _)
        split <;> rfl
    | named under =>
      rw [PlainType.layout?]
      exact deeper under
    | _ => rfl

/-- The layout of a handle is that of the type it denotes. -/
theorem Denotes.layout (h : t.Denotes id p) (reach : t.Reachable) :
    (t.layout id).toOption = p.layout? t.target := by
  have found := (h.within reach).layout (Nat.le_succ t.size)
  change (t.layout? id).toOption = _ at found
  rw [TypeTable.layout, toOption_bind, found]
  cases p.layout? t.target <;> rfl

/-! ## Answers -/

theorem DenotesWithin.underlyingForm (h : t.DenotesWithin n id p) (le : n ≤ m) :
    ∃ under form, t.underlyingWithin m id = .ok under ∧ t.form under = .ok form ∧
      HasForm t.Denotes p.bare form := by
  induction n generalizing m id p with
  | zero => exact h.elim
  | succ n ih =>
    obtain ⟨m, rfl⟩ : ∃ k, m = k + 1 := ⟨m - 1, by omega⟩
    have denotes : t.Denotes id p := ⟨n + 1, h⟩
    obtain ⟨form, found, fits⟩ := h
    obtain ⟨form', found', fits'⟩ := denotes.hasForm
    cases found.symm.trans found'
    have known := form_eq_ok.2 ⟨_, found⟩
    rw [underlyingWithin, known]
    cases fits with
    | named under =>
      rw [PlainType.bare]
      exact ih under (Nat.le_of_succ_le_succ le)
    | _ => exact ⟨id, _, rfl, known, fits'⟩

theorem Denotes.underlyingForm (h : t.Denotes id p) (reach : t.Reachable) :
    ∃ form, t.underlyingForm id = .ok form ∧ HasForm t.Denotes p.bare form := by
  obtain ⟨under, form, down, known, fits⟩ := (h.within reach).underlyingForm (Nat.le_succ t.size)
  refine ⟨form, ?_, fits⟩
  rw [TypeTable.underlyingForm, TypeTable.underlying, down]
  exact known

theorem ofForm_eq {R S : TypeId → PlainType → Prop} {form' : TypeForm} (h : HasForm R p form)
    (h' : HasForm S p form') : TypeFlags.ofForm form = TypeFlags.ofForm form' := by
  cases h <;> cases h' <;> rfl

theorem Denotes.flags_eq (h : t.Denotes id p) (h' : t'.Denotes id' p) (reach : t.Reachable)
    (reach' : t'.Reachable) : t.flags id = t'.flags id' := by
  obtain ⟨form, found, fits⟩ := h.hasForm
  obtain ⟨form', found', fits'⟩ := h'.hasForm
  obtain ⟨low, below, bare⟩ := h.underlyingForm reach
  obtain ⟨low', below', bare'⟩ := h'.underlyingForm reach'
  rw [flags, flags, form_eq_ok.2 ⟨_, found⟩, form_eq_ok.2 ⟨_, found'⟩, below, below']
  have same := ofForm_eq bare bare'
  cases fits <;> cases fits' <;> exact congrArg (fun f => Except.ok (TypeFlags.union _ f)) same

theorem mapM_eq_of_forall₂ {α β γ δ : Type} {R : α → γ → Prop} {S : β → γ → Prop}
    {f : α → Except Fault δ} {g : β → Except Fault δ} (same : ∀ a b c, R a c → S b c → f a = g b)
    {as : List α} {bs : List β} {cs : List γ} (h : List.Forall₂ R as cs)
    (h' : List.Forall₂ S bs cs) :
    as.mapM f = bs.mapM g := by
  induction h generalizing bs with
  | nil =>
    cases h'
    rfl
  | cons first _ ih =>
    cases h' with
    | cons first' rest' => rw [List.mapM_cons, List.mapM_cons, same _ _ _ first first', ih rest']

theorem DenotesWithin.display_eq (names : NameTable) (h : t.DenotesWithin n id p) {n' m' : Nat}
    (h' : t'.DenotesWithin n' id' p) (le : n ≤ m) (le' : n' ≤ m') (top top' : Bool) :
    t.displayWithin names m top id = t'.displayWithin names m' top' id' := by
  induction n generalizing m id p n' m' id' top top' with
  | zero => exact h.elim
  | succ n ih =>
    cases n' with
    | zero => exact h'.elim
    | succ n' =>
      obtain ⟨m, rfl⟩ : ∃ k, m = k + 1 := ⟨m - 1, by omega⟩
      obtain ⟨m', rfl⟩ : ∃ k, m' = k + 1 := ⟨m' - 1, by omega⟩
      obtain ⟨form, found, fits⟩ := h
      obtain ⟨form', found', fits'⟩ := h'
      have inner : ∀ c c' q, t.DenotesWithin n c q → t'.DenotesWithin n' c' q →
          t.displayWithin names m false c = t'.displayWithin names m' false c' :=
        fun c c' q below below' =>
          ih below below' (Nat.le_of_succ_le_succ le) (Nat.le_of_succ_le_succ le') false false
      have nameless : (if top then none else t.placeholderName? id) = none := by
        simp [placeholderName?_eq, found, Origin.name?]
      have nameless' : (if top' then none else t'.placeholderName? id') = none := by
        simp [placeholderName?_eq, found', Origin.name?]
      rw [displayWithin, displayWithin, nameless, nameless', form_eq_ok.2 ⟨_, found⟩,
        form_eq_ok.2 ⟨_, found'⟩]
      cases fits with
      | pointer target =>
        cases fits' with
        | pointer target' =>
          change (t.displayWithin names m false _ >>= _) = (t'.displayWithin names m' false _ >>= _)
          rw [inner _ _ _ target target']
      | @struct _ cs fields =>
        cases fits' with
        | @struct _ cs' fields' =>
          change (cs.mapM (t.displayWithin names m false) >>= _) =
            (cs'.mapM (t'.displayWithin names m' false) >>= _)
          rw [mapM_eq_of_forall₂ inner fields fields']
      | array elem =>
        cases fits' with
        | array elem' =>
          change (t.displayWithin names m false _ >>= _) = (t'.displayWithin names m' false _ >>= _)
          rw [inner _ _ _ elem elem']
      | @function _ cs _ _ params result =>
        cases fits' with
        | @function _ cs' _ _ params' result' =>
          change (cs.mapM (t.displayWithin names m false) >>= fun _ =>
              t.displayWithin names m false _ >>= _) =
            (cs'.mapM (t'.displayWithin names m' false) >>= fun _ =>
              t'.displayWithin names m' false _ >>= _)
          rw [mapM_eq_of_forall₂ inner params params', inner _ _ _ result result']
      | _ => cases fits'; rfl

theorem Denotes.display_eq (names : NameTable) (h : t.Denotes id p) (h' : t'.Denotes id' p)
    (reach : t.Reachable) (reach' : t'.Reachable) : t.display names id = t'.display names id' :=
  (h.within reach).display_eq names (h'.within reach') (Nat.le_add_right _ 2) (Nat.le_add_right _ 2)
    true true

theorem offsetAfter_eq {cs' : List TypeId} {last last' : TypeId}
    (same : ∀ c c' p, t.Denotes c p → t'.Denotes c' p →
      (t.layout c).toOption = (t'.layout c').toOption)
    (h : List.Forall₂ t.Denotes cs ps) (h' : List.Forall₂ t'.Denotes cs' ps)
    (final : t.Denotes last q) (final' : t'.Denotes last' q) (offset : Nat) :
    (t.offsetAfter offset cs last).toOption = (t'.offsetAfter offset cs' last').toOption := by
  induction h generalizing cs' offset with
  | nil =>
    cases h'
    rw [offsetAfter, offsetAfter, toOption_bind, toOption_bind, same _ _ _ final final']
  | cons first _ ih =>
    cases h' with
    | cons first' rest' =>
      simp only [offsetAfter, toOption_bind, same _ _ _ first first', ih rest']

theorem Denotes.offsetOf_eq (h : t.Denotes id p) (h' : t'.Denotes id' p) (reach : t.Reachable)
    (reach' : t'.Reachable) (target : t.target = t'.target) (index : Nat) :
    (t.offsetOf id index).toOption = (t'.offsetOf id' index).toOption := by
  have same (c c' : TypeId) (q : PlainType) (d : t.Denotes c q) (d' : t'.Denotes c' q) :
      (t.layout c).toOption = (t'.layout c').toOption := by
    rw [d.layout reach, d'.layout reach', target]
  obtain ⟨low, below, bare⟩ := h.underlyingForm reach
  obtain ⟨low', below', bare'⟩ := h'.underlyingForm reach'
  rw [offsetOf, offsetOf, h.isError reach.canonical, h'.isError reach'.canonical, structFields?,
    structFields?, below, below']
  cases p.isError with
  | true => rfl
  | false =>
    generalize p.bare = low at *
    cases bare with
    | @struct ps cs fields =>
      cases bare' with
      | @struct _ cs' fields' =>
        by_cases lt : index < ps.length
        · have lt₁ : index < cs.length := fields.length_eq ▸ lt
          have lt₂ : index < cs'.length := fields'.length_eq ▸ lt
          simp only [bind, Except.bind, pure, Except.pure, Bool.false_eq_true, if_false,
            List.getElem?_eq_getElem lt₁, List.getElem?_eq_getElem lt₂]
          exact offsetAfter_eq same (List.forall₂_take index fields)
            (List.forall₂_take index fields') (fields.get lt₁ lt) (fields'.get lt₂ lt) 0
        · have out₁ : cs.length ≤ index := by rw [fields.length_eq]; omega
          have out₂ : cs'.length ≤ index := by rw [fields'.length_eq]; omega
          simp only [bind, Except.bind, pure, Except.pure, Bool.false_eq_true, if_false,
            List.getElem?_eq_none out₁, List.getElem?_eq_none out₂]
          rfl
    | _ => cases bare'; rfl

/-- Two handles of two tables give the same answers: the same text, size, alignment, offsets and
categories, or no answer in both. -/
structure AnswerAlike (names : NameTable) (t : TypeTable) (id : TypeId) (t' : TypeTable)
    (id' : TypeId) : Prop where
  display : t.display names id = t'.display names id'
  size : (t.sizeOf id).toOption = (t'.sizeOf id').toOption
  align : (t.alignOf id).toOption = (t'.alignOf id').toOption
  offsets : ∀ index, (t.offsetOf id index).toOption = (t'.offsetOf id' index).toOption
  flags : t.flags id = t'.flags id'

theorem Denotes.answerAlike (names : NameTable) (h : t.Denotes id p) (h' : t'.Denotes id' p)
    (reach : t.Reachable) (reach' : t'.Reachable) (target : t.target = t'.target) :
    AnswerAlike names t id t' id' where
  display := h.display_eq names h' reach reach'
  size := by
    rw [sizeOf, sizeOf, toOption_bind, toOption_bind, h.layout reach, h'.layout reach', target]
  align := by
    rw [alignOf, alignOf, toOption_bind, toOption_bind, h.layout reach, h'.layout reach', target]
  offsets := h.offsetOf_eq h' reach reach' target
  flags := h.flags_eq h' reach reach'

end

end TypeTable

end Codegen
