import Codegen.Proofs.Types.Plain

/-!
Building types from descriptions. What a description stands for is read off it and the target; its
handle denotes that in any table, whatever was asked of the table before. So the answers about it
do not depend on the table's history, and two descriptions get one handle exactly if they stand for
the same type.
-/

namespace Codegen

namespace PlainType

def isVoid : PlainType → Bool
  | .void => true
  | _ => false

/-- A pointer; one to void is a pointer to a byte. -/
def pointerTo (p : PlainType) : PlainType :=
  if p.isError then .error else .pointer (if p.isVoid then .int 8 false else p)

def structOf (fields : List PlainType) : PlainType :=
  if fields.any isError then .error else .struct fields

def arrayOf (elem : PlainType) (length : Nat) : PlainType :=
  if elem.isError then .error else .array elem length

def namedAs (name : Name) (under : PlainType) : PlainType :=
  if under.isError then .error else .named name under

/-- A result that is left out is no error. -/
theorem any_isError_toList (result : Option PlainType) :
    result.toList.any isError = (result.getD .void).isError := by
  cases result <;> simp [isError]

/-- A signature, where the layout of the result fits a word. A result that takes no bytes is
void. -/
def functionOf? (target : Target) (inputs : List PlainType) (result : PlainType) :
    Option PlainType :=
  if inputs.any isError || result.isError then some .error
  else (result.layout? target).map fun l => .function inputs (if l.size = 0 then .void else result)

end PlainType

/-- How a type is built with the constructors. Fields, parameters and results have names. -/
inductive Description where
  | void
  | bool
  | error
  | int (unsigned : Bool) (bits : Nat)
  | float (bits : Nat)
  | complex (bits : Nat)
  | pointer (target : Description)
  | struct (fields : List (Name × Description))
  | array (elem : Description) (length : Nat)
  | function (receiver : Option (Name × Description)) (params : List (Name × Description))
      (result : Option (Name × Description))
  | named (name : Name) (underlying : Description)

namespace Description

mutual

/-- Whether the error type is somewhere in a description. -/
def hasError : Description → Bool
  | .error => true
  | .pointer d | .array d _ | .named _ d => d.hasError
  | .struct fields => hasErrorIn fields
  | .function receiver params result =>
    hasErrorAt receiver || hasErrorIn params || hasErrorAt result
  | _ => false

def hasErrorIn : List (Name × Description) → Bool
  | [] => false
  | (_, d) :: rest => d.hasError || hasErrorIn rest

def hasErrorAt : Option (Name × Description) → Bool
  | none => false
  | some (_, d) => d.hasError

end

mutual

/-- The type that a description stands for on a target, if it can be built. The receiver is the
first parameter, no result is void, and names of entries are dropped. -/
def plain? (target : Target) : Description → Option PlainType
  | .void => some .void
  | .bool => some .bool
  | .error => some .error
  | .int unsigned bits => if 1 ≤ bits ∧ bits ≤ 128 then some (.int bits !unsigned) else none
  | .float bits => if bits = 32 ∨ bits = 64 then some (.float bits) else none
  | .complex bits => if bits = 64 ∨ bits = 128 then some (.complex bits) else none
  | .pointer d => do return (← d.plain? target).pointerTo
  | .struct fields => do return .structOf (← plainAll? target fields)
  | .array elem length => do return (← elem.plain? target).arrayOf length
  | .function receiver params result => do
    let receiver ← plainAt? target receiver
    let params ← plainAll? target params
    let result ← plainAt? target result
    PlainType.functionOf? target (receiver.toList ++ params) (result.getD .void)
  | .named name under => do return (← under.plain? target).namedAs name

def plainAll? (target : Target) : List (Name × Description) → Option (List PlainType)
  | [] => some []
  | (_, d) :: rest => do return (← d.plain? target) :: (← plainAll? target rest)

def plainAt? (target : Target) : Option (Name × Description) → Option (Option PlainType)
  | none => some none
  | some (_, d) => do return some (← d.plain? target)

end

mutual

/-- Builds a type bottom-up, each part with its constructor. -/
def build : Description → TypeTable → Except Fault (TypeId × TypeTable)
  | .void, t => .ok (.void, t)
  | .bool, t => .ok (.bool, t)
  | .error, t => .ok (.error, t)
  | .int unsigned bits, t => t.integerType unsigned bits
  | .float bits, t => do return (← TypeTable.floatType bits, t)
  | .complex bits, t => t.complexType bits
  | .pointer d, t => do
    let (target, t) ← d.build t
    t.pointerType target
  | .struct fields, t => do
    let (fields, t) ← buildAll fields t
    t.structType fields
  | .array elem length, t => do
    let (elem, t) ← elem.build t
    t.arrayType elem length
  | .function receiver params result, t => do
    let (receiver, t) ← buildAt receiver t
    let (params, t) ← buildAll params t
    let (result, t) ← buildAt result t
    t.functionType receiver params result.toList .void
  | .named name under, t => do
    let (under, t) ← under.build t
    t.namedType name under

def buildAll : List (Name × Description) → TypeTable → Except Fault (List Field × TypeTable)
  | [], t => .ok ([], t)
  | (name, d) :: rest, t => do
    let (ty, t) ← d.build t
    let (fields, t) ← buildAll rest t
    return (⟨name, ty⟩ :: fields, t)

def buildAt : Option (Name × Description) → TypeTable → Except Fault (Option Field × TypeTable)
  | none, t => .ok (none, t)
  | some (name, d), t => do
    let (ty, t) ← d.build t
    return (some ⟨name, ty⟩, t)

end

end Description

namespace TypeTable

open Relation PlainType

/-! ## Constructors -/

section

variable {t : TypeTable} {id c : TypeId} {p : PlainType} {cs : List TypeId} {ps : List PlainType}

/-- A step of building on a table answers what is expected of it: a fault where nothing is, and
otherwise a result that stands in `R` to it in the table that it leads to. -/
def Yields {α β : Type} (t : TypeTable) (R : TypeTable → α → β → Prop)
    (answer : Except Fault (α × TypeTable)) : Option β → Prop
  | none => ∃ fault, answer = .error fault
  | some b => ∃ a s, answer = .ok (a, s) ∧ Run t s ∧ R s a b

theorem Yields.bind {α β γ δ : Type} {R : TypeTable → α → β → Prop} {S : TypeTable → γ → δ → Prop}
    {x : Except Fault (α × TypeTable)} {y : Option β}
    {f : α × TypeTable → Except Fault (γ × TypeTable)}
    {g : β → Option δ} (h : t.Yields R x y)
    (next : ∀ a b s, Run t s → R s a b → s.Yields S (f (a, s)) (g b)) :
    t.Yields S (x >>= f) (y >>= g) := by
  cases y with
  | none =>
    obtain ⟨fault, rfl⟩ := h
    exact ⟨fault, rfl⟩
  | some b =>
    obtain ⟨a, s, rfl, run, related⟩ := h
    have later := next a b s run related
    change t.Yields S (f (a, s)) (g b)
    cases e : g b with
    | none =>
      rw [e] at later
      exact later
    | some d =>
      rw [e] at later
      obtain ⟨c, s', answer, run', related'⟩ := later
      exact ⟨c, s', answer, run.trans run', related'⟩

theorem anyM_isError (canonical : t.Canonical) (h : List.Forall₂ t.Denotes cs ps) :
    cs.anyM t.isError = .ok (ps.any PlainType.isError) := by
  induction h with
  | nil => rfl
  | @cons _ q _ _ first _ ih =>
    rw [List.anyM_cons, first.isError canonical, List.any_cons, ih]
    cases q.isError <;> rfl

/-- Interning a form without errors over handles that denote its components. -/
theorem intern_yields {form : TypeForm} (fits : HasForm t.Denotes p form)
    (clean : t.hasErrorPart form = .ok false) : t.Yields Denotes (t.intern form) (some p) := by
  have plain : form.isPlaceholder = false := by cases fits <;> rfl
  obtain ⟨id, s, answer, found⟩ := exists_intern plain clean
  have run : Run t s := .single ⟨.intern form, by rw [Call.run, answer]; rfl⟩
  exact ⟨id, s, answer, run, denotes_of_hasForm found (fits.mono fun c _ q below => below.run run)⟩

/-- A constructor that has found an error among its inputs. -/
theorem Reachable.yields_error (reach : t.Reachable) :
    t.Yields Denotes (.ok (.error, t)) (some .error) :=
  ⟨.error, t, rfl, .refl, denotes_of_hasForm reach.canonical.sentinel .error⟩

theorem Reachable.yields_guarded (reach : t.Reachable) {form : TypeForm} {bad : Bool}
    (clean : bad = false → t.hasErrorPart form = .ok false)
    (fits : bad = false → HasForm t.Denotes p form) :
    t.Yields Denotes (if bad then .ok (.error, t) else t.intern form)
      (some (if bad then .error else p)) := by
  cases bad with
  | true => exact reach.yields_error
  | false => exact intern_yields (fits rfl) (clean rfl)

theorem hasErrorPart_single {form : TypeForm} (single : form.components = [c])
    (sound : t.isError c = .ok false) : t.hasErrorPart form = .ok false := by
  refine hasErrorPart_eq_false.2 ⟨?_, by simpa [single] using sound⟩
  rintro rfl
  cases single

theorem Reachable.pointerType_yields (reach : t.Reachable) (h : t.Denotes c p) :
    t.Yields Denotes (t.pointerType c) (some p.pointerTo) := by
  have nothing : t.Denotes .void .void := denotes_of_hasForm (reach.primitive rfl) .void
  have byte : t.Denotes .u8 (.int 8 false) := denotes_of_hasForm (reach.primitive rfl) .int
  have target : t.Denotes (if c = .void then .u8 else c)
      (if p.isVoid then .int 8 false else p) := by
    have same := reach.canonical.eq_iff_of_denotes h nothing
    cases void : p.isVoid with
    | true =>
      have e : p = .void := by cases p <;> first | rfl | cases void
      rw [if_pos (same.2 e)]
      exact byte
    | false =>
      rw [if_neg fun e => by rw [same.1 e] at void; cases void]
      exact h
  rw [pointerType, h.isError reach.canonical]
  refine reach.yields_guarded (fun sound => hasErrorPart_single rfl ?_) fun _ => .pointer target
  rw [target.isError reach.canonical]
  split
  · rfl
  · rw [sound]

theorem Reachable.arrayType_yields (reach : t.Reachable) (h : t.Denotes c p) (length : Nat) :
    t.Yields Denotes (t.arrayType c length) (some (p.arrayOf length)) := by
  rw [arrayType, h.isError reach.canonical]
  refine reach.yields_guarded (fun sound => hasErrorPart_single rfl ?_) fun _ => .array h
  rw [h.isError reach.canonical, sound]

theorem Reachable.namedType_yields (reach : t.Reachable) (name : Name) (h : t.Denotes c p) :
    t.Yields Denotes (t.namedType name c) (some (p.namedAs name)) := by
  rw [namedType, h.isError reach.canonical]
  refine reach.yields_guarded (fun sound => hasErrorPart_single rfl ?_) fun _ => .named h
  rw [h.isError reach.canonical, sound]

theorem Reachable.structType_yields (reach : t.Reachable) {fields : List Field}
    (h : List.Forall₂ t.Denotes (fields.map (·.ty)) ps) :
    t.Yields Denotes (t.structType fields) (some (structOf ps)) := by
  have errors := anyM_isError reach.canonical h
  rw [structType, ← anyM_map fields, errors]
  refine reach.yields_guarded (fun sound => ?_) fun _ => .struct h
  exact hasErrorPart_eq_false.2 ⟨by simp, anyM_eq_ok_false.1 (sound ▸ errors)⟩

/-- Whether a type takes no bytes, by what it denotes. -/
theorem Denotes.isZeroSized (h : t.Denotes id p) (reach : t.Reachable) :
    (t.isZeroSized id).toOption = (p.layout? t.target).map (·.size == 0) := by
  have found := (h.within reach).layout (Nat.le_succ t.size)
  change (t.layout? id).toOption = _ at found
  rw [TypeTable.isZeroSized, toOption_bind, found]
  cases p.layout? t.target <;> rfl

theorem Reachable.functionType_yields (reach : t.Reachable) {receiver : Option Field}
    {params : List Field} {result : Option Field} {r : Option PlainType}
    (inputs : List.Forall₂ t.Denotes ((receiver.toList ++ params).map (·.ty)) ps)
    (output : List.Forall₂ t.Denotes (result.toList.map (·.ty)) r.toList) :
    t.Yields Denotes (t.functionType receiver params result.toList .void)
      (functionOf? t.target ps (r.getD .void)) := by
  have nothing : t.Denotes .void .void := denotes_of_hasForm (reach.primitive rfl) .void
  have answer : t.Denotes (resultType result.toList .void) (r.getD .void) := by
    cases result <;> cases r <;> cases output
    · exact nothing
    · assumption
  have inputErrors := anyM_isError reach.canonical inputs
  have resultErrors := anyM_isError reach.canonical output
  rw [anyM_map, PlainType.any_isError_toList] at resultErrors
  have empty := answer.isZeroSized reach
  simp only [functionType, functionOf?, inputErrors, resultErrors, answer.isError reach.canonical]
  cases badInput : ps.any PlainType.isError with
  | true => exact reach.yields_error
  | false =>
    cases badResult : (r.getD .void).isError with
    | true => exact reach.yields_error
    | false =>
      have clean {c : TypeId} (sound : t.isError c = .ok false) :
          t.hasErrorPart (.function ((receiver.toList ++ params).map (·.ty)) c) = .ok false := by
        refine hasErrorPart_eq_false.2 ⟨by simp, List.forall_mem_cons.2 ⟨sound, ?_⟩⟩
        exact anyM_eq_ok_false.1 (badInput ▸ inputErrors)
      change t.Yields Denotes (t.isZeroSized _ >>= _) (Option.map _ _)
      cases laid : (r.getD .void).layout? t.target with
      | none =>
        rw [laid] at empty
        obtain ⟨fault, stops⟩ := toOption_eq_none.1 empty
        exact ⟨fault, by rw [stops]; rfl⟩
      | some l =>
        rw [laid] at empty
        rw [toOption_eq_some.1 empty]
        change t.Yields Denotes (if (l.size == 0) = true then _ else _)
          (some (.function ps (if l.size = 0 then .void else r.getD .void)))
        split
        · rename_i zero
          rw [if_pos (beq_iff_eq.1 zero)]
          exact intern_yields (.function inputs nothing) (clean (nothing.isError reach.canonical))
        · rename_i sized
          rw [if_neg fun e => sized (beq_iff_eq.2 e)]
          refine intern_yields (.function inputs answer) (clean ?_)
          rw [answer.isError reach.canonical, badResult]

/-! ## Descriptions -/

theorem integerType_yields (t : TypeTable) (unsigned : Bool) (bits : Nat) :
    t.Yields Denotes (t.integerType unsigned bits)
      (if 1 ≤ bits ∧ bits ≤ 128 then some (.int bits !unsigned) else none) := by
  unfold integerType
  split
  · exact intern_yields .int rfl
  · exact ⟨_, rfl⟩

theorem complexType_yields (t : TypeTable) (bits : Nat) :
    t.Yields Denotes (t.complexType bits)
      (if bits = 64 ∨ bits = 128 then some (.complex bits) else none) := by
  unfold complexType
  split
  · exact intern_yields .complex rfl
  · exact ⟨_, rfl⟩

theorem Reachable.floatType_yields (reach : t.Reachable) (bits : Nat) :
    t.Yields Denotes (do return (← floatType bits, t))
      (if bits = 32 ∨ bits = 64 then some (.float bits) else none) := by
  unfold floatType
  by_cases single : bits = 32
  · subst single
    exact ⟨.f32, t, rfl, .refl, denotes_of_hasForm (reach.primitive rfl) .float⟩
  · by_cases double : bits = 64
    · subst double
      exact ⟨.f64, t, rfl, .refl, denotes_of_hasForm (reach.primitive rfl) .float⟩
    · rw [if_neg single, if_neg double, if_neg (by omega)]
      exact ⟨_, rfl⟩

end

end TypeTable

namespace Description

open TypeTable

mutual

/-- Building a description answers exactly if it stands for a type, and then with a handle that
denotes it. -/
theorem build_yields (d : Description) {t : TypeTable} (reach : t.Reachable) :
    t.Yields TypeTable.Denotes (d.build t) (d.plain? t.target) := by
  cases d with
  | void => exact ⟨.void, t, rfl, .refl, denotes_of_hasForm (reach.primitive rfl) .void⟩
  | bool => exact ⟨.bool, t, rfl, .refl, denotes_of_hasForm (reach.primitive rfl) .bool⟩
  | error => exact reach.yields_error
  | int unsigned bits =>
    rw [build, plain?]
    exact integerType_yields t unsigned bits
  | float bits =>
    rw [build, plain?]
    exact reach.floatType_yields bits
  | complex bits =>
    rw [build, plain?]
    exact complexType_yields t bits
  | pointer d =>
    rw [build, plain?]
    exact (build_yields d reach).bind fun _ _ _ run => (reach.run run).pointerType_yields
  | struct fields =>
    rw [build, plain?]
    exact (buildAll_yields fields reach).bind fun _ _ _ run => (reach.run run).structType_yields
  | array elem length =>
    rw [build, plain?]
    exact (build_yields elem reach).bind fun _ _ _ run h =>
      (reach.run run).arrayType_yields h length
  | function receiver params result =>
    rw [build, plain?]
    refine (buildAt_yields receiver reach).bind fun first p₁ t₁ run₁ h₁ => ?_
    refine Yields.bind (R := fun s fields ps => List.Forall₂ s.Denotes (fields.map Field.ty) ps) ?_
      fun fields ps t₂ run₂ h₂ => ?_
    · rw [← run₁.target_eq]
      exact buildAll_yields params (reach.run run₁)
    refine Yields.bind (R := fun s field? p? => List.Forall₂ s.Denotes (field?.toList.map Field.ty)
      p?.toList) ?_ fun last p₃ t₃ run₃ h₃ => ?_
    · rw [← run₁.target_eq, ← run₂.target_eq]
      exact buildAt_yields result ((reach.run run₁).run run₂)
    rw [← run₁.target_eq, ← run₂.target_eq, ← run₃.target_eq]
    refine (((reach.run run₁).run run₂).run run₃).functionType_yields ?_ h₃
    rw [List.map_append]
    exact List.rel_append (h₁.imp fun _ _ d => (d.run run₂).run run₃)
      (h₂.imp fun _ _ d => d.run run₃)
  | named name under =>
    rw [build, plain?]
    exact (build_yields under reach).bind fun _ _ _ run => (reach.run run).namedType_yields name

theorem buildAll_yields (fields : List (Name × Description)) {t : TypeTable} (reach : t.Reachable) :
    t.Yields (fun s fields ps => List.Forall₂ s.Denotes (fields.map Field.ty) ps)
      (buildAll fields t) (plainAll? t.target fields) := by
  cases fields with
  | nil => exact ⟨[], t, rfl, .refl, .nil⟩
  | cons entry rest =>
    obtain ⟨name, d⟩ := entry
    rw [buildAll, plainAll?]
    refine (build_yields d reach).bind fun first p₁ t₁ run₁ h₁ => ?_
    refine Yields.bind (R := fun s fields ps => List.Forall₂ s.Denotes (fields.map Field.ty) ps) ?_
      fun fields ps t₂ run₂ h₂ => ?_
    · rw [← run₁.target_eq]
      exact buildAll_yields rest (reach.run run₁)
    exact ⟨_, t₂, rfl, .refl, .cons (h₁.run run₂) h₂⟩

theorem buildAt_yields (entry : Option (Name × Description)) {t : TypeTable} (reach : t.Reachable) :
    t.Yields (fun s field? p? => List.Forall₂ s.Denotes (field?.toList.map Field.ty) p?.toList)
      (buildAt entry t) (plainAt? t.target entry) := by
  cases entry with
  | none => exact ⟨none, t, rfl, .refl, .nil⟩
  | some entry =>
    obtain ⟨name, d⟩ := entry
    rw [buildAt, plainAt?]
    exact (build_yields d reach).bind fun _ _ s _ h => ⟨_, s, rfl, .refl, .cons h .nil⟩

end

mutual

/-- What a description stands for is the error type exactly if there is one in it. -/
theorem isError_of_plain? {target : Target} (d : Description) {p : PlainType}
    (h : d.plain? target = some p) : p.isError = d.hasError := by
  cases d with
  | void | bool | error =>
    cases h
    rfl
  | int unsigned bits | float bits | complex bits =>
    rw [plain?] at h
    split at h
    · cases h
      rfl
    · cases h
  | pointer d =>
    rw [plain?] at h
    obtain ⟨q, inner, h⟩ := Option.bind_eq_some_iff.1 h
    cases h
    rw [hasError, ← isError_of_plain? d inner, PlainType.pointerTo]
    cases q.isError <;> rfl
  | struct fields =>
    rw [plain?] at h
    obtain ⟨qs, inner, h⟩ := Option.bind_eq_some_iff.1 h
    cases h
    rw [hasError, ← any_isError_of_plainAll? fields inner, PlainType.structOf]
    cases qs.any PlainType.isError <;> rfl
  | array elem length =>
    rw [plain?] at h
    obtain ⟨q, inner, h⟩ := Option.bind_eq_some_iff.1 h
    cases h
    rw [hasError, ← isError_of_plain? elem inner, PlainType.arrayOf]
    cases q.isError <;> rfl
  | function receiver params result =>
    rw [plain?] at h
    obtain ⟨q, inner, h⟩ := Option.bind_eq_some_iff.1 h
    obtain ⟨qs, inner', h⟩ := Option.bind_eq_some_iff.1 h
    obtain ⟨r, inner'', h⟩ := Option.bind_eq_some_iff.1 h
    rw [hasError, ← any_isError_of_plainAt? receiver inner, ← any_isError_of_plainAll?
      params inner', ← any_isError_of_plainAt? result inner'', ← List.any_append]
    rw [PlainType.functionOf?] at h
    split at h
    · rename_i bad
      cases h
      rw [PlainType.any_isError_toList, bad]
      rfl
    · rename_i sound
      obtain ⟨l, -, rfl⟩ := Option.map_eq_some_iff.1 h
      rw [PlainType.any_isError_toList, Bool.eq_false_iff.2 sound]
      rfl
  | named name under =>
    rw [plain?] at h
    obtain ⟨q, inner, h⟩ := Option.bind_eq_some_iff.1 h
    cases h
    rw [hasError, ← isError_of_plain? under inner, PlainType.namedAs]
    cases q.isError <;> rfl

theorem any_isError_of_plainAll? {target : Target} (fields : List (Name × Description))
    {ps : List PlainType} (h : plainAll? target fields = some ps) :
    ps.any PlainType.isError = hasErrorIn fields := by
  cases fields with
  | nil =>
    cases h
    rfl
  | cons entry rest =>
    obtain ⟨name, d⟩ := entry
    rw [plainAll?] at h
    obtain ⟨q, inner, h⟩ := Option.bind_eq_some_iff.1 h
    obtain ⟨qs, inner', h⟩ := Option.bind_eq_some_iff.1 h
    cases h
    rw [hasErrorIn, List.any_cons, isError_of_plain? d inner, any_isError_of_plainAll? rest inner']

theorem any_isError_of_plainAt? {target : Target} (entry : Option (Name × Description))
    {p : Option PlainType} (h : plainAt? target entry = some p) :
    p.toList.any PlainType.isError = hasErrorAt entry := by
  cases entry with
  | none =>
    cases h
    rfl
  | some entry =>
    obtain ⟨name, d⟩ := entry
    rw [plainAt?] at h
    obtain ⟨q, inner, h⟩ := Option.bind_eq_some_iff.1 h
    cases h
    rw [hasErrorAt, ← isError_of_plain? d inner]
    simp

end

theorem exists_build_iff (d : Description) {t : TypeTable} (reach : t.Reachable) :
    (∃ answer, d.build t = .ok answer) ↔ (d.plain? t.target).isSome := by
  have yields := d.build_yields reach
  cases e : d.plain? t.target with
  | none =>
    rw [e] at yields
    obtain ⟨fault, stops⟩ := yields
    simp [stops]
  | some p =>
    rw [e] at yields
    obtain ⟨id, s, answer, -⟩ := yields
    simp [answer]

/-- The handle of a description denotes what it stands for, from then on. -/
theorem denotes_of_build {d : Description} {t s : TypeTable} {id : TypeId} (reach : t.Reachable)
    (built : d.build t = .ok (id, s)) :
    ∃ p, d.plain? t.target = some p ∧ Run t s ∧ s.Denotes id p := by
  have yields := d.build_yields reach
  cases e : d.plain? t.target with
  | none =>
    rw [e] at yields
    obtain ⟨fault, stops⟩ := yields
    cases stops.symm.trans built
  | some p =>
    rw [e] at yields
    obtain ⟨id', s', answer, run, denotes⟩ := yields
    cases answer.symm.trans built
    exact ⟨p, rfl, run, denotes⟩

/-- Building a type does not depend on the table's history. A description is built in both of two
tables for one target or in neither; its handle is the error type exactly if there is one in it;
and the handles answer alike, also later on. In one table, two descriptions get the same handle
exactly if they stand for the same type. -/
theorem build_independent {t₁ t₂ : TypeTable} (reach₁ : t₁.Reachable) (reach₂ : t₂.Reachable)
    (target : t₁.target = t₂.target) (d : Description) :
    ((∃ answer, d.build t₁ = .ok answer) ↔ ∃ answer, d.build t₂ = .ok answer) ∧
    (∀ id s, d.build t₁ = .ok (id, s) → (id = .error ↔ d.hasError) ∧
      ∀ id' s' u u', d.build t₂ = .ok (id', s') → Run s u → Run s' u' →
        ∀ names, AnswerAlike names u id u' id') ∧
    ∀ (d' : Description) id s u id' s', d.build t₁ = .ok (id, s) → Run s u →
      d'.build u = .ok (id', s') → (id = id' ↔ d.plain? t₁.target = d'.plain? t₁.target) := by
  refine ⟨?_, fun id s built => ?_, fun d' id s u id' s' built between built' => ?_⟩
  · rw [exists_build_iff d reach₁, exists_build_iff d reach₂, target]
  · obtain ⟨p, stands, run, denotes⟩ := denotes_of_build reach₁ built
    have reach := reach₁.run run
    refine ⟨?_, fun id' s' u u' built' later later' names => ?_⟩
    · have sentinel : s.Denotes .error .error := denotes_of_hasForm reach.canonical.sentinel .error
      rw [reach.canonical.eq_iff_of_denotes denotes sentinel, ← isError_of_plain? d stands]
      cases p <;> simp [PlainType.isError]
    · obtain ⟨p', stands', run', denotes'⟩ := denotes_of_build reach₂ built'
      rw [← target, stands] at stands'
      cases stands'
      have targets : u.target = u'.target := by
        rw [later.target_eq, run.target_eq, target, later'.target_eq, run'.target_eq]
      exact (denotes.run later).answerAlike names (denotes'.run later') (reach.run later)
        ((reach₂.run run').run later') targets
  · obtain ⟨p, stands, run, denotes⟩ := denotes_of_build reach₁ built
    have reach := (reach₁.run run).run between
    obtain ⟨p', stands', run', denotes'⟩ := denotes_of_build reach built'
    rw [between.target_eq, run.target_eq] at stands'
    rw [stands, stands', Option.some.injEq,
      (reach.run run').canonical.eq_iff_of_denotes ((denotes.run between).run run') denotes']

/-- A signature with a result that takes no bytes, in a fresh table and beside a pending
placeholder. -/
theorem build_independent_signature :
    ∃ t₁ t₂ s₁ s₂ : TypeTable, t₁.Reachable ∧ t₂.Reachable ∧ t₁.target = t₂.target ∧
      t₂.isPending ⟨14⟩ = true ∧
      let d := Description.function none [(.empty, .pointer .void)] (some (.empty, .struct []))
      let d' := Description.function none [(.empty, .pointer (.int true 8))] none
      d.build t₁ = .ok (⟨16⟩, s₁) ∧ d.build t₂ = .ok (⟨17⟩, s₂) ∧ d'.build s₁ = .ok (⟨16⟩, s₁) ∧
      d.plain? t₁.target = d'.plain? t₁.target ∧ d.hasError = false ∧
      ∀ names, AnswerAlike names s₁ ⟨16⟩ s₂ ⟨17⟩ := by
  let d := Description.function none [(.empty, .pointer .void)] (some (.empty, .struct []))
  let d' := Description.function none [(.empty, .pointer (.int true 8))] none
  let grow (t : TypeTable) (target : TypeId) : TypeTable :=
    (((t.push (.pointer .u8) none).2.push (.struct []) none).2.push
      (.function [target] .void) none).2
  let t₁ := initial .standard
  let t₂ := (t₁.placeholder .struct .empty).2
  have reach₁ : t₁.Reachable := ⟨.standard, .refl⟩
  have reach₂ : t₂.Reachable := ⟨.standard, .single ⟨.placeholder .struct .empty, rfl⟩⟩
  have first : d.build t₁ = .ok (⟨16⟩, grow t₁ ⟨14⟩) := by decide +kernel
  have second : d.build t₂ = .ok (⟨17⟩, grow t₂ ⟨15⟩) := by decide +kernel
  have again : d'.build (grow t₁ ⟨14⟩) = .ok (⟨16⟩, grow t₁ ⟨14⟩) := by decide +kernel
  obtain ⟨-, alike, same⟩ := build_independent reach₁ reach₂ rfl d
  exact ⟨t₁, t₂, _, _, reach₁, reach₂, rfl, rfl, first, second, again,
    (same d' _ _ _ _ _ first .refl again).1 rfl, rfl, fun names =>
    (alike _ _ first).2 _ _ _ _ second .refl .refl names⟩

/-- Beside names, pointers to void, empty results and errors, a receiver makes no difference to a
parameter. -/
theorem build_receiver_eq_parameter :
    let d := Description.function (some (.empty, .bool)) [] none
    let d' := Description.function none [(.empty, .bool)] none
    d ≠ d' ∧ ∃ s, d.build (initial .standard) = .ok (⟨14⟩, s) ∧ d'.build s = .ok (⟨14⟩, s) := by
  refine ⟨by simp, ((initial .standard).push (.function [.bool] .void) none).2, ?_, ?_⟩
  · decide +kernel
  · decide +kernel

end Description

end Codegen
