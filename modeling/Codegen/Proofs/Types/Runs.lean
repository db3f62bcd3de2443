import Codegen.Proofs.Outcome
import Codegen.Proofs.Types.Entries
import Codegen.Types.Placeholder
import Mathlib.Logic.Relation

/-!
Runs of a type table. Every call comes down to four changes: a new form is entered, a placeholder
is created, a pending placeholder is defined, or a pending placeholder becomes an error. What holds
over all runs is shown of these changes.
-/

namespace Codegen

/-- What an object of a type is stored as: void has no objects, and is stored as a byte. -/
def TypeId.stored (ty : TypeId) : TypeId := if ty = .void then .u8 else ty

theorem TypeId.stored_ne_void (ty : TypeId) : ty.stored ≠ .void := by
  unfold stored
  split
  · decide
  · assumption

/-- Whether a constructor makes this form: widths are limited, and no pointer points at void. -/
def TypeForm.isRegular : TypeForm → Bool
  | .int bits _ => 1 ≤ bits ∧ bits ≤ 128
  | .float bits => bits = 32 ∨ bits = 64
  | .complex bits => bits = 64 ∨ bits = 128
  | .pointer target => target != .void
  | _ => true

namespace TypeTable

open Relation

/-- What can be asked of a table that may change it. -/
inductive Call where
  | intern (form : TypeForm)
  | integerType (unsigned : Bool) (bits : Nat)
  | complexType (bits : Nat)
  | pointerType (target : TypeId)
  | structType (fields : List Field)
  | arrayType (elem : TypeId) (length : Nat)
  | functionType (receiver : Option Field) (params results : List Field) (resultStruct : TypeId)
  | namedType (name : Name) (underlying : TypeId)
  | circularPointerType
  | placeholder (shape : Shape) (name : Name)
  | resolve (id real : TypeId)
  | resolvePointer (id target : TypeId)
  | resolveStruct (id : TypeId) (fields : List Field)
  | resolveArray (id elem : TypeId) (length : Nat)

/-- The table after a call. -/
def Call.run (t : TypeTable) : Call → Except Fault TypeTable
  | .intern form => do return (← t.intern form).2
  | .integerType unsigned bits => do return (← t.integerType unsigned bits).2
  | .complexType bits => do return (← t.complexType bits).2
  | .pointerType target => do return (← t.pointerType target).2
  | .structType fields => do return (← t.structType fields).2
  | .arrayType elem length => do return (← t.arrayType elem length).2
  | .functionType receiver params results resultStruct => do
    return (← t.functionType receiver params results resultStruct).2
  | .namedType name underlying => do return (← t.namedType name underlying).2
  | .circularPointerType => do return (← t.circularPointerType).2
  | .placeholder shape name => return (t.placeholder shape name).2
  | .resolve id real => do return (← t.resolve id real).2
  | .resolvePointer id target => do return (← t.resolvePointer id target).2
  | .resolveStruct id fields => do return (← t.resolveStruct id fields).2
  | .resolveArray id elem length => do return (← t.resolveArray id elem length).2

/-- One call that returns. -/
def Step (t t' : TypeTable) : Prop := ∃ call : Call, call.run t = .ok t'

/-- Any number of calls. -/
abbrev Run : TypeTable → TypeTable → Prop := ReflTransGen Step

/-- Tables that calls can lead to. -/
def Reachable (t : TypeTable) : Prop := ∃ target, Run (initial target) t

variable {answer : Except PlaceholderError Resolution} {form : TypeForm} {id real : TypeId}
  {t t' : TypeTable}

theorem Reachable.run (reach : t.Reachable) (run : Run t t') : t'.Reachable := by
  obtain ⟨target, before⟩ := reach
  exact ⟨target, before.trans run⟩

/-- What a call can do to a table. -/
inductive Change (t : TypeTable) : TypeTable → Prop
  | enter {form : TypeForm} (plain : form.isPlaceholder = false)
      (clean : t.hasErrorPart form = .ok false) (new : t.lookup? form = none) :
      Change t (t.push form none).2
  | await (shape : Shape) (name : Name) : Change t (t.placeholder shape name).2
  | fail {id : TypeId} (pending : t.isPending id = true) : Change t (t.define id .error)
  | settle {id real : TypeId} {form : TypeForm} (pending : t.isPending id = true)
      (settled : t.isPending real = false) (known : t.form real = .ok form)
      (sound : t.isError real = .ok false) (apart : t.holds real id = .ok false) :
      Change t (t.define id form)

/-! ## Interning and the constructors -/

/-- Interning answers the error type, the handle that the form has, or a new handle. -/
theorem intern_cases (h : t.intern form = .ok (id, t')) :
    form.isPlaceholder = false ∧
      ((t.hasErrorPart form = .ok true ∧ id = .error ∧ t' = t) ∨
       (t.hasErrorPart form = .ok false ∧ t.lookup? form = some id ∧ t' = t) ∨
       (t.hasErrorPart form = .ok false ∧ t.lookup? form = none ∧
        id = (t.push form none).1 ∧ t' = (t.push form none).2)) := by
  unfold intern at h
  split at h
  · cases h
  · rename_i plain
    refine ⟨by simpa using plain, ?_⟩
    obtain ⟨bad, hbad, h⟩ := bind_eq_ok.1 h
    cases bad with
    | true =>
      simp only [if_true, pure_eq_ok, Prod.mk.injEq] at h
      exact .inl ⟨hbad, h.1.symm, h.2.symm⟩
    | false =>
      simp only [Bool.false_eq_true, if_false] at h
      split at h
      · rename_i found
        simp only [pure_eq_ok, Prod.mk.injEq] at h
        exact .inr (.inl ⟨hbad, by rw [found, h.1], h.2.symm⟩)
      · rename_i found
        simp only [pure_eq_ok] at h
        exact .inr (.inr ⟨hbad, found, by rw [h], by rw [h]⟩)

/-- At most one form is entered, of a kind. -/
inductive Brings (P : TypeForm → Prop) (t : TypeTable) : TypeTable → Prop
  | nothing : Brings P t t
  | form {form : TypeForm} (made : P form) (plain : form.isPlaceholder = false)
      (clean : t.hasErrorPart form = .ok false) (new : t.lookup? form = none) :
      Brings P t (t.push form none).2

section

variable {P : TypeForm → Prop}

theorem brings_of_intern (made : P form) (h : t.intern form = .ok (id, t')) : t.Brings P t' := by
  obtain ⟨plain, ⟨-, -, rfl⟩ | ⟨-, -, rfl⟩ | ⟨clean, new, -, rfl⟩⟩ := intern_cases h
  · exact .nothing
  · exact .nothing
  · exact .form made plain clean new

theorem brings_of_guard (made : P form) {bad : Except Fault Bool}
    (h : (do if ← bad then return (.error, t) else t.intern form : Except Fault
      (TypeId × TypeTable)) = .ok (id, t')) : t.Brings P t' := by
  obtain ⟨b, -, h⟩ := bind_eq_ok.1 h
  cases b with
  | true =>
    cases h
    exact .nothing
  | false => exact brings_of_intern made h

/-- The types of a receiver and of parameters. -/
def inputTypes (receiver : Option Field) (params : List Field) : List TypeId :=
  (receiver.toList ++ params).map (·.ty)

/-- What is looked at for errors before a signature is made. -/
def screened (receiver : Option Field) (params results : List Field) (resultStruct : TypeId) :
    List TypeId :=
  inputTypes receiver params ++ (results.map (·.ty) ++ [resultType results resultStruct])

theorem functionType_eq (t : TypeTable) (receiver : Option Field) (params results : List Field)
    (resultStruct : TypeId) :
    t.functionType receiver params results resultStruct =
      (screened receiver params results resultStruct).anyM t.isError >>= fun bad =>
        if bad then pure (.error, t)
        else t.isZeroSized (resultType results resultStruct) >>= fun empty =>
          t.intern (.function (inputTypes receiver params)
            (if empty then .void else resultType results resultStruct)) := by
  rw [screened, anyM_append, anyM_append, anyM_map results, functionType, inputTypes]
  cases ((receiver.toList ++ params).map (·.ty)).anyM t.isError with
  | error => rfl
  | ok badInput =>
    cases badInput with
    | true => rfl
    | false =>
      change (results.anyM (fun f => t.isError f.ty) >>= _) =
        ((results.anyM (fun f => t.isError f.ty) >>= _) >>= _)
      cases results.anyM (fun f => t.isError f.ty) with
      | error => rfl
      | ok badResult =>
        cases badResult with
        | true => rfl
        | false =>
          change (t.isError (resultType results resultStruct) >>= _) =
            ([resultType results resultStruct].anyM t.isError >>= _)
          rw [List.anyM_cons]
          cases t.isError (resultType results resultStruct) with
          | error => rfl
          | ok bad =>
            cases bad with
            | true => rfl
            | false =>
              change (t.isZeroSized _ >>= _) = (t.isZeroSized _ >>= _)
              refine congrArg (t.isZeroSized _ >>= ·) (funext fun empty => ?_)
              cases empty <;> rfl

theorem brings_functionType {receiver : Option Field} {params results : List Field}
    {resultStruct : TypeId} (made : ∀ params result, P (.function params result))
    (h : t.functionType receiver params results resultStruct = .ok (id, t')) : t.Brings P t' := by
  rw [functionType_eq] at h
  obtain ⟨bad, -, h⟩ := bind_eq_ok.1 h
  cases bad with
  | true =>
    cases h
    exact .nothing
  | false =>
    obtain ⟨empty, -, h⟩ := bind_eq_ok.1 h
    exact brings_of_intern (made _ _) h

end

/-! ## Entries -/

/-- The entries after a new one. -/
theorem find?_push_cases {name? : Option Name} {entry : TypeEntry}
    (found : (t.push form name?).2.find? id = some entry) :
    (id = (t.push form name?).1 ∧ entry = ⟨form, .ofName? name?⟩) ∨ t.find? id = some entry := by
  by_cases e : id = (t.push form name?).1
  · rw [e, find?_push, Option.some.injEq] at found
    exact .inl ⟨e, found.symm⟩
  · rw [find?_push_of_ne e] at found
    exact .inr found

/-- The entries after a placeholder got its form. -/
theorem find?_define_cases {p : TypeId} {entry : TypeEntry} (pending : t.isPending p = true)
    (found : (t.define p form).find? id = some entry) :
    (id = p ∧ ∃ name, entry = ⟨form, .resolved name⟩) ∨ (id ≠ p ∧ t.find? id = some entry) := by
  obtain ⟨old, name, waiting⟩ := isPending_iff.1 pending
  by_cases e : id = p
  · subst e
    rw [find?_define waiting, Option.some.injEq] at found
    exact .inl ⟨rfl, name, found.symm⟩
  · rw [find?_define_of_ne e] at found
    exact .inr ⟨e, found⟩

/-! ## Definitions of placeholders -/

/-- A pending placeholder can take the form of `real`, which has its shape and does not hold it. -/
structure Settles (t : TypeTable) (id real : TypeId) (form : TypeForm) : Prop where
  pending : t.isPending id = true
  settled : t.isPending real = false
  sound : t.isError real = .ok false
  apart : t.holds real id = .ok false
  known : t.form real = .ok form
  fits : ∃ shape name under, t.form id = .ok (.placeholder shape name) ∧
    t.underlyingForm real = .ok under ∧ under.shape? = some shape

/-- A definition makes the placeholder an error, changes nothing, or gives it a form that does not
hold it. -/
theorem resolve_cases (h : t.resolve id real = .ok (answer, t')) :
    (answer = .ok .errorType ∧ t' = t.define id .error) ∨
    (t' = t ∧ answer ≠ .ok .errorType ∧ answer ≠ .ok .resolved) ∨
    (answer = .ok .resolved ∧ ∃ form, t.Settles id real form ∧ t' = t.define id form) := by
  have done : ∀ {r : Except PlaceholderError Resolution × TypeTable}, r = (answer, t') →
      r.1 ≠ .ok .errorType ∧ r.1 ≠ .ok .resolved → r.2 = t →
      t' = t ∧ answer ≠ .ok .errorType ∧ answer ≠ .ok .resolved := by
    rintro r rfl ne e
    exact ⟨e, ne⟩
  unfold resolve at h
  obtain ⟨idBad, -, h⟩ := bind_eq_ok.1 h
  cases idBad with
  | true =>
    simp only [if_true, pure_eq_ok, Prod.mk.injEq] at h
    exact .inl ⟨h.1.symm, h.2.symm⟩
  | false =>
    simp only [Bool.false_eq_true, if_false] at h
    obtain ⟨realBad, hreal, h⟩ := bind_eq_ok.1 h
    cases realBad with
    | true =>
      simp only [if_true, pure_eq_ok, Prod.mk.injEq] at h
      exact .inl ⟨h.1.symm, h.2.symm⟩
    | false =>
      simp only [Bool.false_eq_true, if_false] at h
      right
      split at h
      · exact .inl (done (pure_eq_ok.1 h) (by simp) rfl)
      · split at h
        · obtain ⟨same, -, h⟩ := bind_eq_ok.1 h
          cases same <;> exact .inl (done (pure_eq_ok.1 h) (by simp) rfl)
        · rename_i pending
          split at h
          · exact .inl (done (pure_eq_ok.1 h) (by simp) rfl)
          · rename_i settled
            obtain ⟨form, waits, h⟩ := bind_eq_ok.1 h
            split at h
            · obtain ⟨under, below, h⟩ := bind_eq_ok.1 h
              split at h
              · exact .inl (done (pure_eq_ok.1 h) (by simp) rfl)
              · rename_i fits
                obtain ⟨inside, hinside, h⟩ := bind_eq_ok.1 h
                cases inside with
                | true => exact .inl (done (pure_eq_ok.1 h) (by simp) rfl)
                | false =>
                  simp only [Bool.false_eq_true, if_false] at h
                  obtain ⟨realForm, hform, h⟩ := bind_eq_ok.1 h
                  simp only [pure_eq_ok, Prod.mk.injEq] at h
                  exact .inr ⟨h.1.symm, realForm, ⟨by simpa using pending, by simpa using settled,
                    hreal, hinside, hform, _, _, under, waits, below, Classical.not_not.1 fits⟩,
                    h.2.symm⟩
            · simp at h

/-! ## What a call does -/

/-- The calls that define a placeholder. -/
inductive Definition where
  | handle (id real : TypeId)
  | pointer (id target : TypeId)
  | struct (id : TypeId) (fields : List Field)
  | array (id elem : TypeId) (length : Nat)

namespace Definition

/-- The handle to be defined. -/
def subject : Definition → TypeId
  | handle id _ | pointer id _ | struct id _ | array id _ _ => id

def run (t : TypeTable) : Definition → Except Fault (Except PlaceholderError Resolution × TypeTable)
  | handle id real => t.resolve id real
  | pointer id target => t.resolvePointer id target
  | struct id fields => t.resolveStruct id fields
  | array id elem length => t.resolveArray id elem length

end Definition

def Call.definition? : Call → Option Definition
  | .resolve id real => some (.handle id real)
  | .resolvePointer id target => some (.pointer id target)
  | .resolveStruct id fields => some (.struct id fields)
  | .resolveArray id elem length => some (.array id elem length)
  | _ => none

/-- A definition brings in the form it is given and resolves the placeholder with it. -/
theorem Definition.resolves {d : Definition} {P : TypeForm → Prop}
    (made : ∀ form, form.isRegular → (∀ name part, form ≠ .named name part) → P form)
    (h : d.run t = .ok (answer, t')) :
    ∃ real s, t.Brings P s ∧ s.resolve d.subject real = .ok (answer, t') := by
  cases d with
  | handle id real => exact ⟨real, t, .nothing, h⟩
  | pointer id target =>
    obtain ⟨⟨real, s⟩, built, h⟩ := bind_eq_ok.1 h
    have pointer : P (.pointer target.stored) :=
      made _ (bne_iff_ne.2 target.stored_ne_void) (by simp)
    exact ⟨real, s, brings_of_guard pointer built, h⟩
  | struct | array =>
    obtain ⟨⟨real, s⟩, built, h⟩ := bind_eq_ok.1 h
    exact ⟨real, s, brings_of_guard (made _ rfl (by simp)) built, h⟩

/-- A form that a call may bring in: the one it was given, or one that constructors make, which has
a name only if the call gave one. -/
def Call.Makes (call : Call) (form : TypeForm) : Prop :=
  call = .intern form ∨
    form.isRegular ∧ ∀ name part, form = .named name part → call = .namedType name part

/-- The table after a call that answers a pair, once the answer is known. -/
theorem exists_of_answer {α : Type} {x : Except Fault (α × TypeTable)}
    (h : (do return (← x).2) = Except.ok t') : ∃ answer, x = .ok (answer, t') := by
  obtain ⟨⟨answer, s⟩, hs, h⟩ := bind_eq_ok.1 h
  rw [pure_eq_ok] at h
  exact ⟨answer, by rw [hs, ← h]⟩

/-- A call brings in a form, creates a placeholder, or defines one, with a type that it may bring in
first. -/
theorem Call.cases {call : Call} (h : call.run t = .ok t') :
    t.Brings call.Makes t' ∨ (∃ shape name, t' = (t.placeholder shape name).2) ∨
      ∃ d real s answer, call.definition? = some d ∧ d.run t = .ok (answer, t') ∧
        t.Brings call.Makes s ∧ s.resolve d.subject real = .ok (answer, t') := by
  have made (form : TypeForm) (regular : form.isRegular)
      (other : ∀ name part, form ≠ .named name part) : call.Makes form :=
    .inr ⟨regular, fun name part e => absurd e (other name part)⟩
  have pointer (target : TypeId) : call.Makes (.pointer target.stored) :=
    made _ (bne_iff_ne.2 target.stored_ne_void) (by simp)
  cases is : call.definition? with
  | some d =>
    obtain ⟨answer, run⟩ : ∃ answer, d.run t = .ok (answer, t') := by
      cases call <;> cases is <;> exact exists_of_answer h
    obtain ⟨real, s, brings, resolved⟩ := Definition.resolves made run
    exact .inr (.inr ⟨d, real, s, answer, rfl, run, brings, resolved⟩)
  | none =>
    cases call with
    | resolve | resolvePointer | resolveStruct | resolveArray => cases is
    | placeholder shape name =>
      cases h
      exact .inr (.inl ⟨shape, name, rfl⟩)
    | intern form =>
      obtain ⟨id, h⟩ := exists_of_answer h
      exact .inl (brings_of_intern (.inl rfl) h)
    | integerType =>
      obtain ⟨id, h⟩ := exists_of_answer h
      unfold TypeTable.integerType at h
      split at h
      · rename_i width
        exact .inl (brings_of_intern (made _ (by simpa [TypeForm.isRegular] using width) (by simp))
          h)
      · cases h
    | complexType =>
      obtain ⟨id, h⟩ := exists_of_answer h
      unfold TypeTable.complexType at h
      split at h
      · rename_i width
        exact .inl (brings_of_intern (made _ (by simpa [TypeForm.isRegular] using width) (by simp))
          h)
      · cases h
    | pointerType target =>
      obtain ⟨id, h⟩ := exists_of_answer h
      exact .inl (brings_of_guard (pointer target) h)
    | structType | arrayType =>
      obtain ⟨id, h⟩ := exists_of_answer h
      exact .inl (brings_of_guard (made _ rfl (by simp)) h)
    | functionType =>
      obtain ⟨id, h⟩ := exists_of_answer h
      exact .inl (brings_functionType (fun _ _ => made _ rfl (by simp)) h)
    | namedType name part =>
      obtain ⟨id, h⟩ := exists_of_answer h
      have named : Makes (.namedType name part) (.named name part) :=
        .inr ⟨rfl, fun _ _ e => by cases e; rfl⟩
      exact .inl (brings_of_guard named h)
    | circularPointerType =>
      obtain ⟨id, h⟩ := exists_of_answer h
      exact .inl (brings_of_intern (pointer .marker) h)

/-! ## From calls to changes -/

theorem Brings.changes {P : TypeForm → Prop} (h : t.Brings P t') : ReflTransGen Change t t' := by
  cases h with
  | nothing => exact .refl
  | form _ plain clean new => exact .single (.enter plain clean new)

theorem changes_of_intern (h : t.intern form = .ok (id, t')) : ReflTransGen Change t t' :=
  (brings_of_intern (P := fun _ => True) trivial h).changes

theorem changes_of_resolve (h : t.resolve id real = .ok (answer, t')) :
    ReflTransGen Change t t' := by
  obtain ⟨-, rfl⟩ | ⟨rfl, -⟩ | ⟨-, form, settles, rfl⟩ := resolve_cases h
  · cases pending : t.isPending id with
    | true => exact .single (.fail pending)
    | false =>
      rw [define_of_not_pending _ pending]
  · exact .refl
  · exact .single (.settle settles.pending settles.settled settles.known settles.sound
      settles.apart)

theorem Step.changes (h : Step t t') : ReflTransGen Change t t' := by
  obtain ⟨call, h⟩ := h
  obtain brings | ⟨shape, name, rfl⟩ | ⟨d, real, s, answer, -, -, brings, resolved⟩ := call.cases h
  · exact brings.changes
  · exact .single (.await shape name)
  · exact brings.changes.trans (changes_of_resolve resolved)

theorem Run.changes (h : Run t t') : ReflTransGen Change t t' := by
  induction h with
  | refl => exact .refl
  | tail _ step ih => exact ih.trans step.changes

theorem Run.target_eq (h : Run t t') : t'.target = t.target := by
  have changes := h.changes
  clear h
  induction changes with
  | refl => rfl
  | tail _ change ih => cases change <;> exact ih

/-- What holds of a fresh table and is kept by every change holds of every reachable table. -/
theorem Reachable.induct {P : TypeTable → Prop} (h : t.Reachable)
    (start : ∀ target, P (initial target)) (keep : ∀ t t', P t → Change t t' → P t') : P t := by
  obtain ⟨target, run⟩ := h
  have changes := run.changes
  clear run
  induction changes with
  | refl => exact start target
  | tail _ change ih => exact keep _ _ ih change

end TypeTable

end Codegen
