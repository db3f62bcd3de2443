import Codegen.Proofs.Types.Stability

/-!
Signatures and placeholders. A signature is made void by what is known of its result when it is
made. A definition can only add to what is known, so a signature made before it differs from the one
made after it exactly if the result had no layout and turns out to take no bytes, or to have a
layout that does not fit.
-/

namespace Codegen.TypeTable

open Relation

/-! ## What a definition adds -/

/-- Fields that a second pass knows as much of, or more, if the first did not know them at all. -/
theorem placeFields_sharpens {f g : TypeId → Except Fault (Option Layout)} {fields : List TypeId}
    (h : ∀ field ∈ fields, f field = .ok none ∨ (g field).toOption = (f field).toOption)
    (offset align : Nat) :
    placeFields f fields offset align = .ok none ∨
      (placeFields g fields offset align).toOption =
        (placeFields f fields offset align).toOption := by
  induction fields generalizing offset align with
  | nil => exact .inr rfl
  | cons field rest ih =>
    have later := ih fun x hx => h x (by simp [hx])
    unfold placeFields
    obtain unknown | same := h field (by simp)
    · exact .inl (by rw [unknown]; rfl)
    · cases known : f field with
      | error fault =>
        right
        rw [toOption_bind, same, known]
        rfl
      | ok found =>
        rw [known] at same
        rw [toOption_eq_some.1 same]
        cases found with
        | none => exact .inl rfl
        | some l =>
          change (Word.roundUp offset l.align >>= fun start => Word.add start l.size >>= fun stop =>
              placeFields f rest stop (max align l.align)) = _ ∨
            (Word.roundUp offset l.align >>= fun start => Word.add start l.size >>= fun stop =>
              placeFields g rest stop (max align l.align)).toOption =
            (Word.roundUp offset l.align >>= fun start => Word.add start l.size >>= fun stop =>
              placeFields f rest stop (max align l.align)).toOption
          cases Word.roundUp offset l.align with
          | error => exact .inr rfl
          | ok start =>
            change (Word.add start l.size >>= _) = _ ∨ (Word.add start l.size >>= _).toOption =
              (Word.add start l.size >>= _).toOption
            cases Word.add start l.size with
            | error => exact .inr rfl
            | ok stop => exact later stop (max align l.align)

section

variable {t s : TypeTable} {p real id : TypeId} {form : TypeForm}

theorem form_define_eq (ne : id ≠ p) : (t.define p form).form id = t.form id := by
  rw [form_eq, form_eq, find?_define_of_ne ne, size_define]

/-- The bound of the second descent leaves room for the form that the placeholder has got. -/
theorem Settles.layoutWithin_sharpens (settles : t.Settles p real form)
    (grounded : (t.define p form).Grounded) {n : Nat} (ends : t.EndsWithin n id) :
    t.layoutWithin n id = .ok none ∨
      ((t.define p form).layoutWithin (n + (t.size + 1)) id).toOption =
        (t.layoutWithin n id).toOption := by
  induction n generalizing id with
  | zero => exact ends.elim
  | succ n ih =>
    rw [Nat.succ_add]
    by_cases e : id = p
    · subst e
      obtain ⟨shape, name, low, waits, -⟩ := settles.fits
      have laid (known : ∀ m, t.layoutWithin (m + 1) id = .ok (some t.target.pointer)) :
          ((t.define id form).layoutWithin (n + (t.size + 1) + 1) id).toOption =
            (t.layoutWithin (n + 1) id).toOption := by
        have after := (preserves_define settles grounded).layout (known t.size)
        rw [layout?, size_define] at after
        have le : t.size + 1 ≤ n + (t.size + 1) + 1 := by omega
        rw [((t.define id form).layoutWithin_refines le id).of_ok after, known n]
      cases shape with
      | pointer | function => exact .inr (laid fun m => by rw [layoutWithin, waits]; rfl)
      | struct | array => exact .inl (by rw [layoutWithin, waits]; rfl)
    · have target : (t.define p form).target = t.target := rfl
      cases known : t.form id with
      | error fault =>
        right
        rw [layoutWithin, layoutWithin, form_define_eq e, known]
        rfl
      | ok old =>
        have inner {part : TypeId} (mem : part ∈ old.parts) := ih (ends part ⟨old, known, mem⟩)
        rw [layoutWithin, layoutWithin, form_define_eq e, known, target]
        cases old with
        | named name under => exact inner (by simp [TypeForm.parts])
        | array elem length =>
          change (t.layoutWithin n elem >>= _) = _ ∨
            ((t.define p form).layoutWithin (n + (t.size + 1)) elem >>= _).toOption =
              (t.layoutWithin n elem >>= _).toOption
          have mem : elem ∈ (TypeForm.array elem length).parts := by simp [TypeForm.parts]
          obtain unknown | same := inner mem
          · exact .inl (by rw [unknown]; rfl)
          · rw [toOption_bind, toOption_bind, same]
            exact .inr rfl
        | struct fields => exact placeFields_sharpens (fun field mem => inner mem) 0 1
        | placeholder shape name => cases shape <;> exact .inr rfl
        | _ => exact .inr rfl

/-- Where there was a layout there is the same one, and where it did not fit it still does not. -/
theorem Settles.layout?_sharpens (settles : t.Settles p real form) (grounded : t.Grounded)
    (grounded' : (t.define p form).Grounded) (id : TypeId) :
    t.layout? id = .ok none ∨ ((t.define p form).layout? id).toOption =
      (t.layout? id).toOption := by
  have ends := grounded'.ends_layout? id
  rw [layout?, size_define] at ends
  have long := (t.define p form).layoutWithin_refines (Nat.le_add_left (t.size + 1) (t.size + 1)) id
    ends
  refine (settles.layoutWithin_sharpens grounded' (grounded.endsWithin_size id)).imp_right
    fun same => ?_
  rw [layout?, size_define, ← long]
  exact same

theorem Settles.isZeroSized_sharpens (settles : t.Settles p real form) (grounded : t.Grounded)
    (grounded' : (t.define p form).Grounded) (id : TypeId) :
    (t.layout? id = .ok none ∧ t.isZeroSized id = .ok false) ∨
      ((t.define p form).isZeroSized id).toOption = (t.isZeroSized id).toOption := by
  obtain unknown | same := settles.layout?_sharpens grounded grounded' id
  · refine .inl ⟨unknown, ?_⟩
    rw [isZeroSized, unknown]
    rfl
  · right
    rw [isZeroSized, isZeroSized, toOption_bind, toOption_bind, same]

theorem Settles.isError_eq (settles : t.Settles p real form) :
    (t.define p form).isError = t.isError := by
  funext id
  unfold TypeTable.isError
  split
  · rfl
  · rename_i notSentinel
    by_cases e : id = p
    · subst e
      obtain ⟨shape, name, low, waits, -⟩ := settles.fits
      obtain ⟨old, other, found⟩ := isPending_iff.1 settles.pending
      have sound : form ≠ .error := by
        rintro rfl
        have bad := settles.sound
        unfold TypeTable.isError at bad
        rw [settles.known] at bad
        split at bad <;> cases bad
      have known : (t.define id form).form id = .ok form := form_eq_ok.2 ⟨_, find?_define found⟩
      rw [known, waits]
      exact congrArg Except.ok (beq_false_of_ne sound)
    · rw [form_define_eq e]

/-! ## What entering a form leaves -/

theorem Enters.form_eq (h : t.Enters s) (lt : id.index < t.size) : s.form id = t.form id :=
  form_congr lt (h.find? lt)

theorem Enters.storedIn (grounded : t.Grounded) (h : t.Enters s) {inner outer : TypeId}
    (lt : outer.index < t.size) (stored : s.StoredIn inner outer) : t.StoredIn inner outer := by
  induction stored with
  | refl => exact .refl
  | tail _ sub ih =>
    obtain ⟨whole, known, mem⟩ := sub
    have sub : t.PartOf _ _ := ⟨whole, (h.form_eq lt).symm.trans known, mem⟩
    exact (ih (partOf_lt grounded sub)).tail sub

theorem Enters.underlyingWithin (h : t.Enters s) {n : Nat} {under : TypeId}
    (down : t.underlyingWithin n id = .ok under) : s.underlyingWithin n id = .ok under := by
  induction n generalizing id with
  | zero => cases down
  | succ n ih =>
    obtain ⟨top, known, down⟩ := bind_eq_ok.1 down
    unfold TypeTable.underlyingWithin
    rw [h.form_eq (lt_size_of_form known), known]
    cases top with
    | named name part => exact ih down
    | _ => exact down

theorem Enters.settles (grounded : t.Grounded) (h : t.Enters s) (settles : t.Settles p real form) :
    s.Settles p real form := by
  have grounded' := h.grounded grounded
  have lt := lt_size_of_isPending settles.pending
  have ltReal := lt_size_of_form settles.known
  have size : t.size ≤ s.size := by cases h <;> simp
  have known : s.form real = .ok form := (h.form_eq ltReal).trans settles.known
  obtain ⟨shape, name, low, waits, below, fits⟩ := settles.fits
  obtain ⟨under, down, bottom⟩ := bind_eq_ok.1 below
  have down' : s.underlying real = .ok under :=
    (s.underlyingWithin_refines (Nat.succ_le_succ size) real).of_ok (h.underlyingWithin down)
  refine ⟨?_, ?_, ?_, ?_, known, shape, name, low, (h.form_eq lt).trans waits, ?_, fits⟩
  · rw [isPending_eq, h.find? lt, ← isPending_eq]
    exact settles.pending
  · rw [isPending_eq, h.find? ltReal, ← isPending_eq]
    exact settles.settled
  · rw [isError, h.form_eq ltReal]
    exact settles.sound
  · obtain ⟨stored, -⟩ | ⟨-, answer⟩ := grounded'.holds_eq (lt_size_of_form known) p
    · exact absurd (h.storedIn grounded ltReal stored) (not_storedIn_of_holdsWithin settles.apart)
    · exact answer
  · rw [underlyingForm, down']
    exact (h.form_eq (lt_size_of_form bottom)).trans bottom

theorem Reachable.resolve_of_settles (reach : t.Reachable) (settles : t.Settles p real form) :
    t.resolve p real = .ok (.ok .resolved, t.define p form) := by
  obtain ⟨shape, name, low, waits, below, fits⟩ := settles.fits
  have intact := reach.canonical.isError_of_form waits (by simp)
  exact (reach.grounded.resolve_eq settles.pending settles.settled intact settles.sound waits
    settles.known below fits).2 (not_storedIn_of_holdsWithin settles.apart)

end

/-! ## Signatures -/

section

variable {t s : TypeTable} {receiver : Option Field} {params results : List Field}
  {resultStruct f : TypeId}

theorem Reachable.form_void (reach : t.Reachable) : t.form .void = .ok .void :=
  form_eq_ok.2 ⟨.interned, reach.primitive rfl⟩

/-- A signature without errors is an interned function form; its result is void exactly if the given
one is known to take no bytes. -/
theorem Reachable.exists_functionType (reach : t.Reachable)
    (clean : (screened receiver params results resultStruct).anyM t.isError = .ok false)
    {empty : Bool}
    (known : t.isZeroSized (resultType results resultStruct) = .ok empty) :
    ∃ f s, t.functionType receiver params results resultStruct = .ok (f, s) ∧
      s.find? f = some ⟨.function (inputTypes receiver params)
        (if empty then .void else resultType results resultStruct), .interned⟩ := by
  have sound := anyM_eq_ok_false.1 clean
  have void : t.isError .void = .ok false := by
    rw [isError, reach.form_void]
    rfl
  have parts : t.hasErrorPart (.function (inputTypes receiver params)
      (if empty then .void else resultType results resultStruct)) = .ok false := by
    refine hasErrorPart_eq_false.2 ⟨by simp, List.forall_mem_cons.2 ⟨?_, fun c hc => ?_⟩⟩
    · split
      · exact void
      · exact sound _ (by simp [screened])
    · exact sound c (List.mem_append_left _ hc)
  obtain ⟨f, s, answer, found⟩ := exists_intern rfl parts
  refine ⟨f, s, ?_, found⟩
  rw [functionType_eq, clean]
  change (t.isZeroSized _ >>= _) = _
  rw [known]
  exact answer

theorem Reachable.functionType_cases (reach : t.Reachable)
    (h : t.functionType receiver params results resultStruct = .ok (f, s)) :
    ((screened receiver params results resultStruct).anyM t.isError = .ok true ∧
      f = .error ∧ s = t) ∨
    ((screened receiver params results resultStruct).anyM t.isError = .ok false ∧ f ≠ .error ∧
      ∃ empty, t.isZeroSized (resultType results resultStruct) = .ok empty ∧
        s.find? f = some ⟨.function (inputTypes receiver params)
          (if empty then .void else resultType results resultStruct), .interned⟩) := by
  have shape := h
  rw [functionType_eq] at shape
  obtain ⟨bad, screen, shape⟩ := bind_eq_ok.1 shape
  cases bad with
  | true =>
    cases shape
    exact .inl ⟨screen, rfl, rfl⟩
  | false =>
    obtain ⟨empty, known, -⟩ := bind_eq_ok.1 shape
    obtain ⟨f', s', answer, found⟩ := reach.exists_functionType screen known
    cases answer.symm.trans h
    refine .inr ⟨screen, ?_, empty, known, found⟩
    rintro rfl
    have reach' := reach.step ⟨.functionType receiver params results resultStruct, by
      rw [Call.run, h]; rfl⟩
    cases found.symm.trans reach'.canonical.sentinel

theorem Reachable.isZeroSized_void (reach : t.Reachable) : t.isZeroSized .void = .ok true := by
  rw [isZeroSized, layout?, layoutWithin, reach.form_void]
  rfl

theorem Reachable.result_eq_void_iff (reach : t.Reachable) {result : TypeId} {empty : Bool}
    (known : t.isZeroSized result = .ok empty) :
    (if empty then TypeId.void else result) = .void ↔ empty = true := by
  cases empty with
  | true => simp
  | false =>
    simp only [Bool.false_eq_true, if_false, iff_false]
    rintro rfl
    cases known.symm.trans reach.isZeroSized_void

end

/-- A signature and a definition give the same signature in either order, except exactly if the
result had no layout before the definition and has one that takes no bytes, or does not fit, after
it. A signature that cannot be made before cannot be made after; its result is void exactly if the
given one takes no bytes by then. -/
theorem signature_commutes_iff {t t' : TypeTable} {p real : TypeId} (reach : t.Reachable)
    (resolved : t.resolve p real = .ok (.ok .resolved, t')) (receiver : Option Field)
    (params results : List Field) (resultStruct : TypeId) :
    ((∃ fault, t.functionType receiver params results resultStruct = .error fault) →
      ∃ fault, t'.functionType receiver params results resultStruct = .error fault) ∧
    ∀ f s, t.functionType receiver params results resultStruct = .ok (f, s) →
      (f ≠ .error → ∃ result, s.form f = .ok (.function (inputTypes receiver params) result) ∧
        (result = .void ↔ t.isZeroSized (resultType results resultStruct) = .ok true)) ∧
      ∃ s', s.resolve p real = .ok (.ok .resolved, s') ∧
        ((∃ g u, t'.functionType receiver params results resultStruct = .ok (g, u) ∧
            u.form g = s'.form f) ↔
          f = .error ∨ t.layout? (resultType results resultStruct) ≠ .ok none ∨
            t'.isZeroSized (resultType results resultStruct) = .ok false) := by
  have reach' : t'.Reachable := reach.step (calmStep_of_resolved resolved).step
  obtain ⟨e, -⟩ | ⟨-, -, e⟩ | ⟨-, form, settles, rfl⟩ := resolve_cases resolved
  · cases e
  · exact absurd rfl e
  have sharper := settles.isZeroSized_sharpens reach.grounded reach'.grounded
    (resultType results resultStruct)
  have screen := congrArg (screened receiver params results resultStruct).anyM settles.isError_eq
  refine ⟨?_, fun f s made => ⟨fun ne => ?_, ?_⟩⟩
  · rintro ⟨fault, stops⟩
    cases after : (t.define p form).functionType receiver params results resultStruct with
    | error other => exact ⟨other, rfl⟩
    | ok answer =>
      -- What is known after the definition was known before, or nothing was.
      obtain ⟨bad, -⟩ | ⟨clean, -, empty, known, -⟩ := reach'.functionType_cases after
      · rw [functionType_eq, ← screen, bad] at stops
        cases stops
      · have before : ∃ empty, t.isZeroSized (resultType results resultStruct) = .ok empty := by
          obtain ⟨-, nothing⟩ | same := sharper
          · exact ⟨false, nothing⟩
          · rw [known] at same
            exact ⟨empty, toOption_eq_some.1 same.symm⟩
        obtain ⟨f, s, made, -⟩ := reach.exists_functionType (screen ▸ clean) before.choose_spec
        cases stops.symm.trans made
  · obtain ⟨-, e, -⟩ | ⟨-, -, empty, known, found⟩ := reach.functionType_cases made
    · exact absurd e ne
    · refine ⟨_, form_eq_ok.2 ⟨_, found⟩, ?_⟩
      rw [known, Except.ok.injEq]
      exact reach.result_eq_void_iff known
  · obtain ⟨bad, rfl, rfl⟩ | ⟨clean, ne, empty, known, found⟩ := reach.functionType_cases made
    · refine ⟨_, resolved, fun _ => .inl rfl, fun _ => ⟨.error, _, ?_, rfl⟩⟩
      rw [functionType_eq, screen, bad]
      rfl
    · have enters := (brings_functionType (P := fun _ => True) (fun _ _ => trivial) made).enters
      have reachNext : s.Reachable :=
        reach.step ⟨.functionType receiver params results resultStruct, by rw [Call.run, made]; rfl⟩
      have later := enters.settles reach.grounded settles
      refine ⟨_, reachNext.resolve_of_settles later, ?_⟩
      have kept := (Change.settle later.pending later.settled later.known later.sound
        later.apart).interned found
      rw [form_eq_ok.2 ⟨_, kept⟩]
      constructor
      · rintro ⟨g, u, made', same⟩
        obtain ⟨bad, -⟩ | ⟨-, -, empty', known', found'⟩ := reach'.functionType_cases made'
        · cases (screen.symm.trans bad).symm.trans clean
        · rw [form_eq_ok.2 ⟨_, found'⟩] at same
          by_cases unknown : t.layout? (resultType results resultStruct) = .ok none
          · refine .inr (.inr ?_)
            have notEmpty : empty = false := by
              rw [isZeroSized, unknown] at known
              exact (Except.ok.inj known).symm
            subst notEmpty
            have void : empty' = true ↔ False := by
              rw [← reach'.result_eq_void_iff known', ← Bool.false_eq_true,
                ← reach.result_eq_void_iff known]
              simp only [Except.ok.injEq, TypeForm.function.injEq, true_and] at same
              rw [same]
            rw [known', Bool.eq_false_iff.2 fun e => void.1 e]
          · exact .inr (.inl unknown)
      · intro condition
        have known' : (t.define p form).isZeroSized (resultType results resultStruct) =
            .ok empty := by
          obtain ⟨unknown, nothing⟩ | same := sharper
          · obtain e | sized | zero := condition
            · exact absurd e ne
            · exact absurd unknown sized
            · rw [zero, ← nothing, known]
          · rw [known] at same
            exact toOption_eq_some.1 same
        obtain ⟨g, u, made', found'⟩ := reach'.exists_functionType (screen.trans clean) known'
        exact ⟨g, u, made', form_eq_ok.2 ⟨_, found'⟩⟩

/-- A result that gets a field is the same before and after. -/
theorem signature_commutes_sized :
    ∃ t t' : TypeTable, t.Reachable ∧ t.isPending ⟨14⟩ = true ∧
      t.resolve ⟨14⟩ ⟨15⟩ = .ok (.ok .resolved, t') ∧
      t.layout? ⟨14⟩ = .ok none ∧ t'.isZeroSized ⟨14⟩ = .ok false ∧
      ∃ s s' u, t.functionType none [] [⟨.empty, ⟨14⟩⟩] .void = .ok (⟨16⟩, s) ∧
        s.resolve ⟨14⟩ ⟨15⟩ = .ok (.ok .resolved, s') ∧
        t'.functionType none [] [⟨.empty, ⟨14⟩⟩] .void = .ok (⟨16⟩, u) ∧
        u.form ⟨16⟩ = s'.form ⟨16⟩ := by
  let t₁ := ((initial .standard).placeholder .struct .empty).2
  let t := (t₁.push (.struct [.i64]) none).2
  let t' := t.define ⟨14⟩ (.struct [.i64])
  have first : Step (initial .standard) t₁ := ⟨.placeholder .struct .empty, rfl⟩
  have second : Step t₁ t := ⟨.intern (.struct [.i64]), by decide +kernel⟩
  have reach : t.Reachable := ⟨.standard, (ReflTransGen.single first).tail second⟩
  have resolved : t.resolve ⟨14⟩ ⟨15⟩ = .ok (.ok .resolved, t') := by decide +kernel
  have made : t.functionType none [] [⟨.empty, ⟨14⟩⟩] .void =
      .ok (⟨16⟩, (t.push (.function [] ⟨14⟩) none).2) := by decide +kernel
  have sized : t'.isZeroSized ⟨14⟩ = .ok false := by decide +kernel
  obtain ⟨s', later, commutes⟩ := ((signature_commutes_iff reach resolved none []
    [⟨.empty, ⟨14⟩⟩] .void).2 _ _ made).2
  obtain ⟨g, u, made', same⟩ := commutes.2 (.inr (.inr sized))
  have at_ : t'.functionType none [] [⟨.empty, ⟨14⟩⟩] .void =
      .ok (⟨16⟩, (t'.push (.function [] ⟨14⟩) none).2) := by decide +kernel
  cases made'.symm.trans at_
  exact ⟨t, t', reach, rfl, resolved, by decide +kernel, sized, _, s', _, made, later, at_, same⟩

/-- A result that turns out to be empty stays the result of a signature that was made before, and is
void in one that is made after. -/
theorem signature_not_commutes_empty :
    ∃ t s s' t' u : TypeTable, t.Reachable ∧ t.isPending ⟨14⟩ = true ∧
      t.functionType none [] [⟨.empty, ⟨14⟩⟩] .void = .ok (⟨16⟩, s) ∧
      s.resolve ⟨14⟩ ⟨15⟩ = .ok (.ok .resolved, s') ∧
      s'.functionResult? ⟨16⟩ = .ok (some ⟨14⟩) ∧ s'.isZeroSized ⟨14⟩ = .ok true ∧
      t.resolve ⟨14⟩ ⟨15⟩ = .ok (.ok .resolved, t') ∧
      t'.functionType none [] [⟨.empty, ⟨14⟩⟩] .void = .ok (⟨16⟩, u) ∧
      u.functionResult? ⟨16⟩ = .ok (some .void) := by
  let t₁ := ((initial .standard).placeholder .struct .empty).2
  let t := (t₁.push (.struct []) none).2
  have first : Step (initial .standard) t₁ := ⟨.placeholder .struct .empty, rfl⟩
  have second : Step t₁ t := ⟨.intern (.struct []), by decide +kernel⟩
  let s := (t.push (.function [] ⟨14⟩) none).2
  let t' := t.define ⟨14⟩ (.struct [])
  refine ⟨t, s, s.define ⟨14⟩ (.struct []), t', (t'.push (.function [] .void) none).2,
    ⟨.standard, (ReflTransGen.single first).tail second⟩, rfl, ?_, ?_, ?_, ?_, ?_, ?_, ?_⟩
  all_goals decide +kernel

end Codegen.TypeTable
