import Codegen.Proofs.Types.Definition

/-!
Layouts stay. A type that has a layout keeps it under every later call, as long as no placeholder
becomes an error: what is entered is new, and a placeholder with a layout is a pointer, as is what
defines it.
-/

namespace Codegen.TypeTable

open Relation

/-- A call that makes no placeholder an error. -/
def CalmStep (t t' : TypeTable) : Prop :=
  ∃ call : Call, call.run t = .ok t' ∧ ∀ d, call.definition? = some d →
    t.isPending d.subject = true → d.run t ≠ .ok (.ok .errorType, t')

/-- Any number of such calls. -/
abbrev CalmRun : TypeTable → TypeTable → Prop := ReflTransGen CalmStep

variable {align index m n offset : Nat} {field id p real under : TypeId} {fields : List TypeId}
  {form : TypeForm} {l : Layout} {s t t' : TypeTable}

theorem CalmStep.step (h : CalmStep t t') : Step t t' :=
  ⟨h.choose, h.choose_spec.1⟩

/-- Such a call enters a form, creates a placeholder, or gives one its form. -/
theorem CalmStep.effect (h : CalmStep t t') :
    t.Enters t' ∨ (∃ shape name, t' = (t.placeholder shape name).2) ∨
      ∃ s id real form, t.Enters s ∧ s.Settles id real form ∧ t' = s.define id form := by
  obtain ⟨call, h, calm⟩ := h
  obtain brings | await | ⟨d, real, s, answer, is, run, brings, resolves⟩ := call.cases h
  · exact .inl brings.enters
  · exact .inr (.inl await)
  · have enters := brings.enters
    obtain ⟨rfl, rfl⟩ | ⟨rfl, -⟩ | ⟨-, form, settles, e⟩ := resolve_cases resolves
    · cases pending : s.isPending d.subject with
      | true => exact absurd run (calm d is (enters.isPending pending))
      | false => exact .inl (by rwa [define_of_not_pending _ pending])
    · exact .inl enters
    · exact .inr (.inr ⟨s, _, real, form, enters, settles, e⟩)

/-! ## The length of a descent -/

theorem placeFields_refines {f g : TypeId → Except Fault (Option Layout)}
    (h : ∀ id, Refines (f id) (g id)) (fields : List TypeId) (offset align : Nat) :
    Refines (placeFields f fields offset align) (placeFields g fields offset align) := by
  induction fields generalizing offset align with
  | nil => exact .refl _
  | cons field rest ih =>
    refine (h field).bind fun l => ?_
    cases l with
    | none => exact .refl _
    | some l => exact (Refines.refl _).bind fun start => (Refines.refl _).bind fun stop => ih stop _

theorem layoutWithin_refines (t : TypeTable) (le : n ≤ m) (id : TypeId) :
    Refines (t.layoutWithin n id) (t.layoutWithin m id) := by
  induction n generalizing m id with
  | zero => exact fun ends => absurd rfl ends
  | succ n ih =>
    obtain ⟨m, rfl⟩ : ∃ k, m = k + 1 := ⟨m - 1, by omega⟩
    have deeper := ih (Nat.le_of_succ_le_succ le)
    refine (Refines.refl _).bind fun form => ?_
    cases form with
    | named name under => exact deeper under
    | array elem length => exact (deeper elem).bind fun l => .refl _
    | struct fields => exact placeFields_refines deeper fields 0 1
    | placeholder shape name => cases shape <;> exact .refl _
    | _ => exact .refl _

theorem underlyingWithin_refines (t : TypeTable) (le : n ≤ m) (id : TypeId) :
    Refines (t.underlyingWithin n id) (t.underlyingWithin m id) := by
  induction n generalizing m id with
  | zero => exact fun ends => absurd rfl ends
  | succ n ih =>
    obtain ⟨m, rfl⟩ : ∃ k, m = k + 1 := ⟨m - 1, by omega⟩
    refine (Refines.refl _).bind fun form => ?_
    cases form with
    | named name under => exact ih (Nat.le_of_succ_le_succ le) under
    | _ => exact .refl _

/-- The bound of descents is no limit to what they find. -/
theorem Grounded.layout?_of_within (h : t.Grounded) {l : Option Layout}
    (found : t.layoutWithin n id = .ok l) : t.layout? id = .ok l := by
  have long := (t.layoutWithin_refines (Nat.le_max_left n (t.size + 1)) id).of_ok found
  have same := t.layoutWithin_refines (Nat.le_max_right n (t.size + 1)) id (h.ends_layout? id)
  exact same.symm.trans long

theorem layout_eq_ok : t.layout id = .ok l ↔ t.layout? id = .ok (some l) := by
  unfold layout
  cases t.layout? id with
  | error fault => simp [bind, Except.bind]
  | ok found => cases found <;> simp [bind, Except.bind]

/-! ## What carries a layout over -/

theorem placeFields_transfer {f g : TypeId → Except Fault (Option Layout)}
    (h : ∀ field ∈ fields, ∀ l, f field = .ok (some l) → g field = .ok (some l))
    (placed : placeFields f fields offset align = .ok (some l)) :
    placeFields g fields offset align = .ok (some l) := by
  induction fields generalizing offset align with
  | nil => exact placed
  | cons field rest ih =>
    obtain ⟨found, hfield, placed⟩ := bind_eq_ok.1 placed
    cases found with
    | none => cases placed
    | some lf =>
      obtain ⟨start, hstart, placed⟩ := bind_eq_ok.1 placed
      obtain ⟨stop, hstop, placed⟩ := bind_eq_ok.1 placed
      have rest := ih (fun x hx => h x (by simp [hx])) placed
      unfold placeFields
      rw [h field (by simp) lf hfield]
      change (Word.roundUp offset lf.align >>= _) = _
      rw [hstart]
      change (Word.add start lf.size >>= _) = _
      rw [hstop]
      exact rest

/-- A layout is carried over by every handle that keeps its form or its layout. `k` is how far down
the latter have to look. -/
theorem layoutWithin_transfer {k : Nat} (target : t'.target = t.target)
    (step : ∀ id form, t.form id = .ok form → t'.form id = .ok form ∨
      ∀ n l, t.layoutWithin n id = .ok (some l) → t'.layoutWithin k id = .ok (some l))
    (found : t.layoutWithin n id = .ok (some l)) : t'.layoutWithin (n + k) id = .ok (some l) := by
  induction n generalizing id l with
  | zero => cases found
  | succ n ih =>
    obtain ⟨form, known, rest⟩ := bind_eq_ok.1 found
    obtain known' | direct := step id form known
    · rw [Nat.succ_add]
      unfold layoutWithin
      rw [known', target]
      cases form with
      | named name under => exact ih rest
      | array elem length =>
        obtain ⟨inner, hinner, rest⟩ := bind_eq_ok.1 rest
        cases inner with
        | none => cases rest
        | some inner =>
          change (t'.layoutWithin (n + k) elem >>= _) = _
          rw [ih hinner]
          exact rest
      | struct fields => exact placeFields_transfer (fun field _ l => ih) rest
      | placeholder shape name => cases shape <;> exact rest
      | _ => exact rest
    · exact (t'.layoutWithin_refines (Nat.le_add_left k _) id).of_ok (direct _ _ found)

theorem underlyingWithin_transfer
    (step : ∀ id form, t.form id = .ok form → form.isPlaceholder = false → t'.form id = .ok form)
    (down : t.underlyingWithin n id = .ok under) (known : t.form under = .ok form)
    (plain : form.isPlaceholder = false) : t'.underlyingWithin n id = .ok under := by
  induction n generalizing id with
  | zero => cases down
  | succ n ih =>
    obtain ⟨top, htop, down⟩ := bind_eq_ok.1 down
    have bottom (e : id = under) (other : ∀ name part, top ≠ .named name part) :
        t'.underlyingWithin (n + 1) id = .ok under := by
      subst e
      cases htop.symm.trans known
      unfold underlyingWithin
      rw [step id form known plain]
      cases form with
      | named name part => exact absurd rfl (other name part)
      | _ => rfl
    cases top with
    | named name part =>
      unfold underlyingWithin
      rw [step id _ htop rfl]
      exact ih down
    | _ => exact bottom (pure_eq_ok.1 down) (by simp)

/-! ## Every such call keeps layouts -/

/-- Every handle that has a layout keeps it, and every struct its fields. -/
structure Preserves (t t' : TypeTable) : Prop where
  layout : ∀ {id l}, t.layout? id = .ok (some l) → t'.layout? id = .ok (some l)
  fields : ∀ {id fields}, t.structFields? id = .ok (some fields) →
    t'.structFields? id = .ok (some fields)

theorem Preserves.refl (t : TypeTable) : t.Preserves t := ⟨fun h => h, fun h => h⟩

theorem Preserves.trans (h : t.Preserves s) (h' : s.Preserves t') : t.Preserves t' :=
  ⟨fun found => h'.layout (h.layout found), fun found => h'.fields (h.fields found)⟩

theorem structFields?_eq_some :
    t.structFields? id = .ok (some fields) ↔
      ∃ under, t.underlying id = .ok under ∧ t.form under = .ok (.struct fields) := by
  constructor
  · intro found
    obtain ⟨form, hform, found⟩ := bind_eq_ok.1 found
    obtain ⟨under, hunder, known⟩ := bind_eq_ok.1 hform
    cases form with
    | struct others =>
      cases found
      exact ⟨under, hunder, known⟩
    | _ => cases found
  · rintro ⟨under, hunder, known⟩
    rw [structFields?, underlyingForm, hunder]
    change (t.form under >>= _) = _
    rw [known]
    rfl

theorem structFields?_transfer (size : t.size ≤ t'.size)
    (step : ∀ id form, t.form id = .ok form → form.isPlaceholder = false → t'.form id = .ok form)
    (found : t.structFields? id = .ok (some fields)) : t'.structFields? id = .ok (some fields) := by
  obtain ⟨under, down, known⟩ := structFields?_eq_some.1 found
  have down' := underlyingWithin_transfer step down known rfl
  exact structFields?_eq_some.2 ⟨under,
    (t'.underlyingWithin_refines (Nat.succ_le_succ size) id).of_ok down', step _ _ known rfl⟩

/-- New entries disturb no layout. -/
theorem preserves_push {name? : Option Name} (grounded : (t.push form name?).2.Grounded) :
    t.Preserves (t.push form name?).2 := by
  have step (id : TypeId) (old : TypeForm) (known : t.form id = .ok old) :
      (t.push form name?).2.form id = .ok old :=
    (form_congr (lt_size_of_form known) (find?_push_of_lt (lt_size_of_form known))).trans known
  refine ⟨fun found => ?_, structFields?_transfer (by simp) fun id old known _ => step id old known⟩
  have target : (t.push form name?).2.target = t.target := rfl
  exact grounded.layout?_of_within (layoutWithin_transfer (k := 0) target
    (fun id old known => .inl (step id old known)) found)

theorem form_define_of_ne (form : TypeForm) {old : TypeForm} (ne : id ≠ p)
    (known : t.form id = .ok old) : (t.define p form).form id = .ok old :=
  (form_congr (lt_size_of_form known) (find?_define_of_ne ne)).trans known

/-- Whatever is a pointer below its names is laid out as one, also while a placeholder that is not
in it gets its form. -/
theorem layoutWithin_of_underlying (form : TypeForm) {low : TypeForm} (apart : ¬t.StoredIn p id)
    (down : t.underlyingWithin n id = .ok under) (known : t.form under = .ok low)
    (fits : low.shape? = some .pointer ∨ low.shape? = some .function) :
    (t.define p form).layoutWithin n id = .ok (some t.target.pointer) := by
  induction n generalizing id with
  | zero => cases down
  | succ n ih =>
    obtain ⟨top, htop, down⟩ := bind_eq_ok.1 down
    have ne : id ≠ p := by
      rintro rfl
      exact apart .refl
    have bottom (e : id = under) :
        (t.define p form).layoutWithin (n + 1) id = .ok (some t.target.pointer) := by
      subst e
      cases htop.symm.trans known
      unfold layoutWithin
      rw [form_define_of_ne form ne known]
      cases low with
      | pointer | function => rfl
      | placeholder shape name => cases shape <;> first | rfl | simp [TypeForm.shape?] at fits
      | _ => simp [TypeForm.shape?] at fits
    cases top with
    | named name part =>
      unfold layoutWithin
      rw [form_define_of_ne form ne htop]
      exact ih (fun stored => apart (stored.tail ⟨_, htop, by simp [TypeForm.parts]⟩)) down
    | _ => exact bottom (pure_eq_ok.1 down)

theorem layoutWithin_congr {a b : TypeId} (same : t.form b = t.form a) {l : Option Layout}
    (found : t.layoutWithin n a = .ok l) : t.layoutWithin n b = .ok l := by
  cases n with
  | zero => cases found
  | succ n =>
    obtain ⟨form, known, found⟩ := bind_eq_ok.1 found
    unfold layoutWithin
    rw [same, known]
    cases form with
    | array elem length =>
      obtain ⟨inner, hinner, found⟩ := bind_eq_ok.1 found
      change (t.layoutWithin n elem >>= _) = _
      rw [hinner]
      cases inner with
      | none => exact found
      | some inner =>
        dsimp only at found
        split at found
        · rename_i fits
          change (if _ then _ else _) = _
          rw [if_pos fits]
          exact found
        · cases found
    | placeholder shape name => cases shape <;> exact found
    | _ => exact found

/-- A placeholder that gets its form disturbs no layout: it has one only if it stands for a pointer
or a function, and then so does the form. -/
theorem preserves_define (settles : t.Settles p real form) (grounded : (t.define p form).Grounded) :
    t.Preserves (t.define p form) := by
  obtain ⟨shape, name, low, waits, below, fits⟩ := settles.fits
  obtain ⟨under, down, known⟩ := bind_eq_ok.1 below
  obtain ⟨old, other, found⟩ := isPending_iff.1 settles.pending
  have ne : real ≠ p := by
    rintro rfl
    cases settles.pending.symm.trans settles.settled
  have same : (t.define p form).form p = (t.define p form).form real := by
    rw [form_define_of_ne form ne settles.known]
    exact form_eq_ok.2 ⟨_, find?_define found⟩
  have apart := not_storedIn_of_holdsWithin settles.apart
  have pointer (fits : low.shape? = some .pointer ∨ low.shape? = some .function) :=
    layoutWithin_congr same (layoutWithin_of_underlying form apart down known fits)
  constructor
  · intro id l found
    have target : (t.define p form).target = t.target := rfl
    refine grounded.layout?_of_within (layoutWithin_transfer (k := t.size + 1) target ?_ found)
    intro id old known
    by_cases e : id = p
    · subst e
      refine .inr fun n l found => ?_
      cases n with
      | zero => cases found
      | succ n =>
        unfold layoutWithin at found
        rw [waits] at found
        cases shape with
        | pointer =>
          cases found
          exact pointer (.inl fits)
        | function =>
          cases found
          exact pointer (.inr fits)
        | struct | array => cases found
    · exact .inl (form_define_of_ne form e known)
  · refine structFields?_transfer (by simp) fun id old known plain => ?_
    refine form_define_of_ne form (fun e => ?_) known
    subst e
    cases waits.symm.trans known
    cases plain

theorem Enters.grounded (h : t.Enters s) (grounded : t.Grounded) : s.Grounded := by
  cases h with
  | same => exact grounded
  | new plain clean =>
    refine grounded.push (fun c hc => ?_) fun name e => by cases e
    exact lt_size_of_isError_false ((hasErrorPart_eq_false.1 clean).2 c hc)

theorem Enters.preserves (h : t.Enters s) (grounded : t.Grounded) : t.Preserves s := by
  have grounded' := h.grounded grounded
  cases h with
  | same => exact .refl _
  | new => exact preserves_push grounded'

theorem Reachable.step (reach : t.Reachable) (h : Step t t') : t'.Reachable := by
  obtain ⟨target, run⟩ := reach
  exact ⟨target, run.tail h⟩

theorem CalmStep.preserves (reach : t.Reachable) (h : CalmStep t t') : t.Preserves t' := by
  have grounded := (reach.step h.step).grounded
  obtain enters | ⟨shape, name, rfl⟩ | ⟨s, id, real, form, enters, settles, rfl⟩ := h.effect
  · exact enters.preserves reach.grounded
  · exact preserves_push grounded
  · exact (enters.preserves reach.grounded).trans (preserves_define settles grounded)

theorem CalmRun.preserves (reach : t.Reachable) (run : CalmRun t t') :
    t'.Reachable ∧ t.Preserves t' := by
  induction run with
  | refl => exact ⟨reach, .refl t⟩
  | tail _ step ih =>
    obtain ⟨reach, before⟩ := ih
    exact ⟨reach.step step.step, before.trans (step.preserves reach)⟩

/-! ## Offsets -/

/-- Fields that are placed have layouts of their own. -/
theorem layouts_of_placeFields {layout : TypeId → Except Fault (Option Layout)}
    (placed : placeFields layout fields offset align = .ok (some l)) :
    ∀ field ∈ fields, ∃ lf, layout field = .ok (some lf) := by
  induction fields generalizing offset align with
  | nil => simp
  | cons field rest ih =>
    obtain ⟨found, hfield, placed⟩ := bind_eq_ok.1 placed
    cases found with
    | none => cases placed
    | some lf =>
      obtain ⟨start, -, placed⟩ := bind_eq_ok.1 placed
      obtain ⟨stop, -, placed⟩ := bind_eq_ok.1 placed
      intro x hx
      obtain rfl | hx := List.mem_cons.1 hx
      · exact ⟨lf, hfield⟩
      · exact ih placed x hx

/-- Each field that was placed has an offset. -/
theorem Grounded.offsetAfter_isOk (grounded : t.Grounded)
    (placed : placeFields (t.layoutWithin n) fields offset align = .ok (some l))
    (at_index : fields[index]? = some field) :
    ∃ start, t.offsetAfter offset (fields.take index) field = .ok start := by
  induction fields generalizing offset align index with
  | nil => simp at at_index
  | cons first rest ih =>
    obtain ⟨found, hfirst, placed⟩ := bind_eq_ok.1 placed
    cases found with
    | none => cases placed
    | some lf =>
      obtain ⟨start, hstart, placed⟩ := bind_eq_ok.1 placed
      obtain ⟨stop, hstop, placed⟩ := bind_eq_ok.1 placed
      have laid : t.layout first = .ok lf := layout_eq_ok.2 (grounded.layout?_of_within hfirst)
      cases index with
      | zero =>
        cases at_index
        refine ⟨start, ?_⟩
        rw [List.take_zero, offsetAfter, laid]
        exact hstart
      | succ index =>
        obtain ⟨last, hlast⟩ := ih placed at_index
        refine ⟨last, ?_⟩
        rw [List.take_succ_cons, offsetAfter, laid]
        change (Word.roundUp offset lf.align >>= _) = _
        rw [hstart]
        change (Word.add start lf.size >>= _) = _
        rw [hstop]
        exact hlast

theorem offsetAfter_congr {last : TypeId}
    (same : ∀ field, field ∈ last :: fields → t'.layout field = t.layout field) (offset : Nat) :
    t'.offsetAfter offset fields last = t.offsetAfter offset fields last := by
  induction fields generalizing offset with
  | nil => rw [offsetAfter, offsetAfter, same last (by simp)]
  | cons field rest ih =>
    have later : ∀ stop, t'.offsetAfter stop rest last = t.offsetAfter stop rest last := by
      refine ih fun x hx => same x ?_
      simp only [List.mem_cons] at hx ⊢
      exact hx.imp_right .inr
    simp only [offsetAfter, same field (by simp), later]

/-- A struct below names is laid out by placing its fields. -/
theorem placed_of_layoutWithin (found : t.layoutWithin n id = .ok (some l))
    (down : t.underlyingWithin m id = .ok under) (known : t.form under = .ok (.struct fields)) :
    ∃ k, placeFields (t.layoutWithin k) fields 0 1 = .ok (some l) := by
  induction n generalizing id m with
  | zero => cases found
  | succ n ih =>
    cases m with
    | zero => cases down
    | succ m =>
      obtain ⟨top, htop, found⟩ := bind_eq_ok.1 found
      obtain ⟨top', htop', down⟩ := bind_eq_ok.1 down
      cases htop.symm.trans htop'
      have bottom (e : id = under) : top = .struct fields := by
        subst e
        exact Except.ok.inj (htop.symm.trans known)
      cases top with
      | named name part => exact ih found down
      | struct others =>
        cases bottom (pure_eq_ok.1 down)
        exact ⟨n, found⟩
      | _ => cases bottom (pure_eq_ok.1 down)

theorem isError_of_structFields? (canonical : t.Canonical)
    (found : t.structFields? id = .ok (some fields)) : t.isError id = .ok false := by
  obtain ⟨under, down, known⟩ := structFields?_eq_some.1 found
  obtain ⟨top, htop, down⟩ := bind_eq_ok.1 down
  have sound : top ≠ .error := by
    rintro rfl
    cases down
    cases htop.symm.trans known
  exact canonical.isError_of_form htop sound

theorem offsetOf_eq (canonical : t.Canonical) (found : t.structFields? id = .ok (some fields))
    (at_index : fields[index]? = some field) :
    t.offsetOf id index = t.offsetAfter 0 (fields.take index) field := by
  rw [offsetOf, isError_of_structFields? canonical found, found]
  simp only [bind, Except.bind, Bool.false_eq_true, if_false, at_index]

/-! ## Answers that stay -/

/-- A handle answers the same size and alignment in both tables, and a struct the same offsets. -/
structure SameLayout (t t' : TypeTable) (id : TypeId) : Prop where
  size : ∃ n, t.sizeOf id = .ok n ∧ t'.sizeOf id = .ok n
  align : ∃ n, t.alignOf id = .ok n ∧ t'.alignOf id = .ok n
  offsets : ∀ fields, t.structFields? id = .ok (some fields) →
    t'.structFields? id = .ok (some fields) ∧ ∀ index < fields.length,
      ∃ n, t.offsetOf id index = .ok n ∧ t'.offsetOf id index = .ok n

theorem Preserves.sameLayout (h : t.Preserves t') (reach : t.Reachable) (reach' : t'.Reachable)
    (laid : t.layout id = .ok l) : t.SameLayout t' id := by
  have keep {id : TypeId} {l : Layout} (laid : t.layout id = .ok l) : t'.layout id = .ok l :=
    layout_eq_ok.2 (h.layout (layout_eq_ok.1 laid))
  refine ⟨⟨l.size, ?_, ?_⟩, ⟨l.align, ?_, ?_⟩, fun fields found => ⟨h.fields found, ?_⟩⟩
  · rw [sizeOf, laid]
    rfl
  · rw [sizeOf, keep laid]
    rfl
  · rw [alignOf, laid]
    rfl
  · rw [alignOf, keep laid]
    rfl
  · intro index lt
    obtain ⟨under, down, known⟩ := structFields?_eq_some.1 found
    obtain ⟨k, placed⟩ := placed_of_layoutWithin (layout_eq_ok.1 laid) down known
    have at_index : fields[index]? = some fields[index] := List.getElem?_eq_getElem lt
    obtain ⟨start, offset⟩ := reach.grounded.offsetAfter_isOk placed at_index
    refine ⟨start, ?_, ?_⟩
    · rw [offsetOf_eq reach.canonical found at_index, offset]
    · rw [offsetOf_eq reach'.canonical (h.fields found) at_index, ← offset]
      refine offsetAfter_congr (fun field mem => ?_) 0
      have inside : field ∈ fields := by
        obtain rfl | mem := List.mem_cons.1 mem
        · exact List.getElem_mem lt
        · exact List.mem_of_mem_take mem
      obtain ⟨lf, hfield⟩ := layouts_of_placeFields placed field inside
      have laid : t.layout field = .ok lf :=
        layout_eq_ok.2 (reach.grounded.layout?_of_within hfield)
      rw [laid, keep laid]

theorem layout_of_sizeOf (h : t.sizeOf id = .ok n) : ∃ l, t.layout id = .ok l := by
  obtain ⟨l, laid, -⟩ := bind_eq_ok.1 h
  exact ⟨l, laid⟩

theorem calmStep_of_resolved (h : t.resolve p real = .ok (.ok .resolved, t')) : CalmStep t t' := by
  refine ⟨.resolve p real, by rw [Call.run, h]; rfl, fun d is _ fails => ?_⟩
  cases is
  cases h.symm.trans fails

/-- A type that has a size keeps its size, its alignment and the offsets of its fields over every
further run in which no placeholder becomes an error, and so whenever a placeholder in it gets its
form. -/
theorem layout_stable {t : TypeTable} (reach : t.Reachable) {id : TypeId} {size : Nat}
    (sized : t.sizeOf id = .ok size) :
    (∀ t', CalmRun t t' → t.SameLayout t' id) ∧
    ∀ p real t', t.resolve p real = .ok (.ok .resolved, t') → t.SameLayout t' id := by
  obtain ⟨l, laid⟩ := layout_of_sizeOf sized
  have stays (t' : TypeTable) (run : CalmRun t t') : t.SameLayout t' id := by
    obtain ⟨reach', keeps⟩ := run.preserves reach
    exact keeps.sameLayout reach reach' laid
  exact ⟨stays, fun p real t' resolved => stays t' (.single (calmStep_of_resolved resolved))⟩

/-- A pointer in a struct is defined by a name over another placeholder. -/
theorem layout_stable_pointer :
    ∃ t t' : TypeTable, t.Reachable ∧ t.isPending ⟨14⟩ = true ∧ t.isPending ⟨15⟩ = true ∧
      t.form ⟨16⟩ = .ok (.named .empty ⟨15⟩) ∧ t.form ⟨17⟩ = .ok (.struct [.bool, ⟨14⟩]) ∧
      t.resolve ⟨14⟩ ⟨16⟩ = .ok (.ok .resolved, t') ∧ t.offsetOf ⟨17⟩ 1 = .ok 8 ∧
      t.SameLayout t' ⟨17⟩ := by
  let t₁ := ((initial .standard).placeholder .pointer .empty).2
  let t₂ := (t₁.placeholder .pointer .empty).2
  let t₃ := (t₂.push (.named .empty ⟨15⟩) none).2
  let t₄ := (t₃.push (.struct [.bool, ⟨14⟩]) none).2
  have first : Step (initial .standard) t₁ := ⟨.placeholder .pointer .empty, rfl⟩
  have second : Step t₁ t₂ := ⟨.placeholder .pointer .empty, rfl⟩
  have third : Step t₂ t₃ := ⟨.namedType .empty ⟨15⟩, by decide +kernel⟩
  have fourth : Step t₃ t₄ := ⟨.intern (.struct [.bool, ⟨14⟩]), by decide +kernel⟩
  have reach : t₄.Reachable :=
    ⟨.standard, (((ReflTransGen.single first).tail second).tail third).tail fourth⟩
  have resolved : t₄.resolve ⟨14⟩ ⟨16⟩ = .ok (.ok .resolved,
      t₄.define ⟨14⟩ (.named .empty ⟨15⟩)) := by
    decide +kernel
  have sized : t₄.sizeOf ⟨17⟩ = .ok 16 := by decide +kernel
  refine ⟨t₄, _, reach, rfl, rfl, rfl, rfl, resolved, by decide +kernel, ?_⟩
  exact (layout_stable reach sized).2 _ _ _ resolved

end Codegen.TypeTable
