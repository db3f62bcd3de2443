import Codegen.Fault

/-!
How steps that may stop with a fault compose: a sequence gives an answer exactly when each of its
steps does.
-/

namespace Codegen

variable {α β : Type}

theorem bind_eq_ok {x : Except Fault α} {f : α → Except Fault β} {b : β} :
    (x >>= f) = .ok b ↔ ∃ a, x = .ok a ∧ f a = .ok b := by
  cases x with
  | error e => simp [bind, Except.bind]
  | ok a => simp [bind, Except.bind]

@[simp] theorem pure_eq_ok {a b : α} : (pure a : Except Fault α) = .ok b ↔ a = b := by
  simp [pure, Except.pure]

@[simp] theorem fault_ne_ok {fault : Fault} {b : α} :
    (throw fault : Except Fault α) ≠ .ok b := by
  simp [throw, throwThe, MonadExceptOf.throw]

theorem map_eq_ok {x : Except Fault α} {f : α → β} {b : β} (h : x.map f = .ok b) :
    ∃ a, x = .ok a ∧ f a = b := by
  cases x with
  | error e => cases h
  | ok a => exact ⟨a, rfl, Except.ok.inj h⟩

theorem toOption_eq_some {x : Except Fault α} {a : α} : x.toOption = some a ↔ x = .ok a := by
  cases x <;> simp [Except.toOption]

theorem toOption_eq_none {x : Except Fault α} : x.toOption = none ↔ ∃ fault, x = .error fault := by
  cases x <;> simp [Except.toOption]

theorem toOption_bind (x : Except Fault α) (f : α → Except Fault β) :
    (x >>= f).toOption = x.toOption.bind fun a => (f a).toOption := by
  cases x <;> rfl

/-! ## Steps on a state -/

namespace Run

variable {σ : Type} {s s' : σ}

theorem bind_ok {x : StateT σ (Except Fault) α} {f : α → StateT σ (Except Fault) β} {r : β × σ} :
    (x >>= f) s = .ok r ↔ ∃ a s₁, x s = .ok (a, s₁) ∧ f a s₁ = .ok r := by
  constructor
  · intro h
    obtain ⟨⟨a, s₁⟩, e, e'⟩ := bind_eq_ok.1 h
    exact ⟨a, s₁, e, e'⟩
  · rintro ⟨a, s₁, e, e'⟩
    exact bind_eq_ok.2 ⟨(a, s₁), e, e'⟩

theorem pure_ok {x a : α} (h : (pure x : StateT σ (Except Fault) α) s = .ok (a, s')) :
    a = x ∧ s' = s := by
  cases h
  exact ⟨rfl, rfl⟩

theorem get_bind (s : σ) (f : σ → StateT σ (Except Fault) β) :
    ((get : StateT σ (Except Fault) σ) >>= f) s = f s s := rfl

theorem set_bind (s t : σ) (f : PUnit → StateT σ (Except Fault) β) :
    ((set t : StateT σ (Except Fault) PUnit) >>= f) s = f ⟨⟩ t := rfl

theorem set_ok {t : σ} {u : PUnit} (h : (set t : StateT σ (Except Fault) PUnit) s = .ok (u, s')) :
    s' = t := by
  cases h
  rfl

theorem map_ok {x : StateT σ (Except Fault) α} {f : α → β} {b : β} (h : (f <$> x) s = .ok (b, s')) :
    ∃ a, x s = .ok (a, s') ∧ b = f a := by
  rw [map_eq_pure_bind] at h
  obtain ⟨a, s₁, done, h⟩ := bind_ok.1 h
  obtain ⟨rfl, rfl⟩ := pure_ok h
  exact ⟨a, done, rfl⟩

theorem lift_ok {x : Except Fault α} {a : α}
    (h : (liftM x : StateT σ (Except Fault) α) s = .ok (a, s')) : x = .ok a ∧ s' = s := by
  cases x with
  | error => cases h
  | ok => cases h; exact ⟨rfl, rfl⟩

theorem lift_bind_ok {x : Except Fault α} {f : α → StateT σ (Except Fault) β} {r : β × σ}
    (h : ((liftM x : StateT σ (Except Fault) α) >>= f) s = .ok r) :
    ∃ a, x = .ok a ∧ f a s = .ok r := by
  cases x with
  | error e => cases h
  | ok a => exact ⟨a, rfl, h⟩

theorem bind_of_ok {x : StateT σ (Except Fault) α} {a : α} {s₁ : σ} (h : x s = .ok (a, s₁))
    (f : α → StateT σ (Except Fault) β) : (x >>= f) s = f a s₁ := by
  change (x s >>= fun r => f r.1 r.2) = _
  rw [h]
  rfl

theorem lift_of_ok {x : Except Fault α} {a : α} (h : x = .ok a) :
    (liftM x : StateT σ (Except Fault) α) s = .ok (a, s) := by
  rw [h]
  rfl

theorem forM_cons_ok {walk : α → StateT σ (Except Fault) Unit} {x : α} {rest : List α} {u : Unit}
    (h : (x :: rest).forM walk s = .ok (u, s')) :
    ∃ s₁, walk x s = .ok ((), s₁) ∧ rest.forM walk s₁ = .ok (u, s') := by
  obtain ⟨_, s₁, first, later⟩ := (bind_ok (x := walk x) (f := fun _ => rest.forM walk)).1 h
  exact ⟨s₁, first, later⟩

end Run

/-! ## Searches -/

/-- A search that fails has asked about every element. -/
theorem anyM_eq_ok_false {p : α → Except Fault Bool} {l : List α} :
    l.anyM p = .ok false ↔ ∀ a ∈ l, p a = .ok false := by
  induction l with
  | nil => simp
  | cons a l ih =>
    rw [List.anyM_cons, bind_eq_ok]
    constructor
    · rintro ⟨b, hb, h⟩
      cases b with
      | true => simp at h
      | false => simpa [hb] using ih.1 h
    · intro h
      exact ⟨false, h a (by simp), ih.2 fun x hx => h x (by simp [hx])⟩

/-- A search that succeeds has found an element. -/
theorem exists_of_anyM_eq_ok_true {p : α → Except Fault Bool} {l : List α}
    (h : l.anyM p = .ok true) : ∃ a ∈ l, p a = .ok true := by
  induction l with
  | nil => simp at h
  | cons a l ih =>
    rw [List.anyM_cons, bind_eq_ok] at h
    obtain ⟨b, hb, h⟩ := h
    cases b with
    | true => exact ⟨a, by simp, hb⟩
    | false =>
      obtain ⟨x, hx, px⟩ := ih h
      exact ⟨x, by simp [hx], px⟩

theorem exists_anyM_eq_ok {p : α → Except Fault Bool} {l : List α}
    (total : ∀ x ∈ l, ∃ b, p x = .ok b) : ∃ b, l.anyM p = .ok b := by
  induction l with
  | nil => exact ⟨false, rfl⟩
  | cons x l ih =>
    obtain ⟨b, hb⟩ := total x (by simp)
    rw [List.anyM_cons, hb]
    cases b with
    | true => exact ⟨true, rfl⟩
    | false => exact ih fun y hy => total y (by simp [hy])

theorem anyM_eq_ok_true {p : α → Except Fault Bool} {l : List α} {a : α}
    (total : ∀ x ∈ l, ∃ b, p x = .ok b) (mem : a ∈ l) (h : p a = .ok true) :
    l.anyM p = .ok true := by
  obtain ⟨b, hb⟩ := exists_anyM_eq_ok total
  cases b with
  | true => exact hb
  | false => simp [anyM_eq_ok_false.1 hb a mem] at h

theorem anyM_map {f : α → β} {p : β → Except Fault Bool} (l : List α) :
    (l.map f).anyM p = l.anyM fun a => p (f a) := by
  induction l with
  | nil => rfl
  | cons a rest ih => rw [List.map_cons, List.anyM_cons, List.anyM_cons, ih]

theorem anyM_append (q : α → Except Fault Bool) (l m : List α) :
    (l ++ m).anyM q = l.anyM q >>= fun found => if found then pure true else m.anyM q := by
  induction l with
  | nil => rfl
  | cons a l ih =>
    rw [List.cons_append, List.anyM_cons, List.anyM_cons, ih]
    cases q a with
    | error => rfl
    | ok b => cases b <;> rfl

/-! ## Walks -/

theorem exists_ok_of_mapM {f : α → Except Fault β} {xs : List α} {ys : List β}
    (run : xs.mapM f = .ok ys) : ∀ x ∈ xs, ∃ y, f x = .ok y := by
  induction xs generalizing ys with
  | nil => exact fun _ mem => absurd mem List.not_mem_nil
  | cons x rest ih =>
    rw [List.mapM_cons] at run
    obtain ⟨y, first, run⟩ := bind_eq_ok.1 run
    obtain ⟨more, others, -⟩ := bind_eq_ok.1 run
    exact List.forall_mem_cons.2 ⟨⟨y, first⟩, ih others⟩

theorem mapM_eq_ok_mono {f g : α → Except Fault β} (mono : ∀ {x y}, f x = .ok y → g x = .ok y)
    {xs : List α} {ys : List β} (run : xs.mapM f = .ok ys) : xs.mapM g = .ok ys := by
  induction xs generalizing ys with
  | nil => exact run
  | cons x rest ih =>
    rw [List.mapM_cons] at run ⊢
    obtain ⟨y, first, run⟩ := bind_eq_ok.1 run
    obtain ⟨more, others, run⟩ := bind_eq_ok.1 run
    exact bind_eq_ok.2 ⟨y, mono first, bind_eq_ok.2 ⟨more, ih others, run⟩⟩

/-! ## Ends -/

/-- A descent that comes to an end, with an answer or with a fault of its own. -/
def Ends (x : Except Fault α) : Prop := x ≠ .error .endless

theorem ends_ok (a : α) : Ends (.ok a : Except Fault α) := by
  simp [Ends]

theorem ends_pure (a : α) : Ends (pure a : Except Fault α) := ends_ok a

theorem ends_bind {x : Except Fault α} {f : α → Except Fault β} (hx : Ends x)
    (hf : ∀ a, x = .ok a → Ends (f a)) : Ends (x >>= f) := by
  cases x with
  | error e =>
    intro h
    exact hx (by simpa [bind, Except.bind] using h)
  | ok a => exact hf a rfl

theorem ends_anyM {p : α → Except Fault Bool} {l : List α} (h : ∀ a ∈ l, Ends (p a)) :
    Ends (l.anyM p) := by
  induction l with
  | nil => exact ends_ok false
  | cons a l ih =>
    rw [List.anyM_cons]
    refine ends_bind (h a (by simp)) fun b _ => ?_
    cases b with
    | true => exact ends_ok true
    | false => exact ih fun x hx => h x (by simp [hx])

/-- What comes to an end the first time answers the same the second time. -/
def Refines (x y : Except Fault α) : Prop := Ends x → y = x

theorem Refines.refl (x : Except Fault α) : Refines x x := fun _ => rfl

theorem Refines.bind {x y : Except Fault α} {f g : α → Except Fault β} (hx : Refines x y)
    (hf : ∀ a, Refines (f a) (g a)) : Refines (x >>= f) (y >>= g) := by
  intro ends
  have first : Ends x := by
    rintro rfl
    exact ends rfl
  rw [hx first]
  cases x with
  | error => rfl
  | ok a => exact hf a ends

theorem Refines.of_ok {x y : Except Fault α} {a : α} (h : Refines x y) (e : x = .ok a) :
    y = .ok a := by
  rw [h (e ▸ ends_ok a), e]

end Codegen
