import Codegen.Compilation.Functions
import Codegen.Compilation.Types
import Codegen.Proofs.Outcome

/-!
Laws of steps: how the compilation after a step is related to the one before. A step obeys a law if
its parts do, so a law has to be looked at only where a compilation is changed.
-/

namespace Codegen

/-- A relation between the compilations before and after a step. It is claimed of steps from some
compilations only, which a step does not lead away from. -/
structure Law where
  start : Compilation → Prop
  holds : Compilation → Compilation → Prop
  refl : ∀ {c}, start c → holds c c
  trans : ∀ {c c₁ c₂}, holds c c₁ → holds c₁ c₂ → holds c c₂
  keeps : ∀ {c c'}, start c → holds c c' → start c'

/-- The law holds of every run of a step. -/
def Obeys {α : Type} (L : Law) (op : Build α) : Prop :=
  ∀ c a c', L.start c → op c = .ok (a, c') → L.holds c c'

namespace Build

variable {α : Type} {c c' : Compilation}

theorem ask_ok {q : Compilation → Except Fault α} {a : α} (h : ask q c = .ok (a, c')) :
    q c = .ok a ∧ c' = c := by
  rw [ask, Run.get_bind] at h
  exact Run.lift_ok h

theorem ask_bind_ok {β : Type} {q : Compilation → Except Fault α} {k : α → Build β}
    {r : β × Compilation} (h : (ask q >>= k) c = .ok r) : ∃ a, q c = .ok a ∧ k a c = .ok r := by
  obtain ⟨a, c₁, e, rest⟩ := Run.bind_ok.1 h
  obtain ⟨e, rfl⟩ := ask_ok e
  exact ⟨a, e, rest⟩

end Build

namespace Obeys

variable {α β : Type} {L : Law}

@[grind ←] theorem bind {x : Build α} {f : α → Build β} (hx : Obeys L x) (hf : ∀ a, Obeys L (f a)) :
    Obeys L (x >>= f) := by
  intro c b c' start run
  obtain ⟨a, c₁, first, run⟩ := Run.bind_ok.1 run
  have before := hx c a c₁ start first
  exact L.trans before (hf a c₁ b c' (L.keeps start before) run)

@[grind ←] theorem pure (a : α) : Obeys L (pure a : Build α) := fun _ _ _ start run => by
  obtain ⟨-, rfl⟩ := Run.pure_ok run
  exact L.refl start

@[grind ←] theorem throw (fault : Fault) : Obeys L (throw fault : Build α) := fun _ _ _ _ run => by
  cases run

@[grind ←] theorem get : Obeys L (MonadState.get : Build Compilation) := fun _ _ _ start run => by
  cases run
  exact L.refl start

@[grind ←] theorem lift (e : Except Fault α) : Obeys L (liftM e : Build α) :=
  fun _ _ _ start run => by
  obtain ⟨-, rfl⟩ := Run.lift_ok run
  exact L.refl start

@[grind ←] theorem ask (q : Compilation → Except Fault α) : Obeys L (Build.ask q) :=
  fun _ _ _ start run => by
    obtain ⟨-, rfl⟩ := Build.ask_ok run
    exact L.refl start

@[grind ←] theorem map {x : Build α} (f : α → β) (hx : Obeys L x) : Obeys L (f <$> x) := by
  rw [map_eq_pure_bind]
  exact hx.bind fun _ => .pure _

theorem ite {p : Prop} [Decidable p] {x y : Build α} (hx : Obeys L x) (hy : Obeys L y) :
    Obeys L (if p then x else y) := by
  split
  · exact hx
  · exact hy

/-- An early answer where a test succeeds. -/
theorem guard {x : Build Bool} {a : α} {k : Build α} (hx : Obeys L x) (hk : Obeys L k) :
    Obeys L (x >>= fun b => if b = true then Pure.pure a else k) :=
  .bind hx fun _ => .ite (.pure a) hk

@[grind ←] theorem anyM {p : α → Build Bool} {xs : List α} (h : ∀ a, Obeys L (p a)) :
    Obeys L (xs.anyM p) := by
  induction xs with
  | nil => exact .pure false
  | cons x rest ih =>
    rw [List.anyM_cons]
    refine .bind (h x) fun b => ?_
    cases b with
    | true => exact .pure true
    | false => exact ih

@[grind ←] theorem mapM {f : α → Build β} {xs : List α} (h : ∀ a, Obeys L (f a)) :
    Obeys L (xs.mapM f) := by
  induction xs with
  | nil => exact .pure []
  | cons x rest ih =>
    rw [List.mapM_cons]
    exact .bind (h x) fun _ => .bind ih fun _ => .pure _

@[grind ←] theorem forM {f : α → Build Unit} {xs : List α} (h : ∀ a, Obeys L (f a)) :
    Obeys L (xs.forM f) := by
  induction xs with
  | nil => exact .pure ()
  | cons x rest ih => exact .bind (h x) fun _ => ih

theorem filterAuxM {p : α → Build Bool} {xs acc : List α} (h : ∀ a, Obeys L (p a)) :
    Obeys L (xs.filterAuxM p acc) := by
  induction xs generalizing acc with
  | nil => exact .pure acc
  | cons x rest ih => exact .bind (h x) fun _ => ih

@[grind ←] theorem filterM {p : α → Build Bool} {xs : List α} (h : ∀ a, Obeys L (p a)) :
    Obeys L (xs.filterM p) := .bind (filterAuxM h) fun _ => .pure _

end Obeys

namespace Build

variable {L : Law}

attribute [local grind unfold] getNode getFunction getVariable isErrorType typeName constInit

/-! Questions obey every law. -/

@[grind ←] theorem obeys_typeOf (expr : NodeId) : Obeys L (typeOf expr) := by
  unfold typeOf
  grind

@[grind ←] theorem obeys_isErrorExpr (expr : NodeId) : Obeys L (isErrorExpr expr) := by
  unfold isErrorExpr
  grind

@[grind ←] theorem obeys_isErrorVar (var : VarId) : Obeys L (isErrorVar var) := by
  unfold isErrorVar
  grind

@[grind ←] theorem obeys_throwWithType {α : Type} (ty : TypeId) (fault : String → Fault) :
    Obeys L (throwWithType ty fault : Build α) := by
  unfold throwWithType
  grind

@[grind ←] theorem obeys_lvalue (id : NodeId) : Obeys L (lvalue id) := by
  unfold lvalue
  grind

@[grind ←] theorem obeys_arrayLength (length : NodeId) : Obeys L (arrayLength length) := by
  unfold arrayLength
  grind

@[grind ←] theorem obeys_takeGlobals (vars : List VarId) : Obeys L (takeGlobals vars) := by
  induction vars with
  | nil => exact .pure []
  | cons var rest ih =>
    unfold takeGlobals
    grind

/-- The definitions change a compilation by the destruction of constants only. -/
theorem obeys_definitions (destroys : ∀ root, Obeys L (destroy root .all)) (types : List TypeId)
    (constants : List NodeId) (functions : List FuncId) (vars : List VarId) :
    Obeys L (definitions types constants functions vars) := by
  have taken : Obeys L (takeConstants constants) := by
    induction constants with
    | nil => exact .pure []
    | cons constant rest ih =>
      unfold takeConstants
      grind
  unfold definitions
  grind

end Build

end Codegen
