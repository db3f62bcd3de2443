import Codegen.Proofs.Requests.Replacement
import Codegen.Proofs.Tree.Circles

/-!
The definitions of a unit with some of them left out. What is taken over is destroyed, so that a
constant that is left out leaves more nodes behind than there would be otherwise, and never fewer.
-/

namespace Codegen

open Compilation

namespace Arena

variable {a a' : Arena} {id n : NodeId} {fuel : Nat} {v : GlobalInit}

/-- A constant is spelled out by its children, if it has any. -/
theorem constInitWithin_kids (shaped : a.WellFormed)
    (run : Build.constInitWithin a (fuel + 1) id = .ok v) : ∃ node, a.find? id = some node ∧
      ∀ k ∈ node.kids, ∃ w, Build.constInitWithin a fuel k = .ok w := by
  obtain ⟨node, got, run⟩ := bind_eq_ok.1 run
  have find := get_eq_ok.1 got
  refine ⟨node, find, ?_⟩
  split at run
  · rename_i kind
    simp [(shaped.nodes find).kids_eq_nil (by rw [kind]; rfl)]
  · obtain ⟨vals, kids, -⟩ := bind_eq_ok.1 run
    exact exists_ok_of_mapM kids
  · cases run

/-- All nodes of a constant are there, so that more nodes add nothing below it. -/
theorem below_of_constInitWithin (shaped : a.WellFormed)
    (more : ∀ {n m}, a.find? n = some m → a'.find? n = some m)
    (run : Build.constInitWithin a fuel id = .ok v) (below : a'.Below id n) : a.Below id n := by
  induction fuel generalizing id v with
  | zero => cases run
  | succ fuel ih =>
    obtain ⟨node, find, kids⟩ := constInitWithin_kids shaped run
    rcases Relation.ReflTransGen.cases_head below with rfl | ⟨k, kid, below⟩
    · exact .refl
    · have kid := (mem_kidsOf (more find)).1 kid
      obtain ⟨w, run⟩ := kids k kid.1
      exact .head ((mem_kidsOf find).2 kid) (ih run below)

/-- More nodes spell out the same constant. -/
theorem constInitWithin_mono (more : ∀ {n m}, a.find? n = some m → a'.find? n = some m)
    (run : Build.constInitWithin a fuel id = .ok v) : Build.constInitWithin a' fuel id = .ok v := by
  induction fuel generalizing id v with
  | zero => cases run
  | succ fuel ih =>
    obtain ⟨node, got, run⟩ := bind_eq_ok.1 run
    refine bind_eq_ok.2 ⟨node, get_eq_ok.2 (more (get_eq_ok.1 got)), ?_⟩
    split at run
    · exact run
    · obtain ⟨vals, done, run⟩ := bind_eq_ok.1 run
      exact bind_eq_ok.2 ⟨vals, mapM_eq_ok_mono ih done, run⟩
    · exact run

/-- What can be spelled out has no circle below it. -/
theorem not_circular_of_constInitWithin (shaped : a.WellFormed)
    (run : Build.constInitWithin a fuel id = .ok v) : ¬a.Circular id := by
  intro circle
  induction fuel generalizing id v with
  | zero => cases run
  | succ fuel ih =>
    obtain ⟨node, find, kids⟩ := constInitWithin_kids shaped run
    obtain ⟨k, kid, circle⟩ := circle.exists_kid
    obtain ⟨w, run⟩ := kids k ((mem_kidsOf find).1 kid).1
    exact ih run circle

end Arena

/-! ## Two runs -/

theorem Build.destroy_eq_ok {c c' : Compilation} {root : NodeId} {mode : DestroyMode} {u : Unit} :
    Build.destroy root mode c = .ok (u, c') ↔
      ∃ a s, c.arena.destroy c.insts root mode = .ok (a, s) ∧
      c' = { c with arena := a, insts := s } := by
  rw [destroy, Run.get_bind]
  constructor
  · intro run
    obtain ⟨⟨a, s⟩, dies, run⟩ := Run.lift_bind_ok run
    cases run
    exact ⟨a, s, dies, rfl⟩
  · rintro ⟨a, s, dies, rfl⟩
    rw [Run.bind_of_ok (Run.lift_of_ok dies)]
    rfl

/-- The same compilation with fewer nodes. -/
structure Compilation.Thinner (o c : Compilation) : Prop where
  rest : c = { o with arena := c.arena, insts := c.insts }
  size : c.arena.size = o.arena.size
  nodes : ∀ {n m}, o.arena.find? n = some m → c.arena.find? n = some m
  shaped : o.arena.WellFormed
  shaped' : c.arena.WellFormed

namespace Compilation.Thinner

variable {o c o' c' : Compilation} {id : NodeId}

theorem refl (shaped : c.arena.WellFormed) : c.Thinner c :=
  ⟨rfl, rfl, fun find => find, shaped, shaped⟩

/-- A question that nodes and instructions have no part in. -/
theorem ask_eq {α : Type} (h : o.Thinner c) (q : Compilation → α)
    (other : ∀ c a s, q { c with arena := a, insts := s } = q c) : q c = q o := by
  rw [h.rest, other]

theorem errs_expr {b : Bool} (h : o.Thinner c) (asked : o.errs (.expr id) = .ok b) :
    c.errs (.expr id) = .ok b := by
  simp only [errs] at asked ⊢
  split
  · rwa [if_pos ‹_›] at asked
  · rw [if_neg ‹_›] at asked
    obtain ⟨node, got, asked⟩ := bind_eq_ok.1 asked
    rw [h.ask_eq (·.types) fun _ _ _ => rfl]
    exact bind_eq_ok.2 ⟨node, Arena.get_eq_ok.2 (h.nodes (Arena.get_eq_ok.1 got)), asked⟩

/-- A tree that is destroyed on one side only. -/
theorem destroyed {u : Unit} (h : o.Thinner c) (run : Build.destroy id .all o = .ok (u, o')) :
    o'.Thinner c := by
  obtain ⟨a, s, dies, rfl⟩ := Build.destroy_eq_ok.1 run
  have razed := Arena.razed_of_destroyWithin _ dies
  refine ⟨h.rest, h.size.trans razed.size.symm, fun {n m} found => ?_, h.shaped.destroyWithin dies,
    h.shaped'⟩
  rcases razed.find_of_dies (by decide) n with same | dead
  · exact h.nodes (same.symm.trans found)
  · cases dead.symm.trans found

/-- A constant that is destroyed on both sides. -/
theorem taken {u : Unit} {v : GlobalInit} (h : o.Thinner c)
    (spelled : Build.constInitWithin o.arena (o.arena.size + 1) id = .ok v)
    (run : Build.destroy id .all o = .ok (u, o')) :
    Build.constInit id c = .ok (v, c) ∧ ∃ c', Build.destroy id .all c = .ok (u, c') ∧
      o'.Thinner c' ∧ c'.vars = c.vars := by
  have thinner := h.destroyed run
  obtain ⟨a, s, dies, rfl⟩ := Build.destroy_eq_ok.1 run
  have spelled' := Arena.constInitWithin_mono h.nodes spelled
  obtain ⟨⟨a', s'⟩, dies'⟩ := Arena.exists_destroy .all
    (.inr (Arena.not_circular_of_constInitWithin h.shaped' spelled')) c.insts
  have razed := Arena.razed_of_destroyWithin _ dies'
  rw [← h.size] at spelled'
  refine ⟨Run.lift_of_ok spelled', _, Build.destroy_eq_ok.2 ⟨a', s', dies', rfl⟩, ?_⟩
  refine ⟨⟨?_, ?_, fun {n m} found => ?_, thinner.shaped, h.shaped'.destroyWithin dies'⟩, rfl⟩
  · rw [h.rest]
  · exact razed.size.trans thinner.size
  refine (razed.spared fun ⟨plain, below⟩ => ?_).trans (thinner.nodes found)
  -- what is below a constant is the same on both sides, and is dead
  have below := Arena.below_of_constInitWithin h.shaped h.nodes spelled below
  have gone := (Arena.razed_of_destroyWithin _ dies).dead_of_below (by decide) plain below
  cases gone.symm.trans found

end Compilation.Thinner

namespace Build

variable {o c o' : Compilation}

/-- A constant that is no error is spelled out and destroyed. -/
theorem takeConstants_cons {constant : NodeId} {rest : List NodeId} {b : Bool}
    (asked : c.errs (.expr constant) = .ok b) : takeConstants (constant :: rest) c =
      (if b then takeConstants rest else do
        let value ← constInit constant
        destroy constant .all
        return value :: (← takeConstants rest)) c := by
  rw [takeConstants, Run.bind_of_ok]
  rw [Guarded.isErrorExpr_eq, asked]
  rfl

/-- Some constants are taken on the one side, and all of them on the other. -/
theorem takeConstants_replaced {constants : List (Mark .expr)} {values : List GlobalInit}
    (h : o.Thinner c) (run : takeConstants (constants.map (Mark.kept _)) o = .ok (values, o')) :
    ∃ values' c', takeConstants (constants.map (Mark.replaced _)) c = .ok (values', c') ∧
      o'.Thinner c' ∧ c'.vars = c.vars := by
  induction constants generalizing o c values with
  | nil =>
    obtain ⟨-, rfl⟩ := Run.pure_ok run
    exact ⟨_, c, rfl, h, rfl⟩
  | cons x rest ih =>
    obtain ⟨b, o₁, asked, -⟩ := Run.bind_ok.1 run
    rw [Guarded.isErrorExpr_eq] at asked
    obtain ⟨_, looked, e⟩ := map_eq_ok asked
    cases e
    rw [List.map_cons, takeConstants_cons looked] at run
    have looked' : c.errs (.expr (Mark.replaced _ x)) = .ok (x.2 || b) := by
      obtain ⟨constant, marked⟩ := x
      cases marked with
      | true => rfl
      | false => exact h.errs_expr looked
    rw [List.map_cons, takeConstants_cons looked']
    cases b with
    | true =>
      rw [Bool.or_true]
      exact ih h run
    | false =>
      obtain ⟨value, spelled, run⟩ := ask_bind_ok run
      obtain ⟨_, o₁, gone, run⟩ := Run.bind_ok.1 run
      obtain ⟨later, o₂, others, run⟩ := Run.bind_ok.1 run
      obtain ⟨-, rfl⟩ := Run.pure_ok run
      obtain ⟨constant, marked⟩ := x
      cases marked with
      | true => exact ih (h.destroyed gone) others
      | false =>
        obtain ⟨spelled', c₁, gone', thinner, vars⟩ := h.taken spelled gone
        obtain ⟨values', c', others', thinner, vars'⟩ := ih thinner others
        refine ⟨value :: values', c', ?_, thinner, vars'.trans vars⟩
        rw [Bool.or_false, if_neg Bool.false_ne_true, Mark.replaced_of_unmarked rfl,
          Run.bind_of_ok spelled', Run.bind_of_ok gone', Run.bind_of_ok others']
        rfl

end Build

/-! ## Questions -/

/-- Steps that leave everything as it is. -/
def looking : Law where
  start _ := True
  holds c c' := c' = c
  refl _ := rfl
  trans h h' := h'.trans h
  keeps _ _ := trivial

abbrev Looks {α : Type} (op : Build α) : Prop := Obeys looking op

namespace Looks

variable {α β : Type} {c : Compilation}

theorem same {op : Build α} {x : α × Compilation} (h : Looks op) (run : op c = .ok x) :
    op c = .ok (x.1, c) := by
  rw [run, ← h c x.1 x.2 trivial run]

/-- What follows finds the same state. -/
theorem returns_bind {x : Build α} {f : α → Build β} (h : Looks x) :
    Returns (x >>= f) c ↔ ∃ a, x c = .ok (a, c) ∧ Returns (f a) c := by
  constructor
  · rintro ⟨r, run⟩
    obtain ⟨a, c₁, first, run⟩ := Run.bind_ok.1 run
    cases h c a c₁ trivial first
    exact ⟨a, first, r, run⟩
  · rintro ⟨a, first, r, run⟩
    exact ⟨r, (Run.bind_of_ok first f).trans run⟩

/-- If what follows returns whatever it is told, only the questions count. -/
theorem returns_bind_iff {x : Build α} {f : α → Build β} {P : Prop} (h : Looks x)
    (rest : ∀ a, Returns (f a) c ↔ P) : Returns (x >>= f) c ↔ Returns x c ∧ P := by
  rw [h.returns_bind]
  constructor
  · rintro ⟨a, first, later⟩
    exact ⟨⟨_, first⟩, (rest a).1 later⟩
  · rintro ⟨⟨r, first⟩, later⟩
    exact ⟨r.1, h.same first, (rest r.1).2 later⟩

theorem returns_pure (a : α) : Returns (Pure.pure a : Build α) c ↔ True := iff_true_intro ⟨_, rfl⟩

theorem returns_mapM {f : α → Build β} (h : ∀ a, Looks (f a)) {xs : List α} :
    Returns (xs.mapM f) c ↔ ∀ a ∈ xs, Returns (f a) c := by
  induction xs with
  | nil => exact ⟨fun _ _ mem => absurd mem List.not_mem_nil, fun _ => ⟨_, rfl⟩⟩
  | cons x rest ih =>
    rw [List.mapM_cons, List.forall_mem_cons, ← ih]
    exact (h x).returns_bind_iff fun _ =>
      (returns_bind_iff (.mapM h) fun _ => returns_pure _).trans (and_iff_left trivial)

theorem returns_filterM {p : α → Build Bool} (h : ∀ a, Looks (p a)) {xs : List α} :
    Returns (xs.filterM p) c ↔ ∀ a ∈ xs, Returns (p a) c := by
  have aux (acc : List α) : Returns (xs.filterAuxM p acc) c ↔ ∀ a ∈ xs, Returns (p a) c := by
    induction xs generalizing acc with
    | nil => exact ⟨fun _ _ mem => absurd mem List.not_mem_nil, fun _ => ⟨_, rfl⟩⟩
    | cons x rest ih =>
      rw [List.forall_mem_cons]
      exact (h x).returns_bind_iff fun _ => ih _
  exact (returns_bind_iff (.filterAuxM h) fun _ => returns_pure _).trans
    ((and_iff_left trivial).trans (aux []))

end Looks

/-- A variable that is a global with a definition, or an error. -/
def Compilation.Defined (c : Compilation) (var : VarId) : Prop :=
  ∃ v, c.vars[var.index]? = some v ∧
    (v.isError ∨ ∃ g, v.storage = .global g ∧ ∃ data, c.globals[g.index]? = some data)

namespace Build

variable {c : Compilation}

theorem returns_ask_entry {α β : Type} {table : Compilation → Array α} {index : Nat}
    {f : α → Build β} : Returns (ask (fun c => entry (table c) index) >>= f) c ↔
      ∃ x, (table c)[index]? = some x ∧ Returns (f x) c := by
  rw [Looks.returns_bind (.ask _)]
  refine exists_congr fun x => and_congr_left fun _ => entry_eq_ok.symm.trans ?_ |>.symm
  exact ⟨Run.lift_of_ok, fun run => (ask_ok run).1⟩

theorem returns_takeGlobals {vars : List VarId} :
    Returns (takeGlobals vars) c ↔ ∀ var ∈ vars, c.Defined var := by
  induction vars with
  | nil => exact ⟨fun _ _ mem => absurd mem List.not_mem_nil, fun _ => ⟨_, rfl⟩⟩
  | cons var rest ih =>
    rw [List.forall_mem_cons, ← ih]
    refine returns_ask_entry.trans ?_
    unfold Compilation.Defined
    rw [← exists_and_right]
    refine exists_congr fun v => ?_
    rw [and_assoc]
    refine and_congr_right fun _ => ?_
    by_cases error : v.isError
    · rw [if_pos error]
      simp [error]
    · rw [if_neg error]
      simp only [error, Bool.false_eq_true, false_or]
      split
      · rename_i g storage
        rw [returns_ask_entry, storage]
        have later (data : GlobalData) :
            Returns (do return data :: (← takeGlobals rest)) c ↔ Returns (takeGlobals rest) c :=
          (Looks.returns_bind_iff (obeys_takeGlobals rest) fun _ => Looks.returns_pure _).trans
            (and_iff_left trivial)
        simp only [later, exists_and_right, Value.global.injEq, exists_eq_left']
      · rename_i other
        refine ⟨fun later => ?_, fun ⟨⟨g, storage, _⟩, _⟩ => absurd storage (other g)⟩
        obtain ⟨_, _, _, run⟩ := (Looks.returns_bind (.ask _)).1 later
        cases run

theorem looks_not_isErrorType (ty : TypeId) : Looks (do return !(← isErrorType ty)) :=
  .bind (.ask _) fun _ => .pure _

theorem returns_filterM_isErrorType {types : List TypeId} :
    Returns (types.filterM fun ty => do return !(← isErrorType ty)) c ↔
      ∀ ty ∈ types, ∃ b, c.types.isError ty = .ok b := by
  rw [Looks.returns_filterM looks_not_isErrorType]
  exact forall₂_congr fun ty _ =>
    (Looks.returns_bind_iff (.ask _) fun _ => Looks.returns_pure _).trans
    ((and_iff_left trivial).trans returns_ask)

theorem looks_getFunction (func : FuncId) : Looks (getFunction func) := .ask _

theorem returns_mapM_getFunction {functions : List FuncId} :
    Returns ((functions.filter (· ≠ .error)).mapM getFunction) c ↔
      ∀ func ∈ functions, func ≠ .error → ∃ f, c.functions[func.index]? = some f := by
  rw [Looks.returns_mapM looks_getFunction]
  simp only [List.mem_filter, decide_eq_true_eq, and_imp]
  exact forall₃_congr fun func _ _ => returns_ask.trans (exists_congr fun _ => entry_eq_ok)

/-- Definitions are listed if they are there, after the constants have been taken. -/
theorem returns_definitions {types : List TypeId} {constants : List NodeId}
    {functions : List FuncId}
    {vars : List VarId} : Returns (definitions types constants functions vars) c ↔
      ∃ values c', takeConstants constants c = .ok (values, c') ∧ (∀ var ∈ vars, c'.Defined var) ∧
        (∀ ty ∈ types, ∃ b, c'.types.isError ty = .ok b) ∧
        ∀ func ∈ functions, func ≠ .error → ∃ f, c'.functions[func.index]? = some f := by
  simp only [← returns_takeGlobals, ← returns_filterM_isErrorType, ← returns_mapM_getFunction]
  have rest (c : Compilation) (values : List GlobalInit) : Returns (do
      let globals ← takeGlobals vars
      let types ← types.filterM fun ty => do return !(← isErrorType ty)
      let functions ← (functions.filter (· ≠ .error)).mapM getFunction
      return ({ types, constants := values, functions, globals } : Definitions)) c ↔ _ :=
    Looks.returns_bind_iff (obeys_takeGlobals vars) fun _ =>
      Looks.returns_bind_iff (.filterM looks_not_isErrorType) fun _ =>
        (Looks.returns_bind_iff (.mapM looks_getFunction) fun _ => Looks.returns_pure _).trans
          (and_iff_left trivial)
  constructor
  · rintro ⟨x, run⟩
    obtain ⟨values, c', taken, run⟩ := Run.bind_ok.1 run
    exact ⟨values, c', taken, (rest c' values).1 ⟨x, run⟩⟩
  · rintro ⟨values, c', taken, later⟩
    obtain ⟨x, run⟩ := (rest c' values).2 later
    exact ⟨x, (Run.bind_of_ok taken _).trans run⟩

/-- A unit can leave out any of its definitions. -/
theorem returns_definitions_replaced {types : List (Mark .type)} {constants : List (Mark .expr)}
    {functions : List (Mark .func)} {vars : List (Mark .var)} (anchored : c.Anchored)
    (run : Returns (definitions (types.map (Mark.kept _)) (constants.map (Mark.kept _))
      (functions.map (Mark.kept _)) (vars.map (Mark.kept _))) c) :
    Returns (definitions (types.map (Mark.replaced _)) (constants.map (Mark.replaced _))
      (functions.map (Mark.replaced _)) (vars.map (Mark.replaced _))) c := by
  obtain ⟨values, o, taken, globals, tys, funcs⟩ := returns_definitions.1 run
  obtain ⟨values', c', taken', thinner, vars'⟩ :=
    takeConstants_replaced (.refl anchored.shaped) taken
  refine returns_definitions.2 ⟨values', c', taken', ?_, ?_, ?_⟩
  · refine List.forall_mem_map.2 fun (var, marked) mem => ?_
    rw [Compilation.Defined]
    cases marked with
    | true =>
      obtain ⟨v, found, error⟩ := anchored.var
      exact ⟨v, vars' ▸ found, .inl error⟩
    | false =>
      rw [thinner.rest]
      exact globals _ (List.mem_map_of_mem mem)
  · refine List.forall_mem_map.2 fun (ty, marked) mem => ?_
    cases marked with
    | true => exact ⟨true, rfl⟩
    | false =>
      rw [thinner.rest]
      exact tys _ (List.mem_map_of_mem mem)
  · refine List.forall_mem_map.2 fun (func, marked) mem other => ?_
    cases marked with
    | true => exact absurd rfl other
    | false =>
      rw [thinner.rest]
      exact funcs _ (List.mem_map_of_mem mem) other

end Build

end Codegen
