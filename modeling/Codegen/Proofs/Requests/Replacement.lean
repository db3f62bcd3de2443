import Codegen.Proofs.Requests.Anchors

/-!
Sentinels in the place of arguments. A front end that could send a request can send it with any of
the arguments replaced by sentinels, except for blocks: a sentinel is the block of no function.
-/

namespace Codegen

open Compilation

/-! ## Marked arguments -/

/-- An argument, and whether it is replaced. -/
@[reducible] def Mark (k : Category) : Type := k.Handle × Bool

namespace Mark

def kept (k : Category) (x : Mark k) : k.Handle := x.1

/-- The sentinel in the place of a marked argument. -/
def replaced (k : Category) (x : Mark k) : k.Handle := if x.2 then k.sentinel else x.1

theorem replaced_of_unmarked {k : Category} {x : Mark k} (unmarked : x.2 = false) :
    replaced k x = kept k x := by
  rw [replaced, unmarked]
  rfl

end Mark

def Arg.isMarked : Arg Mark → Bool
  | .type x | .expr x | .stmt x | .var x | .func x => x.2

/-- A step that ends with an answer. -/
def Returns {α : Type} (op : Build α) (c : Compilation) : Prop := ∃ x, op c = .ok x

instance {α : Type} (op : Build α) (c : Compilation) : Decidable (Returns op c) :=
  match h : op c with
  | .ok x => .isTrue ⟨x, h⟩
  | .error _ => .isFalse fun ⟨_, done⟩ => nomatch h.symm.trans done

/-- A search that meets marked elements as well. -/
theorem anyM_marked {α : Type} {p q : α → Except Fault Bool} {mark : α → Bool}
    (same : ∀ a, q a = if mark a then .ok true else p a) {l : List α} {b : Bool}
    (done : l.anyM p = .ok b) : l.anyM q = .ok (b || l.any mark) := by
  induction l with
  | nil =>
    cases done
    rfl
  | cons a rest ih =>
    rw [List.anyM_cons] at done ⊢
    rw [same a, List.any_cons]
    obtain ⟨first, e, done⟩ := bind_eq_ok.1 done
    cases marked : mark a with
    | true => simp; rfl
    | false =>
      rw [if_neg Bool.false_ne_true, e]
      cases first with
      | true =>
        cases done
        rfl
      | false => exact ih done

namespace Compilation

variable {c : Compilation}

/-- Sentinels are errors. -/
theorem Anchored.errs_replaced (h : c.Anchored) (a : Arg Mark) :
    c.errs (a.map Mark.replaced) = if a.isMarked then .ok true else c.errs (a.map Mark.kept) := by
  obtain ⟨v, found, error⟩ := h.var
  cases a with
  | var x =>
    obtain ⟨x, marked⟩ := x
    cases marked with
    | false => rfl
    | true =>
      change (Build.entry c.vars 0 >>= _) = _
      rw [Build.entry, found]
      exact congrArg Except.ok error
  | type x | expr x | stmt x | func x =>
    obtain ⟨x, marked⟩ := x
    cases marked <;> rfl

end Compilation

namespace Request

variable {A B : Category → Type} {c : Compilation}

theorem checked_map (f : ∀ k, A k → B k) (r : Request A) :
    (r.map f).checked = r.checked.map (Arg.map f) := by
  have option {α β : Type} (g : α → β) (x : Option α) : (x.map g).toList = x.toList.map g := by
    cases x <;> rfl
  cases r <;> simp [checked, map, Arg.map, Function.comp_def, List.map_flatten, option]

theorem refusal?_map (f : ∀ k, A k → B k) (r : Request A) : (r.map f).refusal? = r.refusal? := by
  cases r <;> rfl

theorem counted_map (f : ∀ k, A k → B k) (r : Request A) : (r.map f).counted = r.counted := by
  cases r <;> simp [counted, map]

/-- Whether a request names a block of a function. -/
def namesBlock : Request A → Bool
  | block .. | temporary .. => true
  | _ => false

/-- A request is what it looks at, unless it names a block. -/
theorem map_congr {f g : ∀ k, A k → B k} {r : Request A} (refuses : r.refusal?.isSome)
    (other : r.namesBlock = false) (same : ∀ a ∈ r.checked, a.map f = a.map g) :
    r.map f = r.map g := by
  cases r
  case conditional =>
    simp only [checked, List.forall_mem_cons, List.forall_mem_map, Option.mem_toList, Arg.map,
      Arg.func.injEq, Arg.type.injEq, Arg.expr.injEq] at same
    obtain ⟨func, type, cond, thenExpr, elseExpr⟩ := same
    rw [map, map, func, type, cond, thenExpr, Option.map_congr elseExpr]
  case ifStmt =>
    simp only [checked, List.forall_mem_cons, List.forall_mem_map, Option.mem_toList, Arg.map,
      Arg.func.injEq, Arg.expr.injEq, Arg.stmt.injEq] at same
    obtain ⟨func, cond, thenStmt, elseStmt⟩ := same
    rw [map, map, func, cond, thenStmt, Option.map_congr elseStmt]
  case switchStmt =>
    simp only [checked, List.forall_mem_cons, List.forall_mem_append, List.forall_mem_map,
      List.mem_flatten, Arg.map, Arg.func.injEq, Arg.expr.injEq, Arg.stmt.injEq] at same
    obtain ⟨func, value, cases, stmts⟩ := same
    rw [map, map, func, value, List.map_congr_left stmts,
      List.map_congr_left fun labels mem => List.map_congr_left fun x mem' =>
      cases x ⟨labels, mem, mem'⟩]
  case integerType | floatType | complexType | pointerType | structType | arrayType | functionType
    | placeholderType | namedType | circularPointerType | resolvePointer | resolveStruct
    | resolveArray | resolveFunction | isCircularPointerType | typeSize | typeAlignment
    | typeFieldAlignment
    | fieldOffset | typeName | nilPointer | booleanConstant | stringConstant | label | definitions
    | intern | disableIntegrityChecks | destroy | sharing | outline | functionData | variableData =>
    cases refuses
  case block | temporary => cases other
  all_goals simp_all [checked, map, Arg.map]

theorem counted_of_run {r : Request Category.Handle} {x : Reply × Compilation}
    (run : r.run c = .ok x) : r.counted := by
  cases r
  case switchStmt func value cases stmts span =>
    by_contra differ
    rw [Request.run, Build.switchStmt, if_pos (by simpa [counted] using differ)] at run
    cases run
  all_goals rfl

variable {r : Request Mark} {x : Reply × Compilation}

/-- A request that looks at its arguments first refuses the sentinels among them, unless all that it
looks at is as before. -/
theorem replaced_cases (anchored : c.Anchored) (refuses : r.refusal?.isSome)
    (run : (r.map Mark.kept).run c = .ok x) :
    (Returns (r.map Mark.replaced).run c ∧ ∃ a ∈ (r.map Mark.replaced).checked, c.Faulty a) ∨
      (∀ a ∈ r.checked, a.isMarked = false) ∧ (r.map Mark.replaced).checked.anyM c.errs =
        .ok false := by
  obtain ⟨refusal, e⟩ := Option.isSome_iff_exists.1 refuses
  have counted := counted_of_run run
  rw [counted_map] at counted
  obtain ⟨body, guarded⟩ := guarded ((refusal?_map _ r).trans e)
    ((counted_map Mark.kept r).trans counted)
  obtain ⟨body', guarded'⟩ := Request.guarded ((refusal?_map _ r).trans e)
    ((counted_map Mark.replaced r).trans counted)
  rw [guarded c] at run
  obtain ⟨b, looked, -⟩ := bind_eq_ok.1 run
  rw [checked_map, anyM_map] at looked
  have looked' := anyM_marked (anchored.errs_replaced) looked
  rw [← anyM_map, ← checked_map] at looked'
  cases any : b || r.checked.any Arg.isMarked with
  | true =>
    rw [any] at looked'
    obtain ⟨a, mem, bad⟩ := exists_of_anyM_eq_ok_true looked'
    refine .inl ⟨⟨(refusal, c), ?_⟩, a, mem, faulty_of_errs bad⟩
    rw [guarded' c, looked']
    rfl
  | false =>
    rw [any] at looked'
    exact .inr ⟨by simpa using (Bool.or_eq_false_iff.1 any).2, looked'⟩

/-- A request that does not name a block can do with sentinels. -/
theorem returns_of_refuses (anchored : c.Anchored) (refuses : r.refusal?.isSome)
    (other : r.namesBlock = false) (run : (r.map Mark.kept).run c = .ok x) :
    Returns (r.map Mark.replaced).run c := by
  obtain ⟨returns, -⟩ | ⟨unmarked, -⟩ := replaced_cases anchored refuses run
  · exact returns
  · have same : r.map Mark.replaced = r.map Mark.kept := map_congr refuses other fun a mem => by
      have unmarked := unmarked a mem
      cases a with
      | type x | expr x | stmt x | var x | func x =>
        simp only [Arg.isMarked] at unmarked
        simp [Arg.map, Mark.replaced, Mark.kept, unmarked]
    exact ⟨x, by rw [same, run]⟩

end Request

/-! ## Blocks -/

namespace Build

variable {c : Compilation} {func : FuncId} {span : Span}

/-- A block is made within any block of its function. -/
theorem returns_block_iff {enclosing : Option NodeId} {vars : List VarId} (usable : func ≠ .error) :
    Returns (block func enclosing vars span) c ↔
      ∃ f, c.functions[func.index]? = some f ∧ ∀ b ∈ enclosing, f.hasBlock b := by
  constructor
  · rintro ⟨⟨id, c'⟩, run⟩
    obtain ⟨unknown, -⟩ | ⟨f, -, found, inside, -⟩ := block_ok run
    · exact absurd unknown usable
    · exact ⟨f, found, inside⟩
  · rintro ⟨f, found, inside⟩
    have outer : enclosing.filter (!f.hasBlock ·) = none := by
      simpa [Option.filter_eq_none_iff] using inside
    have asked : getFunction func c = .ok (f, c) := by
      change (entry c.functions func.index >>= fun f => pure (f, c)) = _
      rw [entry, found]
      rfl
    rw [Returns, block, if_neg usable, Run.bind_of_ok asked, outer]
    exact ⟨_, rfl⟩

/-- A temporary does not come alive in a block that is none of its function. -/
theorem not_returns_temporary {b : NodeId} {ty : TypeId} {init : Option NodeId} {taken : Bool}
    (looked : List.anyM c.errs (.func func :: .type ty :: init.toList.map .expr) = .ok false)
    (known : b.index < c.arena.size) (foreign : ∀ f ∈ c.functions, ¬f.hasBlock b) :
    ¬Returns (temporary func (some b) ty init taken span) c := by
  rintro ⟨x, run⟩
  have guarded : Guarded (.func func :: .type ty :: init.toList.map .expr) (.error, .errorStmt)
      (temporary func (some b) ty init taken span) _ :=
    .func <| .type <| .last <| .exprs init.toList <| .nil _ _
  rw [guarded.eq_body looked] at run
  obtain ⟨var, c₁, made, run⟩ := Run.bind_ok.1 run
  have turns : c.Turns (fun _ => False) c₁ :=
    (advancing_newLocal func (.inr rfl) _ _ _ _ c var c₁ trivial made).toTurns
  obtain ⟨f, found, run⟩ := getFunction_bind_ok run
  obtain ⟨f', added, run⟩ := Run.lift_bind_ok run
  unfold Function.addBlockVar at added
  split at added
  · rename_i has
    rcases turns.blocks (Array.mem_of_getElem? found) has with ⟨g, mem, has⟩ | new
    · exact foreign g mem has
    · exact Nat.not_lt.2 new known
  · cases added

end Build

/-! ## Types -/

namespace TypeTable

variable {t : TypeTable}

theorem isError_replaced (x : Mark .type) :
    t.isError (Mark.replaced _ x) = if x.2 then .ok true else t.isError (Mark.kept _ x) := by
  obtain ⟨x, marked⟩ := x
  cases marked <;> rfl

theorem resolve_error (t : TypeTable) (real : TypeId) : ∃ x, t.resolve .error real = .ok x :=
  ⟨_, rfl⟩

/-- A placeholder is resolved with an error if it is there. -/
theorem resolve_with_error {placeholder : TypeId} : (∃ x, t.resolve placeholder .error = .ok x) ↔
    placeholder = .error ∨ placeholder.index < t.size := by
  rw [← isError_eq_ok_iff]
  unfold resolve
  constructor
  · rintro ⟨x, run⟩
    obtain ⟨b, e, -⟩ := bind_eq_ok.1 run
    exact ⟨b, e⟩
  · rintro ⟨b, e⟩
    rw [e]
    cases b <;> exact ⟨_, rfl⟩

/-- A handle that is to be looked at and is none of the table, unless the request itself enters
it. -/
def Lacks (t : TypeTable) (x : Mark .type) : Prop :=
  x.2 = false ∧ x.1 ≠ .error ∧ t.size ≤ x.1.index

/-- A placeholder is resolved with what was built in another table, or with an error in this one. -/
theorem resolve_replaced_iff {s : TypeTable} {placeholder : Mark .type} {real : TypeId}
    (run : ∃ x, s.resolve (Mark.kept _ placeholder) real = .ok x) (marked : Bool) :
    (∃ x, (if marked then t else s).resolve (Mark.replaced _ placeholder)
      (if marked then .error else real) = .ok x) ↔ ¬(t.Lacks placeholder ∧ marked) := by
  obtain ⟨p, gone⟩ := placeholder
  cases gone with
  | true => exact ⟨fun _ lacks => Bool.false_ne_true lacks.1.1.symm, fun _ => resolve_error _ _⟩
  | false =>
    cases marked with
    | false => exact ⟨fun _ h => Bool.false_ne_true h.2, fun _ => run⟩
    | true =>
      change (∃ x, t.resolve p .error = .ok x) ↔ _
      rw [resolve_with_error]
      simp only [Lacks, and_true, true_and, not_and, Nat.not_le, ne_eq]
      exact Decidable.or_iff_not_imp_left

theorem pointerType_replaced {target : Mark .type} {x : TypeId × TypeTable}
    (run : t.pointerType (Mark.kept _ target) = .ok x) :
    t.pointerType (Mark.replaced _ target) = .ok (if target.2 then (.error, t) else x) := by
  obtain ⟨target, marked⟩ := target
  cases marked with
  | false => exact run
  | true => rfl

/-- The types of fields, as they are asked about. -/
theorem anyM_fieldsOf {A : Category → Type} (f : ∀ k, A k → k.Handle)
    (fields : List (Name × A .type)) :
    (Request.fieldsOf (fields.map fun x => (x.1, f _ x.2))).anyM (fun field => t.isError field.ty) =
      fields.anyM fun x => t.isError (f _ x.2) := by
  rw [Request.fieldsOf, anyM_map, anyM_map]

theorem anyM_fields_replaced {fields : List (Name × Mark .type)} {b : Bool}
    (done : (fields.anyM fun x => t.isError (Mark.kept _ x.2)) = .ok b) :
    (fields.anyM fun x => t.isError (Mark.replaced _ x.2)) = .ok (b || fields.any (·.2.2)) :=
  anyM_marked (fun x => isError_replaced x.2) done

/-- Fields of which none is marked. -/
theorem map_fields_replaced {fields : List (Name × Mark .type)}
    (unmarked : fields.any (·.2.2) = false) :
    (fields.map fun x => (x.1, Mark.replaced _ x.2)) = fields.map fun x => (x.1, Mark.kept _ x.2) :=
  List.map_congr_left fun x mem => by
    have off : x.2.2 = false := by simpa using List.any_eq_false.1 unmarked x mem
    simp [Mark.replaced, Mark.kept, off]

theorem structType_replaced {fields : List (Name × Mark .type)} {x : TypeId × TypeTable}
    (run : t.structType (Request.fieldsOf (fields.map fun x => (x.1, Mark.kept _ x.2))) = .ok x) :
    t.structType (Request.fieldsOf (fields.map fun x => (x.1, Mark.replaced _ x.2))) =
      .ok (if fields.any (·.2.2) then (.error, t) else x) := by
  cases marked : fields.any (·.2.2) with
  | false =>
    rw [map_fields_replaced marked, run]
    rfl
  | true =>
    obtain ⟨b, looked, -⟩ := bind_eq_ok.1 run
    rw [anyM_fieldsOf Mark.kept] at looked
    have looked' := anyM_fields_replaced looked
    rw [marked, Bool.or_true, ← anyM_fieldsOf Mark.replaced] at looked'
    rw [structType, looked']
    rfl

/-- A signature looks at all its types but for a struct that it does not need. -/
theorem functionType_replaced {receiver : Option (Name × Mark .type)}
    {params results : List (Name × Mark .type)} {resultStruct : Mark .type} {x : TypeId × TypeTable}
    (run : t.functionType (receiver.map fun x => ⟨x.1, Mark.kept _ x.2⟩)
      (Request.fieldsOf (params.map fun x => (x.1, Mark.kept _ x.2)))
      (Request.fieldsOf (results.map fun x => (x.1, Mark.kept _ x.2))) (Mark.kept _ resultStruct) =
        .ok x) :
    ∃ y, t.functionType (receiver.map fun x => ⟨x.1, Mark.replaced _ x.2⟩)
      (Request.fieldsOf (params.map fun x => (x.1, Mark.replaced _ x.2)))
      (Request.fieldsOf (results.map fun x => (x.1, Mark.replaced _ x.2)))
        (Mark.replaced _ resultStruct) = .ok y := by
  have inputs (f : ∀ k, Mark k → k.Handle) :
      ((receiver.map fun x => (⟨x.1, f _ x.2⟩ : Field)).toList ++
        Request.fieldsOf (params.map fun x => (x.1, f _ x.2))).map (·.ty) =
      (receiver.toList ++ params).map fun x => f _ x.2 := by
    cases receiver <;> simp [Request.fieldsOf]
  unfold functionType at run ⊢
  dsimp only at run ⊢
  rw [inputs Mark.kept, anyM_map] at run
  rw [inputs Mark.replaced, anyM_map]
  obtain ⟨b, looked, run⟩ := bind_eq_ok.1 run
  cases marked : (receiver.toList ++ params).any (·.2.2) with
  | true =>
    rw [anyM_fields_replaced looked, marked, Bool.or_true]
    exact ⟨_, rfl⟩
  | false =>
  have same := congrArg (List.map (·.2)) (map_fields_replaced marked)
  simp only [List.map_map, Function.comp_def] at same
  rw [anyM_fields_replaced looked, marked, Bool.or_false, same]
  cases b with
  | true => exact ⟨_, rfl⟩
  | false =>
  obtain ⟨b, looked, run⟩ := bind_eq_ok.1 run
  rw [anyM_fieldsOf Mark.kept] at looked
  change ∃ y, ((Request.fieldsOf _).anyM (fun f => t.isError f.ty) >>= _) = Except.ok y
  rw [anyM_fieldsOf Mark.replaced, anyM_fields_replaced looked]
  cases marked : results.any (·.2.2) with
  | true =>
    rw [Bool.or_true]
    exact ⟨_, rfl⟩
  | false =>
  rw [Bool.or_false, map_fields_replaced marked]
  cases b with
  | true => exact ⟨_, rfl⟩
  | false =>
  obtain ⟨struct, marked⟩ := resultStruct
  cases marked with
  | false => exact ⟨x, run⟩
  | true =>
    -- only several results travel in a struct
    match results with
    | [] | [_] => exact ⟨x, run⟩
    | _ :: _ :: _ => exact ⟨_, rfl⟩

end TypeTable

namespace Build

variable {α : Type} {c : Compilation}

theorem returns_onTypes {step : TypeTable → Except Fault (α × TypeTable)} :
    Returns (onTypes step) c ↔ ∃ x, step c.types = .ok x := by
  constructor
  · rintro ⟨x, run⟩
    rw [onTypes, Run.get_bind] at run
    obtain ⟨y, done, -⟩ := Run.lift_bind_ok run
    exact ⟨y, done⟩
  · rintro ⟨⟨a, types⟩, done⟩
    rw [Returns, onTypes, Run.get_bind, Run.bind_of_ok (Run.lift_of_ok done)]
    exact ⟨_, rfl⟩

theorem returns_ask {q : Compilation → Except Fault α} : Returns (ask q) c ↔ ∃ a, q c = .ok a :=
  ⟨fun ⟨_, run⟩ => ⟨_, (ask_ok run).1⟩, fun ⟨_, done⟩ => ⟨_, Run.lift_of_ok done⟩⟩

theorem returns_map {β : Type} {op : Build α} {f : α → β} :
    Returns (f <$> op) c ↔ Returns op c := by
  constructor
  · rintro ⟨⟨b, c'⟩, run⟩
    obtain ⟨a, done, -⟩ := Run.map_ok run
    exact ⟨_, done⟩
  · rintro ⟨⟨a, c'⟩, done⟩
    rw [Returns, map_eq_pure_bind, Run.bind_of_ok done]
    exact ⟨_, rfl⟩

end Build

end Codegen
