import Codegen.Proofs.Requests.Definitions
import Codegen.Proofs.Tree.Sharing

/-!
A session with sentinels. Whatever a front end can ask for, it can ask for with sentinels in the
place of arguments, unless it names a block.
-/

namespace Codegen

open Compilation

/-! ## Sentinels on their own -/

theorem Build.returns_destroy_sentinel {c : Compilation} {id : NodeId} (sentinel : id.isSentinel)
    (mode : DestroyMode) : Returns (Build.destroy id mode) c := by
  refine ⟨((), _), Build.destroy_eq_ok.2 ⟨c.arena, c.insts, ?_, rfl⟩⟩
  rw [Arena.destroy, Arena.destroyWithin, if_pos sentinel]

namespace Compilation.Anchored

variable {c : Compilation}

theorem form_error (h : c.Anchored) : c.types.form .error = .ok .error := by
  rw [TypeTable.form_eq, h.type]

/-- The error type has the layout of a byte. -/
theorem layout_error (h : c.Anchored) : c.types.layout .error = .ok ⟨1, 1⟩ := by
  rw [TypeTable.layout, TypeTable.layout?, TypeTable.layoutWithin, h.form_error]
  rfl

theorem sizeOf_error (h : c.Anchored) : c.types.sizeOf .error = .ok 1 := by
  rw [TypeTable.sizeOf, h.layout_error]
  rfl

theorem alignOf_error (h : c.Anchored) : c.types.alignOf .error = .ok 1 := by
  rw [TypeTable.alignOf, h.layout_error]
  rfl

theorem isCircularPointerType_error (h : c.Anchored) :
    c.types.isCircularPointerType .error = .ok false := by
  rw [TypeTable.isCircularPointerType, h.form_error]
  rfl

theorem display_error (h : c.Anchored) : c.types.display c.names .error = .ok "<error>" := by
  rw [TypeTable.display, TypeTable.displayWithin, if_pos rfl]
  simp only [h.form_error]
  rfl

/-- A sentinel has nothing below it. -/
theorem sharing_sentinel {id : NodeId} (h : c.Anchored) (sentinel : id.isSentinel) :
    Returns (Build.sharing id) c := by
  obtain ⟨node, find⟩ := h.shaped.exists_sentinel sentinel
  have alone (n : NodeId) (below : c.arena.Below id n) : c.arena.isLive n := by
    rcases Relation.ReflTransGen.cases_head below with rfl | ⟨k, kid, -⟩
    · exact Arena.isLive_of_find? find
    · have mem := ((Arena.mem_kidsOf find).1 kid).1
      simp [h.shaped.kids_of_sentinel sentinel find] at mem
  obtain ⟨_, found, run, -⟩ := Arena.exists_accounted alone
  exact Build.returns_ask.2 ⟨found, run⟩

theorem valueText_sentinel {id : NodeId} {node : Node} (h : c.Anchored) (sentinel : id.isSentinel)
    (find : c.arena.find? id = some node) (expr : node.isExpr) :
    ∃ text, Outline.valueText ⟨c.arena, c.insts, c.types, c.names⟩ node = .ok text := by
  simp only [NodeId.isSentinel, Bool.or_eq_true, beq_iff_eq] at sentinel
  rcases sentinel with rfl | rfl
  · obtain ⟨_, found, ty, value⟩ := h.expr
    cases find.symm.trans found
    rw [Outline.valueText, ty, value, h.display_error]
    exact ⟨_, rfl⟩
  · obtain ⟨_, found, kind⟩ := h.shaped.errorStmt
    cases find.symm.trans found
    simp [Node.isExpr, kind, NodeKind.isExpr, NodeKind.isStmt] at expr

theorem outline_sentinel {id : NodeId} (h : c.Anchored) (sentinel : id.isSentinel) :
    Returns (Build.outline id) c := by
  obtain ⟨node, find⟩ := h.shaped.exists_sentinel sentinel
  have kids := h.shaped.kids_of_sentinel sentinel find
  refine Build.returns_ask.2 ?_
  rw [Outline.text, Outline.linesWithin]
  simp only [find, kids]
  split
  · rename_i expr
    obtain ⟨text, value⟩ := h.valueText_sentinel sentinel find expr
    rw [value]
    exact ⟨_, rfl⟩
  · exact ⟨_, rfl⟩

theorem function_error (h : c.Anchored) : Returns (Build.getFunction .error) c := by
  obtain ⟨f, found⟩ := h.func
  exact Build.returns_ask.2 ⟨f, Build.entry_eq_ok.2 found⟩

theorem variable_error (h : c.Anchored) : Returns (Build.getVariable .error) c := by
  obtain ⟨v, found, -⟩ := h.var
  exact Build.returns_ask.2 ⟨v, Build.entry_eq_ok.2 found⟩

theorem label_error (h : c.Anchored) (span : Span) : Returns (Build.label .error span) c := by
  obtain ⟨⟨f, c'⟩, run⟩ := h.function_error
  exact ⟨_, Run.bind_of_ok run _⟩

end Compilation.Anchored

/-- A request with one argument, which is the sentinel or as before. -/
theorem returns_replaced {α : Type} {c : Compilation} {k : Category} (op : k.Handle → Build α)
    {x : Mark k} (sentinel : Returns (op k.sentinel) c) (run : Returns (op (Mark.kept _ x)) c) :
    Returns (op (Mark.replaced _ x)) c := by
  obtain ⟨x, marked⟩ := x
  cases marked with
  | true => exact sentinel
  | false => exact run

/-! ## Types -/

namespace TypeTable

variable {t : TypeTable} {placeholder : Mark .type}

theorem resolvePointer_replaced_iff {target : Mark .type}
    (run : ∃ x, t.resolvePointer (Mark.kept _ placeholder) (Mark.kept _ target) = .ok x) :
    (∃ x, t.resolvePointer (Mark.replaced _ placeholder) (Mark.replaced _ target) = .ok x) ↔
      ¬(t.Lacks placeholder ∧ target.2) := by
  obtain ⟨x, run⟩ := run
  obtain ⟨⟨real, s⟩, built, run⟩ := bind_eq_ok.1 run
  rw [← resolve_replaced_iff ⟨x, run⟩, resolvePointer, pointerType_replaced built]
  cases target.2 <;> exact Iff.rfl

theorem resolveStruct_replaced_iff {fields : List (Name × Mark .type)}
    (run : ∃ x, t.resolveStruct (Mark.kept _ placeholder)
      (Request.fieldsOf (fields.map fun x => (x.1, Mark.kept _ x.2))) = .ok x) :
    (∃ x, t.resolveStruct (Mark.replaced _ placeholder)
      (Request.fieldsOf (fields.map fun x => (x.1, Mark.replaced _ x.2))) = .ok x) ↔
      ¬(t.Lacks placeholder ∧ fields.any (·.2.2)) := by
  obtain ⟨x, run⟩ := run
  obtain ⟨⟨real, s⟩, built, run⟩ := bind_eq_ok.1 run
  rw [← resolve_replaced_iff ⟨x, run⟩, resolveStruct, structType_replaced built]
  cases fields.any (·.2.2) <;> exact Iff.rfl

/-- A placeholder that is resolved in the table it is looked up in. -/
theorem exists_resolve_replaced {real : Mark .type}
    (run : ∃ x, t.resolve (Mark.kept _ placeholder) (Mark.kept _ real) = .ok x) :
    ∃ x, t.resolve (Mark.replaced _ placeholder) (Mark.replaced _ real) = .ok x := by
  have known : ¬t.Lacks placeholder := by
    rintro ⟨-, other, out⟩
    obtain ⟨x, run⟩ := run
    obtain ⟨b, looked, -⟩ := bind_eq_ok.1 run
    exact (isError_eq_ok_iff.1 ⟨b, looked⟩).elim other (Nat.not_lt.2 out)
  have resolves := (resolve_replaced_iff run real.2 (t := t)).2 fun lacks => known lacks.1
  obtain ⟨real, marked⟩ := real
  cases marked <;> exact resolves

end TypeTable

namespace Build

variable {c : Compilation}

theorem returns_namedType {name : String} {underlying : Mark .type}
    (run : Returns (namedType name (Mark.kept _ underlying)) c) :
    Returns (namedType name (Mark.replaced _ underlying)) c := by
  obtain ⟨underlying, marked⟩ := underlying
  cases marked with
  | false => exact run
  | true =>
    obtain ⟨x, run⟩ := run
    obtain ⟨id, c₁, named, -⟩ := Run.bind_ok.1 run
    exact ⟨_, Run.bind_of_ok named _⟩

/-- The length of an array is looked at before its elements. -/
theorem arrayType_replaced {elem : Mark .type} {length : Mark .expr} {x : TypeId × Compilation}
    (run : arrayType (Mark.kept _ elem) (Mark.kept _ length) c = .ok x) :
    arrayType (Mark.replaced _ elem) (Mark.replaced _ length) c =
      .ok (if elem.2 || length.2 then (.error, c) else x) := by
  obtain ⟨elem, marked⟩ := elem
  obtain ⟨length, marked'⟩ := length
  cases marked' with
  | true =>
    rw [Bool.or_true]
    rfl
  | false =>
  cases marked with
  | false => exact run
  | true =>
    rw [arrayType] at run ⊢
    obtain ⟨b, c₁, asked, run⟩ := Run.bind_ok.1 run
    rw [Mark.replaced_of_unmarked rfl, Run.bind_of_ok (Looks.same (obeys_isErrorExpr _) asked)]
    cases obeys_isErrorExpr (L := looking) length c b c₁ trivial asked
    cases b with
    | true => rfl
    | false =>
      obtain ⟨n, c₁, counted, -⟩ := Run.bind_ok.1 run
      exact Run.bind_of_ok (Looks.same (obeys_arrayLength _) counted) _

theorem returns_resolveArray_iff {placeholder elem : Mark .type} {length : Mark .expr}
    (run : Returns (resolveArray (Mark.kept _ placeholder) (Mark.kept _ elem) (Mark.kept _ length))
      c) :
    Returns (resolveArray (Mark.replaced _ placeholder) (Mark.replaced _ elem)
      (Mark.replaced _ length)) c ↔ ¬(c.types.Lacks placeholder ∧ (elem.2 || length.2)) := by
  obtain ⟨x, run⟩ := run
  obtain ⟨real, c₁, built, run⟩ := Run.bind_ok.1 run
  have resolved := returns_onTypes.1 ⟨x, run⟩
  rw [← TypeTable.resolve_replaced_iff resolved, resolveArray, Returns,
    Run.bind_of_ok (arrayType_replaced built)]
  cases elem.2 || length.2 <;> exact returns_onTypes

end Build

/-! ## Requests -/

namespace Request

variable {c : Compilation} {r : Request Mark} {x : Reply × Compilation}

/-- Whether the block that a request names is replaced. -/
def marksBlock : Request Mark → Bool
  | block _ (some b) .. | temporary _ (some b) .. => b.2
  | _ => false

/-- The requests that cannot do with the sentinels. Once nothing else is an error, a block is looked
up in its function, which has no sentinels. And a placeholder may be a handle that comes into the
table with the type that is built for it: nothing is built from a sentinel, so that the handle stays
unknown. -/
def Stops (c : Compilation) : Request Mark → Prop
  | resolvePointer placeholder target => c.types.Lacks placeholder ∧ target.2
  | resolveStruct placeholder fields => c.types.Lacks placeholder ∧ fields.any (·.2.2)
  | resolveArray placeholder elem length => c.types.Lacks placeholder ∧ (elem.2 || length.2)
  | r => r.marksBlock ∧ ∀ a ∈ (r.map Mark.replaced).checked, ¬c.Faulty a

theorem not_faulty_of_anyM {args : List (Arg Category.Handle)}
    (looked : args.anyM c.errs = .ok false) : ∀ a ∈ args, ¬c.Faulty a := by
  intro a mem faulty
  have fine := anyM_eq_ok_false.1 looked a mem
  cases (errs_of_faulty faulty).symm.trans fine

theorem returns_block_replaced_iff {func : Mark .func} {enclosing : Option (Mark .stmt)}
    {vars : List (Mark .var)} {span : Span} (anchored : c.Anchored)
    (run : ((block func enclosing vars span).map Mark.kept).run c = .ok x) :
    Returns ((block func enclosing vars span).map Mark.replaced).run c ↔
      ¬Stops c (block func enclosing vars span) := by
  obtain ⟨returns, a, mem, faulty⟩ | ⟨unmarked, looked⟩ := replaced_cases anchored rfl run
  · exact iff_of_true returns fun stops => stops.2 a mem faulty
  have fine := not_faulty_of_anyM looked
  obtain ⟨func, marked⟩ := func
  cases unmarked (.func (func, marked)) (List.mem_singleton_self _)
  have usable : func ≠ .error := fine _ (List.mem_singleton_self _)
  obtain ⟨f, found, inside⟩ := (Build.returns_block_iff usable).1 (Build.returns_map.1 ⟨x, run⟩)
  refine (Build.returns_map.trans (Build.returns_block_iff usable)).trans ?_
  match enclosing with
  | none =>
    exact iff_of_true ⟨f, found, fun _ mem => nomatch mem⟩ fun stops => Bool.false_ne_true stops.1
  | some (b, false) => exact iff_of_true ⟨f, found, inside⟩ fun stops => Bool.false_ne_true stops.1
  | some (b, true) =>
    refine iff_of_false ?_ (not_not_intro ⟨rfl, fine⟩)
    rintro ⟨g, found, inside⟩
    exact anchored.block g (Array.mem_of_getElem? found) (inside .errorStmt rfl)

theorem returns_temporary_replaced_iff {func : Mark .func} {target : Option (Mark .stmt)}
    {ty : Mark .type}
    {init : Option (Mark .expr)} {taken : Bool} {span : Span} (anchored : c.Anchored)
    (run : ((temporary func target ty init taken span).map Mark.kept).run c = .ok x) :
    Returns ((temporary func target ty init taken span).map Mark.replaced).run c ↔
      ¬Stops c (temporary func target ty init taken span) := by
  obtain ⟨returns, a, mem, faulty⟩ | ⟨unmarked, looked⟩ := replaced_cases anchored rfl run
  · exact iff_of_true returns fun stops => stops.2 a mem faulty
  have fine := not_faulty_of_anyM looked
  match target with
  | some (b, true) =>
    refine iff_of_false ?_ (not_not_intro ⟨rfl, fine⟩)
    obtain ⟨node, find, -⟩ := anchored.shaped.errorStmt
    exact fun returns => Build.not_returns_temporary looked (Arena.lt_of_find? find) anchored.block
      (Build.returns_map.1 returns)
  | none | some (b, false) =>
    refine iff_of_true ⟨x, ?_⟩ fun stops => Bool.false_ne_true stops.1
    simp only [checked, List.forall_mem_cons, List.forall_mem_map, Option.mem_toList,
      Arg.isMarked] at unmarked
    obtain ⟨func', ty', init'⟩ := unmarked
    rw [← run, map, map, Mark.replaced_of_unmarked func', Mark.replaced_of_unmarked ty',
      Option.map_congr fun e mem => Mark.replaced_of_unmarked (init' e mem)]
    rfl

/-- A request about the tree below a node. -/
theorem returns_root {α : Type} (op : NodeId → Build α) {root : Mark .expr ⊕ Mark .stmt}
    (sentinel : ∀ id : NodeId, id.isSentinel → Returns (op id) c)
    (run : Returns (op (rootOf (root.map (Mark.kept _) (Mark.kept _)))) c) :
    Returns (op (rootOf (root.map (Mark.replaced _) (Mark.replaced _)))) c := by
  cases root with
  | inl expr => exact returns_replaced (k := .expr) op (sentinel .errorExpr rfl) run
  | inr stmt => exact returns_replaced (k := .stmt) op (sentinel .errorStmt rfl) run

/-- A question about a type. -/
theorem returns_ask_type {α : Type} (q : TypeId → Compilation → Except Fault α)
    {ty : Mark .type} {a : α}
    (sentinel : q .error c = .ok a) (run : Returns (Build.ask (q (Mark.kept _ ty))) c) :
    Returns (Build.ask (q (Mark.replaced _ ty))) c :=
  returns_replaced (k := .type) (fun ty => Build.ask (q ty)) (Build.returns_ask.2 ⟨a, sentinel⟩) run

/-- Requests are carried out with sentinels in the place of arguments, but for those that stop. -/
theorem returns_replaced_iff (anchored : c.Anchored) (run : (r.map Mark.kept).run c = .ok x) :
    Returns (r.map Mark.replaced).run c ↔ ¬r.Stops c := by
  have done {α : Type} {op : Build α} {f : α → Reply} (ran : (f <$> op) c = .ok x) : Returns op c :=
    Build.returns_map.1 ⟨x, ran⟩
  cases r
  case block => exact returns_block_replaced_iff anchored run
  case temporary => exact returns_temporary_replaced_iff anchored run
  case resolvePointer =>
    exact Build.returns_map.trans (Build.returns_onTypes.trans
      (TypeTable.resolvePointer_replaced_iff (Build.returns_onTypes.1 (done run))))
  case resolveStruct =>
    exact Build.returns_map.trans (Build.returns_onTypes.trans
      (TypeTable.resolveStruct_replaced_iff (Build.returns_onTypes.1 (done run))))
  case resolveArray =>
    exact Build.returns_map.trans (Build.returns_resolveArray_iff (done run))
  -- the others name no block, so that nothing can stop them
  all_goals refine iff_of_true ?_ fun stops => Bool.false_ne_true stops.1
  case integerType | floatType | complexType | placeholderType | circularPointerType | nilPointer
    | booleanConstant | stringConstant | intern | disableIntegrityChecks => exact ⟨x, run⟩
  case pointerType =>
    obtain ⟨y, built⟩ := Build.returns_onTypes.1 (done run)
    exact Build.returns_map.2 (Build.returns_onTypes.2 ⟨_, TypeTable.pointerType_replaced built⟩)
  case structType =>
    obtain ⟨y, built⟩ := Build.returns_onTypes.1 (done run)
    exact Build.returns_map.2 (Build.returns_onTypes.2 ⟨_, TypeTable.structType_replaced built⟩)
  case arrayType =>
    obtain ⟨y, built⟩ := done run
    exact Build.returns_map.2 ⟨_, Build.arrayType_replaced built⟩
  case functionType receiver params results resultStruct =>
    obtain ⟨y, built⟩ := Build.returns_onTypes.1 (done run)
    rw [Option.map_map] at built
    refine Build.returns_map.2 (Build.returns_onTypes.2 ?_)
    rw [Option.map_map]
    exact TypeTable.functionType_replaced built
  case namedType => exact Build.returns_map.2 (Build.returns_namedType (done run))
  case resolveFunction =>
    exact Build.returns_map.2 (Build.returns_onTypes.2
      (TypeTable.exists_resolve_replaced (Build.returns_onTypes.1 (done run))))
  case isCircularPointerType =>
    exact Build.returns_map.2 (returns_ask_type (fun ty c => c.types.isCircularPointerType ty)
      anchored.isCircularPointerType_error (done run))
  case typeSize =>
    exact Build.returns_map.2 (returns_ask_type (fun ty c => c.types.sizeOf ty)
      anchored.sizeOf_error (done run))
  case typeAlignment | typeFieldAlignment =>
    exact Build.returns_map.2 (returns_ask_type (fun ty c => c.types.alignOf ty)
      anchored.alignOf_error (done run))
  case fieldOffset ty index =>
    exact Build.returns_map.2 (returns_ask_type (fun ty c => c.types.offsetOf ty index) rfl
      (done run))
  case typeName =>
    exact Build.returns_map.2 (returns_ask_type (fun ty c => c.types.display c.names ty)
      anchored.display_error (done run))
  case label func span =>
    exact Build.returns_map.2 (returns_replaced (k := .func) (Build.label · span)
      (anchored.label_error _) (done run))
  case functionData =>
    exact Build.returns_map.2 (returns_replaced (k := .func) _ anchored.function_error (done run))
  case variableData =>
    exact Build.returns_map.2 (returns_replaced (k := .var) _ anchored.variable_error (done run))
  case destroy root mode =>
    exact Build.returns_map.2 (returns_root (Build.destroy · mode)
      (fun _ sentinel => Build.returns_destroy_sentinel sentinel mode) (done run))
  case sharing =>
    exact Build.returns_map.2 (returns_root _ (fun _ => anchored.sharing_sentinel) (done run))
  case outline =>
    exact Build.returns_map.2 (returns_root _ (fun _ => anchored.outline_sentinel) (done run))
  case definitions =>
    exact Build.returns_map.2 (Build.returns_definitions_replaced anchored (done run))
  -- what is left looks at its arguments first, and refuses a sentinel among them
  all_goals exact returns_of_refuses anchored rfl rfl run

end Request

namespace Session

variable {c : Compilation} {moves : List Move} {r : Request Mark} {x : Reply × Compilation}

/-- At any point of a session, a request that would be carried out is also carried out with any of
its arguments replaced by sentinels, unless it is one of those that stop. -/
theorem returns_with_sentinels_iff (session : Session c moves)
    (run : (r.map Mark.kept).run c = .ok x) : Returns (r.map Mark.replaced).run c ↔ ¬r.Stops c :=
  Request.returns_replaced_iff session.anchored run

/-- A function with a block, which is node 2. -/
def oneBlock : Compilation × List Move :=
  record .standard [.functionType none [] [] .void,
    .declareFunction ⟨14⟩ "f" "" ⟨0⟩ false .synthetic, .block ⟨1⟩ none [] .synthetic]

/-- A temporary of a failed type in a failed block is carried out, and refused. -/
theorem returns_with_sentinels_failed_temporary :
    let r : Request Mark := .temporary (⟨1⟩, false) (some (⟨2⟩, true)) (⟨5⟩, true) none false
      .synthetic
    Returns (r.map Mark.replaced).run oneBlock.1 := by
  intro r
  have kept : Returns (r.map Mark.kept).run oneBlock.1 := by decide +kernel
  obtain ⟨x, run⟩ := kept
  refine ((session_record ..).returns_with_sentinels_iff run).2 fun stops => ?_
  have checked : .type (.error : TypeId) ∈ (r.map Mark.replaced).checked := .tail _ (.head _)
  exact stops.2 _ checked (.inl rfl)

/-- A block in a block, and a temporary in it: neither is made if the block is a sentinel. -/
theorem not_returns_with_sentinel_block : Session oneBlock.1 oneBlock.2 ∧
    ∀ r ∈ [(.block (⟨1⟩, false) (some (⟨2⟩, true)) [] .synthetic : Request Mark),
      .temporary (⟨1⟩, false) (some (⟨2⟩, true)) (⟨5⟩, false) none false .synthetic],
      Returns (r.map Mark.kept).run oneBlock.1 ∧ ¬Returns (r.map Mark.replaced).run oneBlock.1 :=
  ⟨session_record .., by decide +kernel⟩

end Session

end Codegen
