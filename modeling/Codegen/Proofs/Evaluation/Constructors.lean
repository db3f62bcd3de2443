import Codegen.Proofs.Compilation.Takes
import Codegen.Proofs.Evaluation.Values

/-!
What each constructor of expressions builds: a node that stands for the expression over what the
operands stand for.
-/

namespace Codegen

/-! ## Types of parts -/

namespace TypeTable

variable (t : TypeTable)

def pointerTo (ty : TypeId) : TypeId :=
  match t.pointerType ty with
  | .ok (ptrType, _) => ptrType
  | .error _ => .error

def fieldOf (ty : TypeId) (index : Nat) : TypeId :=
  match t.structFields? ty with
  | .ok (some fields) => fields.getD index .error
  | _ => .error

/-- The type of the real and of the imaginary part. -/
def partOf (ty : TypeId) : TypeId :=
  match t.complexPart ty with
  | .ok part => part
  | .error _ => .error

def elementOf (ty : TypeId) : TypeId :=
  match t.arrayElement? ty with
  | .ok (some elem) => elem
  | _ => .error

/-- The complex type whose parts have a type. -/
def complexOf (part : TypeId) : TypeId :=
  match t.underlyingForm part with
  | .ok (.float bits) =>
    match t.complexType (bits * 2) with
    | .ok (ty, _) => ty
    | .error _ => .error
  | _ => .error

/-- What a function gives back that is called by its type or through a pointer. -/
def resultOf (callee : TypeId) : TypeId :=
  let fntype := match t.pointee? callee with
    | .ok (some target) => target
    | _ => callee
  match t.functionResult? fntype with
  | .ok (some result) => result
  | _ => .error

/-- A float as its type can hold it. -/
def round (ty : TypeId) (bits : UInt64) : UInt64 :=
  match t.underlyingForm ty with
  | .ok (.float 32) => Binary64.roundToSingle bits
  | _ => bits

end TypeTable

namespace Build

open Compilation

variable {c c' : Compilation} {id : NodeId} {k : Build NodeId} {kids : List NodeId}
  {kind : NodeKind} {span : Span} {ty : TypeId}

/-! ## Guards -/

theorem otherwise {p : Prop} [Decidable p] {bad : NodeId}
    (run : (if p then pure bad else k : Build NodeId) c = .ok (id, c')) (plain : ¬id.isSentinel)
    (error : bad.isSentinel) : k c = .ok (id, c') := by
  split at run
  · cases run
    exact absurd error plain
  · exact run

theorem unless_errorType
    (run : (isErrorType ty >>= fun b => if b = true then pure .errorExpr else k) c = .ok (id, c'))
    (plain : ¬id.isSentinel) : k c = .ok (id, c') := otherwise (isErrorType_bind_ok run) plain rfl

theorem unless_errorExpr {x : NodeId}
    (run : (isErrorExpr x >>= fun b => if b = true then pure .errorExpr else k) c = .ok (id, c'))
    (plain : ¬id.isSentinel) : k c = .ok (id, c') := otherwise (isErrorExpr_bind_ok run) plain rfl

theorem unless_errorExprs {xs : List NodeId}
    (run : (xs.anyM isErrorExpr >>= fun b => if b = true then pure .errorExpr else k) c =
      .ok (id, c'))
    (plain : ¬id.isSentinel) : k c = .ok (id, c') :=
  otherwise (anyM_isErrorExpr_bind_ok run) plain rfl

theorem throwWithType_ne_ok {α : Type} {fault : String → Fault} {r : α × Compilation}
    (run : (throwWithType ty fault : Build α) c = .ok r) : False := by
  obtain ⟨name, -, run⟩ := ask_bind_ok run
  cases run

/-! ## New nodes -/

theorem sets_makeNode (run : makeNode kind kids ty span c = .ok (id, c')) :
    id = ⟨c.arena.size⟩ ∧ c.Sets c' id (.fresh kind kids ty span) := by
  obtain ⟨rfl, rfl⟩ := makeNode_ok run
  exact ⟨rfl, sets_add _⟩

theorem sets_makeComputed {inst : InstKind}
    (run : makeComputed kind kids inst ty span c = .ok (id, c')) :
    id = ⟨c.arena.size⟩ ∧ ∃ i, c'.insts.find? i = some ⟨inst, ty⟩ ∧
      c.Sets c' id { Node.fresh kind kids ty span with insts := [i], value := some (.inst i) } := by
  obtain ⟨new, c₁, made, run⟩ := Run.bind_ok.1 run
  obtain ⟨_, c₂, attached, run⟩ := Run.bind_ok.1 run
  cases run
  obtain ⟨fresh, sets⟩ := sets_makeNode made
  obtain ⟨i, sets', found⟩ := sets_attachValue sets.find attached
  exact ⟨fresh, i, found, sets.trans sets'⟩

theorem sets_makeAddressed {inst : InstKind}
    (run : makeAddressed kind kids inst ty span c = .ok (id, c')) :
    id = ⟨c.arena.size⟩ ∧ ∃ i ptrType types, c.types.pointerType ty = .ok (ptrType, types) ∧
      c'.insts.find? i = some ⟨inst, ptrType⟩ ∧ c.Sets c' id { Node.fresh kind kids ty span with
        insts := [i], value := some (.inst i), flags := ⟨true, false⟩ } := by
  obtain ⟨ptrType, c₁, typed, run⟩ := Run.bind_ok.1 run
  obtain ⟨new, c₂, made, run⟩ := Run.bind_ok.1 run
  obtain ⟨_, c₃, attached, run⟩ := Run.bind_ok.1 run
  obtain ⟨_, c₄, flagged, run⟩ := Run.bind_ok.1 run
  cases run
  have idle := idle_onTypes _ c ptrType c₁ trivial typed
  obtain ⟨types, pointer, rfl⟩ := onTypes_ok typed
  obtain ⟨fresh, sets⟩ := sets_makeNode made
  obtain ⟨i, sets', found⟩ := sets_attachValue sets.find attached
  have sets'' := sets_update sets'.find flagged
  exact ⟨fresh, i, ptrType, types, pointer, sets''.store found,
    idle.sets (sets.trans (sets'.trans sets''))⟩

end Build

namespace Compilation

open Build

variable {c c' : Compilation} {id x k : NodeId} {e : Expr} {kids rest : List NodeId}
  {vs : List Value} {fs : List Meaning} {node : Node} {index : Nat} {span : Span} {ty : TypeId}

theorem Sound.lt_of_below (sound : c.Sound) {n : NodeId} (lt : k.index < c.arena.size)
    (below : c.arena.Below k n) : n.index < c.arena.size := by
  rcases Relation.ReflTransGen.cases_tail below with rfl | ⟨p, -, kid⟩
  · exact lt
  · cases find : c.arena.find? p with
    | none => simp [Arena.kidsOf, find] at kid
    | some node => exact (sound.nodes find).kids _ ((Arena.mem_kidsOf find).1 kid).1

theorem Sound.not_below_fresh (sound : c.Sound) (lt : k.index < c.arena.size) :
    ¬c.arena.Below k ⟨c.arena.size⟩ := fun below => Nat.lt_irrefl _ (sound.lt_of_below lt below)

theorem Sound.not_isSentinel_fresh (sound : c.Sound) : ¬NodeId.isSentinel ⟨c.arena.size⟩ :=
  NodeId.not_isSentinel sound.sentinels

/-- Roots compute what they did under a new node as well. -/
theorem Ready.adopt (ready : c.Ready kids vs fs) (sound : c.Sound) (t : c.Tidy (kids ++ rest))
    (sets : c.Sets c' ⟨c.arena.size⟩ node) :
    c'.Ready kids vs fs ∧ kids.Pairwise c'.arena.Apart := by
  have spares (k : NodeId) (mem : k ∈ kids) : c.Spares c' k :=
    sets.spares (sound.not_below_fresh (t.known k (by simp [mem])))
  exact ⟨ready.frame spares, (t.pairwise_apart ready.plain).imp_of_mem fun mx my =>
    (spares _ mx).apart (spares _ my)⟩

theorem denotes_makeComputed {kind : NodeKind} {inst : InstKind} (ready : c.Ready kids vs fs)
    (sound : c.Sound) (t : c.Tidy (kids ++ rest)) (sound' : c'.Sound)
    (run : makeComputed kind kids inst ty span c = .ok (id, c')) (expr : kind.isExpr)
    (built : kind.compositeState? = none) (noRet : inst.isRet = false)
    (slot : inst.isAlloca = false) (place : e.isPlace = false) (type : ty = e.ty)
    (applies : e.eval.Applies ⟨inst, ty⟩ vs fs) : c'.Denotes id e := by
  obtain ⟨rfl, i, found, sets⟩ := sets_makeComputed run
  obtain ⟨ready, apart⟩ := ready.adopt sound t sets
  refine .done sets.find (by simp [Node.isBuilding, Node.fresh, built]) rfl place.symm type ?_
  exact ready.computes sets.find rfl sound' apart sound.not_isSentinel_fresh expr rfl found noRet
    slot applies

theorem denotes_makeAddressed {kind : NodeKind} {inst : InstKind} (ready : c.Ready kids vs fs)
    (sound : c.Sound) (t : c.Tidy (kids ++ rest)) (sound' : c'.Sound)
    (run : makeAddressed kind kids inst ty span c = .ok (id, c')) (expr : kind.isExpr)
    (built : kind.compositeState? = none) (noRet : inst.isRet = false)
    (slot : inst.isAlloca = false) (place : e.isPlace = true) (type : ty = e.ty)
    (applies : ∀ {ptrType types}, c.types.pointerType ty = .ok (ptrType, types) →
      e.eval.Applies ⟨inst, ptrType⟩ vs fs) : c'.Denotes id e := by
  obtain ⟨rfl, i, ptrType, types, pointer, found, sets⟩ := sets_makeAddressed run
  obtain ⟨ready, apart⟩ := ready.adopt sound t sets
  refine .done sets.find (by simp [Node.isBuilding, Node.fresh, built]) rfl place.symm type ?_
  exact ready.computes sets.find rfl sound' apart sound.not_isSentinel_fresh expr rfl found
    noRet slot (applies pointer)

/-! ## Questions -/

section

variable {α : Type} {r : α × Compilation}

theorem Denotes.typeOf_ok (d : c.Denotes x e) {k : TypeId → Build α}
    (run : (typeOf x >>= k) c = .ok r) : k e.ty c = .ok r := by
  obtain ⟨node, find, run⟩ := typeOf_bind_ok run
  obtain ⟨node', found, ty, -⟩ := d.exists_node
  cases found.symm.trans find
  rwa [ty] at run

theorem Denotes.getNode_ok (d : c.Denotes x e) {k : Node → Build α}
    (run : (getNode x >>= k) c = .ok r) :
    ∃ node, node.flags.address = e.isPlace ∧ k node c = .ok r := by
  obtain ⟨node, find, run⟩ := getNode_bind_ok run
  obtain ⟨node', found, -, address⟩ := d.exists_node
  cases found.symm.trans find
  exact ⟨node, address, run⟩

end

/-! ## Operations -/

theorem denotes_unary {op : Operator} (sound : c.Sound) (t : c.Tidy ([x] ++ rest))
    (d : c.Denotes x e) (run : unary op x span c = .ok (id, c')) (plain : ¬id.isSentinel) :
    c'.Denotes id (.unary op e) := by
  obtain ⟨sound', -⟩ := steady_unary op x span c id c' sound run
  have run := unless_errorExpr run plain
  split at run
  · cases run
  obtain ⟨v, c₁, used, run⟩ := Run.bind_ok.1 run
  have use := used_rvalue sound t (by simp) d used
  obtain ⟨node, find, run⟩ := typeOf_bind_ok run
  rw [use.ty find] at run
  exact denotes_makeComputed (.cons use.computes .nil) use.sound use.tidy sound' run rfl rfl rfl rfl
    rfl rfl (.one (fun _ => Operation.unary op) (fun _ _ => rfl) fun _ _ => rfl)

theorem denotes_convert (sound : c.Sound) (t : c.Tidy ([x] ++ rest)) (d : c.Denotes x e)
    (run : convert ty x span c = .ok (id, c')) (plain : ¬id.isSentinel) (new : id ≠ x) :
    c'.Denotes id (.cast ty e) := by
  obtain ⟨sound', -⟩ := steady_convert ty x span c id c' sound run
  have run := unless_errorExpr (unless_errorType run plain) plain
  obtain ⟨node, -, run⟩ := typeOf_bind_ok run
  obtain ⟨same, -, run⟩ := ask_bind_ok run
  split at run
  · exact absurd (Run.pure_ok run).1 new
  obtain ⟨v, c₁, used, run⟩ := Run.bind_ok.1 run
  have use := used_rvalue sound t (by simp) d used
  exact denotes_makeComputed (.cons use.computes .nil) use.sound use.tidy sound' run rfl rfl rfl rfl
    rfl rfl (.one (fun _ => Operation.cast) (fun _ _ => rfl) fun _ _ => rfl)

section

variable {y : NodeId} {e' : Expr} (sound : c.Sound) (t : c.Tidy ([x, y] ++ rest))
  (d : c.Denotes x e) (d' : c.Denotes y e')

include sound t d d'

/-- Two values are used, the left one first. -/
theorem ready_pair {c₁ c₂ : Compilation} {v w : Value} (first : rvalue x c = .ok (v, c₁))
    (second : rvalue y c₁ = .ok (w, c₂)) :
    c₂.Sound ∧ c₂.Tidy ([x, y] ++ rest) ∧ c₂.Ready [x, y] [v, w] [e.read, e'.read] := by
  refine ready_operands sound t (.cons d (.cons d' .nil)) ?_
  rw [List.mapM_cons, Run.bind_of_ok first, List.mapM_cons, bind_assoc, Run.bind_of_ok second]
  rfl

theorem denotes_binary {op : Operator} {span : Span} (run : binary op x y span c = .ok (id, c'))
    (plain : ¬id.isSentinel) : c'.Denotes id (.binary op e e') := by
  obtain ⟨sound', -⟩ := steady_binary op x y span c id c' sound run
  have run := unless_errorExpr (unless_errorExpr run plain) plain
  split at run
  · cases run
  have run := d'.typeOf_ok (d.typeOf_ok run)
  -- the operands are used in the same way however their types were found to agree
  have finish (run : (do
      let l ← rvalue x
      let r ← rvalue y
      if op.cls = OperatorClass.comparison then
        makeComputed (.binaryOp op) [x, y] (.compare op l r) .bool span
      else makeComputed (.binaryOp op) [x, y] (.binary op l r) e.ty span) c = .ok (id, c')) :
      c'.Denotes id (.binary op e e') := by
    obtain ⟨l, c₁, first, run⟩ := Run.bind_ok.1 run
    obtain ⟨r, c₂, second, run⟩ := Run.bind_ok.1 run
    obtain ⟨sound₂, t₂, ready⟩ := ready_pair sound t d d' first second
    split at run <;> rename_i comparison
    · refine denotes_makeComputed ready sound₂ t₂ sound' run rfl rfl rfl rfl rfl ?_
        (.two (fun _ => Operation.compare op) (fun _ _ => rfl) fun K σ => ?_)
      · simp [Expr.ty, comparison]
      · simp only [Expr.eval, comparison, if_true]
        rfl
    · refine denotes_makeComputed ready sound₂ t₂ sound' run rfl rfl rfl rfl rfl ?_
        (.two (fun _ => Operation.binary op) (fun _ _ => rfl) fun K σ => ?_)
      · simp [Expr.ty, comparison]
      · simp only [Expr.eval, comparison, if_false]
        rfl
  by_cases shift : op.cls = .shift
  · rw [if_pos shift] at run
    exact finish run
  rw [if_neg shift] at run
  obtain ⟨agree, -, run⟩ := ask_bind_ok run
  cases agree with
  | true => exact finish run
  | false =>
    obtain ⟨left, -, run⟩ := ask_bind_ok run
    obtain ⟨right, -, run⟩ := ask_bind_ok run
    cases run

theorem denotes_pointerOffset {span : Span} (run : pointerOffset x y span c = .ok (id, c'))
    (plain : ¬id.isSentinel) : c'.Denotes id (.offset e e') := by
  obtain ⟨sound', -⟩ := steady_pointerOffset x y span c id c' sound run
  have run := unless_errorExpr (unless_errorExpr run plain) plain
  have run := d.typeOf_ok run
  obtain ⟨b, c₁, first, run⟩ := Run.bind_ok.1 run
  obtain ⟨i, c₂, second, run⟩ := Run.bind_ok.1 run
  obtain ⟨sound₂, t₂, ready⟩ := ready_pair sound t d d' first second
  exact denotes_makeComputed ready sound₂ t₂ sound' run rfl rfl rfl rfl rfl rfl
    (.two (fun _ => Operation.elemAddr) (fun _ _ => rfl) fun _ _ => rfl)

end

/-! ## Objects -/

theorem denotes_indirect (sound : c.Sound) (t : c.Tidy ([x] ++ rest)) (d : c.Denotes x e)
    (run : indirect ty x span c = .ok (id, c')) (plain : ¬id.isSentinel) :
    c'.Denotes id (.deref ty e) := by
  obtain ⟨sound', -⟩ := steady_indirect ty x span c id c' sound run
  have run := unless_errorExpr (unless_errorType run plain) plain
  obtain ⟨addr, c₁, used, run⟩ := Run.bind_ok.1 run
  have use := used_rvalue sound t (by simp) d used
  obtain ⟨new, c₂, made, run⟩ := Run.bind_ok.1 run
  obtain ⟨_, c₃, valued, run⟩ := Run.bind_ok.1 run
  obtain ⟨_, c₄, flagged, run⟩ := Run.bind_ok.1 run
  cases run
  obtain ⟨rfl, sets⟩ := sets_makeNode made
  have sets' := sets_update sets.find valued
  have all := sets.trans (sets'.trans (sets_update sets'.find flagged))
  have spares := all.spares (use.sound.not_below_fresh (use.tidy.known x (by simp)))
  have computes := spares.computes use.computes
  exact .done all.find rfl rfl rfl rfl (computes.up sound' plain all.find rfl rfl rfl)

theorem denotes_addressOf (sound : c.Sound) (t : c.Tidy ([x] ++ rest)) (d : c.Denotes x e)
    (run : addressOf x span c = .ok (id, c')) (plain : ¬id.isSentinel) :
    c'.Denotes id (.address (c.types.pointerTo e.ty) e) := by
  obtain ⟨sound', -⟩ := steady_addressOf x span c id c' sound run
  have run := unless_errorExpr run plain
  obtain ⟨addr, -, computes, run⟩ := lvalue_bind_ok d run
  have run := d.typeOf_ok run
  obtain ⟨ptrType, c₂, typed, run⟩ := Run.bind_ok.1 run
  obtain ⟨new, c₃, made, run⟩ := Run.bind_ok.1 run
  obtain ⟨_, c₄, valued, run⟩ := Run.bind_ok.1 run
  cases run
  have idle := idle_onTypes _ c ptrType c₂ trivial typed
  obtain ⟨types, pointer, rfl⟩ := onTypes_ok typed
  obtain ⟨rfl, sets⟩ := sets_makeNode made
  have all := idle.sets (sets.trans (sets_update sets.find valued))
  have computes := (all.spares (sound.not_below_fresh (t.known x (by simp)))).computes computes
  rw [TypeTable.pointerTo, pointer]
  exact .done all.find rfl rfl rfl rfl (computes.up sound' plain all.find rfl rfl rfl)

/-- A field is found by its address where the whole is an object, and taken out of it otherwise. -/
theorem denotes_fieldAccess (sound : c.Sound) (t : c.Tidy ([x] ++ rest)) (d : c.Denotes x e)
    (run : fieldAccess x index ty span c = .ok (id, c')) :
    c'.Denotes id (.field ty (c.types.pointerTo ty) e index) := by
  obtain ⟨sound', -⟩ := steady_fieldAccess x index ty span c id c' sound run
  obtain ⟨node, address, run⟩ := d.getNode_ok run
  rw [address] at run
  cases place : e.isPlace with
  | true =>
    simp only [place, if_true] at run
    obtain ⟨base, -, computes, run⟩ := lvalue_bind_ok d run
    refine denotes_makeAddressed (.cons computes .nil) sound t sound' run rfl rfl rfl rfl place rfl
      fun pointer => ?_
    refine .one (fun _ v => Operation.fieldAddr v index) (fun _ _ => rfl) fun K σ => ?_
    simp only [Expr.eval, place, if_true, TypeTable.pointerTo, pointer]
  | false =>
    simp only [place, Bool.false_eq_true, if_false] at run
    obtain ⟨whole, c₁, used, run⟩ := Run.bind_ok.1 run
    have use := used_rvalue sound t (by simp) d used
    refine denotes_makeComputed (.cons use.computes .nil) use.sound use.tidy sound' run rfl
      rfl rfl rfl place rfl ?_
    refine .one (fun _ v => Operation.extractField v index) (fun _ _ => rfl) fun K σ => ?_
    simp only [Expr.eval, place, Bool.false_eq_true, if_false, Expr.read_of_not_isPlace place]

theorem denotes_structField (sound : c.Sound) (t : c.Tidy ([x] ++ rest)) (d : c.Denotes x e)
    (run : structField x index span c = .ok (id, c')) (plain : ¬id.isSentinel) :
    let ty := c.types.fieldOf e.ty index
    c'.Denotes id (.field ty (c.types.pointerTo ty) e index) := by
  have run := unless_errorExpr run plain
  have run := d.typeOf_ok run
  obtain ⟨fields, known, run⟩ := ask_bind_ok run
  cases fields with
  | none => exact (throwWithType_ne_ok run).elim
  | some fields =>
    cases at' : fields[index]? with
    | none =>
      simp only [at'] at run
      exact (throwWithType_ne_ok run).elim
    | some fieldType =>
      simp only [at'] at run
      have type : c.types.fieldOf e.ty index = fieldType := by simp [TypeTable.fieldOf, known, at']
      simp only [type]
      exact denotes_fieldAccess sound t d run

theorem denotes_complexPart (sound : c.Sound) (t : c.Tidy ([x] ++ rest)) (d : c.Denotes x e)
    (run : complexPart x index span c = .ok (id, c')) (plain : ¬id.isSentinel) :
    let ty := c.types.partOf e.ty
    c'.Denotes id (.field ty (c.types.pointerTo ty) e index) := by
  have run := unless_errorExpr run plain
  have run := d.typeOf_ok run
  obtain ⟨part, known, run⟩ := ask_bind_ok run
  have type : c.types.partOf e.ty = part := by simp [TypeTable.partOf, known]
  simp only [type]
  exact denotes_fieldAccess sound t d run

/-- The index is used before the array, but both are evaluated in the order in which they stand. -/
theorem denotes_arrayIndex {y : NodeId} {e' : Expr} (sound : c.Sound) (t : c.Tidy ([x, y] ++ rest))
    (d : c.Denotes x e) (d' : c.Denotes y e') (run : arrayIndex x y span c = .ok (id, c'))
    (plain : ¬id.isSentinel) :
    let ty := c.types.elementOf e.ty
    c'.Denotes id (.elem ty (c.types.pointerTo ty) e e') := by
  obtain ⟨sound', -⟩ := steady_arrayIndex x y span c id c' sound run
  have ne : x ≠ y := t.ne_of_pair d'.plain
  have run := unless_errorExpr (unless_errorExpr run plain) plain
  have run := d.typeOf_ok run
  obtain ⟨elem, known, run⟩ := ask_bind_ok run
  cases elem with
  | none => exact (throwWithType_ne_ok run).elim
  | some elem =>
    have type : c.types.elementOf e.ty = elem := by simp [TypeTable.elementOf, known]
    simp only [type]
    obtain ⟨i, c₁, used, run⟩ := Run.bind_ok.1 run
    have use := used_rvalue sound t (by simp) d' used
    have d := d.frame (use.spares x (by simp) ne)
    obtain ⟨node, address, run⟩ := d.getNode_ok run
    rw [address] at run
    cases place : e.isPlace with
    | true =>
      simp only [place, if_true] at run
      obtain ⟨base, -, computes, run⟩ := lvalue_bind_ok d run
      refine denotes_makeAddressed (.cons computes (.cons use.computes .nil)) use.sound
        use.tidy sound' run rfl rfl rfl rfl place rfl fun pointer => ?_
      rw [use.types] at pointer
      refine .two (fun _ => Operation.elemAddr) (fun _ _ => rfl) fun K σ => ?_
      simp only [Expr.eval, place, if_true, TypeTable.pointerTo, pointer]
      rfl
    | false =>
      simp only [place, Bool.false_eq_true, if_false] at run
      obtain ⟨whole, c₂, used', run⟩ := Run.bind_ok.1 run
      have use' := used_rvalue use.sound use.tidy (by simp) d used'
      have computes := (use'.spares y (by simp) ne.symm).computes use.computes
      refine denotes_makeComputed (.cons use'.computes (.cons computes .nil)) use'.sound
        use'.tidy sound' run rfl rfl rfl rfl place rfl ?_
      refine .two (fun _ => Operation.extractElem) (fun _ _ => rfl) fun K σ => ?_
      simp only [Expr.eval, place, Bool.false_eq_true, if_false, Expr.read_of_not_isPlace place]
      rfl

/-! ## Calls -/

theorem denotes_call {args : List NodeId} {es : List Expr} (sound : c.Sound)
    (t : c.Tidy ((x :: args) ++ rest)) (d : c.Denotes x e) (ds : List.Forall₂ c.Denotes args es)
    (run : call x args span c = .ok (id, c')) (plain : ¬id.isSentinel) :
    c'.Denotes id (.call (c.types.resultOf e.ty) e es) := by
  obtain ⟨sound', -⟩ := steady_call x args span c id c' sound run
  have run := unless_errorExprs (unless_errorExpr run plain) plain
  have run := d.typeOf_ok run
  obtain ⟨target, known, run⟩ := ask_bind_ok run
  obtain ⟨result, known', run⟩ := ask_bind_ok run
  cases result with
  | none => exact (throwWithType_ne_ok run).elim
  | some result =>
    have type : c.types.resultOf e.ty = result := by
      cases target with
      | none => simp_all [TypeTable.resultOf]
      | some target => simp_all [TypeTable.resultOf]
    rw [type]
    obtain ⟨f, c₁, first, run⟩ := Run.bind_ok.1 run
    obtain ⟨vs, c₂, later, run⟩ := Run.bind_ok.1 run
    obtain ⟨new, c₃, made, run⟩ := Run.bind_ok.1 run
    obtain ⟨_, c₄, attached, run⟩ := Run.bind_ok.1 run
    cases run
    have used : (x :: args).mapM rvalue c = .ok (f :: vs, c₂) := by
      rw [List.mapM_cons, Run.bind_of_ok first, Run.bind_of_ok later]
      rfl
    obtain ⟨sound₂, t₂, ready⟩ := ready_operands sound t (.cons d ds) used
    obtain ⟨rfl, sets⟩ : id = ⟨c₂.arena.size⟩ ∧
      c₂.Sets c₃ id (.fresh .call (x :: args) result span) :=
      sets_makeNode made
    obtain ⟨i, sets', found⟩ := sets_attachValue sets.find attached
    have all := sets.trans sets'
    obtain ⟨ready, apart⟩ := ready.adopt sound₂ t₂ all
    refine .done all.find rfl rfl rfl rfl ?_
    exact ready.computes all.find rfl sound' apart plain rfl rfl found rfl rfl .called

end Compilation

end Codegen
