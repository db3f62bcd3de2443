import Codegen.Proofs.Evaluation.Constructors

/-!
Constants, variables and literals. Nothing is computed for a constant or for the address of a
variable; a literal is a list of members until it is used.
-/

namespace Codegen

/-- The members of an array literal: each at its index, and zeros elsewhere. -/
def Expr.placed (elem : TypeId) (length : Nat) (pairs : List (Nat × Expr)) : List Expr :=
  (List.range length).map fun i => (pairs.lookup i).getD (.const elem (.zero elem))

namespace Compilation

open Build

variable {c c' : Compilation} {id : NodeId} {e : Expr} {node : Node} {ty elem : TypeId}
  {span : Span} {es : List Expr}

/-- A new node stands for an expression if it is no error, and all others stay as they are. -/
structure Gives (c c' : Compilation) (id : NodeId) (e : Expr) : Prop where
  denotes : ¬id.isSentinel → c'.Denotes id e
  spares : ∀ {k : NodeId}, k.index < c.arena.size → c.Spares c' k

theorem gives_error (c : Compilation) (e : Expr) : c.Gives c .errorExpr e :=
  ⟨fun plain => absurd rfl plain, fun _ => .refl c _⟩

theorem Denotes.lt_size (d : c.Denotes id e) : id.index < c.arena.size := by
  obtain ⟨node, find, -⟩ := d.exists_node
  exact Arena.lt_of_find? find

/-! ## Leaves -/

theorem gives_leaf {v : Value} (sound : c.Sound) (sets : c.Sets c' ⟨c.arena.size⟩ node)
    (kids : node.kids = []) (insts : node.insts = []) (expr : node.isExpr)
    (built : node.isBuilding = false) (value : node.value = some v)
    (address : node.flags.address = e.isPlace) (type : node.ty = e.ty)
    (known : ∀ i, v = .inst i → c'.insts.Allocates i)
    (same : ∀ K σ m, e.eval K σ m = (K.value σ v, m)) : c.Gives c' ⟨c.arena.size⟩ e := by
  refine ⟨fun plain => .done sets.find built value address type ⟨plain, ?_, [], ?_,
    .leaf known same⟩, fun lt => sets.spares (sound.not_below_fresh lt)⟩
  · exact Ready.nil.isExprTree sets.find kids expr
  · have none : c'.arena.kidsOf ⟨c.arena.size⟩ = [] := by
      rw [Arena.kidsOf_eq_of_find? sets.find, kids]
      rfl
    have emits := Arena.Emits.node (fun _ => []) sets.find (by simp [none])
    rwa [none, insts] at emits

theorem gives_makeConst {k : Constant} (sound : c.Sound)
    (run : makeConst ty k span c = .ok (id, c')) : c.Gives c' id (.const ty k) := by
  cases run
  exact gives_leaf sound (sets_add _) rfl rfl rfl rfl rfl rfl rfl nofun fun _ _ _ => rfl

theorem gives_zero (sound : c.Sound) (run : zero ty c = .ok (id, c')) :
    c.Gives c' id (.const ty (.zero ty)) := by
  have run := isErrorType_bind_ok run
  split at run
  · cases run
    exact gives_error c _
  · exact gives_makeConst sound run

theorem gives_floatConstant {bits : UInt64} (sound : c.Sound)
    (run : floatConstant ty bits c = .ok (id, c')) :
    c.Gives c' id (.const ty (.float ty (c.types.round ty bits))) := by
  have run := isErrorType_bind_ok run
  split at run
  · cases run
    exact gives_error c _
  obtain ⟨form, known, run⟩ := ask_bind_ok run
  split at run
  · rw [TypeTable.round, known]
    exact gives_makeConst sound run
  · rename_i width narrow
    have wide : c.types.round ty bits = bits := by
      rw [TypeTable.round, known]
      split
      · rename_i e
        cases e
        exact absurd rfl narrow
      · rfl
    rw [wide]
    exact gives_makeConst sound run
  · exact (throwWithType_ne_ok run).elim

theorem denotes_nilPointer (sound : c.Sound) (run : nilPointer c = .ok (id, c'))
    (plain : ¬id.isSentinel) :
    c'.Denotes id (.const (c.types.pointerTo .void) (.null (c.types.pointerTo .void))) := by
  obtain ⟨ty, c₁, typed, run⟩ := Run.bind_ok.1 run
  obtain ⟨sound₁, -⟩ := steady_onTypes _ c ty c₁ sound typed
  obtain ⟨types, pointer, rfl⟩ := onTypes_ok typed
  rw [TypeTable.pointerTo, pointer]
  exact (gives_makeConst sound₁ run).denotes plain

theorem denotes_integerConstant {value : Int} (sound : c.Sound)
    (run : integerConstant ty value c = .ok (id, c')) (plain : ¬id.isSentinel) :
    c'.Denotes id (.const ty (.int ty value)) := by
  have run := unless_errorType run plain
  obtain ⟨range, -, run⟩ := ask_bind_ok run
  cases range with
  | none => exact (throwWithType_ne_ok run).elim
  | some range =>
    obtain ⟨fits, -, run⟩ := Run.lift_bind_ok run
    split at run
    · exact (gives_makeConst sound run).denotes plain
    · exact (throwWithType_ne_ok run).elim

theorem denotes_stringConstant {value : String} (sound : c.Sound)
    (run : stringConstant value c = .ok (id, c')) (plain : ¬id.isSentinel) :
    c'.Denotes id (.const (c.types.pointerTo .u8) (.str (c.names.intern value).1)) := by
  obtain ⟨data, c₁, interned, run⟩ := Run.bind_ok.1 run
  obtain ⟨sound₁, -⟩ := steady_intern value c data c₁ sound interned
  cases interned
  obtain ⟨ty, c₂, typed, run⟩ := Run.bind_ok.1 run
  obtain ⟨sound₂, -⟩ := steady_onTypes _ _ ty c₂ sound₁ typed
  obtain ⟨types, pointer, rfl⟩ := onTypes_ok typed
  rw [TypeTable.pointerTo, pointer]
  exact (gives_makeConst sound₂ run).denotes plain

theorem denotes_functionCode {func : FuncId} (sound : c.Sound)
    (run : functionCode func span c = .ok (id, c')) (plain : ¬id.isSentinel) :
    ∃ f, c.functions[func.index]? = some f ∧
      c'.Denotes id (.func (c.types.pointerTo f.fntype) func) := by
  rw [functionCode] at run
  split at run
  · cases run
    exact absurd rfl plain
  obtain ⟨f, found, run⟩ := getFunction_bind_ok run
  obtain ⟨ty, c₁, typed, run⟩ := Run.bind_ok.1 run
  obtain ⟨sound₁, -⟩ := steady_onTypes _ c ty c₁ sound typed
  obtain ⟨types, pointer, rfl⟩ := onTypes_ok typed
  refine ⟨f, found, ?_⟩
  rw [TypeTable.pointerTo, pointer]
  cases run
  exact (gives_leaf sound₁ (sets_add _) rfl rfl rfl rfl rfl rfl rfl (fun _ e => by cases e)
    fun _ _ _ => rfl).denotes plain

theorem denotes_varExpr {var : VarId} (sound : c.Sound) (o : c.Orderly)
    (run : varExpr var span c = .ok (id, c')) (plain : ¬id.isSentinel) : ∃ v,
    c'.vars[var.index]? = some v ∧ c'.Denotes id (.var v.ty v.storage) := by
  obtain ⟨v, found, run⟩ := getVariable_bind_ok run
  split at run
  · cases run
    exact absurd rfl plain
  obtain ⟨storage, c₁, address, run⟩ := Run.bind_ok.1 run
  obtain ⟨sound₁, -, sourced⟩ :=
    keeps_variableAddress (P := .none) var c storage c₁ sound trivial address
  have o₁ := (idle_variableAddress var c storage c₁ trivial address).orderly o
  obtain ⟨w, v', found', stored, rfl, type⟩ := storage_of_variableAddress address
  cases found.symm.trans found'
  cases run
  refine ⟨v', stored, (gives_leaf sound₁ (sets_add _) rfl rfl rfl rfl rfl rfl type.symm
    (fun i e => ?_) fun _ _ _ => rfl).denotes plain⟩
  rcases sourced i e with slot | ⟨k, mem, -⟩
  · exact o₁.slots (.inl slot)
  · cases mem

/-! ## Literals -/

/-- A member of a literal, which may be an error. -/
def Member (c : Compilation) (k : NodeId) (e : Expr) : Prop := ¬k.isSentinel → c.Denotes k e

theorem denotes_composite {kids : List NodeId} (sound : c.Sound)
    (members : List.Forall₂ c.Member kids es)
    (run : makeNode (.composite .building) kids ty span c = .ok (id, c')) :
    c'.Denotes id (.literal ty es) := by
  obtain ⟨rfl, sets⟩ := sets_makeNode run
  have adopt {k : NodeId} {e : Expr} (d : c.Denotes k e) : c'.Denotes k e :=
    d.frame (sets.spares (sound.not_below_fresh d.lt_size))
  refine .literal sound.not_isSentinel_fresh (fun n node below find => ?_) sets.find rfl rfl rfl rfl
    members.length_eq fun at' at'' plain => adopt (rel_of_getElem? members at' at'' plain)
  rcases Relation.ReflTransGen.cases_head below with rfl | ⟨k, kid, below⟩
  · cases sets.find.symm.trans find
    rfl
  · obtain ⟨mem, plain⟩ := (Arena.mem_kidsOf sets.find).1 kid
    obtain ⟨e, member⟩ := exists_rel_of_mem members mem
    exact (adopt (member plain)).tree n node below find

theorem denotes_structLiteral {vals : List NodeId} (sound : c.Sound)
    (ds : List.Forall₂ c.Denotes vals es) (run : structLiteral ty vals span c = .ok (id, c'))
    (plain : ¬id.isSentinel) : c'.Denotes id (.literal ty es) := by
  have run := unless_errorExprs (unless_errorType run plain) plain
  have members : List.Forall₂ c.Member vals es := ds.imp fun _ _ d => (fun _ => d : c.Member _ _)
  obtain ⟨fields, -, run⟩ := ask_bind_ok run
  cases fields with
  | none => exact denotes_composite sound members run
  | some fields =>
    simp only at run
    split at run
    · exact denotes_composite sound members run
    · exact (throwWithType_ne_ok run).elim

theorem denotes_complexExpr {x y : NodeId} {e' : Expr} (sound : c.Sound) (d : c.Denotes x e)
    (d' : c.Denotes y e') (run : complexExpr x y span c = .ok (id, c')) (plain : ¬id.isSentinel) :
    c'.Denotes id (.literal (c.types.complexOf e.ty) [e, e']) := by
  have run := unless_errorExpr (unless_errorExpr run plain) plain
  have run := d.typeOf_ok run
  obtain ⟨form, known, run⟩ := ask_bind_ok run
  split at run
  · obtain ⟨ty, c₁, typed, run⟩ := Run.bind_ok.1 run
    obtain ⟨sound₁, -⟩ := steady_onTypes _ c ty c₁ sound typed
    obtain ⟨types, complex, rfl⟩ := onTypes_ok typed
    simp only [TypeTable.complexOf, known, complex]
    have spares (k : NodeId) : c.Spares { c with types } k :=
      ⟨fun _ => rfl, fun _ _ found _ => found, fun h => h⟩
    exact denotes_composite sound₁
      (.cons (fun _ => d.frame (spares x)) (.cons (fun _ => d'.frame (spares y)) .nil)) run
  · exact (throwWithType_ne_ok run).elim

theorem sameTypes_floatConstant (ty : TypeId) (bits : UInt64) :
    SameTypes (floatConstant ty bits) := by
  have const (k : Constant) : SameTypes (makeConst ty k .synthetic) := fun _ _ _ _ run => by
    cases run
    rfl
  refine .guard (.ask _) <| .bind (.ask _) fun form => ?_
  split
  · exact const _
  · exact const _
  · exact obeys_throwWithType _ _

theorem denotes_complexConstant {real imag : UInt64} (sound : c.Sound)
    (run : complexConstant ty real imag c = .ok (id, c')) (plain : ¬id.isSentinel) :
    let part := c.types.partOf ty
    c'.Denotes id (.literal ty [.const part (.float part (c.types.round part real)),
      .const part (.float part (c.types.round part imag))]) := by
  have run := unless_errorType run plain
  obtain ⟨part, known, run⟩ := ask_bind_ok run
  obtain ⟨re, c₁, first, run⟩ := Run.bind_ok.1 run
  obtain ⟨im, c₂, second, run⟩ := Run.bind_ok.1 run
  obtain ⟨sound₁, -⟩ := steady_floatConstant part real c re c₁ sound first
  obtain ⟨sound₂, -⟩ := steady_floatConstant part imag c₁ im c₂ sound₁ second
  have gives := gives_floatConstant sound first
  have gives' := gives_floatConstant sound₁ second
  have same : c₁.types = c.types := sameTypes_floatConstant part real c re c₁ trivial first
  rw [same] at gives'
  simp only [TypeTable.partOf, known]
  refine denotes_composite sound₂ (.cons (fun plain => ?_) (.cons gives'.denotes .nil)) run
  have d := gives.denotes plain
  exact d.frame (gives'.spares d.lt_size)

/-! ## Array literals -/

/-- Each slot is as it was if there was something in it, and what is given for its position if
not. -/
theorem getElem?_of_fillSlots {pairs : List (Nat × NodeId)} {slots slots' : Array (Option NodeId)}
    (run : fillSlots pairs slots = .ok slots') (i : Nat) :
    slots'[i]? = slots[i]?.map fun slot => slot.or (pairs.lookup i) := by
  induction pairs generalizing slots with
  | nil =>
    cases run
    simp
  | cons pair pairs ih =>
    obtain ⟨index, val⟩ := pair
    rw [fillSlots] at run
    split at run
    · cases run
    · cases run
    rename_i empty
    rw [ih run, Array.getElem?_modify]
    by_cases e : index = i
    · subst e
      simp [empty]
    · have other : (i == index) = false := by simpa using Ne.symm e
      simp [e, List.lookup_cons, other]

/-- What is given for the positions below a length. -/
def slotsOf (pairs : List (Nat × NodeId)) (length : Nat) : List (Option NodeId) :=
  (List.range length).map fun i => pairs.lookup i

theorem toList_of_fillSlots {pairs : List (Nat × NodeId)} {slots : Array (Option NodeId)}
    {length : Nat} (filled : fillSlots pairs (Array.replicate length none) = .ok slots) :
    slots.toList = slotsOf pairs length := by
  refine List.ext_getElem? fun i => ?_
  rw [Array.getElem?_toList, getElem?_of_fillSlots filled]
  by_cases lt : i < length <;> simp [slotsOf, lt]

theorem rel_lookup_zip {α β : Type} {R : α → β → Prop} {xs : List α} {ys : List β}
    (h : List.Forall₂ R xs ys) (indexes : List Nat) (i : Nat) :
    Option.Rel R ((indexes.zip xs).lookup i) ((indexes.zip ys).lookup i) := by
  induction h generalizing indexes with
  | nil => simp
  | cons head _ ih =>
    cases indexes with
    | nil => exact .none
    | cons index indexes =>
      rw [List.zip_cons_cons, List.zip_cons_cons, List.lookup_cons, List.lookup_cons]
      split
      · exact .some head
      · exact ih indexes

/-- What stands in a slot, or the zero that will. -/
def Slot (c : Compilation) (elem : TypeId) : Option NodeId → Expr → Prop
  | some val, e => c.Denotes val e
  | none, e => e = .const elem (.zero elem)

theorem slot_of_rel {slot : Option NodeId} {given : Option Expr}
    (h : Option.Rel c.Denotes slot given) :
    c.Slot elem slot (given.getD (.const elem (.zero elem))) := by
  cases h with
  | none => rfl
  | some d => exact d

theorem Slot.frame {slot : Option NodeId} (h : c.Slot elem slot e)
    (spares : ∀ {k : NodeId}, k.index < c.arena.size → c.Spares c' k) : c'.Slot elem slot e := by
  cases slot with
  | none => exact h
  | some val => exact Denotes.frame h (spares (Denotes.lt_size h))

/-- Zeros are made for the slots that are empty. -/
theorem members_of_slots {slots : List (Option NodeId)} {kids : List NodeId} (sound : c.Sound)
    (held : List.Forall₂ (c.Slot elem) slots es)
    (run : (slots.mapM fun slot => match slot with
      | some val => pure val
      | none => zero elem) c = .ok (kids, c')) :
    c'.Sound ∧ List.Forall₂ c'.Member kids es ∧ ∀ {k : NodeId}, k.index < c.arena.size →
      c.Spares c' k := by
  induction slots generalizing c es kids with
  | nil =>
    cases held
    cases run
    exact ⟨sound, .nil, fun _ => .refl _ _⟩
  | cons slot slots ih =>
    obtain ⟨e, es, here, others, rfl⟩ := List.forall₂_cons_left_iff.1 held
    rw [List.mapM_cons] at run
    obtain ⟨kid, c₁, first, run⟩ := Run.bind_ok.1 run
    obtain ⟨kids, c₂, later, run⟩ := Run.bind_ok.1 run
    cases run
    obtain ⟨sound₁, grows, gives⟩ : c₁.Sound ∧ c.Grows c₁ ∧ c.Gives c₁ kid e := by
      cases slot with
      | some val =>
        obtain ⟨rfl, rfl⟩ := Run.pure_ok first
        exact ⟨sound, .refl _, fun _ => here, fun _ => .refl _ _⟩
      | none =>
        cases here
        obtain ⟨sound₁, grows⟩ := steady_zero elem c kid c₁ sound first
        exact ⟨sound₁, grows, gives_zero sound first⟩
    obtain ⟨sound₂, members, spares⟩ :=
      ih sound₁ (others.imp fun _ _ h => h.frame gives.spares) later
    refine ⟨sound₂, .cons (fun plain => ?_) members, fun lt => ?_⟩
    · exact (gives.denotes plain).frame (spares (gives.denotes plain).lt_size)
    · exact (gives.spares lt).trans (spares (Nat.lt_of_lt_of_le lt grows.arena_le))

theorem denotes_arrayLiteral {indexes : List Nat} {vals : List NodeId} (sound : c.Sound)
    (ds : List.Forall₂ c.Denotes vals es) (run : arrayLiteral ty indexes vals span c = .ok (id, c'))
    (plain : ¬id.isSentinel) : ∃ elem length, c.types.underlyingForm ty = .ok (.array elem length) ∧
      c'.Denotes id (.literal ty (Expr.placed elem length (indexes.zip es))) := by
  have run := unless_errorExprs (unless_errorType run plain) plain
  split at run
  · cases run
  obtain ⟨form, known, run⟩ := ask_bind_ok run
  split at run
  · rename_i elem length
    split at run
    · cases run
    obtain ⟨slots, filled, run⟩ := Run.lift_bind_ok run
    obtain ⟨kids, c₁, made, run⟩ := Run.bind_ok.1 run
    rw [Run.get_bind] at run
    split at run
    · cases run
    have held : List.Forall₂ (c.Slot elem) slots.toList
        (Expr.placed elem length (indexes.zip es)) := by
      rw [toList_of_fillSlots filled, slotsOf, Expr.placed, List.forall₂_map_left_iff,
        List.forall₂_map_right_iff, List.forall₂_same]
      exact fun i _ => slot_of_rel (rel_lookup_zip ds indexes i)
    obtain ⟨sound₁, members, -⟩ := members_of_slots sound held made
    exact ⟨elem, length, known, denotes_composite sound₁ members run⟩
  · exact (throwWithType_ne_ok run).elim

end Compilation

end Codegen
