import Codegen.Proofs.Compilation.Functions
import Codegen.Proofs.Compilation.Spends

/-!
What each constructor takes. A constructor of expressions or statements takes all of its operands,
or it answers with a sentinel and takes none.
-/

namespace Codegen

/-- A step that makes a new root of what it is given, or answers with a sentinel and takes
nothing. -/
def Offers (used : List NodeId) (op : Build NodeId) : Prop :=
  Spends (fun id => if id.isSentinel then [] else used) op (fun id => [id]) fun _ => True

/-- A step that is given some roots, and may use them or not. -/
def Serves (used : List NodeId) (op : Build NodeId) : Prop :=
  Spends (fun _ => used) op (fun id => [id]) fun _ => True

variable {used : List NodeId}

/-- A sentinel is always at hand. -/
theorem Compilation.Tidy.sentinel {c : Compilation} {rest : List NodeId} {id : NodeId}
    (h : c.Tidy rest) (s : id.isSentinel) : c.Tidy (id :: rest) := by
  refine ⟨h.toOrderly, by simpa [s] using h.apart, fun n mem => ?_, fun n mem => ?_⟩
  · rcases List.mem_cons.1 mem with rfl | mem
    · exact Arena.isRoot_of_isSentinel s
    · exact h.roots n mem
  · rcases List.mem_cons.1 mem with rfl | mem
    · have lt : n.index < 2 := Nat.lt_of_not_le fun le => NodeId.not_isSentinel le s
      exact Nat.lt_of_lt_of_le lt h.sentinels
    · exact h.known n mem

@[grind =] theorem NodeId.isSentinel_errorExpr : NodeId.errorExpr.isSentinel = true := rfl

@[grind =] theorem NodeId.isSentinel_errorStmt : NodeId.errorStmt.isSentinel = true := rfl

namespace Makes

variable {α : Type}

@[grind ←] theorem offers {op : Build NodeId} (h : Makes used op) : Offers used op := by
  intro c id c' two run
  obtain ⟨two, plain, h⟩ := h c id c' two run
  exact ⟨two, trivial, by simpa [plain] using h⟩

@[grind ←] theorem pass {x : Build α} {f : α → Build NodeId} (hx : Idle x)
    (hf : ∀ a, Makes used (f a)) : Makes used (x >>= f) := Spends.pass hx hf

/-- The value of one of the roots is used first. -/
@[grind ←] theorem use {x : NodeId} {f : Value → Build NodeId} (mem : x ∈ used)
    (hf : ∀ v, Makes used (f v)) : Makes used (Build.rvalue x >>= f) :=
  Spends.touch mem (Build.within_rvalue x) hf

end Makes

namespace Offers

variable {α : Type}

@[grind ←] theorem pass {x : Build α} {f : α → Build NodeId} (hx : Idle x)
    (hf : ∀ a, Offers used (f a)) : Offers used (x >>= f) := Spends.pass hx hf

@[grind ←] theorem throw {fault : Fault} : Offers used (throw fault) := Spends.throw

@[grind ←] theorem throwWithType {ty : TypeId} {fault : String → Fault} :
    Offers used (Build.throwWithType ty fault) := Spends.throwWithType

theorem ite {p : Prop} [Decidable p] {x y : Build NodeId} (hx : Offers used x)
    (hy : Offers used y) : Offers used (if p then x else y) := Spends.ite hx hy

@[grind ←] theorem sentinel {id : NodeId} (s : id.isSentinel) : Offers used (pure id) := by
  intro c a c' two run
  obtain ⟨rfl, rfl⟩ := Run.pure_ok run
  refine ⟨two, trivial, fun rest tidy => ⟨?_, .refl _ _⟩⟩
  simp only [s, if_true, List.nil_append] at tidy
  exact tidy.sentinel s

theorem early {p : Prop} [Decidable p] {id : NodeId} {k : Build NodeId} (s : id.isSentinel)
    (hk : Offers used k) : Offers used (if p then pure id else k) :=
  .ite (sentinel s) hk

theorem guard {x : Build Bool} {id : NodeId} {k : Build NodeId} (hx : Idle x) (s : id.isSentinel)
    (hk : Offers used k) : Offers used (x >>= fun b => if b = true then pure id else k) :=
  .pass hx fun _ => early s hk

theorem serves {op : Build NodeId} (h : Offers used op) : Serves used op :=
  Spends.weaken h fun id => by
    split
    · exact List.nil_sublist used
    · exact List.Sublist.refl used

/-- Something is made to be used at once. Where it is not used in the end, it is left behind. -/
theorem andThen {x : Build NodeId} {f : NodeId → Build NodeId} (hx : Offers [] x)
    (hf : ∀ id, Offers (id :: used) (f id)) : Offers used (x >>= f) := by
  intro c a c' two run
  obtain ⟨id, c₁, first, run⟩ := Run.bind_ok.1 run
  obtain ⟨two, -, h⟩ := hx c id c₁ two first
  obtain ⟨two, -, h'⟩ := hf id c₁ a c' two run
  refine ⟨two, trivial, fun rest tidy => ?_⟩
  obtain ⟨tidy, leaves⟩ := h _ (by simpa using tidy)
  by_cases s : a.isSentinel
  · simp only [s, if_true, List.nil_append] at tidy leaves h'
    obtain ⟨tidy', leaves'⟩ := h' (id :: rest) tidy
    refine ⟨tidy'.sublist ((List.sublist_cons_self id rest).cons_cons a), ?_⟩
    exact leaves.trans (leaves'.mono fun n mem => List.mem_cons_of_mem id mem)
  · simp only [s, Bool.false_eq_true, if_false] at tidy leaves h'
    obtain ⟨tidy', leaves'⟩ := h' rest tidy
    exact ⟨tidy', (leaves.mono fun n mem => List.mem_append_right used mem).trans leaves'⟩

end Offers

/-- What is not needed yet is kept for later. -/
theorem Spends.frame {α : Type} {U G : α → List NodeId} {Q : α → Prop} {op : Build α}
    (h : Spends U op G Q) (kept : List NodeId) :
    Spends (fun a => kept ++ U a) op (fun a => kept ++ G a) Q := by
  intro c a c' two run
  obtain ⟨two, post, h⟩ := h c a c' two run
  refine ⟨two, post, fun rest tidy => ?_⟩
  have swap (l : List NodeId) : (kept ++ l ++ rest).Perm (l ++ (kept ++ rest)) := by
    rw [← List.append_assoc]
    exact List.perm_append_comm.append_right rest
  obtain ⟨tidy', leaves⟩ := h (kept ++ rest) (tidy.perm (swap _))
  exact ⟨tidy'.perm (swap _).symm, leaves.mono fun n mem => List.mem_append_right kept mem⟩

namespace Build

variable {β : Type} {c : Compilation} {r : β × Compilation}

theorem getNode_bind_ok {id : NodeId} {k : Node → Build β} (h : (getNode id >>= k) c = .ok r) :
    ∃ node, c.arena.find? id = some node ∧ k node c = .ok r := by
  obtain ⟨node, got, rest⟩ := ask_bind_ok h
  exact ⟨node, Arena.get_eq_ok.1 got, rest⟩

theorem typeOf_bind_ok {expr : NodeId} {k : TypeId → Build β} (h : (typeOf expr >>= k) c = .ok r) :
    ∃ node, c.arena.find? expr = some node ∧ k node.ty c = .ok r := by
  rw [typeOf, bind_assoc] at h
  exact getNode_bind_ok h

end Build

/-! ## Variables and functions -/

namespace Compilation

variable {c : Compilation} {func : FuncId} {f : Function}

theorem extends_setFunction (found : c.functions[func.index]? = some f) (f' : Function)
    (same : f'.spills = f.spills) :
    c.Extends { c with functions := c.functions.modify func.index fun _ => f' } := by
  refine ⟨rfl, Nat.le_refl _, fun _ => rfl, fun {j} reserved => .inl ?_⟩
  rcases reserved with slot | ⟨g, mem, spill⟩
  · exact .inl slot
  · rcases mem_of_mem_modify mem with rfl | mem
    · exact .inr ⟨f, Array.mem_of_getElem? found, same ▸ spill⟩
    · exact .inr ⟨g, mem, spill⟩

theorem extends_pushVariable {v : Variable}
    (slot : ∀ j, v.storage = .inst j → c.insts.Allocates j) :
    c.Extends { c with vars := c.vars.push v } := by
  refine ⟨rfl, Nat.le_refl _, fun _ => rfl, fun {j} reserved => ?_⟩
  rcases reserved with ⟨w, mem, e⟩ | spill
  · rcases Array.mem_push.1 mem with mem | rfl
    · exact .inl (.inl ⟨w, mem, e⟩)
    · exact .inr (slot j e)
  · exact .inl (.inr spill)

/-- A parameter gets a slot, which may be there already. -/
theorem extends_spill {var : VarId} {v' : Variable} {index : Nat} {ty ptrType : TypeId}
    {name : Name} {slot : InstId} {f' : Function} {insts : InstStore}
    (found : c.functions[func.index]? = some f) (storage : v'.storage = .inst slot)
    (e : f.spillSlotFor index ty ptrType name c.insts = (slot, f', insts)) :
    c.Extends { c with
      insts
      functions := c.functions.modify func.index fun _ => f'
      vars := c.vars.modify var.index fun _ => v' } := by
  have mem := Array.mem_of_getElem? found
  unfold Function.spillSlotFor at e
  split at e
  · rename_i spilled
    cases e
    have old : c.Reserves slot :=
      .inr ⟨f, mem, List.mem_map.2 ⟨_, Function.mem_spills spilled, rfl⟩⟩
    refine ⟨rfl, Nat.le_refl _, fun _ => rfl, fun {j} reserved => .inl ?_⟩
    rcases reserved with ⟨w, memw, e⟩ | ⟨g, memg, spill⟩
    · rcases mem_of_mem_modify memw with rfl | memw
      · cases storage.symm.trans e
        exact old
      · exact .inl ⟨w, memw, e⟩
    · rcases mem_of_mem_modify memg with rfl | memg
      · exact .inr ⟨g, mem, spill⟩
      · exact .inr ⟨g, memg, spill⟩
  · cases e
    have new : (c.insts.create (.alloca ty name) ptrType).2.Allocates ⟨c.insts.slots.size⟩ :=
      ⟨ty, name, ptrType, InstStore.find?_create _ _ _⟩
    refine ⟨rfl, by simp, fun {i} lt => ?_, fun {j} reserved => ?_⟩
    · refine InstStore.find?_create_of_ne ?_
      rintro rfl
      exact Nat.lt_irrefl _ lt
    · rcases reserved with ⟨w, memw, e⟩ | ⟨g, memg, spill⟩
      · rcases mem_of_mem_modify memw with rfl | memw
        · cases storage.symm.trans e
          exact .inr new
        · exact .inl (.inl ⟨w, memw, e⟩)
      · rcases mem_of_mem_modify memg with rfl | memg
        · rw [List.map_append] at spill
          rcases List.mem_append.1 spill with spill | spill
          · exact .inl (.inr ⟨f, mem, spill⟩)
          · cases List.mem_singleton.1 spill
            exact .inr new
        · exact .inl (.inr ⟨g, memg, spill⟩)

end Compilation

namespace Build

open Compilation (extends_setFunction extends_pushVariable extends_spill)

@[grind ←] theorem idle_variableAddress (var : VarId) : Idle (variableAddress var) := by
  intro c a c' _ run
  cases addresses_of_variableAddress run with
  | stays => exact .of_same rfl rfl rfl rfl
  | @spills _ _ _ _ _ _ _ types _ _ _ _ _ _ _ at' spilled =>
    have first : c.Extends { c with types } := .of_same rfl rfl rfl rfl
    exact first.trans (extends_spill at' rfl spilled)

@[grind ←] theorem idle_newLocal (func : FuncId) (kind : VarKind) (name : Name) (ty : TypeId)
    (addressTaken : Bool) (span : Span) : Idle (newLocal func kind name ty addressTaken span) := by
  refine .bind (idle_onTypes _) fun ptrType c var c' _ run => ?_
  obtain ⟨slot, c₁, create, run⟩ := Run.bind_ok.1 run
  have h := idle_createInst _ _ c slot c₁ trivial create
  obtain ⟨f, found, run⟩ := getFunction_bind_ok run
  rw [setFunction_bind] at run
  cases run
  refine (h.trans (extends_setFunction found (f.addPendingLocal slot) rfl)).trans
    (extends_pushVariable fun j e => ?_)
  cases e
  cases create
  exact ⟨ty, name, ptrType, InstStore.find?_create c.insts (.alloca ty name) ptrType⟩

@[grind ←] theorem idle_newGlobal (name asmName : String) (ty : TypeId) (flags : GlobalFlags)
    (span : Span) : Idle (newGlobal name asmName ty flags span) := by
  refine .bind (idle_intern _) fun name => .bind (idle_intern _) fun asmName c var c' _ run => ?_
  rw [Run.get_bind] at run
  obtain ⟨var, c₁, push, run⟩ := Run.bind_ok.1 run
  cases push
  cases run
  exact (extends_pushVariable (by simp)).trans (.of_same rfl rfl rfl rfl)

@[grind ←] theorem idle_parameterVariable (func : FuncId) (name : String) (ty : TypeId)
    (addressTaken : Bool)
    (span : Span) : Idle (parameterVariable func name ty addressTaken span) := by
  refine .ite (.pure _) <| .bind (.ask _) fun _ => .ite (.pure _) <| .bind (idle_intern _)
    fun name c a c' _ run => ?_
  rw [Run.get_bind] at run
  obtain ⟨f, found, run⟩ := getFunction_bind_ok run
  cases run
  exact (extends_setFunction found (f.pushParam ⟨c.vars.size⟩).2 rfl).trans
    (extends_pushVariable nofun)

@[grind ←] theorem idle_declareFunction (fntype : TypeId) (name asmName : String)
    (flags : FunctionFlags) (splitStack : Bool) (span : Span) :
    Idle (declareFunction fntype name asmName flags splitStack span) := by
  refine .bind (.ask _) fun _ => .ite (.pure _) <| .bind (.ask _) fun result =>
    .ite (obeys_throwWithType _ _) <| .bind .get fun _ => .bind (idle_intern name) fun name =>
    .bind (idle_intern asmName) fun asmName c a c' _ run => ?_
  cases run
  refine ⟨rfl, Nat.le_refl _, fun _ => rfl, fun {j} reserved => .inl ?_⟩
  rcases reserved with slot | ⟨g, mem, spill⟩
  · exact .inl slot
  · rcases Array.mem_push.1 mem with mem | rfl
    · exact .inr ⟨g, mem, spill⟩
    · simp [Function.declare] at spill

@[grind ←] theorem idle_setParameters (func : FuncId) (params : List VarId) :
    Idle (setParameters func params) := by
  refine .ite (.pure _) <| .bind (.anyM obeys_isErrorVar) fun _ =>
    .ite (.pure _) fun c a c' _ run => ?_
  obtain ⟨f, found, run⟩ := getFunction_bind_ok run
  cases run
  exact extends_setFunction found { f with params } rfl

@[grind ←] theorem idle_label (func : FuncId) (span : Span) : Idle (label func span) := by
  intro c a c' _ run
  obtain ⟨f, found, run⟩ := getFunction_bind_ok run
  cases run
  exact extends_setFunction found (f.newLabel span).2 rfl

/-- A function is changed where its slots are left alone. -/
theorem idle_editFunction (func : FuncId) {change : Function → Except Fault Function}
    (same : ∀ {f f'}, change f = .ok f' → f.SameSlots f') :
    Idle (do
      let f ← getFunction func
      let f' ← change f
      setFunction func f') := by
  intro c a c' _ run
  obtain ⟨f, found, run⟩ := getFunction_bind_ok run
  obtain ⟨f', e, run⟩ := Run.lift_bind_ok run
  cases run
  exact extends_setFunction found f' (same e).spills

end Build

namespace Build

variable {kids : List NodeId}

attribute [local grind unfold] getNode getFunction getVariable isErrorType typeName

/-! ## Nodes -/

@[grind ←] theorem makes_makeNode (kind : NodeKind) (ty : TypeId) (span : Span) :
    Makes kids (makeNode kind kids ty span) := makes_make kind kids ty span

@[grind ←] theorem makes_makeStmt (kind : NodeKind) (span : Span) :
    Makes kids (makeStmt kind kids span) :=
  makes_make kind kids .void span

@[grind ←] theorem makes_makeConst (ty : TypeId) (value : Constant) (span : Span) :
    Makes [] (makeConst ty value span) := makes_leaf rfl rfl

@[grind ←] theorem makes_makeEmpty (span : Span) : Makes [] (makeEmpty span) := makes_leaf rfl rfl

@[grind ←] theorem makes_makeComputed (kind : NodeKind) (inst : InstKind) (ty : TypeId)
    (span : Span) : Makes kids (makeComputed kind kids inst ty span) :=
  .andThen (makes_makeNode kind ty span) fun _ plain =>
    .touch (by simp) (within_attachValue plain inst ty) fun _ => .pure rfl plain

theorem answer_of_makeComputed {kind : NodeKind} {inst : InstKind} {ty : TypeId} {span : Span}
    {c c' : Compilation} {id : NodeId}
    (run : makeComputed kind kids inst ty span c = .ok (id, c')) :
    id = ⟨c.arena.size⟩ := by
  obtain ⟨new, c₁, make, run⟩ := Run.bind_ok.1 run
  obtain ⟨_, c₂, -, run⟩ := Run.bind_ok.1 run
  obtain ⟨rfl, -⟩ := Run.pure_ok run
  obtain ⟨arena, step, -⟩ := onArena_ok make
  obtain ⟨_, -, step⟩ := bind_eq_ok.1 step
  obtain ⟨_, -, step⟩ := bind_eq_ok.1 step
  cases step
  rfl

@[grind ←] theorem makes_makeAddressed (kind : NodeKind) (inst : InstKind) (ty : TypeId)
    (span : Span) : Makes kids (makeAddressed kind kids inst ty span) :=
  .pass (idle_onTypes _) fun ptrType => .andThen (makes_makeNode kind ty span) fun _ plain =>
    .touch (by simp) (within_attachValue plain inst ptrType) fun _ =>
      .touch (by simp) (within_setFlags plain _) fun _ => .pure rfl plain

/-! ## Expressions -/

@[grind ←] theorem offers_zero (ty : TypeId) : Offers [] (zero ty) := by
  unfold zero
  grind

@[grind ←] theorem offers_floatConstant (ty : TypeId) (bits : UInt64) :
    Offers [] (floatConstant ty bits) := by
  unfold floatConstant
  grind

@[grind ←] theorem offers_complexConstant (ty : TypeId) (real imag : UInt64) :
    Offers [] (complexConstant ty real imag) :=
  .guard (.ask _) rfl <| .pass (.ask _) fun _ => Makes.offers <|
    .bind (V := fun _ => []) (offers_floatConstant _ _).serves fun re _ =>
      .bind (V := fun _ => [re]) (offers_floatConstant _ _).serves fun _ _ =>
        (makes_makeNode _ _ _).perm fun _ => List.Perm.swap ..

@[grind ←] theorem offers_varExpr (var : VarId) (span : Span) : Offers [] (varExpr var span) :=
  .pass (.ask _) fun _ => Offers.early rfl <| .pass (idle_variableAddress var) fun _ =>
    (makes_leaf rfl rfl).offers

@[grind ←] theorem offers_indirect (ty : TypeId) (ptr : NodeId) (span : Span) :
    Offers [ptr] (indirect ty ptr span) :=
  .guard (.ask _) rfl <| .guard (obeys_isErrorExpr _) rfl <| Makes.offers <|
    .touch (by simp) (within_rvalue ptr) fun addr => .andThen (makes_makeNode _ _ _) fun _ plain =>
      .touch (by simp) (within_setValue plain addr) fun _ =>
        .touch (by simp) (within_setFlags plain _) fun _ => .pure rfl plain

@[grind ←] theorem offers_addressOf (expr : NodeId) (span : Span) :
    Offers [expr] (addressOf expr span) :=
  .guard (obeys_isErrorExpr _) rfl <| .pass (obeys_lvalue _) fun addr =>
  .pass (obeys_typeOf _) fun _ =>
    .pass (idle_onTypes _) fun _ => Makes.offers <| .andThen (makes_makeNode _ _ _) fun _ plain =>
      .touch (by simp) (within_setValue plain addr) fun _ => .pure rfl plain

@[grind ←] theorem offers_functionCode (func : FuncId) (span : Span) :
    Offers [] (functionCode func span) :=
  .early rfl <| .pass (.ask _) fun _ => .pass (idle_onTypes _) fun _ => (makes_leaf rfl rfl).offers

@[grind ←] theorem offers_binary (op : Operator) (lhs rhs : NodeId) (span : Span) :
    Offers [lhs, rhs] (binary op lhs rhs span) := by
  refine .guard (obeys_isErrorExpr _) rfl <| .guard (obeys_isErrorExpr _) rfl <|
    .ite .throw <| .pass (obeys_typeOf _) fun lhsType => .pass (obeys_typeOf _) fun rhsType => ?_
  split <;> grind

@[grind ←] theorem makes_fieldAccess (expr : NodeId) (index : Nat) (fieldType : TypeId)
    (span : Span) : Makes [expr] (fieldAccess expr index fieldType span) := by
  unfold fieldAccess
  grind

@[grind ←] theorem offers_arrayIndex (array index : NodeId) (span : Span) :
    Offers [array, index] (arrayIndex array index span) := by
  refine .guard (obeys_isErrorExpr _) rfl <| .guard (obeys_isErrorExpr _) rfl <|
    .pass (obeys_typeOf _) fun ty => .pass (.ask _) fun elem => ?_
  split <;> grind

/-- Filling an empty place adds to what the places hold. -/
theorem filterMap_set_perm (slots : List (Option NodeId)) {i : Nat} (val : NodeId)
    (empty : slots[i]? = some none) :
    ((slots.set i (some val)).filterMap id).Perm (val :: slots.filterMap id) := by
  induction slots generalizing i with
  | nil => simp at empty
  | cons slot rest ih =>
    cases i with
    | zero =>
      cases Option.some.inj empty
      simp
    | succ i =>
      have ih := ih (i := i) (by simpa using empty)
      cases slot with
      | none => simpa using ih
      | some other => simpa using (ih.cons other).trans (.swap val other _)

theorem perm_of_fillSlots {pairs : List (Nat × NodeId)} {slots slots' : Array (Option NodeId)}
    (filled : fillSlots pairs slots = .ok slots') :
    (slots'.toList.filterMap id).Perm (pairs.map (·.2) ++ slots.toList.filterMap id) := by
  induction pairs generalizing slots with
  | nil =>
    cases filled
    exact .refl _
  | cons pair rest ih =>
    obtain ⟨index, val⟩ := pair
    rw [fillSlots] at filled
    split at filled
    · cases filled
    · cases filled
    · rename_i empty
      refine (ih filled).trans ?_
      rw [Array.toList_modify, List.modify_eq_set]
      have step := filterMap_set_perm slots.toList val (by simpa using empty)
      simpa [empty] using (step.append_left (rest.map (·.2))).trans List.perm_middle

/-- Places get their values, and the empty ones get zeros. -/
theorem spends_members (elem : TypeId) (slots : List (Option NodeId)) :
    Spends (fun _ => slots.filterMap id)
      (slots.mapM fun slot =>
        match slot with
        | some val => pure val
        | none => zero elem)
      (fun kids => kids) fun _ => True := by
  induction slots with
  | nil => exact .pure rfl trivial
  | cons slot rest ih =>
    rw [List.mapM_cons]
    cases slot with
    | none =>
      exact .bind (offers_zero elem).serves fun kid _ =>
        .andThen (ih.frame [kid]) fun _ _ => .pure rfl trivial
    | some val =>
      simp only [pure_bind]
      exact .andThen (ih.frame [val]) fun _ _ => .pure rfl trivial

@[grind ←] theorem offers_arrayLiteral (ty : TypeId) (indexes : List Nat) (vals : List NodeId)
    (span : Span) : Offers vals (arrayLiteral ty indexes vals span) := by
  refine .guard (.ask _) rfl <| .guard (.anyM obeys_isErrorExpr) rfl ?_
  split
  · exact .throw
  rename_i count
  refine .pass (.ask _) fun form => ?_
  split
  case h_2 => exact .throwWithType
  rename_i elem length
  split
  · exact .throw
  refine Makes.offers fun c literal c' two run => ?_
  obtain ⟨slots, filled, run⟩ := Run.lift_bind_ok run
  have perm := perm_of_fillSlots filled
  rw [List.map_snd_zip (by omega)] at perm
  simp only [Array.toList_replicate, List.filterMap_replicate_of_none, id_eq,
    List.append_nil] at perm
  have counted (kids : List NodeId) : Makes kids (do
      if nodeLimit ≤ (← get).arena.size then throw (.tooMany "nodes")
      else makeNode (.composite .building) kids ty span) := by
    intro c id c' two run
    rw [Run.get_bind] at run
    split at run
    · cases run
    · exact makes_makeNode (.composite .building) ty span c id c' two run
  have made : Makes (slots.toList.filterMap id) _ :=
    .andThen (spends_members elem slots.toList) fun kids _ => counted kids
  exact (made.perm fun _ => perm.symm) c literal c' two run

theorem makes_makeCall (result : TypeId) (span : Span) :
    Makes kids (onArena (·.makeCall result kids span)) := by
  intro c id c' two run
  by_cases empty : kids.isEmpty
  · simp only [Arena.makeCall, empty, if_true] at run
    cases run
  · simp only [Arena.makeCall, empty, Bool.false_eq_true, if_false] at run
    exact makes_make .call kids result span c id c' two run

@[grind ←] theorem offers_call (callee : NodeId) (args : List NodeId) (span : Span) :
    Offers (callee :: args) (call callee args span) := by
  refine .guard (obeys_isErrorExpr _) rfl <| .guard (.anyM obeys_isErrorExpr) rfl <|
    .pass (obeys_typeOf _) fun calleeType => .pass (.ask _) fun pointee =>
    .pass (.ask _) fun result => ?_
  split
  · exact .throwWithType
  · exact Makes.offers <| .touch (by simp) (within_rvalue callee) fun _ =>
      .touchAll (by simp) within_rvalue fun _ => .andThen (makes_makeCall _ _) fun _ plain =>
        .touch (by simp) (within_attachValue plain _ _) fun _ => .pure rfl plain

@[grind ←] theorem offers_compoundExpr (stmt expr : NodeId) (span : Span) :
    Offers [stmt, expr] (compoundExpr stmt expr span) := by
  refine .early rfl <| .guard (obeys_isErrorExpr _) rfl <| .pass (.ask _) fun inner => ?_
  have finish (value : Value) : Makes [stmt, expr] (do
      let id ← makeNode .compound [stmt, expr] inner.ty span
      changeArena (·.setValue id value)
      changeArena (·.setFlags id inner.flags)
      return id) :=
    .andThen (makes_makeNode _ _ _) fun _ plain => .touch (by simp)
    (within_setValue plain value) fun _ =>
      .touch (by simp) (within_setFlags plain _) fun _ => .pure rfl plain
  dsimp only
  split
  · exact .pass (.pure _) fun value => (finish value).offers
  · exact Makes.offers <| .touch (by simp) (within_rvalue expr) finish

/-- A conversion between like types hands its operand back. -/
theorem spends_convert (ty : TypeId) (expr : NodeId) (span : Span) :
    Spends (fun id => if id.isSentinel ∨ id = expr then [] else [expr]) (convert ty expr span)
      (fun id => if id = expr then [] else [id]) fun _ => True := by
  have refused : Spends (fun id => if id.isSentinel ∨ id = expr then [] else [expr])
      (pure .errorExpr) (fun id => if id = expr then [] else [id]) fun _ => True := by
    intro c a c' two run
    obtain ⟨rfl, rfl⟩ := Run.pure_ok run
    refine ⟨two, trivial, fun rest tidy => ⟨?_, .refl _ _⟩⟩
    have s : NodeId.isSentinel .errorExpr := rfl
    simp only [s, true_or, if_true, List.nil_append] at tidy
    by_cases e : NodeId.errorExpr = expr
    · simpa [e] using tidy
    · simpa [e] using tidy.sentinel s
  refine .pass (.ask _) fun _ => .ite refused <| .pass (obeys_isErrorExpr _) fun _ =>
    .ite refused ?_
  intro c id c' two run
  obtain ⟨node, find, run⟩ := typeOf_bind_ok run
  obtain ⟨like, -, run⟩ := ask_bind_ok run
  split at run
  · obtain ⟨rfl, rfl⟩ := Run.pure_ok run
    exact ⟨two, trivial, fun rest tidy => ⟨by simpa using tidy, .refl _ _⟩⟩
  -- the conversion is newer than its operand
  have new : id ≠ expr := by
    obtain ⟨value, c₁, used, run⟩ := Run.bind_ok.1 run
    obtain rfl := answer_of_makeComputed run
    rintro rfl
    have lt := Arena.lt_of_find? find
    rw [← (within_rvalue _).sized c value c₁ trivial used] at lt
    exact Nat.lt_irrefl _ lt
  have made : Makes [expr] (do
      let value ← rvalue expr
      makeComputed .conversion [expr] (.cast value) ty span) :=
    .touch (by simp) (within_rvalue expr) fun _ => makes_makeComputed _ _ _ _
  obtain ⟨two, plain, h⟩ := made c id c' two run
  exact ⟨two, trivial, by simpa [new, plain] using h⟩

end Build

end Codegen
