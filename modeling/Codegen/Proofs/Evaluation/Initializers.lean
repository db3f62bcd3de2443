import Codegen.Proofs.Evaluation.Constructors
import Codegen.Proofs.Evaluation.Usage

/-!
First values. A composite that is stored member by member leaves what it would leave if it were put
together and stored as a whole, after the same reads and calls.
-/

namespace Codegen

/-- How many members an object has that is made of members. -/
def TypeForm.members? : TypeForm → Option Nat
  | .struct fields => some fields.length
  | .array _ length => some length
  | .complex _ => some 2
  | _ => none

def TypeForm.isArray : TypeForm → Bool
  | .array _ _ => true
  | _ => false

/-- Finds the address of a member, in an array by its index. -/
def InstKind.place (storage : Value) (isArray : Bool) (index : Nat) : InstKind :=
  if isArray then .elemAddr storage (.const (.int .i64 index)) else .fieldAddr storage index

/-- A composite is put together, and then stored in a variable. -/
def Build.buildAndStore (func : FuncId) (var : VarId) (init : NodeId) : Build NodeId := do
  let v ← getVariable var
  let lhs ← varExpr var v.span
  let _ ← rvalue init
  assign func lhs init v.span

/-! ## Stores -/

namespace Machine

variable {K : Machine} {state : K.State} {α : Type}

def place (base : K.Val) (isArray : Bool) (index : Nat) : Operation K.Val :=
  if isArray then .elemAddr base (K.constant (.int .i64 index)) else .fieldAddr base index

/-- Carries out an expression statement. -/
def performs (stmt : K.Statements) (c : Compilation) (depth : Nat) (s : NodeId) (state : K.State) :
    Option K.State :=
  (c.arena.find? s).bind fun node => node.kids.foldlM
  (fun state k => evalWithin stmt c depth k state) state

theorem performs_of_single {stmt : K.Statements} {c : Compilation} {depth : Nat} {s x : NodeId}
    {node : Node} (find : c.arena.find? s = some node) (kids : node.kids = [x]) :
    performs stmt c depth s state = evalWithin stmt c depth x state := by
  simp [performs, find, kids]

/-- Stores members at their places, those from a position on. Each place has a type. -/
def storeEach (base : K.Val) (isArray : Bool) : Nat → List (TypeId × K.Val) → K.Mem → K.Mem
  | _, [], m => m
  | index, (ty, v) :: rest, m =>
    let r := K.act (place base isArray index) ty m
    storeEach base isArray (index + 1) rest (K.act (.store r.1 v) .void r.2).2

/-- Stores a value that is put together from its members. -/
def storeWhole (base : K.Val) (ty : TypeId) (vs : List K.Val) (m : K.Mem) : K.Mem :=
  let r := K.act (.aggregate vs) ty m
  (K.act (.store base r.1) .void r.2).2

/-- Objects of a type are no more than their members. -/
def Memberwise (K : Machine) (ty : TypeId) (form : TypeForm) : Prop :=
  ∀ (base : K.Val) (members : List (TypeId × K.Val)) (m : K.Mem),
    form.members? = some members.length →
      storeWhole base ty (members.map (·.2)) m = storeEach base form.isArray 0 members m

/-- Instructions that store values one by one, each after the address of its place. -/
inductive Stores (s : InstStore) (storage : Value) (isArray : Bool) :
    Nat → List Value → List TypeId → List InstId → Prop
  | nil (index : Nat) : Stores s storage isArray index [] [] []
  | cons {index v vs ty tys i j code} : s.find? i = some ⟨.place storage isArray index, ty⟩ →
    s.find? j = some ⟨.store (.inst i) v, .void⟩ →
    Stores s storage isArray (index + 1) vs tys code →
      Stores s storage isArray index (v :: vs) (ty :: tys) (i :: j :: code)

theorem exec_stores {s : InstStore} {storage : Value} {isArray : Bool} {index : Nat}
    {vs : List Value}
    {tys : List TypeId} {code : List InstId} (h : Stores s storage isArray index vs tys code)
    (fresh : ∀ v ∈ storage :: vs, ∀ j, v = .inst j → j ∉ code) (ρ : K.Regs) (m : K.Mem) :
    (K.exec s code (ρ, m)).map (·.2) =
      some (storeEach (K.value ρ storage) isArray index (tys.zip (vs.map (K.value ρ))) m) := by
  induction h generalizing ρ m with
  | nil => rfl
  | @cons index v vs ty tys i j code located stored _ ih =>
    have kept {σ : K.Regs} {x : K.Val} {k : InstId} {u : Value} (ne : u ≠ .inst k) :
        K.value (Regs.set σ k x) u = K.value σ u := by
      cases u with
      | inst l => exact if_neg fun e : l = k => ne (e ▸ rfl)
      | _ => rfl
    have other {u : Value} (mem : u ∈ storage :: v :: vs) : u ≠ .inst i ∧ u ≠ .inst j :=
      ⟨fun e => fresh u mem i e (by simp), fun e => fresh u mem j e (by simp)⟩
    have same {x y : K.Val} (u : Value) (mem : u ∈ storage :: v :: vs) :
        K.value (Regs.set (Regs.set ρ i x) j y) u = K.value ρ u :=
      (kept (other mem).2).trans (kept (other mem).1)
    have moved {x : K.Val} : K.value (Regs.set ρ i x) v = K.value ρ v := kept (other (by simp)).1
    have here {x : K.Val} : K.value (Regs.set ρ i x) (.inst i) = x := if_pos rfl
    have rest (u : Value) (mem : u ∈ storage :: vs) : u ∈ storage :: v :: vs := by
      rcases List.mem_cons.1 mem with rfl | mem <;> simp [*]
    have op : (InstKind.place storage isArray index).operation (K.value ρ) =
        place (K.value ρ storage) isArray index := by
      cases isArray <;> rfl
    rw [exec_cons located, exec_cons stored, op]
    dsimp only [InstKind.operation]
    rw [ih fun u mem l e out => fresh u (rest u mem) l e (by simp [out]), same storage (by simp),
      List.map_congr_left fun u mem => same u (by simp [mem]), here, moved]
    rfl

/-- What is done last to the memory, after values were used. -/
theorem Enacts.bind_map {N lo : Nat} {ρ : K.Regs} {P : α → K.Regs → Prop}
    {use : Option (α × K.State)} {eval : Option K.State} {f : α × K.State → K.Mem}
    {g : K.State → Option K.State} (h : Enacts N lo ρ P use eval)
    (last : ∀ a state ρ', P a ρ' → (g (state.over N ρ')).map (·.2) = some (f (a, state))) :
    (eval.bind g).map (·.2) = use.map f := by
  match use, h with
  | none, h => rw [show eval = none from h]; rfl
  | some (a, state), ⟨ρ', e, holds, _⟩ =>
    rw [e]
    exact last a state ρ' holds

theorem length_of_useAll {use : NodeId → K.State → Option (α × K.State)} {ks : List NodeId}
    {r : List α × K.State} (h : useAll use ks state = some r) : r.1.length = ks.length := by
  induction ks generalizing state r with
  | nil =>
    cases h
    rfl
  | cons k ks ih =>
    obtain ⟨_, -, h⟩ := Option.bind_eq_some_iff.1 h
    obtain ⟨_, more, rfl⟩ := Option.map_eq_some_iff.1 h
    exact congrArg (· + 1) (ih more)

theorem length_of_gather {use : NodeId → K.State → Option (α × K.State)} {s : InstStore}
    {node : Node} {r : List α × K.State} (h : gather use s node state = some r) :
    r.1.length = node.kids.length := by
  obtain ⟨_, all, h⟩ := Option.bind_eq_some_iff.1 h
  obtain ⟨_, -, rfl⟩ := Option.map_eq_some_iff.1 h
  exact (length_of_useAll all :)

end Machine

namespace Compilation

open Build Machine

variable {c₀ c c' start : Compilation} {init s : NodeId} {node : Node} {storage w : Value}
  {isArray : Bool} {index : Nat} {kids : List NodeId} {func : FuncId}

/-- The members of a composite are delivered, and stored by instructions of the composite. -/
structure StoresAll (c₀ c c' : Compilation) (init : NodeId) (node : Node) (storage : Value)
    (isArray : Bool) (index : Nat) (kids : List NodeId) (vs : List Value) (tys : List TypeId)
    (code : List InstId) : Prop where
  delivers : c₀.DeliversAll c.insts.slots.size c' kids vs
  find : c'.arena.find? init = some { node with insts := node.insts ++ code }
  count : tys.length = kids.length
  stores : Stores c'.insts storage isArray index vs tys code
  low : ∀ i ∈ code, c.insts.slots.size ≤ i.index
  fresh : ∀ v ∈ vs, ∀ j, v = .inst j → j ∉ code
  retains : ∀ {x}, (∀ k ∈ kids, c₀.arena.Apart x k) → ¬c₀.arena.Below x init →
    c.Retains c₀.arena [x] c'

theorem storeMembers_ok (sound : c₀.Sound) (o : c₀.Orderly) (h : c₀.Awaits c kids)
    (plain : ¬init.isSentinel) (out : ∀ k ∈ kids, ¬c₀.arena.Below k init)
    (find : c.arena.find? init = some node) {u : Unit}
    (run : storeMembers init storage isArray index kids c = .ok (u, c')) :
    ∃ vs tys code, c₀.StoresAll c c' init node storage isArray index kids vs tys code := by
  induction kids generalizing c index node with
  | nil =>
    cases run
    exact ⟨[], [], [], .nil .., by simpa using find, rfl, .nil index, by simp, by simp,
      fun _ _ => ⟨fun _ => rfl, Nat.le_refl _, fun _ => rfl⟩⟩
  | cons kid rest ih =>
    obtain ⟨v, c₁, c₂, ty, i, j, _, used, ext, new, new', located, stored, found, run⟩ :=
      storeMembers_cons run
    have r := (within_rvalue kid).revises c v c₁ h.orderly used
    have find₁ : c₁.arena.find? init = some node :=
      (r.frame fun below => out kid (by simp) (h.below ▸ below)).trans find
    cases find₁.symm.trans found
    have lt := InstStore.lt_of_find? located
    have lt' := InstStore.lt_of_find? stored
    have apart := List.pairwise_cons.1 h.apart
    have revised := ext.revises_set { node with insts := node.insts ++ [i, j] } find₁ plain
      rfl rfl rfl (by simp [lt, lt'])
    have waits := (h.tail r).revise revised
      (ext.retains_set _ plain fun k mem => out k (by simp [mem]))
    obtain ⟨vs, tys, code, more⟩ := ih waits (fun k mem => out k (by simp [mem]))
      (Arena.find?_set (Arena.isLive_of_find? (ext.arena ▸ find₁))) run
    have later {x : NodeId} (away : ∀ k ∈ rest, c₀.arena.Apart x k)
      (other : ¬c₀.arena.Below x init) :
        c₁.Retains c₀.arena [x] c' :=
      (ext.retains_set _ plain (by simpa using other)).trans (more.retains away other)
    have here := more.retains apart.1 (out kid (by simp))
    have first := delivers_rvalueWithin sound o _ h.head used
    refine ⟨v :: vs, ty :: tys, i :: j :: code, ?_, by simpa using more.find,
      by simp [more.count], ?_, ?_, ?_, ?_⟩
    · exact first.cons (later apart.1 (out kid (by simp))) ext.insts_le
        (Nat.le_trans r.insts_le ext.insts_le) more.delivers
    · exact .cons ((here.store lt).trans located) ((here.store lt').trans stored) more.stores
    · have low := Nat.le_trans r.insts_le ext.insts_le
      rintro l mem
      rcases List.mem_cons.1 mem with rfl | mem
      · exact Nat.le_trans r.insts_le new
      rcases List.mem_cons.1 mem with rfl | mem
      · exact Nat.le_trans r.insts_le new'
      · exact Nat.le_trans low (more.low l mem)
    · -- a value is older than the instructions that store it, or made after them
      have low := more.low
      have le := ext.insts_le
      have old := Nat.le_trans h.keep.le r.insts_le
      intro u mem l e
      rcases List.mem_cons.1 mem with rfl | mem
      · have known := (first.bounded l e).1
        grind
      · have known := (more.delivers.bounded u mem l e).2
        have others := more.fresh u mem l e
        grind
    · intro x away other
      refine (r.retains fun y mem n below below' => r.plain below' ?_).trans
        (later (fun k mem => away k (by simp [mem])) other)
      cases List.mem_singleton.1 mem
      exact away kid (by simp) n below (h.below ▸ below')

theorem Extends.retains_add {a : Arena} {xs : List NodeId} (h : c.Extends c') (node : Node)
    (old : ∀ {n : NodeId}, n.isSentinel ∨ (∃ x ∈ xs, a.Below x n) → n.index < c.arena.size) :
    c.Retains a xs { c' with arena := (c'.arena.add node).2 } where
  nodes {n} part := by
    refine (Arena.find?_add_of_ne ?_).trans (by rw [h.arena])
    rintro rfl
    exact Nat.lt_irrefl _ (h.arena ▸ old part)
  le := h.insts_le
  store := h.store

/-! ## Both ways -/

theorem initStmt_ok {var : VarId} {v : Variable} (run : initStmt func var init start = .ok (s, c'))
    (plain : ¬s.isSentinel) (var_at : start.vars[var.index]? = some v)
    (find : start.arena.find? init = some node) (building : node.isBuilding)
    (address : variableAddress var start = .ok (storage, c)) :
    ∃ elem c₁ c₂, c.types.arrayElement? v.ty = .ok elem ∧
      storeMembers init storage elem.isSome 0 node.kids c = .ok ((), c₁) ∧
      changeArena (·.finishComposite init (.const .void)) c₁ = .ok ((), c₂) ∧
      makeNode .exprStmt [init] .void v.span c₂ = .ok (s, c') := by
  replace run := otherwise run plain rfl
  replace run := otherwise (isErrorVar_bind_ok run) plain rfl
  replace run := otherwise (isErrorExpr_bind_ok run) plain rfl
  obtain ⟨_, found, run⟩ := getVariable_bind_ok run
  cases var_at.symm.trans found
  obtain ⟨_, found, run⟩ := getNode_bind_ok run
  cases find.symm.trans found
  simp only [building, Bool.not_true, Bool.false_eq_true, if_false] at run
  obtain ⟨_, _, located, run⟩ := Run.bind_ok.1 run
  cases address.symm.trans located
  obtain ⟨elem, asked, run⟩ := ask_bind_ok run
  obtain ⟨_, found, run⟩ := getNode_bind_ok run
  rw [(idle_variableAddress var start storage c trivial address).arena] at found
  cases find.symm.trans found
  obtain ⟨_, c₁, stored, run⟩ := Run.bind_ok.1 run
  obtain ⟨_, c₂, finished, run⟩ := Run.bind_ok.1 run
  exact ⟨elem, c₁, c₂, asked, stored, finished, run⟩

/-- What has a value that is no address is left alone. -/
theorem rvalue_settled {x : NodeId} {w' : Value} (find : c.arena.find? x = some node)
    (done : node.isBuilding = false) (value : node.value = some w)
    (loaded : node.flags.address = false) (run : rvalue x c = .ok (w', c')) : w' = w ∧ c' = c := by
  obtain ⟨_, got, run⟩ := ask_bind_ok (show rvalueWithin (c.arena.size + 1) x c = .ok (w', c')
    from run)
  cases find.symm.trans (Arena.get_eq_ok.1 got)
  simp only [done, Bool.false_eq_true, if_false] at run
  obtain ⟨_, _, found, has, ⟨address, -⟩ | ⟨-, rfl, rfl⟩⟩ := settle_cases run
  · cases find.symm.trans found
    simp [loaded] at address
  · cases find.symm.trans found
    exact ⟨Option.some.inj (has.symm.trans value), rfl⟩

/-- A store of a value that is there, in a statement of its own. -/
theorem assign_ok {lhs rhs : NodeId} {span : Span} {node' : Node}
    (run : assign func lhs rhs span c = .ok (s, c')) (plain : ¬s.isSentinel)
    (left : c.arena.find? lhs = some node) (place : node.value = some storage)
    (right : c.arena.find? rhs = some node') (done : node'.isBuilding = false)
    (value : node'.value = some w) (loaded : node'.flags.address = false) :
    c'.arena.find? s = some (.fresh .exprStmt [⟨c.arena.size⟩] .void span) ∧
      c'.arena.find? ⟨c.arena.size⟩ = some { Node.fresh .assign [lhs, rhs] .void span with
        insts := [⟨c.insts.slots.size⟩] } ∧
      (∀ n : NodeId, n.index < c.arena.size → c'.arena.find? n = c.arena.find? n) ∧
      c'.insts = (c.insts.create (.store storage w) .void).2 := by
  replace run := otherwise run plain rfl
  replace run := otherwise (isErrorExpr_bind_ok run) plain rfl
  replace run := otherwise (isErrorExpr_bind_ok run) plain rfl
  obtain ⟨ptr, _, first, rest⟩ := Run.bind_ok.1 run
  obtain ⟨rfl, _, found, has, -⟩ := Build.lvalue_ok first
  cases left.symm.trans found
  cases place.symm.trans has
  obtain ⟨_, _, second, last⟩ := Run.bind_ok.1 rest
  obtain ⟨rfl, rfl⟩ := rvalue_settled right done value loaded second
  obtain ⟨id, _, made, last⟩ := Run.bind_ok.1 last
  obtain ⟨rfl, rfl⟩ := makeNode_ok made
  obtain ⟨i, _, attached, last⟩ := Run.bind_ok.1 last
  obtain ⟨_, found, -, rfl, rfl⟩ := attach_ok attached
  cases (Arena.find?_add _ (Node.fresh .assign [lhs, rhs] .void span)).symm.trans found
  simp only [Arena.add_set] at last
  obtain ⟨rfl, rfl⟩ := makeNode_ok last
  refine ⟨Arena.find?_add .., (Arena.find?_add_of_ne ?_).trans (Arena.find?_add ..),
    fun n lt => ?_, rfl⟩
  · simp [Arena.add, Arena.size]
  · refine (Arena.find?_add_of_ne ?_).trans (Arena.find?_add_of_ne ?_) <;> rintro rfl <;>
      simp only [Arena.add, Arena.size, Array.size_push] at lt <;> omega

theorem Orderly.awaits (o : c.Orderly) (tree : c.arena.IsTree init)
    (find : c.arena.find? init = some node) (building : node.isBuilding) : c.Awaits c [init] where
  apart := by simp
  trees := by simpa using tree
  exprs := by
    rintro _ mem _ found
    cases List.mem_singleton.1 mem
    cases find.symm.trans found
    cases kind : node.kind <;> simp_all [Node.isBuilding, NodeKind.compositeState?, Node.isStmt,
      NodeKind.isStmt]
  orderly := o
  below := rfl
  keep := ⟨fun _ => rfl, Nat.le_refl _, fun _ => rfl⟩

/-- What is below a node is not new. -/
theorem Sound.lt_of_part {n : NodeId} (sound : c.Sound) (live : c.arena.isLive init)
    (part : n.isSentinel ∨ ∃ x ∈ [init], c.arena.Below x n) : n.index < c.arena.size := by
  rcases part with s | ⟨x, mem, below⟩
  · exact sound.shaped.sentinel_lt s
  · cases List.mem_singleton.1 mem
    exact sound.lt_of_below (Arena.lt_of_isLive live) below

section

variable {c₁ : Compilation} {s : NodeId} (sound : c.Sound) (o : c.Orderly)
  (tree : c.arena.IsTree init) (find : c.arena.find? init = some node) (building : node.isBuilding)
  (slot : ∀ j, storage = .inst j → j.index < c.insts.slots.size)

include sound o tree find building slot

theorem performs_members {c₂ : Compilation} {span : Span}
    (stored : storeMembers init storage isArray 0 node.kids c = .ok ((), c₁))
    (finished : changeArena (·.finishComposite init (.const .void)) c₁ = .ok ((), c₂))
    (made : makeNode .exprStmt [init] .void span c₂ = .ok (s, c')) :
    (∃ done, c'.arena.find? init = some done ∧ done.kind = .composite .finalized) ∧
      ∃ places : List TypeId, places.length = node.kids.length ∧
        ∀ {K : Machine} {stmt : K.Statements}, Respects c.insts.slots.size stmt → ∀ depth state,
          (performs stmt c' (depth + 1) s state).map (·.2) =
            (gather (useWithin stmt c depth) c.insts node state).map fun (ws, state) =>
              storeEach (K.value state.1 storage) isArray 0 (places.zip (ws.map (· state.1)))
                state.2 := by
  have plain : ¬init.isSentinel := fun s => by simp [(o.blank s find).2] at building
  have waits : c.Awaits c node.kids := (o.awaits tree find building).kids sound find building
  have out (k : NodeId) (mem : k ∈ node.kids) :
    ¬c.arena.Below k init := tree.not_below .refl find mem
  obtain ⟨vs, tys, code, all⟩ := storeMembers_ok sound o waits plain out find stored
  have size : c₂.arena.size = c.arena.size :=
    (sized_finishComposite _ c₁ _ c₂ trivial finished).trans
    (sized_storeMembers _ _ _ _ _ c _ c₁ trivial stored)
  obtain ⟨rfl, rfl⟩ := makeNode_ok made
  have added := Extends.retains_add (.of_same rfl rfl rfl rfl : c₂.Extends c₂)
    (.fresh .exprStmt [init] .void span) fun part =>
      size ▸ sound.lt_of_part (Arena.isLive_of_find? find) part
  obtain ⟨arena, step, rfl⟩ := changeArena_ok finished
  obtain ⟨_, found, -, rfl⟩ := Arena.finishComposite_ok step
  cases all.find.symm.trans found
  have top := (added.nodes (.inr ⟨init, by simp, .refl⟩)).trans
    (Arena.find?_set (Arena.isLive_of_find? found))
  have keep := (Extends.retains_set (.of_same rfl rfl rfl rfl : c₁.Extends c₁) _ plain out).trans
    (added.kids sound.sentinelsBare find)
  refine ⟨⟨_, top, rfl⟩, tys, all.count, fun {K stmt} respects depth state => ?_⟩
  have revised := revises_storeMembers o plain
    (fun k mem other => (Arena.mem_kidsOf find).2 ⟨mem, other⟩) stored
  have old : c.Retains c.arena [] _ := (revised.retains (by simp)).trans (keep.mono (by simp))
  have members := all.delivers.gather sound o find respects keep old depth state state.1
  rw [State.over_self] at members
  rw [performs_of_single (Arena.find?_add ..) rfl, evalWithin_succ top rfl]
  simp only [bind_exec_append]
  refine members.bind_map fun ws state ρ' stands => ?_
  have stores := exec_stores all.stores ?_ (state.1.over c.insts.slots.size ρ') state.2
  · rw [value_over slot, map_of_stands stands] at stores
    exact stores
  · intro v mem j e
    rcases List.mem_cons.1 mem with rfl | mem
    · exact fun out => Nat.not_lt.2 (all.low j out) (slot j e)
    · exact all.fresh v mem j e

theorem performs_whole {leaf : Node} {w : Value} {func : FuncId} {span : Span}
    (loaded : node.flags.address = false) (kids : leaf.kids = []) (insts : leaf.insts = [])
    (expr : leaf.isStmt = false) (value : leaf.value = some storage)
    (adds : c₀ = { c with arena := (c.arena.add leaf).2 }) (orderly : c₀.Orderly)
    (used : rvalue init c₀ = .ok (w, c₁))
    (run : assign func ⟨c.arena.size⟩ init span c₁ = .ok (s, c')) (plain : ¬s.isSentinel)
    {K : Machine} {stmt : K.Statements} (respects : Respects c.insts.slots.size stmt) (depth : Nat)
    (state : K.State) : (performs stmt c' (depth + 2) s state).map (·.2) =
      (gather (useWithin stmt c depth) c.insts node state).map fun (ws, state) =>
        storeWhole (K.value state.1 storage) node.ty (ws.map (· state.1)) state.2 := by
  have live := Arena.isLive_of_find? find
  have old {n : NodeId} := sound.lt_of_part (n := n) live
  have here : c₀.arena.find? ⟨c.arena.size⟩ = some leaf := adds ▸ Arena.find?_add ..
  have keep : c.Retains c.arena [init] c₀ :=
    adds ▸ Extends.retains_add (.of_same rfl rfl rfl rfl) leaf old
  have below : c₀.arena.Below = c.arena.Below := by
    refine Arena.below_congr fun n => ?_
    subst adds
    by_cases e : n = ⟨c.arena.size⟩
    · have gone : c.arena.find? ⟨c.arena.size⟩ = none := by simp [Arena.find?, Arena.size]
      rw [e, Arena.kidsOf_add_self, kids, Arena.kidsOf, gone]
      rfl
    · exact Arena.kidsOf_add_of_ne e
  have waits : c.Awaits c₀ [init] := { o.awaits tree find building with orderly, below, keep }
  have delivers := delivers_rvalueWithin sound o _ waits used
  have revised := (within_rvalue init).revises c₀ w c₁ orderly used
  have left : c₁.arena.find? ⟨c.arena.size⟩ = some leaf :=
    (revised.frame fun b => sound.not_below_fresh (Arena.lt_of_isLive live) (below ▸ b)).trans here
  obtain ⟨done, right, finalized, valued, flagged⟩ := delivers.settled
  obtain ⟨last, stores, same, insts'⟩ :=
    assign_ok run plain left value right finalized valued flagged
  have size : c₁.arena.size = c.arena.size + 1 := by rw [revised.size, adds, Arena.size_add]
  have later : c₁.Retains c.arena [init] c' := by
    have created := idle_createInst (.store storage w) .void c₁ _ _ trivial rfl
    refine ⟨fun part => same _ (size ▸ Nat.lt_succ_of_lt (old part)), ?_, fun lt => ?_⟩ <;>
      rw [insts']
    · exact created.insts_le
    · exact created.store lt
  have uses := delivers.enacts respects later (depth + 1) state state.1
  rw [State.over_self] at uses
  have reads : evalWithin stmt c' (depth + 1) ⟨c.arena.size⟩ state = some state := by
    rw [evalWithin_succ ((same _ (by simp [size])).trans left) expr, kids, insts]
    rfl
  rw [performs_of_single last rfl, evalWithin_succ stores rfl]
  simp only [Node.fresh, List.foldlM_cons, List.foldlM_nil, reads, Option.bind_eq_bind,
    Option.bind_some, Option.pure_def, Option.bind_fun_some]
  have stored : c'.insts.find? ⟨c₁.insts.slots.size⟩ = some ⟨.store storage w, .void⟩ :=
    insts' ▸ InstStore.find?_create ..
  have whole : useWithin stmt c (depth + 1) init state =
      (gather (useWithin stmt c depth) c.insts node state).map fun (ws, state) =>
        put (.aggregate (ws.map (· state.1))) node.ty state := by
    simp [useWithin, find, building, loaded, Function.comp_def]
  rw [whole] at uses
  rw [uses.bind_map (f := fun (r : (K.Regs → K.Val) × K.State) =>
    (K.act (.store (K.value r.2.1 storage) (r.1 r.2.1)) .void r.2.2).2), Option.map_map]
  · rfl
  · intro w' state ρ' stands
    rw [State.over, exec_cons stored]
    simp only [InstKind.operation, value_over slot, stands state.1]
    rfl

end

theorem buildAndStore_ok {var : VarId} {v : Variable}
    (run : buildAndStore func var init start = .ok (s, c')) (plain : ¬s.isSentinel)
    (var_at : start.vars[var.index]? = some v)
    (address : variableAddress var start = .ok (storage, c)) :
    ∃ leaf w c₁, leaf.kids = [] ∧ leaf.insts = [] ∧ leaf.isStmt = false ∧
      leaf.value = some storage ∧
      rvalue init { c with arena := (c.arena.add leaf).2 } = .ok (w, c₁) ∧
      assign func ⟨c.arena.size⟩ init v.span c₁ = .ok (s, c') := by
  obtain ⟨_, found, run⟩ := getVariable_bind_ok run
  cases var_at.symm.trans found
  obtain ⟨lhs, c₀, named, run⟩ := Run.bind_ok.1 run
  obtain ⟨w, c₁, used, last⟩ := Run.bind_ok.1 run
  obtain ⟨_, found, named⟩ := getVariable_bind_ok named
  cases var_at.symm.trans found
  split at named
  · cases named
    cases isErrorExpr_bind_ok (otherwise last plain rfl)
    exact absurd rfl plain
  · obtain ⟨_, _, located, named⟩ := Run.bind_ok.1 named
    cases address.symm.trans located
    cases named
    exact ⟨_, w, c₁, rfl, rfl, rfl, rfl, used, last⟩

/-- A composite that is stored member by member leaves the memory as it would be if it were put
together and stored. Either way its members are used first, in order, and then it is written. -/
theorem initStmt_as_stored {start c₁ c₂ : Compilation} {history : List Transfer} {func : FuncId}
    {var : VarId} {v : Variable} {form : TypeForm} {s₁ s₂ : NodeId} (ledger : start.Ledger history)
    (honest : Transfer.Honest (⟨[init], []⟩ :: history))
    (linear : Transfer.Linear (⟨[init], []⟩ :: history))
    (find : start.arena.find? init = some node) (building : node.isBuilding)
    (var_at : start.vars[var.index]? = some v)
    (address : variableAddress var start = .ok (storage, c)) (ty : node.ty = v.ty)
    (shape : c.types.underlyingForm node.ty = .ok form)
    (count : form.members? = some node.kids.length)
    (folded : initStmt func var init start = .ok (s₁, c₁)) (plain₁ : ¬s₁.isSentinel)
    (built : buildAndStore func var init start = .ok (s₂, c₂)) (plain₂ : ¬s₂.isSentinel) :
    (∃ done, c₁.arena.find? init = some done ∧ done.kind = .composite .finalized) ∧
      ∃ places : List TypeId, places.length = node.kids.length ∧
        ∀ {K : Machine} {stmt : K.Statements}, Respects start.insts.slots.size stmt → ∀ depth state,
          (performs stmt c₁ (depth + 1) s₁ state).map (·.2) =
            (gather (useWithin stmt c depth) c.insts node state).map (fun (ws, state) =>
              storeEach (K.value state.1 storage) form.isArray 0 (places.zip (ws.map (· state.1)))
                state.2) ∧
          (performs stmt c₂ (depth + 2) s₂ state).map (·.2) =
            (gather (useWithin stmt c depth) c.insts node state).map (fun (ws, state) =>
              storeWhole (K.value state.1 storage) node.ty (ws.map (· state.1)) state.2) ∧
          (K.Memberwise node.ty form → (performs stmt c₁ (depth + 1) s₁ state).map (·.2) =
            (performs stmt c₂ (depth + 2) s₂ state).map (·.2)) := by
  obtain ⟨hand, holds⟩ := ledger.exists_holds honest.2 linear.earlier
  have ext := idle_variableAddress var start storage c trivial address
  have tidy := ext.tidy (holds.take honest linear)
  obtain ⟨sound, -, sourced⟩ :=
    keeps_variableAddress (P := .none) var start storage c ledger.reachable.sound trivial address
  have find' : c.arena.find? init = some node := ext.arena ▸ find
  have tree := tidy.isTree sound (by simp) find'
  have slot (j : InstId) (e : storage = .inst j) : j.index < c.insts.slots.size := by
    rcases sourced j e with slot | ⟨k, mem, -⟩
    · exact tidy.lt_of_isSlot slot
    · cases mem
  obtain ⟨elem, c₃, c₄, asked, stored, finished, made⟩ :=
    initStmt_ok folded plain₁ var_at find building address
  have isArray : elem.isSome = form.isArray := by
    rw [← ty, TypeTable.arrayElement?, shape] at asked
    cases form <;> cases asked <;> rfl
  rw [isArray] at stored
  obtain ⟨done, places, length, members⟩ :=
    performs_members sound tidy.toOrderly tree find' building slot stored finished made
  obtain ⟨leaf, w, c₅, kids, insts, expr, value, used, run⟩ :=
    buildAndStore_ok built plain₂ var_at address
  have orderly := (tidy_add leaf (by rw [kids]; exact tidy) (by simp [kids]) insts).1.toOrderly
  refine ⟨done, places, length, fun {K stmt} respects depth state => ?_⟩
  have respects : Respects c.insts.slots.size stmt :=
    fun le => respects (Nat.le_trans ext.insts_le le)
  have first := members respects depth state
  have second := performs_whole sound tidy.toOrderly tree find' building slot
    ((sound.nodes find').loaded building) kids insts expr value rfl orderly used run plain₂ respects
    depth state
  refine ⟨first, second, fun memberwise => ?_⟩
  rw [first, second]
  cases gathered : gather (useWithin stmt c depth) c.insts node state with
  | none => rfl
  | some r =>
    have width : (r.1.map (· r.2.1)).length = places.length := by
      rw [List.length_map, length_of_gather gathered, length]
    have same := memberwise (K.value r.2.1 storage) (places.zip (r.1.map (· r.2.1))) r.2.2
      (by rw [count, List.length_zip, width, Nat.min_self, length])
    rw [List.map_snd_zip (Nat.le_of_eq width)] at same
    exact congrArg some same.symm

end Compilation

/-! ## Two members change places -/

/-- The numbers in the members of an object, with where they are, from a position on. -/
def branches : Nat → List (List Nat × List (List Nat × Nat)) → List (List Nat × Nat)
  | _, [] => []
  | i, v :: vs => v.2.map (fun (path, n) => (i :: path, n)) ++ branches (i + 1) vs

/-- A memory that lists the numbers that were written, with where they were. A value is a place and
numbers. -/
abbrev journal : Machine where
  Val := List Nat × List (List Nat × Nat)
  Mem := List (List Nat × Nat)
  constant
    | .int _ n => ([n.toNat], [([], n.toNat)])
    | _ => default
  global _ := default
  param _ := default
  func _ := default
  act op _ m := match op with
    | .load ptr => ((ptr.1, ((m.reverse.find? (·.1 = ptr.1)).map fun (_, n) => ([], n)).toList), m)
    | .store ptr v => (default, m ++ v.2.map fun (path, n) => (ptr.1 ++ path, n))
    | .fieldAddr base index => ((base.1 ++ [index], []), m)
    | .elemAddr base index => ((base.1 ++ index.1, []), m)
    | .aggregate vs => (([], branches 0 vs), m)
    | _ => (default, m)

theorem memberwise_journal (ty : TypeId) (form : TypeForm) : journal.Memberwise ty form := by
  have each (base : journal.Val) (isArray : Bool) (index : Nat)
    (members : List (TypeId × journal.Val))
      (m : journal.Mem) : Machine.storeEach base isArray index members m =
        m ++ (branches index (members.map (·.2))).map fun (path, n) => (base.1 ++ path, n) := by
    induction members generalizing index m with
    | nil => exact (List.append_nil m).symm
    | cons member rest ih =>
      obtain ⟨ty, v⟩ := member
      have place : journal.act (Machine.place base isArray index) ty m =
          ((base.1 ++ [index], []), m) := by
        cases isArray <;> rfl
      rw [Machine.storeEach, place, ih]
      simp [branches]
  intro base members m _
  rw [each]
  rfl

def swapProgram : Build (List NodeId) := do
  let pair ← Build.onTypes (·.structType [⟨⟨1⟩, .i64⟩, ⟨⟨2⟩, .i64⟩])
  let fntype ← Build.onTypes (·.functionType none [] [] .void)
  let func ← Build.declareFunction fntype "f" "" ⟨0⟩ false .synthetic
  let var ← Build.localVariable func "p" pair true .synthetic
  let whole ← Build.varExpr var .synthetic
  let second ← Build.structField whole 1 .synthetic
  let again ← Build.varExpr var .synthetic
  let first ← Build.structField again 0 .synthetic
  let swapped ← Build.structLiteral pair [second, first] .synthetic
  return [whole, second, again, first, swapped]

/-- What the memory lists in the end. -/
def written (after : Option journal.State) : Option (List (List Nat × Nat)) := after.map (·.2)

/-- The members are one and two. -/
def oneTwo : journal.State := (fun _ => default, [([0], 1), ([1], 2)])

theorem swapProgram_ok : ∃ start history pair v c c₁ c₂,
    let swap := Node.fresh (.composite .building) [⟨3⟩, ⟨5⟩] pair .synthetic
    start.Ledger history ∧ Transfer.Honest (⟨[⟨6⟩], []⟩ :: history) ∧
      Transfer.Linear (⟨[⟨6⟩], []⟩ :: history) ∧ start.arena.find? ⟨6⟩ = some swap ∧
      start.vars[1]? = some v ∧ pair = v.ty ∧
      Build.variableAddress ⟨1⟩ start = .ok (.inst ⟨0⟩, c) ∧
      c.types.underlyingForm pair = .ok (.struct [.i64, .i64]) ∧
      Build.initStmt ⟨1⟩ ⟨1⟩ ⟨6⟩ start = .ok (⟨7⟩, c₁) ∧
      Build.buildAndStore ⟨1⟩ ⟨1⟩ ⟨6⟩ start = .ok (⟨9⟩, c₂) ∧
      written (Machine.performs (fun _ => some) c₁ 3 ⟨7⟩ oneTwo) =
        some [([0], 1), ([1], 2), ([0], 2), ([1], 1)] := by
  have outcome : (swapProgram (.initial default)).map (fun (made, start) =>
      (made, start.arena.find? ⟨6⟩, start.vars[1]?.map (·.ty))) =
      .ok ([⟨2⟩, ⟨3⟩, ⟨4⟩, ⟨5⟩, ⟨6⟩],
        some (.fresh (.composite .building) [⟨3⟩, ⟨5⟩] ⟨14⟩ .synthetic), some ⟨14⟩) := by
    decide +kernel
  have steps : (swapProgram (.initial default)).map (fun (_, start) => (
      (Build.variableAddress ⟨1⟩ start).map (fun r => (r.1, r.2.types.underlyingForm ⟨14⟩)),
      (Build.initStmt ⟨1⟩ ⟨1⟩ ⟨6⟩ start).map (fun r =>
        (r.1, decide (written (Machine.performs (fun _ => some) r.2 3 ⟨7⟩ oneTwo) =
          some [([0], 1), ([1], 2), ([0], 2), ([1], 1)]))),
      (Build.buildAndStore ⟨1⟩ ⟨1⟩ ⟨6⟩ start).map (·.1))) =
      .ok (.ok (.inst ⟨0⟩, .ok (.struct [.i64, .i64])), .ok (⟨7⟩, true), .ok ⟨9⟩) := by
    decide +kernel
  obtain ⟨⟨made, start⟩, run, e⟩ := map_eq_ok outcome
  simp only [run, Except.map, Except.ok.injEq, Prod.mk.injEq] at steps
  obtain ⟨address, folded, built⟩ := steps
  obtain ⟨pair, d₁, paired, run⟩ := Run.bind_ok.1 run
  obtain ⟨fntype, d₂, typed, run⟩ := Run.bind_ok.1 run
  obtain ⟨func, d₃, declared, run⟩ := Run.bind_ok.1 run
  obtain ⟨var, d₄, named, run⟩ := Run.bind_ok.1 run
  obtain ⟨object, d₅, read, run⟩ := Run.bind_ok.1 run
  obtain ⟨second, d₆, last, run⟩ := Run.bind_ok.1 run
  obtain ⟨again, d₇, read', run⟩ := Run.bind_ok.1 run
  obtain ⟨first, d₈, last', run⟩ := Run.bind_ok.1 run
  obtain ⟨swapped, d₉, literal, run⟩ := Run.bind_ok.1 run
  cases run
  simp only [Prod.mk.injEq, List.cons.injEq, and_true] at e
  obtain ⟨⟨rfl, rfl, rfl, rfl, rfl⟩, find, object⟩ := e
  have ready := ((((Compilation.Ledger.initial default).call (.onTypes _) (.beside (.onTypes _))
    paired).call (.onTypes _) (.beside (.onTypes _)) typed).call
    (.declareFunction ..) (.beside (.declareFunction ..)) declared).call
    (.localVariable ..) (.beside (.localVariable ..)) named
  have ledger := ((((ready.call (.varExpr ..) (.make (.varExpr ..)) read).call
    (.structField ..) (.make (.structField ..)) last).call (.varExpr ..) (.make (.varExpr ..))
    read').call
    (.structField ..) (.make (.structField ..)) last').call
    (.structLiteral ..) (.make (.structLiteral ..)) literal
  obtain ⟨v, var_at, ty⟩ := Option.map_eq_some_iff.1 object
  obtain ⟨⟨storage, c⟩, located, at'⟩ := map_eq_ok address
  obtain ⟨rfl, shape⟩ := Prod.mk.inj at'
  obtain ⟨⟨s₁, c₁⟩, folded, at'⟩ := map_eq_ok folded
  obtain ⟨rfl, leaves⟩ := Prod.mk.inj at'
  obtain ⟨⟨s₂, c₂⟩, built, rfl⟩ := map_eq_ok built
  exact ⟨start, _, ⟨14⟩, v, c, c₁, c₂, ledger, by decide, by decide, find, var_at, ty.symm, located,
    shape, folded, built, of_decide_eq_true leaves⟩

/-- Either way the members have changed places. -/
theorem Compilation.initStmt_as_stored_swap : ∃ start c₁ c₂,
    Build.initStmt ⟨1⟩ ⟨1⟩ ⟨6⟩ start = .ok (⟨7⟩, c₁) ∧
    Build.buildAndStore ⟨1⟩ ⟨1⟩ ⟨6⟩ start = .ok (⟨9⟩, c₂) ∧
    (∀ depth (state : journal.State),
      (Machine.performs (fun _ => some) c₁ (depth + 1) ⟨7⟩ state).map (·.2) =
        (Machine.performs (fun _ => some) c₂ (depth + 2) ⟨9⟩ state).map (·.2)) ∧
    written (Machine.performs (fun _ => some) c₁ 3 ⟨7⟩ oneTwo) =
      some [([0], 1), ([1], 2), ([0], 2), ([1], 1)] ∧
    written (Machine.performs (fun _ => some) c₂ 4 ⟨9⟩ oneTwo) =
      some [([0], 1), ([1], 2), ([0], 2), ([1], 1)] := by
  obtain ⟨start, history, pair, v, c, c₁, c₂, ledger, honest, linear, find, var_at, ty, address,
    shape, folded, built, leaves⟩ := swapProgram_ok
  obtain ⟨-, places, -, same⟩ := initStmt_as_stored ledger honest linear find rfl var_at address ty
    shape rfl folded (by decide) built (by decide)
  have same (depth : Nat) (state : journal.State) :=
    (@same journal (fun _ => some) (fun _ _ _ _ => rfl) depth state).2.2 (memberwise_journal _ _)
  exact ⟨start, c₁, c₂, folded, built, same, leaves, (same 2 oneTwo).symm.trans leaves⟩

end Codegen
