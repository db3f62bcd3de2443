import Codegen.Proofs.Compilation.Linear
import Codegen.Proofs.Evaluation.Values
import Codegen.Proofs.Requests.Values

/-!
What using a value comes to when trees are carried out, said of the nodes as they were before: a
composite under construction takes the values of its members, an address is loaded, and any other
value is there. Statements inside of expressions may mean anything.
-/

namespace Codegen

namespace Machine

variable {K : Machine}

/-- What instructions have left behind, and the memory. -/
abbrev State (K : Machine) := K.Regs × K.Mem

/-- What statements inside of expressions do. -/
abbrev Statements (K : Machine) := NodeId → K.State → Option K.State

/-- The first registers as they are, and the others from elsewhere. -/
def Regs.over (σ : K.Regs) (n : Nat) (ρ : K.Regs) : K.Regs :=
  fun i => if i.index < n then σ i else ρ i

def State.over (n : Nat) (ρ : K.Regs) (state : K.State) : K.State := (state.1.over n ρ, state.2)

theorem State.over_self (state : K.State) (n : Nat) : state.over n state.1 = state := by
  refine Prod.ext (funext fun i => ?_) rfl
  exact ite_self _

/-- A meaning of statements that were there when there were so many instructions: what newer ones
leave behind is neither read nor changed. -/
def Respects (n : Nat) (stmt : K.Statements) : Prop :=
  ∀ {N}, n ≤ N → ∀ x state ρ, stmt x (state.over N ρ) = (stmt x state).map (State.over N ρ)

/-- Carries out an expression: its children in order, then its own instructions. -/
def evalWithin (stmt : K.Statements) (c : Compilation) :
    Nat → NodeId → K.State → Option K.State
  | 0, _, _ => none
  | depth + 1, x, state => (c.arena.find? x).bind fun node =>
    if node.isStmt then stmt x state
    else (node.kids.foldlM (fun state k => evalWithin stmt c depth k state) state).bind
      (K.exec c.insts node.insts)

/-- An operation whose result is kept. -/
def put (op : Operation K.Val) (ty : TypeId) (state : K.State) : (K.Regs → K.Val) × K.State :=
  let r := K.act op ty state.2
  (fun _ => r.1, (state.1, r.2))

def useAll {α : Type} (use : NodeId → K.State → Option (α × K.State)) :
    List NodeId → K.State → Option (List α × K.State)
  | [], state => some ([], state)
  | k :: rest, state => (use k state).bind fun (w, state) =>
    (useAll use rest state).map fun (ws, state) => (w :: ws, state)

/-- Carries out what belongs to a composite: its members are used, and then there may be more. -/
def gather {α : Type} (use : NodeId → K.State → Option (α × K.State)) (s : InstStore) (node : Node)
    (state : K.State) : Option (List α × K.State) :=
  (useAll use node.kids state).bind fun (ws, state) =>
    (K.exec s node.insts state).map fun state => (ws, state)

/-- Carries out an expression whose value is used. The value is what the registers say in the end,
unless it is kept. -/
def useWithin (stmt : K.Statements) (c : Compilation) :
    Nat → NodeId → K.State → Option ((K.Regs → K.Val) × K.State)
  | 0, _, _ => none
  | depth + 1, x, state => (c.arena.find? x).bind fun node =>
    let base :=
      if node.isBuilding then
        (gather (useWithin stmt c depth) c.insts node state).map fun (ws, state) =>
          put (.aggregate (ws.map (· state.1))) node.ty state
      else
        (evalWithin stmt c (depth + 1) x state).bind fun state =>
          node.value.map fun v => ((K.value · v), state)
    base.map fun (w, state) =>
      if node.flags.address then put (.load (w state.1)) node.ty state else (w, state)

/-! ## Newer registers -/

variable {stmt : K.Statements} {n N lo : Nat} {ρ ρ' σ : K.Regs} {s s' : InstStore}

theorem value_over {v : Value} (old : ∀ j, v = .inst j → j.index < N) (σ ρ : K.Regs) :
    K.value (σ.over N ρ) v = K.value σ v := by
  cases v with
  | inst j => exact if_pos (old j rfl)
  | _ => rfl

theorem operation_congr {V : Type} {f g : Value → V} {kind : InstKind}
    (same : ∀ v ∈ kind.operands, f v = g v) : kind.operation f = kind.operation g := by
  cases kind with
  | aggregate elems => exact congrArg Operation.aggregate (List.map_congr_left same)
  | call callee args =>
    have ⟨first, rest⟩ := List.forall_mem_cons.1 same
    simp only [InstKind.operation, first, List.map_congr_left rest]
  | ret value => cases value <;> simp_all [InstKind.operation, InstKind.operands]
  | _ => simp_all [InstKind.operation, InstKind.operands]

/-- Older instructions neither read nor change newer registers. -/
theorem exec_over {code : List InstId} (same : ∀ i ∈ code, s'.find? i = s.find? i)
    (old : ∀ i ∈ code, i.index < N ∧ ∀ j, s.Uses i j → j.index < N) (state : K.State) :
    K.exec s' code (state.over N ρ) = (K.exec s code state).map (State.over N ρ) := by
  induction code generalizing state with
  | nil => rfl
  | cons i code ih =>
    have ih := ih (fun j mem => same j (by simp [mem])) fun j mem => old j (by simp [mem])
    obtain ⟨lt, uses⟩ := old i (by simp)
    cases found : s.find? i with
    | none => simp [exec, State.over, same i (by simp), found]
    | some inst =>
      have op : inst.kind.operation (K.value (state.1.over N ρ)) =
          inst.kind.operation (K.value state.1) := by
        refine operation_congr fun v mem => value_over (fun j e => uses j ⟨inst, found, e ▸ mem⟩) ..
      have set (v : K.Val) : Regs.set (state.1.over N ρ) i v = (Regs.set state.1 i v).over N ρ := by
        funext j
        by_cases e : j = i
        · simp [Regs.set, Regs.over, e, lt]
        · simp [Regs.set, Regs.over, e]
      rw [State.over, exec_cons ((same i (by simp)).trans found), exec_cons found, op]
      simp only [set]
      exact ih (_, _)

theorem bind_exec_append (e : Option K.State) (code code' : List InstId) :
    e.bind (K.exec s (code ++ code')) = (e.bind (K.exec s code)).bind (K.exec s code') := by
  rw [Option.bind_assoc]
  exact congrArg _ (funext fun state => exec_append ..)

theorem foldlM_over {f g : K.State → NodeId → Option K.State} {ks : List NodeId}
    (each : ∀ k ∈ ks, ∀ state, g (state.over N ρ) k = (f state k).map (State.over N ρ))
    (state : K.State) :
    ks.foldlM g (state.over N ρ) = (ks.foldlM f state).map (State.over N ρ) := by
  induction ks generalizing state with
  | nil => rfl
  | cons k ks ih =>
    rw [List.foldlM_cons, List.foldlM_cons, each k (by simp)]
    cases f state k with
    | none => rfl
    | some state => exact ih (fun k mem => each k (by simp [mem])) state

/-! ## Values that are used -/

/-- A value is known by what it is in any registers. -/
def Carries (N : Nat) (v : Value) (w : K.Regs → K.Val) (ρ : K.Regs) : Prop :=
  ∀ τ : K.Regs, K.value (τ.over N ρ) v = w τ

theorem Carries.of_same {v : Value} {w : K.Regs → K.Val} {hi : Nat} (h : Carries N v w ρ)
    (known : ∀ j, v = .inst j → j.index < hi) (same : ∀ i : InstId, i.index < hi → ρ' i = ρ i) :
    Carries N v w ρ' := by
  intro τ
  rw [← h τ]
  cases v with
  | inst j => simp only [value, Regs.over, same j (known j rfl)]
  | _ => rfl

theorem map_of_stands {vs : List Value} {ws : List (K.Regs → K.Val)}
    (h : List.Forall₂ (Carries N · · ρ) vs ws) (τ : K.Regs) :
    vs.map (K.value (τ.over N ρ)) = ws.map (· τ) := by
  induction h with
  | nil => rfl
  | cons head _ ih => rw [List.map_cons, List.map_cons, head, ih]

/-- Carrying out expressions with newer registers at hand does what a use of them says, and it
changes none of the registers that were there before. -/
def Enacts {α : Type} (N lo : Nat) (ρ : K.Regs) (P : α → K.Regs → Prop) :
    Option (α × K.State) → Option K.State → Prop
  | none, eval => eval = none
  | some (a, state), eval => ∃ ρ', eval = some (state.over N ρ') ∧ P a ρ' ∧
    ∀ i : InstId, i.index < lo → ρ' i = ρ i

namespace Enacts

variable {α β : Type} {P : α → K.Regs → Prop} {Q : β → K.Regs → Prop} {use : Option (α × K.State)}
  {eval : Option K.State}

theorem bind {f : α × K.State → Option (β × K.State)} {g : K.State → Option K.State}
    (h : Enacts N lo ρ P use eval)
    (next : ∀ a state ρ', P a ρ' → Enacts N lo ρ' Q (f (a, state)) (g (state.over N ρ'))) :
    Enacts N lo ρ Q (use.bind f) (eval.bind g) := by
  match use, h with
  | none, h => rw [show eval = none from h]; rfl
  | some (a, state), ⟨ρ', e, holds, same⟩ =>
    have later := next a state ρ' holds
    rw [e, Option.bind_some, Option.bind_some]
    cases r : f (a, state) with
    | none => rwa [r] at later
    | some b =>
      rw [r] at later
      obtain ⟨ρ'', e', holds', same'⟩ := later
      exact ⟨ρ'', e', holds', fun i lt => (same' i lt).trans (same i lt)⟩

theorem map {f : α → β} {lo' : Nat} (h : Enacts N lo' ρ P use eval) (le : lo ≤ lo')
    (imp : ∀ a ρ', P a ρ' → (∀ i : InstId, i.index < lo' → ρ' i = ρ i) → Q (f a) ρ') :
    Enacts N lo ρ Q (use.map fun (a, state) => (f a, state)) eval := by
  match use, h with
  | none, h => exact h
  | some (a, state), ⟨ρ', e, holds, same⟩ =>
    exact ⟨ρ', e, imp a ρ' holds same, fun i lt => same i (Nat.lt_of_lt_of_le lt le)⟩

/-- Older registers change, and newer ones do not. -/
theorem of_map {a : α} (holds : P a ρ) (e : Option K.State) :
    Enacts N lo ρ P (e.map fun state => (a, state)) (e.map (State.over N ρ)) := by
  cases e with
  | none => rfl
  | some state => exact ⟨ρ, rfl, holds, fun _ _ => rfl⟩

/-- A new instruction keeps its result. -/
theorem put {kind : InstKind} {ty : TypeId} {g : InstId} {op : Operation K.Val} {state : K.State}
    (found : s.find? g = some ⟨kind, ty⟩) (new : N ≤ g.index) (low : lo ≤ g.index)
    (same : kind.operation (K.value (state.1.over N ρ)) = op) :
    Enacts N lo ρ (Carries N (.inst g)) (some (put op ty state))
      (K.exec s [g] (state.over N ρ)) := by
  refine ⟨Regs.set ρ g (K.act op ty state.2).1, ?_, fun τ => ?_, fun i lt => if_neg ?_⟩
  · rw [State.over, exec_cons found, same]
    refine congrArg some (Prod.ext (funext fun i => ?_) rfl)
    by_cases e : i = g
    · simp [Regs.set, Regs.over, State.over, e, Nat.not_lt.2 new]
    · simp [Regs.set, Regs.over, State.over, e]
  · simp [value, Regs.over, Regs.set, Nat.not_lt.2 new]
  · rintro rfl
    exact Nat.not_lt.2 low lt

end Enacts

end Machine

namespace Compilation

open Build Machine

variable {c₀ c c' c'' : Compilation} {a : Arena} {x k : NodeId} {node : Node} {v : Value}
  {j : InstId} {xs ks : List NodeId} {vs : List Value} {lo : Nat}

/-! ## Older instructions -/

theorem isLive_of_mem_kids (sound : c.Sound) (o : c.Orderly) (find : c.arena.find? x = some node)
    (mem : k ∈ node.kids) : c.arena.isLive k := by
  by_cases sentinel : k.isSentinel
  · obtain ⟨node, find⟩ := sound.shaped.exists_sentinel sentinel
    exact Arena.isLive_of_find? find
  · exact o.forest.live ((Arena.mem_kidsOf find).2 ⟨mem, sentinel⟩)

theorem lt_of_supplies (sound : c.Sound) (o : c.Orderly) (live : c.arena.isLive x)
    (h : c.arena.Supplies c.insts x j) : j.index < c.insts.slots.size := by
  induction h with
  | dead gone => simp [Arena.isLive, gone] at live
  | own find _ mem _ => exact ((sound.nodes find).insts _ mem).1
  | kid find _ mem _ ih => exact ih (isLive_of_mem_kids sound o find mem)

theorem Orderly.lt_of_isSlot (o : c.Orderly) (slot : c.IsSlot j) :
    j.index < c.insts.slots.size := by
  obtain ⟨ty, name, t, found⟩ := o.slots (.inl slot)
  exact InstStore.lt_of_find? found

theorem lt_of_value (sound : c.Sound) (o : c.Orderly) (find : c.arena.find? x = some node)
    (value : node.value = some (.inst j)) : j.index < c.insts.slots.size := by
  rcases (sound.nodes find).value value j rfl with slot | ⟨k, mem, -, supplies⟩
  · exact o.lt_of_isSlot slot
  · cases List.mem_singleton.1 mem
    exact lt_of_supplies sound o (Arena.isLive_of_find? find) supplies

theorem lt_of_uses (sound : c.Sound) (o : c.Orderly) (find : c.arena.find? x = some node)
    {i : InstId}
    (mem : i ∈ node.insts) (uses : c.insts.Uses i j) : j.index < c.insts.slots.size := by
  obtain ⟨p, at'⟩ := List.mem_iff_getElem?.1 mem
  rcases (sound.nodes find).operands at' uses with slot | ⟨earlier, -⟩ | ⟨k, kid, -, supplies⟩
  · exact o.lt_of_isSlot slot
  · exact ((sound.nodes find).insts _ (List.mem_of_mem_take earlier)).1
  · exact lt_of_supplies sound o (isLive_of_mem_kids sound o find kid) supplies

/-! ## Parts that stay -/

/-- What is below some nodes of an arena stays as it is, and so do all instructions. -/
structure Retains (c : Compilation) (a : Arena) (xs : List NodeId) (c' : Compilation) : Prop where
  nodes : ∀ {n}, n.isSentinel ∨ (∃ x ∈ xs, a.Below x n) → c'.arena.find? n = c.arena.find? n
  le : c.insts.slots.size ≤ c'.insts.slots.size
  store : ∀ {i : InstId}, i.index < c.insts.slots.size → c'.insts.find? i = c.insts.find? i

namespace Retains

theorem trans (h : c.Retains a xs c') (h' : c'.Retains a xs c'') : c.Retains a xs c'' where
  nodes part := (h'.nodes part).trans (h.nodes part)
  le := Nat.le_trans h.le h'.le
  store lt := (h'.store (Nat.lt_of_lt_of_le lt h.le)).trans (h.store lt)

theorem mono (h : c.Retains a xs c') (sub : ∀ k ∈ ks, k ∈ xs) : c.Retains a ks c' :=
  { h with nodes := fun part =>
    h.nodes (part.imp_right fun ⟨k, mem, below⟩ => ⟨k, sub k mem, below⟩) }

theorem kids (h : c.Retains a [x] c') (bare : a.SentinelsBare) (find : a.find? x = some node) :
    c.Retains a node.kids c' where
  nodes {n} part := by
    refine h.nodes (part.elim .inl fun ⟨k, mem, below⟩ => ?_)
    by_cases sentinel : k.isSentinel
    · exact .inl (bare.eq_of_below sentinel below ▸ sentinel)
    · exact .inr ⟨x, by simp, below.head ((Arena.mem_kidsOf find).2 ⟨mem, sentinel⟩)⟩
  le := h.le
  store := h.store

end Retains

theorem Revises.retains {P : NodeId → Prop} (h : c.Revises c' P)
    (out : ∀ x ∈ xs, ∀ n, a.Below x n → ¬P n) : c.Retains a xs c' where
  nodes part := h.frame <| part.elim (fun s p => h.plain p s) fun ⟨x, mem, below⟩ =>
    out x mem _ below
  le := h.insts_le
  store := h.store

/-- One node changes, maybe after new instructions were made. -/
theorem Extends.retains_set (h : c.Extends c') (node : Node) (plain : ¬x.isSentinel)
    (out : ∀ k ∈ ks, ¬a.Below k x) :
    c.Retains a ks { c' with arena := c'.arena.set x node } where
  nodes {n} part := by
    refine (Arena.find?_set_of_ne ?_).trans (by rw [h.arena])
    rintro rfl
    rcases part with s | ⟨k, mem, below⟩
    · exact plain s
    · exact out k mem below
  le := h.insts_le
  store := h.store

section

variable {K : Machine} {stmt : K.Statements} (sound : c₀.Sound) (o : c₀.Orderly)

include sound o

theorem exec_retained (find : c₀.arena.find? x = some node) (keep : c₀.Retains c₀.arena ks c)
    (state : K.State) (ρ : K.Regs) :
    K.exec c.insts node.insts (state.over c₀.insts.slots.size ρ) =
      (K.exec c₀.insts node.insts state).map (State.over c₀.insts.slots.size ρ) := by
  have old (i : InstId) (mem : i ∈ node.insts) := ((sound.nodes find).insts i mem).1
  exact exec_over (fun i mem => keep.store (old i mem))
    (fun i mem => ⟨old i mem, fun j => lt_of_uses sound o find mem⟩) state

/-- What was there does the same later on, whatever else is there then. -/
theorem evalWithin_over (respects : Respects c₀.insts.slots.size stmt)
    (keep : c₀.Retains c₀.arena [x] c) (depth : Nat) (state : K.State) (ρ : K.Regs) :
    evalWithin stmt c depth x (state.over c₀.insts.slots.size ρ) =
      (evalWithin stmt c₀ depth x state).map (State.over c₀.insts.slots.size ρ) := by
  induction depth generalizing x state with
  | zero => rfl
  | succ depth ih =>
    rw [evalWithin, evalWithin, keep.nodes (.inr ⟨x, by simp, .refl⟩)]
    cases find : c₀.arena.find? x with
    | none => rfl
    | some node =>
      simp only [Option.bind_some]
      split
      · exact respects (Nat.le_refl _) x state ρ
      · have below := keep.kids sound.sentinelsBare find
        rw [foldlM_over fun k mem state => ih (below.mono (by simpa using mem)) state,
          Option.bind_map, Option.map_bind]
        exact congrArg _ (funext fun state => exec_retained sound o find keep state ρ)

end

/-! ## Delivery -/

/-- A value that is known by now: it is old, or not older than a bound. -/
def Bounded (c₀ : Compilation) (lo : Nat) (c : Compilation) (v : Value) : Prop :=
  ∀ j, v = .inst j → j.index < c.insts.slots.size ∧ (j.index < c₀.insts.slots.size ∨ lo ≤ j.index)

/-- A node has a value, and from now on carrying it out does what using it would have meant at
first. -/
structure Delivers (c₀ : Compilation) (lo : Nat) (c : Compilation) (x : NodeId) (v : Value) :
    Prop where
  settled : ∃ node, c.arena.find? x = some node ∧ node.isBuilding = false ∧ node.value = some v ∧
    node.flags.address = false
  bounded : c₀.Bounded lo c v
  enacts : ∀ {K : Machine} {stmt : K.Statements},
    Respects c₀.insts.slots.size stmt → ∀ {c'}, c.Retains c₀.arena [x] c' → ∀ depth state ρ,
      Enacts c₀.insts.slots.size lo ρ (Carries c₀.insts.slots.size v)
      (useWithin stmt c₀ depth x state)
        (evalWithin stmt c' depth x (state.over c₀.insts.slots.size ρ))

structure DeliversAll (c₀ : Compilation) (lo : Nat) (c : Compilation) (xs : List NodeId)
    (vs : List Value) : Prop where
  bounded : ∀ v ∈ vs, c₀.Bounded lo c v
  enacts : ∀ {K : Machine} {stmt : K.Statements},
    Respects c₀.insts.slots.size stmt → ∀ {c'}, c.Retains c₀.arena xs c' → ∀ depth state ρ,
      Enacts c₀.insts.slots.size lo ρ
      (fun ws ρ => List.Forall₂ (Carries c₀.insts.slots.size · · ρ) vs ws)
        (useAll (useWithin stmt c₀ depth) xs state)
        (xs.foldlM (fun state k => evalWithin stmt c' depth k state)
          (state.over c₀.insts.slots.size ρ))

theorem DeliversAll.nil (c₀ c : Compilation) (lo : Nat) : c₀.DeliversAll lo c [] [] :=
  ⟨nofun, fun _ _ _ _ _ ρ => ⟨ρ, rfl, .nil, fun _ _ => rfl⟩⟩

/-- Members that were delivered are what a composite is made of. -/
theorem DeliversAll.gather (h : c₀.DeliversAll lo c node.kids vs) (sound : c₀.Sound)
    (o : c₀.Orderly) (find : c₀.arena.find? x = some node) {K : Machine} {stmt : K.Statements}
    (respects : Respects c₀.insts.slots.size stmt) (keep : c.Retains c₀.arena node.kids c')
    (old : c₀.Retains c₀.arena ks c') (depth : Nat) (state : K.State) (ρ : K.Regs) :
    Enacts c₀.insts.slots.size lo ρ
      (fun ws ρ => List.Forall₂ (Carries c₀.insts.slots.size · · ρ) vs ws)
      (Machine.gather (useWithin stmt c₀ depth) c₀.insts node state)
      ((node.kids.foldlM (fun state k => evalWithin stmt c' depth k state)
        (state.over c₀.insts.slots.size ρ)).bind (K.exec c'.insts node.insts)) := by
  refine (h.enacts respects keep depth state ρ).bind fun ws state ρ' stands => ?_
  rw [exec_retained sound o find old]
  exact .of_map stands _

/-- What was delivered stays so while others are used. -/
theorem Delivers.cons {lo' : Nat} (h : c₀.Delivers lo c k v) (keep : c.Retains c₀.arena [k] c')
    (le : c.insts.slots.size ≤ lo') (low : lo ≤ lo') (more : c₀.DeliversAll lo' c' ks vs) :
    c₀.DeliversAll lo c' (k :: ks) (v :: vs) where
  bounded u mem j e := by
    rcases List.mem_cons.1 mem with rfl | mem
    · exact (h.bounded j e).imp_left fun lt => Nat.lt_of_lt_of_le lt keep.le
    · exact (more.bounded u mem j e).imp_right (·.imp_right (Nat.le_trans low))
  enacts {K stmt} respects {c''} later depth state ρ := by
    have keep := keep.trans (later.mono (by simp))
    rw [List.foldlM_cons]
    refine (h.enacts respects keep depth state ρ).bind fun w state ρ' stands => ?_
    refine (more.enacts respects (later.mono (by simp_all)) depth state ρ').map low
      fun ws ρ'' rest same => .cons (stands.of_same (fun j e => ?_) same) rest
    exact Nat.lt_of_lt_of_le (h.bounded j e).1 le

theorem evalWithin_succ {K : Machine} {stmt : K.Statements} {depth : Nat}
    {state : K.State} (find : c.arena.find? x = some node) (expr : node.isStmt = false) :
    evalWithin stmt c (depth + 1) x state =
      (node.kids.foldlM (fun state k => evalWithin stmt c depth k state) state).bind
        (K.exec c.insts node.insts) := by
  simp only [evalWithin, find, Option.bind_some, expr, Bool.false_eq_true, if_false]

/-- Settling loads an address by the last instruction of its node. -/
theorem delivers_settle {u : Value}
    (base : (K : Machine) → K.Statements → Nat → K.State →
      Option ((K.Regs → K.Val) × K.State))
    (run : settle x c = .ok (v, c')) (find : c.arena.find? x = some node)
    (expr : node.isStmt = false)
    (done : node.isBuilding = false) (value : node.value = some u)
    (new : c₀.insts.slots.size ≤ c.insts.slots.size) (low : lo ≤ c.insts.slots.size)
    (bounded : c₀.Bounded lo c u)
    (use : ∀ {K : Machine} stmt depth state, useWithin stmt c₀ (depth + 1) x state =
      (base K stmt depth state).map fun (w, state) =>
        if node.flags.address then put (.load (w state.1)) node.ty state else (w, state))
    (enacts : ∀ {K : Machine} {stmt : K.Statements},
      Respects c₀.insts.slots.size stmt → ∀ {c''}, c'.Retains c₀.arena [x] c'' → ∀ depth state ρ,
        Enacts c₀.insts.slots.size lo ρ (Carries c₀.insts.slots.size u) (base K stmt depth state)
          ((node.kids.foldlM (fun state k => evalWithin stmt c'' depth k state)
            (state.over c₀.insts.slots.size ρ)).bind (K.exec c''.insts node.insts))) :
    c₀.Delivers lo c' x v := by
  obtain ⟨_, _, found, has, h⟩ := settle_cases run
  cases find.symm.trans found
  cases value.symm.trans has
  have zero {K : Machine} {stmt : K.Statements} {c'' state ρ} :
      Enacts c₀.insts.slots.size lo ρ (Carries c₀.insts.slots.size v) (useWithin stmt c₀ 0 x state)
        (evalWithin stmt c'' 0 x (state.over c₀.insts.slots.size ρ)) := rfl
  rcases h with ⟨address, -, rfl, rfl⟩ | ⟨loaded, rfl, rfl⟩
  · have top : (c.arena.set x (node.loaded ⟨c.insts.slots.size⟩)).find? x = some _ :=
      Arena.find?_set (Arena.isLive_of_find? find)
    refine ⟨⟨_, top, done, rfl, rfl⟩, ?_, fun {K stmt} respects {c''} later depth state ρ => ?_⟩
    · rintro j ⟨⟩
      exact ⟨by simp [InstStore.create], .inr low⟩
    · cases depth with
      | zero => exact zero
      | succ depth =>
        have stored := later.store (i := ⟨c.insts.slots.size⟩) (by simp [InstStore.create])
        rw [use, evalWithin_succ ((later.nodes (.inr ⟨x, by simp, .refl⟩)).trans top) expr,
          Node.loaded, bind_exec_append, Option.map_eq_bind]
        refine (enacts respects later depth state ρ).bind fun w state ρ' stands => ?_
        simp only [Function.comp_apply, address, if_true]
        refine .put (stored.trans (InstStore.find?_create ..)) new low ?_
        rw [InstKind.operation, stands]
  · refine ⟨⟨_, find, done, value, loaded⟩, bounded,
      fun {K stmt} respects {c''} later depth state ρ => ?_⟩
    cases depth with
    | zero => exact zero
    | succ depth =>
      rw [use, evalWithin_succ ((later.nodes (.inr ⟨x, by simp, .refl⟩)).trans find) expr]
      simp only [loaded, Bool.false_eq_true, if_false]
      exact (enacts respects later depth state ρ).map (f := id) (Nat.le_refl _) fun w ρ' stands _ =>
        stands

theorem retains_settle (run : settle x c = .ok (v, c')) (plain : ¬x.isSentinel)
    (out : ∀ k ∈ ks, ¬a.Below k x) : c.Retains a ks c' := by
  obtain ⟨_, _, -, -, ⟨-, -, -, rfl⟩ | ⟨-, -, rfl⟩⟩ := settle_cases run
  · exact (idle_createInst _ _ c _ _ trivial rfl).retains_set _ plain out
  · exact ⟨fun _ => rfl, Nat.le_refl _, fun _ => rfl⟩

/-! ## Trees that wait -/

/-- Trees of expressions with nothing in common that are still as they were at first. -/
structure Awaits (c₀ c : Compilation) (ks : List NodeId) : Prop where
  apart : ks.Pairwise c₀.arena.Apart
  trees : ∀ k ∈ ks, c₀.arena.IsTree k
  exprs : ∀ k ∈ ks, ∀ node, c₀.arena.find? k = some node → node.isStmt = false
  orderly : c.Orderly
  below : c.arena.Below = c₀.arena.Below
  keep : c₀.Retains c₀.arena ks c

namespace Awaits

theorem head (h : c₀.Awaits c (k :: ks)) : c₀.Awaits c [k] where
  apart := by simp
  trees _ mem := h.trees _ (by simp_all)
  exprs _ mem := h.exprs _ (by simp_all)
  orderly := h.orderly
  below := h.below
  keep := h.keep.mono (by simp)

theorem revise {P : NodeId → Prop} (h : c₀.Awaits c ks) (r : c.Revises c' P)
    (keep : c.Retains c₀.arena ks c') : c₀.Awaits c' ks where
  apart := h.apart
  trees := h.trees
  exprs := h.exprs
  orderly := r.orderly h.orderly
  below := r.below.trans h.below
  keep := h.keep.trans keep

theorem tail (h : c₀.Awaits c (k :: ks)) (r : c.Revises c' fun n => c.arena.Below k n) :
    c₀.Awaits c' ks := by
  obtain ⟨away, apart⟩ := List.pairwise_cons.1 h.apart
  have rest : c₀.Awaits c ks := ⟨apart, fun k mem => h.trees k (by simp [mem]),
    fun k mem => h.exprs k (by simp [mem]), h.orderly, h.below, h.keep.mono (by simp_all)⟩
  refine rest.revise r (r.retains fun k' mem n below below' => r.plain below' ?_)
  rw [h.below] at below'
  exact away k' mem n below' below

theorem kids (h : c₀.Awaits c [x]) (sound : c₀.Sound) (find : c₀.arena.find? x = some node)
    (building : node.isBuilding) : c₀.Awaits c node.kids where
  apart := (h.trees x (by simp)).apart .refl find
  trees k mem := (h.trees x (by simp)).kid sound.sentinelsBare find mem
  exprs k mem child found := by
    obtain ⟨i, at'⟩ := List.mem_iff_getElem?.1 mem
    rw [(sound.nodes find).shaped at' found]
    cases kind : node.kind <;> simp_all [Node.isBuilding, NodeKind.compositeState?,
      NodeKind.wantsStmt]
  orderly := h.orderly
  below := h.below
  keep := h.keep.kids sound.sentinelsBare find

/-- Expressions are used one after the other. -/
theorem mapM {use : NodeId → Build Value} (h : c₀.Awaits c ks)
    (within : ∀ k, Codegen.Within k (use k))
    (each : ∀ {c c' : Compilation} {k : NodeId} {v : Value}, c₀.Awaits c [k] →
      use k c = .ok (v, c') → c₀.Delivers c.insts.slots.size c' k v)
    (run : ks.mapM use c = .ok (vs, c')) : c₀.DeliversAll c.insts.slots.size c' ks vs := by
  induction ks generalizing c vs with
  | nil =>
    cases run
    exact .nil ..
  | cons k ks ih =>
    rw [List.mapM_cons] at run
    obtain ⟨v, c₁, first, run⟩ := Run.bind_ok.1 run
    obtain ⟨vs, c₂, later, run⟩ := Run.bind_ok.1 run
    cases run
    have r := (within k).revises c v c₁ h.orderly first
    have rest := h.tail r
    have others := revises_each within rest.orderly later
    refine (each h.head first).cons (others.retains fun k' mem n below ⟨k'', mem', below'⟩ => ?_)
      (Nat.le_refl _) r.insts_le (ih rest later)
    cases List.mem_singleton.1 mem
    rw [rest.below] at below'
    have sentinel := (List.pairwise_cons.1 h.apart).1 k'' mem' n below below'
    exact others.plain ⟨k'', mem', rest.below ▸ below'⟩ sentinel

end Awaits

/-- The value of an expression is used. -/
theorem delivers_rvalueWithin (sound : c₀.Sound) (o : c₀.Orderly) (fuel : Nat) (h : c₀.Awaits c [x])
    (run : rvalueWithin fuel x c = .ok (v, c')) : c₀.Delivers c.insts.slots.size c' x v := by
  induction fuel generalizing c c' x v with
  | zero => cases run
  | succ fuel ih =>
    rw [rvalueWithin] at run
    obtain ⟨node, got, run⟩ := ask_bind_ok run
    have find := Arena.get_eq_ok.1 got
    have find₀ := (h.keep.nodes (.inr ⟨x, by simp, .refl⟩)).symm.trans find
    have expr := h.exprs x (by simp) node find₀
    have out (k : NodeId) (mem : k ∈ node.kids) : ¬c₀.arena.Below k x :=
      (h.trees x (by simp)).not_below .refl find₀ mem
    split at run
    · rename_i building
      obtain ⟨elems, c₁, first, run⟩ := Run.bind_ok.1 run
      obtain ⟨g, c₂, attached, run⟩ := Run.bind_ok.1 run
      obtain ⟨_, c₃, finished, run⟩ := Run.bind_ok.1 run
      have members := (h.kids sound find₀ building).mapM (within_rvalueWithin fuel) ih first
      have r := revises_each (within_rvalueWithin fuel) h.orderly first
      have plain : ¬x.isSentinel := fun s => by simp [(h.orderly.blank s find).2] at building
      have find₁ : c₁.arena.find? x = some node := by
        refine (r.frame fun b => b.elim fun k b => out k b.1 ?_).trans find
        exact h.below ▸ b.2
      obtain ⟨_, found, -, rfl, rfl⟩ := finishWith_ok attached finished
      cases find₁.symm.trans found
      have settled := retains_settle run plain out
      have new : c₀.insts.slots.size ≤ c₁.insts.slots.size := Nat.le_trans h.keep.le r.insts_le
      have next : c₁.insts.slots.size ≤
          (c₁.insts.create (.aggregate elems) node.ty).2.slots.size := by
        simp [InstStore.create]
      refine delivers_settle (fun K stmt depth state =>
        (gather (useWithin stmt c₀ depth) c₀.insts node state).map fun (ws, state) =>
          put (.aggregate (ws.map (· state.1))) node.ty state) run
        (Arena.find?_set (Arena.isLive_of_find? find₁)) rfl rfl rfl (Nat.le_trans new next)
        (Nat.le_trans r.insts_le next) ?_ ?_ ?_
      · rintro j ⟨⟩
        exact ⟨by simp [InstStore.create], .inr r.insts_le⟩
      · intro K stmt depth state
        rw [useWithin, find₀, Option.bind_some]
        simp only [building, if_true]
        rfl
      · intro K stmt respects c'' later depth state ρ
        have later := settled.trans (later.kids sound.sentinelsBare find₀)
        have all := ((idle_createInst _ _ c₁ _ _ trivial rfl).retains_set _ plain out).trans later
        have old : c₀.Retains c₀.arena [] c'' :=
          ((h.keep.mono (by simp)).trans (r.retains (by simp))).trans (all.mono (by simp))
        rw [Node.finished, bind_exec_append, Option.map_eq_bind]
        refine (members.gather sound o find₀ respects all old depth state ρ).bind
          fun ws state ρ' stands => .put ((later.store ?_).trans (InstStore.find?_create ..)) new
          r.insts_le ?_
        · simp [InstStore.create]
        · rw [InstKind.operation, map_of_stands stands]
    · rename_i done
      obtain ⟨_, u, found, has, -⟩ := settle_cases run
      cases find.symm.trans found
      have plain : ¬x.isSentinel := fun s => by simp [(h.orderly.blank s find).1] at has
      have old (j : InstId) (e : u = .inst j) := lt_of_value sound o find₀ (e ▸ has)
      refine delivers_settle (fun K stmt depth state =>
        (evalWithin stmt c₀ (depth + 1) x state).map fun state => ((K.value · u), state)) run find
        expr (by simpa using done) has h.keep.le (Nat.le_refl _) ?_ ?_ ?_
      · exact fun j e => ⟨Nat.lt_of_lt_of_le (old j e) h.keep.le, .inl (old j e)⟩
      · intro K stmt depth state
        rw [useWithin, find₀, Option.bind_some]
        simp only [done, Bool.false_eq_true, if_false, has, Option.map_eq_bind]
        rfl
      · intro K stmt respects c'' later depth state ρ
        have all := ((h.keep.kids sound.sentinelsBare find₀).trans
          (retains_settle run plain out)).trans (later.kids sound.sentinelsBare find₀)
        rw [foldlM_over fun k mem state => evalWithin_over sound o respects
          (all.mono (by simpa using mem))
          depth state ρ, evalWithin_succ find₀ expr, Option.bind_map]
        have insts : K.exec c''.insts node.insts ∘ State.over c₀.insts.slots.size ρ =
            Option.map (State.over c₀.insts.slots.size ρ) ∘ K.exec c₀.insts node.insts :=
          funext fun state => exec_retained sound o find₀ all state ρ
        rw [insts, ← Option.map_bind]
        exact Enacts.of_map (P := Carries _ u) (fun τ => value_over old τ ρ) _

end Compilation

end Codegen
