import Codegen.Proofs.Compilation.Reachable
import Codegen.Proofs.Lowering.Refinement
import Codegen.Proofs.Lowering.Scoping

/-!
Where the operands of a body come from. The tree of a body is built long before it is lowered; what
its instructions use has been executed on every way to them, if the front end uses every node once,
refers to variables of the function only, and places no label inside of an expression.
-/

namespace Codegen

/-- What a front end takes care of in the tree of a body. -/
structure Compilation.Proper (c : Compilation) (func : FuncId) (root : NodeId) : Prop where
  /-- No node is a child twice. -/
  nodup : ∀ {p}, c.arena.Below root p → (c.arena.kidsOf p).Nodup
  unique : ∀ {p q k}, c.arena.Below root p → c.arena.Below root q → k ∈ c.arena.kidsOf p →
    k ∈ c.arena.kidsOf q → p = q
  /-- A variable whose slot is used is one of the function. -/
  own : ∀ {n node v j}, c.arena.Below root n → c.arena.find? n = some node → v ∈ c.vars →
    v.storage = .inst j → (node.value = some (.inst j) ∨ ∃ i ∈ node.insts, c.insts.Uses i j) →
    v.func = some func
  /-- No label is placed inside of a compound expression. -/
  quiet : ∀ {n node}, c.arena.Below root n → c.arena.find? n = some node → node.kind = .compound →
    c.arena.Quiet n

theorem NodeKind.eq_compound {kind : NodeKind} {i : Nat} (expr : kind.isExpr)
    (wants : kind.wantsStmt i) : kind = .compound := by
  cases kind <;> simp_all [NodeKind.isExpr, NodeKind.isStmt, NodeKind.wantsStmt]

namespace Compilation

variable {c : Compilation} {func : FuncId} {root : NodeId}

/-- Below an expression, statements are found in compound expressions only. -/
theorem Proper.quiet_of_expr (proper : c.Proper func root) (sound : c.Sound) {n : NodeId}
    {node : Node}
    (below : c.arena.Below root n) (find : c.arena.find? n = some node) (expr : node.isExpr) :
    c.arena.Quiet n := by
  intro m label under found owner l kind
  -- the induction goes down the way from the expression to the label
  induction under using Relation.ReflTransGen.head_induction_on generalizing node with
  | refl =>
    cases find.symm.trans found
    simp [Node.isExpr, kind, NodeKind.isExpr, NodeKind.isStmt] at expr
  | @head x k kid rest ih =>
    obtain ⟨mem, _⟩ := (Arena.mem_kidsOf find).1 kid
    obtain ⟨i, at'⟩ := List.mem_iff_getElem?.1 mem
    obtain ⟨child, findChild⟩ : ∃ child, c.arena.find? k = some child := by
      rcases Relation.ReflTransGen.cases_head rest with rfl | ⟨_, next, _⟩
      · exact ⟨label, found⟩
      · cases e : c.arena.find? k with
        | none => simp [Arena.kidsOf, e] at next
        | some child => exact ⟨child, rfl⟩
    have shaped := (sound.nodes find).shaped at' findChild
    by_cases stmt : child.isStmt
    · have compound := NodeKind.eq_compound expr (shaped.symm.trans stmt)
      exact proper.quiet below find compound m label (rest.head kid) found owner l kind
    · exact ih (below.tail kid) findChild (by simpa [Node.isExpr_eq] using stmt)

end Compilation

namespace Defines

variable {func : FuncId} {root : NodeId} {c c' : Compilation} {f f' : Function}
  {entry : List InstId} {insts insts' : InstStore} {void : Bool} {body : Body} {a : Arena}
  (h : Defines func root c c' f f' entry insts void body a insts') (sound : c.Sound)

include h sound

theorem opens : f.Opens c.insts entry insts :=
  ((sound.functions f (Array.mem_of_getElem? h.found)).opens h.materialized).1

theorem body_eq_none : f.body = none := by
  obtain ⟨_, rfl⟩ := (sound.functions f (Array.mem_of_getElem? h.found)).opens h.materialized
  exact h.first

theorem entry_lt {j : InstId} (mem : j ∈ entry) : j.index < insts.slots.size := by
  have opens := h.opens sound
  rcases opens.fresh mem with ⟨_, _, _, found⟩ | ⟨_, lt⟩
  · exact Nat.lt_of_lt_of_le (InstStore.lt_of_find? found) opens.size_le
  · exact lt

/-- Once the entry instructions are made. -/
theorem opened : ({ c with insts } : Compilation).Sound ∧ c.Grows { c with insts } := by
  have opens := h.opens sound
  refine sound.prune sound.shaped rfl opens.size_le (fun _ => .inl rfl)
    (fun lt => .inl (opens.old lt)) ?_
  rintro j ⟨ty, name, t, found⟩
  exact ⟨ty, name, t, (opens.old (InstStore.lt_of_find? found)).trans found⟩

/-- The walk came to an end, so that nothing below the root is dead and nothing is below itself. -/
theorem within : c.arena.Within (8 * (c.arena.size + 1)) root := by
  obtain ⟨_, _, _, lowered, _⟩ := exists_lowered h.lowered
  exact (lowered.tells sound.shaped).1 root (by simp)

variable (proper : c.Proper func root)

include proper

theorem sharing_eq : c.arena.sharing root = .ok [] := by
  have within := h.within sound
  obtain ⟨nodes, found, sharing, accounted⟩ :=
    Arena.exists_accounted fun n below => (within.below below).isLive
  have none : found = [] := by
    apply accounted.eq_nil_iff.2
    refine ⟨List.nodup_flatMap.2 ⟨fun p mem => ?_, ?_⟩, fun mem => ?_,
      List.nodup_flatMap.2 ⟨fun p _ => sound.owned.nodup p, ?_⟩⟩
    · exact proper.nodup ((accounted.mem_iff p).1 mem)
    · apply accounted.nodup.imp_of_mem
      intro p q hp hq ne k kp kq
      exact ne (proper.unique ((accounted.mem_iff p).1 hp) ((accounted.mem_iff q).1 hq) kp kq)
    · obtain ⟨p, hp, kid⟩ := List.mem_flatMap.1 mem
      have below := (accounted.mem_iff p).1 hp
      exact (within.below below).not_below kid below
    · apply accounted.nodup.imp
      intro p q ne i ip iq
      exact ne (sound.owned.unique ip iq)
  rwa [none] at sharing

/-- The slots that the tree uses wait for their place in the entry block. -/
theorem slot_mem_entry {n : NodeId} {node : Node} {j : InstId} (below : c.arena.Below root n)
    (find : c.arena.find? n = some node) (slot : c.IsSlot j)
    (used : node.value = some (.inst j) ∨ ∃ i ∈ node.insts, c.insts.Uses i j) : j ∈ entry := by
  obtain ⟨v, mem, storage⟩ := slot
  have owner := proper.own below find mem storage used
  obtain ⟨g, f₁, func₁, found, waits⟩ := sound.vars v mem j storage
  cases owner.symm.trans func₁
  cases h.found.symm.trans found
  exact (h.opens sound).waits (waits (h.body_eq_none sound))

theorem inScope : c.arena.InScope insts c'.insts.Uses entry root := by
  obtain ⟨sound₁, g⟩ := h.opened sound
  refine ⟨sound.sentinelsBare, fun sentinel find => ?_, fun _ find mem => ?_,
    fun _ find at' find' => ?_, fun {n node p i j} below find at' use => ?_,
    fun {n node j} below find value => ?_,
    fun below find expr => proper.quiet_of_expr sound below find expr, fun {i j} lt use => ?_⟩
  · exact ((sound.nodes find).sentinel sentinel).2.2
  · exact ((sound₁.nodes find).insts _ mem).1
  · exact (sound.nodes find).shaped at' find'
  · have mem := List.mem_of_getElem? at'
    rcases (sound₁.nodes find).operands at' use with slot | own | ⟨k, kid, _, supplies⟩
    · have use₀ := g.uses ((sound.nodes find).insts i mem).1 use
      exact .inl (h.slot_mem_entry sound proper below find slot (.inr ⟨i, mem, use₀⟩))
    · exact .inr (.inl own)
    · exact .inr (.inr ⟨k, kid, supplies⟩)
  · rcases (sound₁.nodes find).value value j rfl with slot | ⟨k, mem, _, supplies⟩
    · exact .inl (h.slot_mem_entry sound proper below find slot (.inl value))
    · cases List.mem_singleton.1 mem
      exact .inr supplies
  · obtain ⟨inst, found, operand⟩ := use
    rcases h.later.old found with e | ⟨le, _⟩
    · exact ⟨inst, e, operand⟩
    · omega

theorem backed : ∃ past block, body.Backed c'.insts.Uses past ∧
    body.blocks[body.entry.index]? = some block ∧ entry ⊆ block.insts := by
  have inScope := h.inScope sound proper
  obtain ⟨code, laid⟩ := exists_laidOut_of_lowerBody h.lowered (h.sharing_eq sound proper)
    sound.sentinelsBare
  have own : ∀ {p id j}, entry[p]? = some id → c'.insts.Uses id j → j ∈ entry.take p := by
    intro p id j at' use
    have lt := h.entry_lt sound (List.mem_of_getElem? at')
    exact (h.opens sound).operands at' (inScope.newer lt use)
  have explains : Explains c'.insts.Uses code.placed := by
    rintro id x y mem j ⟨inst, found, operand⟩
    obtain ⟨_, made⟩ := laid.made _ mem
    rw [h.store_eq] at found
    cases made.symm.trans found
    simpa [InstKind.operands, eq_comm] using operand
  rw [laid.body_eq]
  exact Code.backed_finish own (inScope.scoped laid.read) explains void

/-- Apart from its entry, a body holds instructions of nodes, and comparisons that are new. -/
theorem exists_perm_insts : ∃ owned tests, body.insts.Perm (entry ++ (owned ++ tests)) ∧
    (owned ++ tests).Nodup ∧ (∀ i ∈ owned, ∃ n, i ∈ c.arena.instsOf n) ∧
    ∀ i ∈ tests, insts.slots.size ≤ i.index ∧
      ∃ v w, c'.insts.find? i = some ⟨.compare .eqEq v w, .bool⟩ := by
  obtain ⟨s, code, es, walked, rfl, rfl⟩ := exists_lowered h.lowered
  obtain ⟨ids, tests, conserved⟩ := walked.happens.exists_conserved (.refl insts)
  obtain ⟨nodes, spread⟩ := Arena.exists_spread_of_sharing (h.sharing_eq sound proper)
  have taken := conserved.perm_taken walked sound.shaped spread sound.sentinelsBare rfl
  have perm := conserved.perm_insts taken void
  rw [← walked.body_eq] at perm
  have numbers := conserved.moved.numbers
  have owned : ∀ i ∈ (nodes.flatMap c.arena.instsOf).filter fun i => (insts.returned? i).isNone,
      ∃ n, i ∈ c.arena.instsOf n := fun i mem => by
    obtain ⟨n, _, own⟩ := List.mem_flatMap.1 (List.mem_filter.1 mem).1
    exact ⟨n, own⟩
  have new : ∀ i ∈ tests.map (·.1), insts.slots.size ≤ i.index := fun i mem => by
    rw [numbers] at mem
    obtain ⟨j, range, rfl⟩ := List.mem_map.1 mem
    exact (List.mem_range'_1.1 range).1
  refine ⟨_, _, perm, List.nodup_append.2 ⟨spread.insts_nodup.filter _, ?_, ?_⟩, owned,
    fun i mem => ⟨new i mem, ?_⟩⟩
  · rw [numbers]
    exact List.Nodup.map (fun _ _ e => InstId.mk.inj e) List.nodup_range'
  · rintro i mem _ mem' rfl
    obtain ⟨n, own⟩ := owned i mem
    have lt := (sound.insts_of_mem own).1
    have le := (h.opens sound).size_le
    exact absurd (new i mem') (by omega)
  · obtain ⟨t, tested, rfl⟩ := List.mem_map.1 mem
    obtain ⟨v, w, _, _, made⟩ := conserved.compares t tested
    exact ⟨v, w, h.store_eq ▸ made⟩

theorem nodup_insts : body.insts.Nodup := by
  obtain ⟨owned, tests, perm, nodup, own, new⟩ := h.exists_perm_insts sound proper
  have opens := h.opens sound
  rw [perm.nodup_iff]
  refine List.nodup_append.2 ⟨opens.nodup, nodup, fun i mem k placed e => ?_⟩
  subst e
  rcases List.mem_append.1 placed with mem' | mem'
  · obtain ⟨n, owns⟩ := own i mem'
    obtain ⟨lt, noSlot⟩ := sound.insts_of_mem owns
    rcases opens.fresh mem with slot | ⟨le, _⟩
    · exact noSlot slot
    · exact absurd lt (Nat.not_lt.2 le)
  · exact absurd (h.entry_lt sound mem) (Nat.not_lt.2 (new i mem').1)

/-- The slots of a body are in its entry. -/
theorem slot_mem {j : InstId} (mem : j ∈ body.insts) (slot : c'.insts.Allocates j) : j ∈ entry := by
  obtain ⟨owned, tests, perm, _, own, new⟩ := h.exists_perm_insts sound proper
  obtain ⟨ty, name, t, found⟩ := slot
  rcases List.mem_append.1 (perm.mem_iff.1 mem) with mem | mem
  · exact mem
  rcases List.mem_append.1 mem with mem | mem
  · obtain ⟨n, owns⟩ := own j mem
    obtain ⟨lt, noSlot⟩ := sound.insts_of_mem owns
    rcases h.later.old found with old | ⟨_, x, y, e⟩
    · exact absurd ⟨ty, name, t, ((h.opens sound).old lt).symm.trans old⟩ noSlot
    · cases e
  · obtain ⟨_, v, w, made⟩ := new j mem
    cases made.symm.trans found

end Defines

/-- Every use is dominated by its definition. Where a way leads from the entry, what an instruction
or an exit uses stands in one place of the body, earlier in the block or in a block that dominates
it, and the slots that are used are in the entry block. -/
structure Body.Dominated (body : Body) (store : InstStore) : Prop where
  insts : ∀ {before b block}, body.Path before b → body.blocks[b.index]? = some block →
    ∀ {p id j}, block.insts[p]? = some id → store.Uses id j →
      body.Defined b (block.insts.take p) j
  exits : ∀ {before b block}, body.Path before b → body.blocks[b.index]? = some block →
    ∀ {j}, .inst j ∈ block.terminator.operands → body.Defined b block.insts j
  slots : ∀ {before b block}, body.Path before b → body.blocks[b.index]? = some block →
    ∀ {j}, store.Allocates j →
      (.inst j ∈ block.terminator.operands ∨ ∃ id ∈ block.insts, store.Uses id j) →
      ∃ first, body.blocks[body.entry.index]? = some first ∧ j ∈ first.insts

theorem Body.Backed.dominated {store : InstStore} {body : Body} {past : BlockId → List InstId}
    {entry : List InstId} {first : BasicBlock} (h : body.Backed store.Uses past)
    (nodup : body.insts.Nodup) (zero : body.blocks[body.entry.index]? = some first)
    (opens : entry ⊆ first.insts)
    (slots : ∀ {j}, j ∈ body.insts → store.Allocates j → j ∈ entry) : body.Dominated store := by
  have insts : ∀ {before b block}, body.Path before b → body.blocks[b.index]? = some block →
      ∀ {p id j}, block.insts[p]? = some id → store.Uses id j →
        body.Defined b (block.insts.take p) j := fun path found _ _ _ at' use =>
    h.defined nodup path found (List.take_subset _ _) (h.insts found at' use)
  have exits : ∀ {before b block}, body.Path before b → body.blocks[b.index]? = some block →
      ∀ {j}, .inst j ∈ block.terminator.operands → body.Defined b block.insts j :=
    fun path found _ operand =>
      h.defined nodup path found (List.Subset.refl _) (h.operands found operand)
  refine ⟨insts, exits, fun path found => ?_⟩
  intro j slot used
  have once : body.insts.count j = 1 := by
    rcases used with operand | ⟨id, mem, use⟩
    · exact (exits path found operand).1
    · obtain ⟨p, at'⟩ := List.mem_iff_getElem?.1 mem
      exact (insts path found at' use).1
  have mem : j ∈ body.insts := List.count_pos_iff.1 (by omega)
  exact ⟨first, zero, opens (slots mem slot)⟩

/-- In a body that is defined, every use is dominated by its definition. -/
theorem dominated_of_setBody {c c' : Compilation} {func : FuncId} {root : NodeId}
    (reachable : c.Reachable) (proper : c.Proper func root)
    (run : Build.setBody func root c = .ok (true, c')) :
    ∃ f body, c'.functions[func.index]? = some f ∧ f.body = some body ∧
      body.Dominated c'.insts := by
  obtain ⟨no, _⟩ | ⟨_, f, f', entry, insts, void, body, a, insts', h⟩ := Build.setBody_ok run
  · cases no
  have sound := reachable.sound
  obtain ⟨past, first, backed, zero, opens⟩ := h.backed sound proper
  refine ⟨{ f' with body := some body }, body, ?_, rfl,
    backed.dominated (h.nodup_insts sound proper) zero opens (h.slot_mem sound proper)⟩
  rw [h.rest]
  simp [Array.getElem?_modify, h.found]

/-- Gives a local its first value, and returns if that is true. -/
def slotProgram : Build (FuncId × NodeId) := do
  let fntype ← Build.onTypes (·.functionType none [] [] .void)
  let func ← Build.declareFunction fntype "f" "" ⟨0⟩ false .synthetic
  let var ← Build.localVariable func "x" .bool false .synthetic
  let target ← Build.varExpr var .synthetic
  let value ← Build.booleanConstant true
  let store ← Build.assign func target value .synthetic
  let cond ← Build.varExpr var .synthetic
  let leave ← Build.returnStmt func [] .synthetic
  let choice ← Build.ifStmt func cond leave none .synthetic
  let root ← Build.compoundStmt store choice
  return (func, root)

/-- The nodes that it makes. -/
def slotArena : Arena :=
  ⟨Arena.initial.nodes ++ #[
    some { Node.fresh (.var ⟨1⟩) [] .bool .synthetic with
      value := some (.inst ⟨0⟩), flags := ⟨true, false⟩ },
    some { Node.fresh .const [] .bool .synthetic with
      value := some (.const (.bool true)), flags := ⟨false, true⟩ },
    some { Node.fresh .assign [⟨2⟩, ⟨3⟩] .void .synthetic with insts := [⟨1⟩] },
    some (Node.fresh .exprStmt [⟨4⟩] .void .synthetic),
    some { Node.fresh (.var ⟨1⟩) [] .bool .synthetic with
      value := some (.inst ⟨3⟩), insts := [⟨3⟩] },
    some { Node.fresh .const [] .void .synthetic with
      value := some (.const .void), flags := ⟨false, true⟩ },
    some { Node.fresh .ret [⟨7⟩] .void .synthetic with insts := [⟨2⟩] },
    some (Node.fresh .exprStmt [⟨8⟩] .void .synthetic),
    some (Node.fresh .emptyStmt [] .void .synthetic),
    some (Node.fresh .ifStmt [⟨6⟩, ⟨9⟩, ⟨10⟩] .void .synthetic),
    some (Node.fresh .blockStmt [⟨5⟩, ⟨11⟩] .void .synthetic)]⟩

theorem slotProgram_ok : ∃ c c', slotProgram (.initial default) = .ok ((⟨1⟩, ⟨12⟩), c) ∧
    c.arena = slotArena ∧ c.vars.map (·.func) = #[none, some ⟨1⟩] ∧
    Build.setBody ⟨1⟩ ⟨12⟩ c = .ok (true, c') := by
  have outcome : (slotProgram (.initial default)).map
      (fun r => (r.1, r.2.arena, r.2.vars.map (·.func), (Build.setBody ⟨1⟩ ⟨12⟩ r.2).map (·.1))) =
      .ok ((⟨1⟩, ⟨12⟩), slotArena, #[none, some ⟨1⟩], .ok true) := by decide +kernel
  cases run : slotProgram (.initial default) with
  | error fault => simp [run, Except.map] at outcome
  | ok result =>
    obtain ⟨made, c⟩ := result
    simp only [run, Except.map, Except.ok.injEq, Prod.mk.injEq] at outcome
    obtain ⟨rfl, arena, vars, done⟩ := outcome
    cases defined : Build.setBody ⟨1⟩ ⟨12⟩ c with
    | error fault => simp [defined] at done
    | ok result =>
      obtain ⟨made, c'⟩ := result
      obtain rfl : made = true := by simpa [defined] using done
      exact ⟨c, c', rfl, arena, vars, defined⟩

theorem reachable_slotProgram {c : Compilation} {made : FuncId × NodeId}
    (run : slotProgram (.initial default) = .ok (made, c)) : c.Reachable := by
  obtain ⟨_, c₁, fntype, run⟩ := Run.bind_ok.1 run
  obtain ⟨_, c₂, func, run⟩ := Run.bind_ok.1 run
  obtain ⟨_, c₃, var, run⟩ := Run.bind_ok.1 run
  obtain ⟨_, c₄, target, run⟩ := Run.bind_ok.1 run
  obtain ⟨_, c₅, value, run⟩ := Run.bind_ok.1 run
  obtain ⟨_, c₆, store, run⟩ := Run.bind_ok.1 run
  obtain ⟨_, c₇, cond, run⟩ := Run.bind_ok.1 run
  obtain ⟨_, c₈, leave, run⟩ := Run.bind_ok.1 run
  obtain ⟨_, c₉, choice, run⟩ := Run.bind_ok.1 run
  obtain ⟨_, c₁₀, root, run⟩ := Run.bind_ok.1 run
  cases run
  have declared := ((Compilation.Reachable.initial default).call (.onTypes _) fntype).call
    (.declareFunction ..) func
  have stored := (((declared.call (.localVariable ..) var).call (.varExpr ..) target).call
    (.booleanConstant _) value).call (.assign ..) store
  have chosen := ((stored.call (.varExpr ..) cond).call (.returnStmt ..) leave).call
    (.ifStmt ..) choice
  exact chosen.call (.compoundStmt ..) root

/-- The nodes of its tree. -/
def slotNodes : List NodeId := [⟨12⟩, ⟨5⟩, ⟨11⟩, ⟨4⟩, ⟨2⟩, ⟨3⟩, ⟨6⟩, ⟨9⟩, ⟨10⟩, ⟨8⟩, ⟨7⟩]

theorem mem_slotNodes {n : NodeId} (below : slotArena.Below ⟨12⟩ n) : n ∈ slotNodes :=
  (Arena.reaches_of_below below).mem _ (by decide) (by decide)

theorem proper_slotArena {c : Compilation} (sound : c.Sound) (arena : c.arena = slotArena)
    (vars : c.vars.map (·.func) = #[none, some ⟨1⟩]) : c.Proper ⟨1⟩ ⟨12⟩ := by
  have nodup : ∀ p ∈ slotNodes, (slotArena.kidsOf p).Nodup := by decide
  have unique : ∀ p ∈ slotNodes, ∀ q ∈ slotNodes, ∀ k ∈ slotArena.kidsOf p,
      k ∈ slotArena.kidsOf q → p = q := by decide
  have simple : ∀ n ∈ slotNodes, ∀ node ∈ slotArena.find? n, node.kind ≠ .compound := by decide
  refine ⟨fun below => ?_, fun hp hq => ?_, fun {n node v j} _ _ mem storage _ => ?_,
    fun below find compound => ?_⟩
  · rw [arena] at below ⊢
    exact nodup _ (mem_slotNodes below)
  · rw [arena] at hp hq ⊢
    exact unique _ (mem_slotNodes hp) _ (mem_slotNodes hq) _
  · obtain ⟨g, _, func, _⟩ := sound.vars v mem j storage
    have mem' : v.func ∈ c.vars.map (·.func) := Array.mem_map_of_mem mem
    rw [vars] at mem'
    rw [func] at mem' ⊢
    simpa using mem'
  · rw [arena] at below find
    exact absurd compound (simple _ (mem_slotNodes below) _ find)

/-- The slot is read and written where it was made before. -/
theorem dominated_of_setBody_slot : ∃ c c' f body,
    slotProgram (.initial default) = .ok ((⟨1⟩, ⟨12⟩), c) ∧ c.Reachable ∧ c.Proper ⟨1⟩ ⟨12⟩ ∧
    Build.setBody ⟨1⟩ ⟨12⟩ c = .ok (true, c') ∧ c'.functions[1]? = some f ∧ f.body = some body ∧
    body.Dominated c'.insts := by
  obtain ⟨c, c', run, arena, vars, defined⟩ := slotProgram_ok
  have reachable := reachable_slotProgram run
  have proper := proper_slotArena reachable.sound arena vars
  obtain ⟨f, body, found, defines, dominated⟩ := dominated_of_setBody reachable proper defined
  exact ⟨c, c', f, body, run, reachable, proper, defined, found, defines, dominated⟩

end Codegen
