import Codegen.Proofs.Lowering.InScope
import Codegen.Proofs.Lowering.Switch

/-!
Reading a tree whose operands come from its children gives code in scope. Expressions leave behind
what they supply, so that the instructions of a node find the results of its children.
-/

namespace Codegen

/-- Instructions of one node that use what is there, or what goes before them. -/
theorem Code.scoped_all_read {s : InstStore} {uses : InstId → InstId → Prop} (entry : List InstId)
    (newer : ∀ {i j}, i.index < s.slots.size → uses i j → s.Uses i j) {insts : List InstId}
    (scope : List InstId) (bounded : ∀ i ∈ insts, i.index < s.slots.size)
    (operands : ∀ {p i j}, insts[p]? = some i → s.Uses i j →
      j ∈ scope ∨ j ∈ insts.take p ∧ s.Yields j) :
    (Code.all (insts.map s.read)).Scoped uses entry scope ∧
      ∀ {j}, j ∈ scope ∨ j ∈ insts ∧ s.Yields j →
        j ∈ (Code.all (insts.map s.read)).scope entry scope := by
  induction insts generalizing scope with
  | nil => exact ⟨trivial, fun h => h.resolve_right (by simp)⟩
  | cons i rest ih =>
    have now : ∀ {j}, s.Uses i j → j ∈ scope := fun use =>
      (operands (p := 0) (i := i) rfl use).resolve_right (by simp)
    have bounded' : ∀ k ∈ rest, k.index < s.slots.size := fun k mem => bounded k (by simp [mem])
    by_cases ret : ∃ v ty, s.find? i = some ⟨.ret v, ty⟩
    · obtain ⟨v, ty, found⟩ := ret
      have read : s.read i = .leave v := InstStore.read_of_ret found rfl
      obtain ⟨inScope, left⟩ := ih scope bounded' fun {p k j} at' use => by
        rcases operands (p := p + 1) at' use with mem | ⟨mem, yields⟩
        · exact .inl mem
        · rw [List.take_succ_cons, List.mem_cons] at mem
          exact .inr ⟨mem.resolve_left fun e => yields v ty (e ▸ found), yields⟩
      simp only [List.map_cons, read, Code.all, Code.Scoped, Code.scope]
      refine ⟨⟨?_, inScope⟩, fun {j} h => left (h.imp_right fun own => ?_)⟩
      · rintro w rfl j rfl
        exact now ⟨_, found, by simp [InstKind.operands]⟩
      · exact own.imp_left fun mem => (List.mem_cons.1 mem).resolve_left fun e =>
          own.2 v ty (e ▸ found)
    · have read : s.read i = .inst i := by
        unfold InstStore.read
        split
        · rename_i v ty found
          exact absurd ⟨v, ty, found⟩ ret
        · rfl
      obtain ⟨inScope, left⟩ := ih (i :: scope) bounded' fun {p k j} at' use => by
        rcases operands (p := p + 1) at' use with mem | ⟨mem, yields⟩
        · exact .inl (List.mem_cons_of_mem _ mem)
        · rw [List.take_succ_cons, List.mem_cons] at mem
          rcases mem with rfl | mem
          · exact .inl List.mem_cons_self
          · exact .inr ⟨mem, yields⟩
      simp only [List.map_cons, read, Code.all, Code.Scoped, Code.scope]
      refine ⟨⟨fun j use => now (newer (bounded i (by simp)) use), inScope⟩, fun {j} h => left ?_⟩
      rcases h with mem | ⟨mem, yields⟩
      · exact .inl (List.mem_cons_of_mem _ mem)
      · rcases List.mem_cons.1 mem with rfl | mem
        · exact .inl List.mem_cons_self
        · exact .inr ⟨mem, yields⟩

namespace Arena

variable {a : Arena} {s : InstStore} {uses : InstId → InstId → Prop} {entry : List InstId}
  {root : NodeId}

/-- The tests of a switch, as code in scope once the value switched on is there. -/
structure Tested (a : Arena) (s : InstStore) (uses : InstId → InstId → Prop) (entry : List InstId)
    (scrutinee : NodeId) (v : Value) (tests : Tests) : Prop where
  inScope : ∀ {scope}, Covers s entry a [scrutinee] scope → tests.Scoped uses entry v scope
  labels : tests.labels = []

/-- The bodies of a switch, as code in scope. -/
structure Bodied (a : Arena) (uses : InstId → InstId → Prop) (entry : List InstId)
    (xs : List NodeId) (bodies : Bodies) : Prop where
  inScope : ∀ {scope}, entry ⊆ scope → bodies.Scoped uses entry scope
  labels : (∀ x ∈ xs, a.Quiet x) → bodies.labels = []

/-- Within a number of steps down, every part of a tree is read as code in scope. -/
structure Scopes (a : Arena) (s : InstStore) (uses : InstId → InstId → Prop) (entry : List InstId)
    (root : NodeId) (fuel : Nat) : Prop where
  stmt : ∀ {id n n' code}, Inside root a id → a.readStmt s fuel id n = some (code, n') →
    Told a s uses entry [] [id] code
  choice : ∀ {id node cond thenStmt elseStmt n n' code}, a.Below root id → a.find? id = some node →
    node.kind = .ifStmt → node.kids = [cond, thenStmt, elseStmt] →
    a.readIf s fuel cond thenStmt elseStmt n = some (code, n') →
    Told a s uses entry [] node.kids code
  switch : ∀ {id node layout n n' code}, a.Below root id → a.find? id = some node →
    node.kind = .switchStmt layout →
    a.readSwitch s fuel node.kids layout.cases n = some (code, n') →
    Told a s uses entry [] node.kids code
  expr : ∀ {id node n n' code}, Inside root a id → a.find? id = some node → node.isExpr →
    a.readExpr s fuel id n = some (code, n') →
    Told a s uses entry [] [id] code ∧ Leaves s entry a [id] code

theorem scopes_zero : Scopes a s uses entry root 0 where
  stmt _ h := by cases h
  choice _ _ _ _ h := by cases h
  switch _ _ _ h := by cases h
  expr _ _ _ h := by cases h

/-- Statements leave nothing behind. -/
theorem leaves_of_stmt {id : NodeId} {node : Node} (find : a.find? id = some node)
    (stmt : node.isStmt) (code : Code) : Leaves s entry a [id] code := by
  refine fun _ scope sub => ⟨code.entry_subset_scope sub, fun {x j} mem supplied => ?_⟩
  cases List.mem_singleton.1 mem
  have none : ∀ {node'}, a.find? id = some node' → ¬node'.isExpr := fun {node'} find' expr => by
    cases find.symm.trans find'
    simp [Node.isStmt, Node.isExpr, NodeKind.isExpr] at stmt expr
    simp [stmt] at expr
  cases supplied with
  | dead gone => simp [find] at gone
  | own find' expr => exact absurd expr (none find')
  | kid find' expr => exact absurd expr (none find')

namespace Scopes

variable {fuel n n' : Nat} {code : Code} {id : NodeId} {node : Node}

theorem child (ih : Scopes a s uses entry root fuel) (inside : Inside root a id)
    (run : (do
      let child ← a.find? id
      if child.isStmt then a.readStmt s fuel id else a.readExpr s fuel id : Reading Code) n =
        some (code, n')) :
    Told a s uses entry [] [id] code ∧ Leaves s entry a [id] code := by
  obtain ⟨node, find, run⟩ := Reading.lift_bind_some run
  split at run
  · rename_i stmt
    exact ⟨ih.stmt inside run, leaves_of_stmt find stmt code⟩
  · rename_i expr
    exact ih.expr inside find (by simpa [Node.isExpr, NodeKind.isExpr, Node.isStmt] using expr) run

theorem readExpr (h : a.InScope s uses entry root) (ih : Scopes a s uses entry root fuel)
    (inside : Inside root a id) (find : a.find? id = some node) (expr : node.isExpr)
    (run : a.readExpr s (fuel + 1) id n = some (code, n')) :
    Told a s uses entry [] [id] code ∧ Leaves s entry a [id] code := by
  rw [Arena.readExpr, Reading.lift_bind find] at run
  obtain ⟨codes, m, kids, run⟩ := Reading.bind_some run
  obtain ⟨rfl, rfl⟩ := Reading.pure_some run
  rcases inside with below | sentinel
  case inr =>
    obtain ⟨noKids, noInsts⟩ := h.bare id node sentinel find
    rw [noKids] at kids
    obtain ⟨rfl, rfl⟩ := Reading.pure_some kids
    rw [noInsts]
    refine ⟨⟨fun _ => ⟨trivial, trivial⟩, fun _ => rfl⟩,
      fun _ scope sub => ⟨sub, fun {x j} mem supplied => ?_⟩⟩
    cases List.mem_singleton.1 mem
    cases supplied with
    | dead gone => simp [find] at gone
    | own find' _ mem =>
      cases find.symm.trans find'
      simp [noInsts] at mem
    | kid find' _ mem =>
      cases find.symm.trans find'
      simp [noKids] at mem
  have inside := fun k mem => h.inside_kid (k := k) (.inl below) find mem
  obtain ⟨t, leaves⟩ := Told.all (fun k mem _ _ _ run => (ih.child (inside k mem) run).1) kids
  replace leaves := leaves fun k mem _ _ _ run => (ih.child (inside k mem) run).2
  have quiet := t.labels fun k mem => h.quiet_kid (h.quiet below find expr) find mem
  have own := fun {scope} (c : Covers s entry a node.kids scope) =>
    Code.scoped_all_read entry h.newer scope
      (fun i mem => h.bounded below find mem) fun {p i j} at' use => by
        rcases h.operands below find at' use with mem | earlier | ⟨k, mem, supplied⟩
        · exact .inl (c.entry mem)
        · exact .inr earlier
        · exact .inl (c.supplied mem supplied)
  refine ⟨⟨fun c => ⟨t.inScope c, (own (leaves quiet c.entry)).1⟩, fun _ => ?_⟩,
    fun _ scope sub => ⟨?_, fun {x j} mem supplied => ?_⟩⟩
  · rw [Code.labels, quiet, Code.labels_all_read]
    rfl
  · exact Code.entry_subset_scope _ sub
  · cases List.mem_singleton.1 mem
    have c := leaves quiet sub
    cases supplied with
    | dead gone => simp [find] at gone
    | own find' _ mem yields =>
      cases find.symm.trans find'
      exact (own c).2 (.inr ⟨mem, yields⟩)
    | kid find' _ mem supplied =>
      cases find.symm.trans find'
      exact (own c).2 (.inl (c.supplied mem supplied))

/-- A child of a statement that is an expression. -/
theorem operand (h : a.InScope s uses entry root) (ih : Scopes a s uses entry root fuel)
    {k : NodeId} {i : Nat} (below : a.Below root id) (find : a.find? id = some node)
    (at' : node.kids[i]? = some k) (wants : node.kind.wantsStmt i = false)
    (run : a.readExpr s fuel k n = some (code, n')) :
    Told a s uses entry [] [k] code ∧ Leaves s entry a [k] code ∧ code.labels = [] ∧
      ∀ {v scope}, a.value? k = some v → Covers s entry a [k] scope → v.Among scope := by
  obtain ⟨child, found⟩ : ∃ child, a.find? k = some child := by
    cases fuel with
    | zero => cases run
    | succ fuel =>
      rw [Arena.readExpr] at run
      obtain ⟨child, found, _⟩ := Reading.lift_bind_some run
      exact ⟨child, found⟩
  have inside := h.inside_kid (.inl below) find (List.mem_of_getElem? at')
  have expr : child.isExpr := by
    have stmt := h.shaped below find at' found
    rw [wants] at stmt
    simpa [Node.isExpr, NodeKind.isExpr, Node.isStmt] using stmt
  obtain ⟨t, leaves⟩ := ih.expr inside found expr run
  have quiet := t.labels (by simpa using h.quiet_of_expr inside found expr)
  exact ⟨t, leaves, quiet, fun has c => h.among_of_covers inside has c⟩

theorem readIf (h : a.InScope s uses entry root) (ih : Scopes a s uses entry root fuel)
    {cond thenStmt elseStmt : NodeId} (below : a.Below root id) (find : a.find? id = some node)
    (kind : node.kind = .ifStmt) (kids : node.kids = [cond, thenStmt, elseStmt])
    (run : a.readIf s (fuel + 1) cond thenStmt elseStmt n = some (code, n')) :
    Told a s uses entry [] node.kids code := by
  have inside := fun k mem => h.inside_kid (k := k) (.inl below) find mem
  rw [Arena.readIf] at run
  obtain ⟨eval, n₁, first, run⟩ := Reading.bind_some run
  obtain ⟨v, has, run⟩ := Reading.lift_bind_some run
  obtain ⟨t₁, leaves, quiet, among⟩ := operand h ih below find (i := 0) (by rw [kids]; rfl)
    (by rw [kind]; rfl) first
  obtain ⟨elseNode, _, run⟩ := Reading.lift_bind_some run
  obtain ⟨body, n₂, second, run⟩ := Reading.bind_some run
  rw [kids] at inside ⊢
  have t₂ := ih.stmt (inside thenStmt (by simp)) second
  split at run
  · obtain ⟨rfl, rfl⟩ := Reading.pure_some run
    have choice : Told a s uses entry [cond] [thenStmt] (.ifThen v body) :=
      ⟨fun c => ⟨among has c, t₂.inScope (.none c.entry)⟩, t₂.labels⟩
    exact (t₁.seq leaves quiet choice).weaken (by simp)
  · obtain ⟨other, n₃, third, run⟩ := Reading.bind_some run
    obtain ⟨rfl, rfl⟩ := Reading.pure_some run
    have t₃ := ih.stmt (inside elseStmt (by simp)) third
    have choice : Told a s uses entry [cond] [thenStmt, elseStmt] (.ifElse v body other) :=
      ⟨fun c => ⟨among has c, t₂.inScope (.none c.entry), t₃.inScope (.none c.entry)⟩,
        fun still => by
          rw [Code.labels, t₂.labels (by simpa using still thenStmt (by simp)),
            t₃.labels (by simpa using still elseStmt (by simp))]
          rfl⟩
    exact t₁.seq leaves quiet choice

section

variable {id scrutinee : NodeId} {node : Node} {v : Value} {n n' stmtIndex valueIndex : Nat}

/-- The values of one case, before the tests of the others. -/
theorem tested_prepend (h : a.InScope s uses entry root) (ih : Scopes a s uses entry root fuel)
    (below : a.Below root id) (find : a.find? id = some node)
    (among : ∀ {scope}, Covers s entry a [scrutinee] scope → v.Among scope) (body : Nat)
    {xs : List NodeId} {tests : List (Code × Value × InstId)} {more : Tests}
    (kids : ∀ x ∈ xs, ∃ i, node.kids[i]? = some x ∧ node.kind.wantsStmt i = false)
    (run : xs.mapM (a.readTest (a.readExpr s fuel)) n = some (tests, n'))
    (rest : Tested a s uses entry scrutinee v more) :
    Tested a s uses entry scrutinee v (.prepend body tests more) := by
  induction xs generalizing n tests with
  | nil =>
    obtain ⟨rfl, rfl⟩ := Reading.pure_some run
    exact rest
  | cons x xs step =>
    rw [List.mapM_cons] at run
    obtain ⟨one, m', test, run⟩ := Reading.bind_some run
    obtain ⟨others, _, later, run⟩ := Reading.bind_some run
    obtain ⟨rfl, rfl⟩ := Reading.pure_some run
    obtain ⟨eval, m, first, test⟩ := Reading.bind_some test
    obtain ⟨w, has, test⟩ := Reading.lift_bind_some test
    cases test
    obtain ⟨i, at', wants⟩ := kids x (by simp)
    obtain ⟨t, leaves, quiet, among'⟩ := operand h ih below find at' wants first
    have t' := step (fun y my => kids y (by simp [my])) later
    refine ⟨fun c => ?_, ?_⟩
    · have c' := c.past quiet
      exact ⟨t.inScope (.none c.entry), among c', among' has (leaves quiet c.entry), t'.inScope c'⟩
    · rw [Tests.prepend, Tests.labels, quiet, t'.labels]
      rfl

theorem tested_readTests (h : a.InScope s uses entry root) (ih : Scopes a s uses entry root fuel)
    (below : a.Below root id) (find : a.find? id = some node)
    (among : ∀ {scope}, Covers s entry a [scrutinee] scope → v.Among scope) {counts : List Nat}
    {body : Nat} {tests : Tests}
    (wants : ∀ i < valueIndex + total counts, node.kind.wantsStmt i = false)
    (run : a.readTests (a.readExpr s fuel) node.kids body
      (SwitchLayout.place counts valueIndex stmtIndex) n = some (tests, n')) :
    Tested a s uses entry scrutinee v tests := by
  induction counts generalizing body valueIndex stmtIndex n tests with
  | nil =>
    obtain ⟨rfl, rfl⟩ := Reading.pure_some run
    exact ⟨fun _ => trivial, rfl⟩
  | cons count rest step =>
    rw [SwitchLayout.place, Arena.readTests] at run
    split at run
    case isFalse => cases run
    obtain ⟨own, m, first, run⟩ := Reading.bind_some run
    obtain ⟨more, m', later, run⟩ := Reading.bind_some run
    obtain ⟨rfl, rfl⟩ := Reading.pure_some run
    rw [total] at wants
    refine tested_prepend h ih below find among body (fun x mem => ?_) first
      (step (fun i lt => wants i (by omega)) later)
    obtain ⟨i, at'⟩ := List.mem_iff_getElem?.1 mem
    obtain ⟨lt, at'⟩ : i < count ∧ node.kids[valueIndex + i]? = some x := by
      simpa [List.getElem?_take] using at'
    exact ⟨valueIndex + i, at', wants _ (by omega)⟩

theorem bodied_readBodies (h : a.InScope s uses entry root) (ih : Scopes a s uses entry root fuel)
    (below : a.Below root id) (find : a.find? id = some node) {counts : List Nat} {bodies : Bodies}
    (run : readBodies (a.readStmt s fuel) node.kids
      (SwitchLayout.place counts valueIndex stmtIndex) n = some (bodies, n')) :
    Bodied a uses entry node.kids bodies := by
  induction counts generalizing valueIndex stmtIndex n bodies with
  | nil =>
    obtain ⟨rfl, rfl⟩ := Reading.pure_some run
    exact ⟨fun _ => trivial, fun _ => rfl⟩
  | cons count rest step =>
    rw [SwitchLayout.place, readBodies] at run
    obtain ⟨kid, at', run⟩ := Reading.lift_bind_some run
    obtain ⟨body, m, first, run⟩ := Reading.bind_some run
    obtain ⟨more, m', later, run⟩ := Reading.bind_some run
    obtain ⟨rfl, rfl⟩ := Reading.pure_some run
    have mem := List.mem_of_getElem? at'
    have t := ih.stmt (h.inside_kid (.inl below) find mem) first
    have t' := step later
    refine ⟨fun sub => ⟨t.inScope (.none sub), t'.inScope sub⟩, fun quiet => ?_⟩
    rw [Bodies.labels, t.labels (by simpa using quiet kid mem), t'.labels quiet]
    rfl

end

theorem readSwitch (h : a.InScope s uses entry root) (ih : Scopes a s uses entry root fuel)
    {layout : SwitchLayout} (below : a.Below root id) (find : a.find? id = some node)
    (kind : node.kind = .switchStmt layout)
    (run : a.readSwitch s (fuel + 1) node.kids layout.cases n = some (code, n')) :
    Told a s uses entry [] node.kids code := by
  have wants : ∀ i < 1 + total layout.counts, node.kind.wantsStmt i = false := fun i lt => by
    rw [kind]
    simpa [NodeKind.wantsStmt, layout.valueCount_eq] using lt
  rw [Arena.readSwitch] at run
  obtain ⟨scrutinee, at', run⟩ := Reading.lift_bind_some run
  obtain ⟨eval, n₁, first, run⟩ := Reading.bind_some run
  obtain ⟨v, has, run⟩ := Reading.lift_bind_some run
  obtain ⟨tests, n₂, second, run⟩ := Reading.bind_some run
  obtain ⟨bodies, n₃, third, run⟩ := Reading.bind_some run
  obtain ⟨rfl, rfl⟩ := Reading.pure_some run
  obtain ⟨t₁, leaves, quiet, among⟩ := operand h ih below find at' (wants 0 (by omega)) first
  have t₂ := tested_readTests h ih below find (fun c => among has c) wants second
  have t₃ := bodied_readBodies h ih below find third
  have choice : Told a s uses entry [scrutinee] node.kids
      (.switch v tests (SwitchCase.lastDefault layout.cases) bodies) :=
    ⟨fun c => ⟨t₂.inScope c, t₃.inScope (subset_kept _ c.entry)⟩,
      fun still => by
        rw [Code.labels, t₂.labels, t₃.labels still]
        rfl⟩
  exact (t₁.seq leaves quiet choice).weaken (by simp [List.mem_of_getElem? at'])

theorem readStmt (h : a.InScope s uses entry root) (ih : Scopes a s uses entry root fuel)
    (inside : Inside root a id) (run : a.readStmt s (fuel + 1) id n = some (code, n')) :
    Told a s uses entry [] [id] code := by
  rw [Arena.readStmt] at run
  obtain ⟨node, find, run⟩ := Reading.lift_bind_some run
  have still : Told a s uses entry [] [id] .skip := ⟨fun _ => trivial, fun _ => rfl⟩
  rcases inside with below | sentinel
  case inr =>
    rcases (h.void sentinel find).2 with kind | kind
    · simp only [kind] at run
      cases run
    · simp only [kind] at run
      obtain ⟨rfl, rfl⟩ := Reading.pure_some run
      exact still
  cases kind : node.kind
  case blockStmt =>
    simp only [kind] at run
    obtain ⟨codes, m, kids, run⟩ := Reading.bind_some run
    obtain ⟨rfl, rfl⟩ := Reading.pure_some run
    exact h.told_of_kids find (Told.all (fun k mem _ _ _ run =>
      ih.stmt (h.inside_kid (.inl below) find mem) run) kids).1
  case exprStmt =>
    simp only [kind] at run
    obtain ⟨k, at', run⟩ := Reading.lift_bind_some run
    have t := (operand h ih below find at' (by rw [kind]; rfl) run).1
    exact h.told_of_kids find (t.weaken (by simpa using List.mem_of_getElem? at'))
  case ifStmt =>
    simp only [kind] at run
    rcases kids : node.kids with _ | ⟨cond, _ | ⟨thenStmt, _ | ⟨elseStmt, _ | ⟨_, _⟩⟩⟩⟩
    case cons.cons.cons.nil =>
      simp only [kids] at run
      exact h.told_of_kids find (ih.choice below find kind kids run)
    all_goals
      simp only [kids] at run
      cases run
  case labelStmt f l =>
    simp only [kind] at run
    obtain ⟨rfl, rfl⟩ := Reading.pure_some run
    exact ⟨fun _ => trivial, fun quiet =>
      absurd kind (quiet id (by simp) id node .refl find f l)⟩
  case gotoStmt f l =>
    simp only [kind] at run
    obtain ⟨rfl, rfl⟩ := Reading.pure_some run
    exact ⟨fun _ => trivial, fun _ => rfl⟩
  case switchStmt layout =>
    simp only [kind] at run
    exact h.told_of_kids find (ih.switch below find kind run)
  case emptyStmt | errorStmt =>
    simp only [kind] at run
    obtain ⟨rfl, rfl⟩ := Reading.pure_some run
    exact still
  all_goals
    simp only [kind] at run
    cases run

end Scopes

theorem scopes (h : a.InScope s uses entry root) : ∀ fuel, Scopes a s uses entry root fuel
  | 0 => scopes_zero
  | fuel + 1 =>
    have ih := scopes h fuel
    ⟨Scopes.readStmt h ih, Scopes.readIf h ih, Scopes.readSwitch h ih, Scopes.readExpr h ih⟩

/-- What a tree in scope says is in scope. -/
theorem InScope.scoped (h : a.InScope s uses entry root) {code : Code}
    (read : a.reading s root = some code) : code.Scoped uses entry entry := by
  obtain ⟨⟨code', n⟩, run, e⟩ := Option.bind_eq_some_iff.1 read
  cases e
  exact ((scopes h _).stmt (.inl .refl) run).inScope (.none (List.Subset.refl _))

end Arena

end Codegen
