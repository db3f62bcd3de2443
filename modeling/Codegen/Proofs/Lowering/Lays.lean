import Codegen.Proofs.Lowering.Events

/-!
Lowering any tree lays out some code. Nodes may be shared and come up empty when they are met
again, but labels, jumps and events do not depend on that: there are those of all nodes below the
root, each as often as there are ways down to it.
-/

namespace Codegen

section

variable {a : Arena} {fuel stmtIndex valueIndex : Nat} {id : NodeId} {kids xs : List NodeId}
  {node : Node} {own : List Event} {s s' : Lowering}

/-- A walk below nodes `xs` lays out some code, and what happens is what the nodes say and events of
its own. -/
def Lays (a : Arena) (fuel : Nat) (xs : List NodeId) (own : List Event) (walk : Lower Unit) :
    Prop :=
  ∀ {s s'}, walk s = .ok ((), s') → a.Alike s.arena →
    ∃ (code : Code) (es : List Event), s'.draft = code.lower s.draft ∧ Happens a s es s' ∧
      Tells a fuel xs own es code.labels code.gotos

theorem lays_forM {walk : NodeId → Lower Unit} (each : ∀ x ∈ xs, Lays a fuel [x] [] (walk x)) :
    Lays a fuel xs [] (xs.forM walk) := by
  induction xs with
  | nil =>
    intro s s' run _
    obtain ⟨_, rfl⟩ := Run.pure_ok run
    exact ⟨.skip, [], rfl, .nil, .alone []⟩
  | cons x rest ih =>
    intro s s' run same
    obtain ⟨s₁, first, later⟩ := Run.forM_cons_ok run
    obtain ⟨code, es, d, h, told⟩ := each x (by simp) first same
    obtain ⟨more, es', d', h', told'⟩ :=
      ih (fun y mem => each y (by simp [mem])) later (h.alike same)
    exact ⟨.seq code more, es ++ es', by rw [d', d]; rfl, h.trans h', told.append told'⟩

/-- An expression, as far as the arena has its shape. -/
def Arena.Expresses (a : Arena) (id : NodeId) : Prop :=
  a.WellFormed → ∀ {node}, a.find? id = some node → node.isExpr

/-- A child in a place for expressions. -/
theorem Arena.expresses_kid {k : NodeId} {i : Nat} (find : a.find? id = some node)
    (at' : node.kids[i]? = some k) (expr : node.kind.wantsStmt i = false) : a.Expresses k := by
  intro shaped child found
  rw [Node.isExpr_eq, ((shaped.nodes find).kids at').2 found, expr]
  rfl

theorem Arena.Alike.expresses {a' : Arena} (same : a.Alike a') (found : a'.find? id = some node)
    (expr : ¬node.isStmt) : a.Expresses id := by
  intro _ node₀ find
  obtain ⟨node₁, find₁, kind, _⟩ := same.find found
  cases find.symm.trans find₁
  rw [Node.isExpr_eq, Node.isStmt, kind]
  simpa [Node.isStmt] using expr

theorem NodeKind.labels_of_isExpr {kind : NodeKind} (h : kind.isExpr) :
    kind.labels = [] ∧ kind.gotos = [] := by
  cases kind <;> first | exact ⟨rfl, rfl⟩ | cases h

/-- The children of a switch that are walked. -/
def SwitchLayout.walked (layout : SwitchLayout) (kids : List NodeId) : List NodeId :=
  kids.take 1 ++ ((kids.drop 1).take (total layout.counts) ++
    (kids.drop (1 + total layout.counts)).take layout.counts.length)

theorem SwitchLayout.walked_eq {layout : SwitchLayout} (h : kids.length = layout.childCount) :
    layout.walked kids = kids := by
  rw [childCount_eq] at h
  rw [walked, List.take_of_length_le (l := kids.drop (1 + total layout.counts)) (by simp; omega),
    ← List.drop_drop, List.take_append_drop, List.take_append_drop]

theorem Node.Shaped.walked_eq {layout : SwitchLayout} (h : node.Shaped a)
    (kind : node.kind = .switchStmt layout) : layout.walked node.kids = node.kids := by
  rcases h.count with none | takes
  · simp [none, SwitchLayout.walked]
  · rw [kind] at takes
    exact SwitchLayout.walked_eq (beq_iff_eq.1 takes)

/-! ## The walk -/

/-- Every part of the walk lays out code, within a number of steps down. -/
structure Covers (a : Arena) (fuel : Nat) : Prop where
  stmt : ∀ id, Lays a fuel [id] [] (Lower.walk fuel id)
  choice : ∀ {cond thenStmt elseStmt}, a.Expresses cond →
    Lays a fuel [cond, thenStmt, elseStmt] [] (Lower.walkIf fuel cond thenStmt elseStmt)
  switch : ∀ {kids} (layout : SwitchLayout),
    (∀ {i k}, i < layout.valueCount → kids[i]? = some k → a.Expresses k) →
    Lays a fuel (layout.walked kids) ((layout.caseValues kids).map fun p => .test p.1 p.2)
      (Lower.walkSwitch fuel kids layout.cases)
  expr : ∀ {id}, a.Expresses id → Lays a fuel [id] [] (Lower.emit fuel id)

namespace Covers

theorem zero : Covers a 0 where
  stmt _ _ _ h := by cases h
  choice _ _ _ h := by cases h
  switch _ _ _ _ h := by cases h
  expr _ _ _ h := by cases h

variable (h : Covers a fuel)

include h

theorem child (id : NodeId) : Lays a fuel [id] []
    (do if (← Lower.node id).isStmt then Lower.walk fuel id else Lower.emit fuel id) := by
  intro s s' run same
  obtain ⟨node, found, run⟩ := Lower.node_bind_ok run
  split at run
  · exact h.stmt id run same
  · rename_i expr
    exact h.expr (same.expresses found expr) run same

theorem emit (expr : a.Expresses id) : Lays a (fuel + 1) [id] [] (Lower.emit (fuel + 1) id) := by
  intro s s' run same
  rw [Lower.emit] at run
  obtain ⟨node', found, run⟩ := Lower.node_bind_ok run
  obtain ⟨node, find, _, kids, _⟩ := same.find found
  obtain ⟨_, s₁, first, own⟩ := Run.bind_ok.1 run
  rw [← kids] at first
  obtain ⟨code, es, draft, happens, told⟩ := lays_forM (fun k _ => h.child k) first same
  obtain ⟨node₁, _, last⟩ := Lower.placeInsts_ok own
  have draft' := (forM_place_ok last (.refl s₁.insts)).1
  refine ⟨.seq code _, es ++ [.take id], by rw [draft']; exact congrArg _ draft,
    happens.trans (.take own .nil), ?_⟩
  refine (told.append (.alone [.take id])).parent find (fun _ => List.append_nil _)
    (fun shaped => ?_) fun shaped => ?_
  · have isExpr := expr shaped find
    rw [Node.isExpr_eq] at isExpr
    simp [Node.events, show node.isStmt = false by simpa using isExpr]
  · have none := NodeKind.labels_of_isExpr (expr shaped find)
    simp [Code.labels, Code.gotos, Code.labels_all_read, Code.gotos_all_read, none]

theorem walk (id : NodeId) : Lays a (fuel + 1) [id] [] (Lower.walk (fuel + 1) id) := by
  intro s s' run same
  obtain ⟨node', found, walks⟩ := Lower.walk_ok run
  obtain ⟨node, find, same_kind, same_kids, _⟩ := same.find found
  cases walks.congr same_kind same_kids with
  | block kind run =>
    obtain ⟨code, es, draft, happens, told⟩ := lays_forM (fun k _ => h.stmt k) run same
    exact ⟨code, es, draft, happens, told.parent find (fun _ => rfl)
      (fun _ => (Node.events_eq_nil (by rw [Node.isStmt, kind]; rfl) (by simp [kind])).symm)
      fun _ => by rw [kind]; exact ⟨rfl, rfl⟩⟩
  | expr kind child run =>
    obtain ⟨code, es, draft, happens, told⟩ :=
      h.expr (Arena.expresses_kid find child (by rw [kind]; rfl)) run same
    exact ⟨code, es, draft, happens, told.parent find
      (fun shaped => (shaped.nodes find).kids_eq_singleton (by rw [kind]; rfl) child)
      (fun _ => (Node.events_eq_nil (by rw [Node.isStmt, kind]; rfl) (by simp [kind])).symm)
      fun _ => by rw [kind]; exact ⟨rfl, rfl⟩⟩
  | choice kind kids run =>
    have expr := Arena.expresses_kid (i := 0) find (by rw [kids]; rfl) (by rw [kind]; rfl)
    obtain ⟨code, es, draft, happens, told⟩ := h.choice expr run same
    exact ⟨code, es, draft, happens, told.parent find (fun _ => kids.symm)
      (fun _ => (Node.events_eq_nil (by rw [Node.isStmt, kind]; rfl) (by simp [kind])).symm)
      fun _ => by rw [kind]; exact ⟨rfl, rfl⟩⟩
  | @label _ l kind isOpen =>
    have told := Tells.leaf fuel find kind rfl rfl
    exact ⟨.label l, [], rfl, .still (((Draft.Still.refl _).meet l).turn isOpen _ _ rfl) .nil, told⟩
  | @goto _ l kind isOpen =>
    have told := Tells.leaf fuel find kind rfl rfl
    exact ⟨.goto l, [], rfl, .still (((Draft.Still.refl _).meet l).drop isOpen _ rfl) .nil, told⟩
  | switch layout kind run =>
    obtain ⟨code, es, draft, happens, told⟩ := h.switch layout (fun {i k} lt at' =>
      Arena.expresses_kid find at' (by rw [kind]; simpa [NodeKind.wantsStmt] using lt)) run same
    exact ⟨code, es, draft, happens, told.parent find
      (fun shaped => (shaped.nodes find).walked_eq kind)
      (fun _ => by simp [Node.events, Node.caseValues, Node.isStmt, kind, NodeKind.isStmt])
      fun _ => by rw [kind]; exact ⟨rfl, rfl⟩⟩
  | nothing kind =>
    refine ⟨.skip, [], rfl, .nil, ?_⟩
    rcases kind with kind | kind
    all_goals exact Tells.leaf fuel find kind rfl rfl

theorem walkIf {cond thenStmt elseStmt : NodeId} (expr : a.Expresses cond) :
    Lays a (fuel + 1) [cond, thenStmt, elseStmt] []
      (Lower.walkIf (fuel + 1) cond thenStmt elseStmt) := by
  intro s s' run same
  obtain ⟨value, elseNode, s₁, first, _, found, chooses⟩ := Lower.walkIf_eq_ok.1 run
  obtain ⟨eval, es₁, draft, h₁, told₁⟩ := h.expr expr first same
  obtain ⟨elseNode₀, find, kind, _⟩ := (h₁.alike same).find found
  cases chooses with
  | ifThen empty forked second isOpen =>
    have h₂ := h₁.redraft ((Draft.Still.refl s₁.draft).fork forked value)
    obtain ⟨body, es₂, draft₂, h₃, told₂⟩ := h.stmt thenStmt second (h₂.alike same)
    refine ⟨.seq eval (.ifThen value body), es₁ ++ (es₂ ++ []), ?_, ?_, ?_⟩
    · rw [Lowering.draft_redraft, draft₂, draft]
      rfl
    · rw [List.append_nil]
      exact (h₂.trans h₃).redraft ((Draft.Still.refl _).turn isOpen _ _ rfl)
    · have none := Tells.leaf fuel find (kind.trans empty) rfl rfl
      have told := (told₁.mono (Nat.le_succ fuel)).append
        ((told₂.mono (Nat.le_succ fuel)).append none)
      simpa [Code.labels, Code.gotos, NodeKind.labels, NodeKind.gotos] using told
  | ifElse _ forked second isOpen₂ third isOpen₃ =>
    have h₂ := h₁.redraft ((Draft.Still.refl s₁.draft).forkElse forked value)
    obtain ⟨body, es₂, draft₂, h₃, told₂⟩ := h.stmt thenStmt second (h₂.alike same)
    have h₄ := (h₂.trans h₃).redraft ((Draft.Still.refl _).turn isOpen₂
      (.jump ⟨s₁.draft.size + 2⟩) ⟨s₁.draft.size + 1⟩ rfl)
    obtain ⟨alt, es₃, draft₃, h₅, told₃⟩ := h.stmt elseStmt third (h₄.alike same)
    refine ⟨.seq eval (.ifElse value body alt), _, ?_,
      (h₄.trans h₅).redraft ((Draft.Still.refl _).turn isOpen₃ _ _ rfl), ?_⟩
    · rw [Lowering.draft_redraft, draft₃, Lowering.draft_redraft, draft₂, draft]
      rfl
    · rw [List.append_assoc]
      exact (told₁.append (told₂.append told₃)).mono (Nat.le_succ fuel)

end Covers

/-! ## Switches -/

theorem Tests.labels_prepend (body : Nat) (tests : List (Code × Value × InstId)) (rest : Tests) :
    (Tests.prepend body tests rest).labels = (Tests.prepend body tests .done).labels ++
      rest.labels ∧ (Tests.prepend body tests rest).gotos =
        (Tests.prepend body tests .done).gotos ++ rest.gotos := by
  induction tests with
  | nil => exact ⟨rfl, rfl⟩
  | cons test more ih => simp [Tests.prepend, Tests.labels, Tests.gotos, ih]

namespace Covers

variable (h : Covers a fuel)

include h

/-- The values of one case. -/
theorem values {scrutinee : NodeId} {v : Value} (has : a.value? scrutinee = some v)
    (place : Nat → BlockId) (body : Nat) (exprs : ∀ x ∈ xs, a.Expresses x)
    (run : (xs.forM fun value => do
      Lower.emit fuel value
      Lower.test v (← Lower.valueOf value) (place body)) s = .ok ((), s'))
    (same : a.Alike s.arena) :
    ∃ tests es, s'.draft = (Tests.prepend body tests .done).lower place s.draft ∧
      Happens a s es s' ∧ Tells a fuel xs (xs.map (.test scrutinee)) es
        (Tests.prepend body tests .done).labels (Tests.prepend body tests .done).gotos := by
  induction xs generalizing s with
  | nil =>
    obtain ⟨_, rfl⟩ := Run.pure_ok run
    exact ⟨[], [], rfl, .nil, .alone []⟩
  | cons x rest ih =>
    obtain ⟨_, s₂, one, later⟩ := Run.bind_ok.1 run
    obtain ⟨_, s₁, first, one⟩ := Run.bind_ok.1 one
    obtain ⟨value, caseHas, one⟩ := Lower.valueOf_bind_ok one
    obtain ⟨eval, es, draft, h₁, told₁⟩ := h.expr (exprs x (by simp)) first same
    have h₂ := h₁.trans (.test has ((h₁.alike same).value? caseHas) one .nil)
    obtain ⟨tests, es', drafts, h₃, told₂⟩ := ih (fun y mem => exprs y (by simp [mem])) later
      (h₂.alike same)
    refine ⟨(eval, value, ⟨s₁.insts.slots.size⟩) :: tests, _, ?_, h₂.trans h₃, ?_⟩
    · have step : s₂.draft = (s₁.draft.add [⟨s₁.insts.slots.size⟩]).pass
          (.inst ⟨s₁.insts.slots.size⟩) (place body) := by
        rw [(Lower.test_eq_ok.1 one).2]
        rfl
      rw [drafts, step, draft]
      rfl
    · have told := (told₁.append (.alone [.test scrutinee x])).append told₂
      simpa [Tests.prepend, Tests.labels, Tests.gotos] using told

theorem testCases {scrutinee : NodeId} {v : Value} (has : a.value? scrutinee = some v)
    (place : Nat → BlockId) {counts : List Nat} {body : Nat}
    (exprs : ∀ x ∈ (kids.drop valueIndex).take (total counts), a.Expresses x)
    (run : Lower.testCases fuel kids v ((SwitchLayout.place counts valueIndex stmtIndex).zip
      ((List.range' body counts.length).map place)) s = .ok ((), s')) (same : a.Alike s.arena) :
    ∃ (tests : Tests) (es : List Event), s'.draft = tests.lower place s.draft ∧ Happens a s es s' ∧
      Tells a fuel ((kids.drop valueIndex).take (total counts))
        (((kids.drop valueIndex).take (total counts)).map (.test scrutinee)) es tests.labels
        tests.gotos := by
  induction counts generalizing body valueIndex stmtIndex s with
  | nil =>
    obtain ⟨_, rfl⟩ := Run.pure_ok run
    rw [total, List.take_zero]
    exact ⟨.done, [], rfl, .nil, .alone []⟩
  | cons count rest ih =>
    obtain ⟨_, s₁, one, later⟩ := Run.bind_ok.1 run
    obtain ⟨values, slice, one⟩ := Run.lift_bind_ok one
    obtain ⟨le, rfl⟩ := Lower.childrenFrom_eq_ok.1 slice
    rw [slice_values] at exprs ⊢
    obtain ⟨tests, es, draft, h₁, told₁⟩ := h.values has place body
      (fun x mem => exprs x (List.mem_append_left _ mem)) one same
    obtain ⟨more, es', draft₁, h₂, told₂⟩ := ih (fun x mem => exprs x (List.mem_append_right _ mem))
      later (h₁.alike same)
    refine ⟨.prepend body tests more, _, ?_, h₁.trans h₂, ?_⟩
    · rw [draft₁, draft, ← Tests.lower_prepend]
    · rw [(Tests.labels_prepend body tests more).1, (Tests.labels_prepend body tests more).2,
        List.map_append]
      exact told₁.append told₂

theorem walkCases {counts : List Nat} {base : Nat}
    (run : Lower.walkCases fuel kids (((SwitchLayout.place counts valueIndex stmtIndex).zip
      ((List.range' base counts.length).map BlockId.mk)).zip
      ((List.range' (base + 1) counts.length).map BlockId.mk)) s = .ok ((), s'))
    (same : a.Alike s.arena) :
    ∃ (bodies : Bodies) (es : List Event), bodies.length = counts.length ∧
      s'.draft.moveTo ⟨base + counts.length⟩ = bodies.lower base (s.draft.moveTo ⟨base⟩) ∧
      Happens a s es s' ∧
      Tells a fuel ((kids.drop stmtIndex).take counts.length) [] es bodies.labels bodies.gotos := by
  induction counts generalizing base valueIndex stmtIndex s with
  | nil =>
    obtain ⟨_, rfl⟩ := Run.pure_ok run
    rw [List.length_nil, List.take_zero]
    exact ⟨.nil, [], rfl, rfl, .nil, .alone []⟩
  | cons count rest ih =>
    obtain ⟨_, s₂, one, later⟩ := Run.bind_ok.1 run
    obtain ⟨-, one⟩ := Lower.moveTo_bind_ok.1 one
    obtain ⟨kid, child, one⟩ := Run.lift_bind_ok one
    obtain ⟨_, s₁, first, one⟩ := Run.bind_ok.1 one
    obtain ⟨isOpen, rfl⟩ := Lower.terminate_eq_ok.1 one
    rw [slice_bodies (Lower.childAt_eq_ok.1 child)]
    obtain ⟨body, es, draft, h₁, told₁⟩ := h.stmt kid first same
    have moved : Happens a s es s₁ := .still ((Draft.Still.refl _).moveTo _) h₁
    have h₂ := moved.redraft ((Draft.Still.refl _).close isOpen (.jump ⟨base + 1⟩) rfl)
    obtain ⟨more, es', length, drafts, h₃, told₂⟩ := ih later (h₂.alike same)
    refine ⟨.cons body more, _, ?_, ?_, h₂.trans h₃, told₁.append told₂⟩
    · rw [Bodies.length, length, List.length_cons]
    · rw [List.length_cons, Nat.add_comm rest.length, ← Nat.add_assoc, drafts,
        Lowering.draft_redraft, Draft.moveTo_close, draft]
      rfl

theorem walkSwitch (layout : SwitchLayout)
    (exprs : ∀ {i k}, i < layout.valueCount → kids[i]? = some k → a.Expresses k) :
    Lays a (fuel + 1) (layout.walked kids) ((layout.caseValues kids).map fun p => .test p.1 p.2)
      (Lower.walkSwitch (fuel + 1) kids layout.cases) := by
  intro s s' run same
  obtain ⟨scrutinee, value, s₁, s₂, s₃, child, first, has, tests, isOpen, bodies, rfl⟩ :=
    walkSwitch_ok run
  have head : kids.take 1 = [scrutinee] := by
    rw [List.take_one, List.head?_eq_getElem?, child]
    rfl
  rw [layout.valueCount_eq] at exprs
  obtain ⟨eval, es₁, draft, h₁, told₁⟩ := h.expr (exprs (by omega) child) first same
  have h₂ := h₁.redraft ((Draft.Still.refl s₁.draft).newSwitch layout.counts.length)
  rw [map_blocks] at tests
  obtain ⟨testCode, es₂, draftTests, h₃, told₂⟩ := h.testCases ((h₁.alike same).value? has) _
    (fun x mem => by
      obtain ⟨i, _, lt, at'⟩ := exists_getElem?_of_mem_slice mem
      exact exprs (by omega) at') tests (h₂.alike same)
  have h₄ := (h₂.trans h₃).redraft ((Draft.Still.refl _).close isOpen
    (.jump ⟨s₁.draft.size + (SwitchCase.lastDefault layout.cases).getD layout.counts.length⟩) rfl)
  obtain ⟨bodyCode, es₃, length, draftBodies, h₅, told₃⟩ := h.walkCases bodies (h₄.alike same)
  refine ⟨.seq eval (.switch value testCode (SwitchCase.lastDefault layout.cases) bodyCode), _, ?_,
    (h₄.trans h₅).redraft ((Draft.Still.refl _).moveTo _), ?_⟩
  · have target := SwitchCase.lastDefault_getD_le layout.cases
    rw [SwitchLayout.length_cases] at target
    have place : bodyCode.place s₁.draft.size
        = fun i => ⟨s₁.draft.size + min i layout.counts.length⟩ := by
      funext i
      rw [Bodies.place, length]
    rw [Lowering.draft_redraft, draftBodies, Lowering.draft_redraft, Draft.moveTo_close, draftTests,
      Lowering.draft_redraft]
    simp only [Code.lower, ← draft, place, length, Nat.min_eq_left target]
  · rw [SwitchLayout.walked, SwitchLayout.caseValues, head, List.append_assoc]
    have told := (told₁.append (told₂.append told₃)).mono (Nat.le_succ fuel)
    simpa [Function.comp_def, Code.labels, Code.gotos] using told

end Covers

/-- However deep it goes, the walk lays out code. -/
theorem covers (a : Arena) (fuel : Nat) : Covers a fuel := by
  induction fuel with
  | zero => exact .zero
  | succ fuel ih => exact ⟨ih.walk, ih.walkIf, ih.walkSwitch, ih.emit⟩

end

end Codegen
