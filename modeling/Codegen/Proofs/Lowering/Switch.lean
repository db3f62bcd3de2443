import Codegen.Proofs.Lowering.Walk

/-!
Lowering a switch lays out what the switch says: the tests of all cases, then the bodies, each in a
block that was set aside for it.
-/

namespace Codegen

section

variable {a : Arena} {s₀ : InstStore} {fuel stmtIndex valueIndex : Nat} {kids : List NodeId}
  {s s' : Lowering}

theorem slice_sublist (kids : List NodeId) (start count : Nat) :
    ((kids.drop start).take count).Sublist kids :=
  (List.take_sublist _ _).trans (List.drop_sublist _ _)

/-- The values of the first case, then those of the others. -/
theorem slice_values {count : Nat} {rest : List Nat} :
    (kids.drop valueIndex).take (total (count :: rest)) =
      (kids.drop valueIndex).take count ++ (kids.drop (valueIndex + count)).take (total rest) := by
  rw [total, List.take_add, List.drop_drop]

/-- The body of the first case, then those of the others. -/
theorem slice_bodies {kid : NodeId} {count : Nat} {rest : List Nat}
    (child : kids[stmtIndex]? = some kid) :
    (kids.drop stmtIndex).take (count :: rest).length =
      [kid] ++ (kids.drop (stmtIndex + 1)).take rest.length := by
  obtain ⟨lt, rfl⟩ := List.getElem?_eq_some_iff.1 child
  rw [List.drop_eq_getElem_cons lt, List.length_cons, List.take_succ_cons]
  rfl

theorem Tests.lower_prepend (place : Nat → BlockId) (body : Nat)
    (tests : List (Code × Value × InstId)) (rest : Tests) (d : Draft) :
    (Tests.prepend body tests rest).lower place d =
      rest.lower place ((Tests.prepend body tests .done).lower place d) := by
  induction tests generalizing d with
  | nil => rfl
  | cons test more ih => exact ih _

theorem Tests.placed_prepend (scrutinee : Value) (body : Nat)
    (tests : List (Code × Value × InstId)) (rest : Tests) :
    (Tests.prepend body tests rest).placed scrutinee =
      (Tests.prepend body tests .done).placed scrutinee ++ rest.placed scrutinee := by
  induction tests with
  | nil => rfl
  | cons test more ih => simp [Tests.prepend, Tests.placed, ih]

/-- A comparison adds one instruction to the store. -/
theorem Effect.test {scrutinee value : Value} {body : BlockId} {u : Unit}
    (h : Lower.test scrutinee value body s = .ok (u, s')) :
    Effect a [] [.compare ⟨s.insts.slots.size⟩ scrutinee value] s s' := by
  obtain ⟨-, rfl⟩ := Lower.test_eq_ok.1 h
  refine ⟨rfl, fun _ => rfl, fun _ => rfl, fun _ => rfl, s.insts.later_create _ _, fun p mem => ?_⟩
  cases List.mem_singleton.1 mem
  exact ⟨Nat.le_refl _, InstStore.find?_create s.insts _ _⟩

/-- The values of one case. -/
theorem exists_readTest_of_forM (h : Follows a s₀ fuel) (scrutinee : Value) (place : Nat → BlockId)
    (body : Nat) {xs : List NodeId} (trees : ∀ x ∈ xs, a.IsTree x) (apart : xs.Pairwise a.Apart)
    (run : (xs.forM fun value => do
      Lower.emit fuel value
      Lower.test scrutinee (← Lower.valueOf value) (place body)) s = .ok ((), s'))
    (f : Faithful a s₀ s) (u : ∀ x ∈ xs, Untouched a s x) :
    ∃ tests, xs.mapM (a.readTest (a.readExpr s₀ fuel)) s.insts.slots.size =
        some (tests, s'.insts.slots.size) ∧
      s'.draft = (Tests.prepend body tests .done).lower place s.draft ∧
      Effect a xs ((Tests.prepend body tests .done).placed scrutinee) s s' := by
  induction xs generalizing s with
  | nil =>
    obtain ⟨_, rfl⟩ := Run.pure_ok run
    exact ⟨[], rfl, rfl, .refl _⟩
  | cons x rest ih =>
    obtain ⟨_, s₂, one, later⟩ := Run.bind_ok.1 run
    obtain ⟨_, s₁, first, one⟩ := Run.bind_ok.1 one
    obtain ⟨value, has, one⟩ := Lower.valueOf_bind_ok one
    have ⟨apart₁, apart₂⟩ := List.pairwise_cons.1 apart
    obtain ⟨eval, read, draft, t₁⟩ := h.expr (trees x (by simp)) first f
      (List.forall_mem_singleton.2 (u x (by simp)))
    have has₀ := (t₁.faithful f).alike.value? has
    have t₂ := t₁.trans (Effect.test one)
    have u₂ : ∀ y ∈ rest, Untouched a s₂ y := fun y my =>
      t₂.untouched f (by simpa using apart₁ y my) (u y (by simp [my]))
    obtain ⟨tests, reads, drafts, t₃⟩ := ih (fun y my => trees y (by simp [my])) apart₂ later
      (t₂.faithful f) u₂
    refine ⟨(eval, value, ⟨s₁.insts.slots.size⟩) :: tests, ?_, ?_, ?_⟩
    · have size : s₂.insts.slots.size = s₁.insts.slots.size + 1 := by
        rw [(Lower.test_eq_ok.1 one).2]
        simp [InstStore.create]
      have one : a.readTest (a.readExpr s₀ fuel) x s.insts.slots.size =
          some ((eval, value, ⟨s₁.insts.slots.size⟩), s₂.insts.slots.size) := by
        rw [Arena.readTest, Reading.bind_eq read, Reading.lift_bind has₀, size]
        rfl
      rw [List.mapM_cons, Reading.bind_eq one, Reading.bind_eq reads]
      rfl
    · have step : s₂.draft = (s₁.draft.add [⟨s₁.insts.slots.size⟩]).pass
          (.inst ⟨s₁.insts.slots.size⟩) (place body) := by
        rw [(Lower.test_eq_ok.1 one).2]
        rfl
      rw [drafts, step, draft]
      rfl
    · have all := t₂.trans t₃
      simpa [Tests.prepend, Tests.placed] using all

/-- The loop over the values of all cases. -/
def Lower.testCases (fuel : Nat) (kids : List NodeId) (scrutinee : Value)
    (cases : List (SwitchCase × BlockId)) : Lower Unit :=
  cases.forM fun (case, body) => do
    let values ← childrenFrom kids case.valueIndex case.valueCount
    values.forM fun value => do
      emit fuel value
      test scrutinee (← valueOf value) body

/-- The loop over the bodies of all cases, each with the block that it leads to. -/
def Lower.walkCases (fuel : Nat) (kids : List NodeId)
    (cases : List ((SwitchCase × BlockId) × BlockId)) : Lower Unit :=
  cases.forM fun ((case, body), next) => do
    moveTo body
    walk fuel (← childAt kids case.stmtIndex)
    terminate (.jump next)

theorem exists_readTests_of_testCases (h : Follows a s₀ fuel) (scrutinee : Value)
    (place : Nat → BlockId) (trees : ∀ k ∈ kids, a.IsTree k) (apart : kids.Pairwise a.Apart)
    {counts : List Nat} {body : Nat}
    (run : Lower.testCases fuel kids scrutinee ((SwitchLayout.place counts valueIndex stmtIndex).zip
      ((List.range' body counts.length).map place)) s = .ok ((), s')) (f : Faithful a s₀ s)
    (u : ∀ x ∈ (kids.drop valueIndex).take (total counts), Untouched a s x) :
    ∃ tests, a.readTests (a.readExpr s₀ fuel) kids body
        (SwitchLayout.place counts valueIndex stmtIndex) s.insts.slots.size =
        some (tests, s'.insts.slots.size) ∧
      s'.draft = tests.lower place s.draft ∧
      Effect a ((kids.drop valueIndex).take (total counts)) (tests.placed scrutinee) s s' := by
  induction counts generalizing body valueIndex stmtIndex s with
  | nil =>
    obtain ⟨_, rfl⟩ := Run.pure_ok run
    exact ⟨.done, rfl, rfl, .weaken (.refl _) (by simp)⟩
  | cons count rest ih =>
    obtain ⟨_, s₁, one, later⟩ := Run.bind_ok.1 run
    obtain ⟨values, slice, one⟩ := Run.lift_bind_ok one
    obtain ⟨le, rfl⟩ := Lower.childrenFrom_eq_ok.1 slice
    have sub := slice_sublist kids valueIndex (total (count :: rest))
    rw [slice_values] at u sub ⊢
    have ⟨apart₁, _, across⟩ := List.pairwise_append.1 (apart.sublist sub)
    obtain ⟨tests, reads, draft, t₁⟩ := exists_readTest_of_forM h scrutinee place body
      (fun x mem => trees x (sub.mem (List.mem_append_left _ mem))) apart₁ one f
      (fun x mem => u x (List.mem_append_left _ mem))
    have u₁ := fun y my => t₁.untouched f (fun x mx => across x mx y my)
      (u y (List.mem_append_right _ my))
    obtain ⟨more, reads₁, draft₁, t₂⟩ := ih later (t₁.faithful f) u₁
    refine ⟨.prepend body tests more, ?_, ?_, ?_⟩
    · rw [SwitchLayout.place, Arena.readTests, if_pos le, Reading.bind_eq reads,
        Reading.bind_eq reads₁]
      rfl
    · rw [draft₁, draft, ← Tests.lower_prepend]
    · rw [Tests.placed_prepend]
      exact t₁.trans t₂

/-- The bodies of all cases. The cursor comes to each body's block, and past the last body to the
block after it. -/
theorem exists_readBodies_of_walkCases (h : Follows a s₀ fuel) (trees : ∀ k ∈ kids, a.IsTree k)
    (apart : kids.Pairwise a.Apart) {counts : List Nat} {base : Nat}
    (run : Lower.walkCases fuel kids (((SwitchLayout.place counts valueIndex stmtIndex).zip
      ((List.range' base counts.length).map BlockId.mk)).zip
      ((List.range' (base + 1) counts.length).map BlockId.mk)) s = .ok ((), s'))
    (f : Faithful a s₀ s) (u : ∀ x ∈ (kids.drop stmtIndex).take counts.length, Untouched a s x) :
    ∃ bodies, Arena.readBodies (a.readStmt s₀ fuel) kids
        (SwitchLayout.place counts valueIndex stmtIndex) s.insts.slots.size =
        some (bodies, s'.insts.slots.size) ∧ bodies.length = counts.length ∧
      s'.draft.moveTo ⟨base + counts.length⟩ = bodies.lower base (s.draft.moveTo ⟨base⟩) ∧
      Effect a ((kids.drop stmtIndex).take counts.length) bodies.placed s s' := by
  induction counts generalizing base valueIndex stmtIndex s with
  | nil =>
    obtain ⟨_, rfl⟩ := Run.pure_ok run
    exact ⟨.nil, rfl, rfl, rfl, .weaken (.refl _) (by simp)⟩
  | cons count rest ih =>
    obtain ⟨_, s₂, one, later⟩ := Run.bind_ok.1 run
    obtain ⟨-, one⟩ := Lower.moveTo_bind_ok.1 one
    obtain ⟨kid, child, one⟩ := Run.lift_bind_ok one
    obtain ⟨_, s₁, first, one⟩ := Run.bind_ok.1 one
    obtain ⟨_, rfl⟩ := Lower.terminate_eq_ok.1 one
    have sub := slice_sublist kids stmtIndex (count :: rest).length
    rw [slice_bodies (Lower.childAt_eq_ok.1 child)] at u sub ⊢
    have ⟨across, _⟩ := List.pairwise_cons.1 (apart.sublist sub)
    have t₀ := (Effect.refl (a := a) s).redraft (s.draft.moveTo ⟨base⟩)
    obtain ⟨body, read, draft, t₁⟩ := h.stmt (s := s.redraft (s.draft.moveTo ⟨base⟩))
      (trees kid (sub.mem (by simp))) first (t₀.faithful f)
      (List.forall_mem_singleton.2 (u kid (by simp)))
    have t₂ := (t₀.trans t₁).redraft (s₁.draft.close (.jump ⟨base + 1⟩))
    have u₂ : ∀ y ∈ (kids.drop (stmtIndex + 1)).take rest.length,
        Untouched a (s₁.redraft (s₁.draft.close (.jump ⟨base + 1⟩))) y := fun y my =>
      t₂.untouched f (List.forall_mem_singleton.2 (across y my)) (u y (by simp [my]))
    obtain ⟨more, reads, length, drafts, t₃⟩ := ih later (t₂.faithful f) u₂
    rw [Lowering.insts_redraft] at read reads
    refine ⟨.cons body more, ?_, ?_, ?_, t₂.trans t₃⟩
    · rw [SwitchLayout.place, Arena.readBodies, Reading.lift_bind (Lower.childAt_eq_ok.1 child),
        Reading.bind_eq read, Reading.bind_eq reads]
      rfl
    · rw [Bodies.length, length, List.length_cons]
    · rw [List.length_cons, Nat.add_comm rest.length, ← Nat.add_assoc, drafts,
        Lowering.draft_redraft, Draft.moveTo_close, draft]
      rfl

theorem SwitchCase.lastDefault_lt {cases : List SwitchCase} {i : Nat}
    (h : SwitchCase.lastDefault cases = some i) : i < cases.length := by
  induction cases generalizing i with
  | nil => simp [SwitchCase.lastDefault] at h
  | cons case rest ih =>
    unfold SwitchCase.lastDefault at h
    split at h
    · rename_i j e
      cases h
      exact Nat.succ_lt_succ (ih e)
    · split at h
      · cases h
        exact Nat.succ_pos _
      · cases h

theorem SwitchCase.lastDefault_getD_le (cases : List SwitchCase) :
    (SwitchCase.lastDefault cases).getD cases.length ≤ cases.length := by
  cases e : SwitchCase.lastDefault cases with
  | none => exact Nat.le_refl _
  | some i => exact Nat.le_of_lt (SwitchCase.lastDefault_lt e)

theorem SwitchLayout.length_cases (layout : SwitchLayout) :
    layout.cases.length = layout.counts.length :=
  SwitchLayout.length_place _ _ _

theorem SwitchLayout.map_valueCount (counts : List Nat) (v s : Nat) :
    (place counts v s).map (·.valueCount) = counts := by
  induction counts generalizing v s with
  | nil => rfl
  | cons count rest ih => rw [place, List.map_cons, ih]

/-- The value switched on and the values of all cases. -/
theorem SwitchLayout.valueCount_eq (layout : SwitchLayout) :
    layout.valueCount = 1 + total layout.counts := by
  rw [valueCount, cases, map_valueCount]

theorem SwitchLayout.childCount_eq (layout : SwitchLayout) :
    layout.childCount = 1 + total layout.counts + layout.counts.length := by
  rw [childCount, valueCount_eq, length_cases]

/-- The default body is in the block of the last case without values. -/
theorem defaultBody_zip (cases : List SwitchCase) (base : Nat) :
    Lower.defaultBody (cases.zip ((List.range' base cases.length).map BlockId.mk)) =
      (SwitchCase.lastDefault cases).map fun i => ⟨base + i⟩ := by
  induction cases generalizing base with
  | nil => rfl
  | cons case rest ih =>
    have ih := ih (base + 1)
    simp only [Lower.defaultBody, List.length_cons, List.range'_succ, List.map_cons,
      List.zip_cons_cons, List.reverse_cons, List.find?_append] at ih ⊢
    unfold SwitchCase.lastDefault
    cases e : SwitchCase.lastDefault rest with
    | some i =>
      rw [e] at ih
      obtain ⟨x, found, block⟩ := Option.map_eq_some_iff.1 ih
      simp only [found, Option.some_or, Option.map_some, block]
      rw [Nat.add_assoc, Nat.add_comm 1]
    | none =>
      rw [e] at ih
      simp only [Option.map_eq_none_iff.1 ih, Option.none_or]
      by_cases default : case.isDefault <;> simp [default]

/-- Each case goes on in the block after its own. -/
theorem zip_tail_blocks {α : Type} (xs : List α) (base : Nat) :
    xs.zip (((List.range' base xs.length).map BlockId.mk).tail ++ [⟨base + xs.length⟩]) =
      xs.zip ((List.range' (base + 1) xs.length).map BlockId.mk) := by
  cases xs with
  | nil => rfl
  | cons x rest =>
    rw [List.length_cons, List.range'_succ, List.range'_1_concat, List.map_append]
    simp [Nat.add_assoc, Nat.add_comm 1]

/-- Blocks in a row, by the position of the case. -/
theorem map_blocks (base n : Nat) :
    (List.range' base n).map BlockId.mk = (List.range' 0 n).map fun i => ⟨base + min i n⟩ := by
  apply List.ext_getElem
  · simp
  · intro i _ lt
    have : i < n := by simpa using lt
    simp [Nat.min_eq_left (Nat.le_of_lt this)]

theorem exists_getElem?_of_mem_slice {x : NodeId} {start count : Nat}
    (mem : x ∈ (kids.drop start).take count) :
    ∃ i, start ≤ i ∧ i < start + count ∧ kids[i]? = some x := by
  obtain ⟨i, lt, rfl⟩ := List.mem_iff_getElem.1 mem
  rw [List.length_take] at lt
  refine ⟨start + i, by omega, by omega, ?_⟩
  rw [List.getElem_take, List.getElem_drop]
  exact List.getElem?_eq_getElem _

/-- The steps of a switch after that of its value, with blocks by number. -/
theorem walkSwitch_eq {layout : SwitchLayout} {scrutinee : NodeId} {value : Value} {s₁ : Lowering}
    (child : kids[0]? = some scrutinee) (first : Lower.emit fuel scrutinee s = .ok ((), s₁))
    (has : s₁.arena.value? scrutinee = some value) :
    Lower.walkSwitch (fuel + 1) kids layout.cases s =
      (Lower.testCases fuel kids value (layout.cases.zip
        ((List.range' s₁.draft.size layout.counts.length).map BlockId.mk)) >>= fun _ =>
      Lower.terminate (.jump ⟨s₁.draft.size +
        (SwitchCase.lastDefault layout.cases).getD layout.counts.length⟩) >>= fun _ =>
      Lower.walkCases fuel kids ((layout.cases.zip
        ((List.range' s₁.draft.size layout.counts.length).map BlockId.mk)).zip
        ((List.range' (s₁.draft.size + 1) layout.counts.length).map BlockId.mk)) >>= fun _ =>
      Lower.moveTo ⟨s₁.draft.size + layout.counts.length⟩)
        (s₁.redraft (s₁.draft.newSwitch layout.counts.length)) := by
  have length := layout.length_cases
  have default := defaultBody_zip layout.cases s₁.draft.size
  have next := zip_tail_blocks (layout.cases.zip
    ((List.range' s₁.draft.size layout.counts.length).map BlockId.mk)) s₁.draft.size
  have target := Option.getD_map (fun i => (⟨s₁.draft.size + i⟩ : BlockId)) layout.counts.length
    (SwitchCase.lastDefault layout.cases)
  simp only [List.length_zip, List.length_map, List.length_range', length, Nat.min_self]
    at default next target
  rw [Lower.walkSwitch, Run.bind_of_ok (Run.lift_of_ok (Lower.childAt_eq_ok.2 child)),
    Run.bind_of_ok first,
    Run.bind_of_ok (Lower.valueOf_eq has), Run.get_bind, Run.set_bind, Lowering.with_nextSwitch,
    Run.bind_of_ok (Lower.caseBlocks_eq _ _)]
  simp only [Lower.newBlock_bind, Lowering.draft_redraft, Lowering.redraft_redraft,
    Draft.size_count, Draft.fresh_newCases, length, default, next, target]
  rfl

theorem walkSwitch_ok {layout : SwitchLayout}
    (run : Lower.walkSwitch (fuel + 1) kids layout.cases s = .ok ((), s')) :
    ∃ scrutinee value s₁ s₂ s₃, kids[0]? = some scrutinee ∧
      Lower.emit fuel scrutinee s = .ok ((), s₁) ∧ s₁.arena.value? scrutinee = some value ∧
      Lower.testCases fuel kids value (layout.cases.zip
        ((List.range' s₁.draft.size layout.counts.length).map BlockId.mk))
        (s₁.redraft (s₁.draft.newSwitch layout.counts.length)) = .ok ((), s₂) ∧
      s₂.draft.isOpen s₂.draft.cursor ∧
      Lower.walkCases fuel kids ((layout.cases.zip
        ((List.range' s₁.draft.size layout.counts.length).map BlockId.mk)).zip
        ((List.range' (s₁.draft.size + 1) layout.counts.length).map BlockId.mk))
        (s₂.redraft (s₂.draft.close (.jump ⟨s₁.draft.size +
          (SwitchCase.lastDefault layout.cases).getD layout.counts.length⟩))) = .ok ((), s₃) ∧
      s' = s₃.redraft (s₃.draft.moveTo ⟨s₁.draft.size + layout.counts.length⟩) := by
  have steps := run
  rw [Lower.walkSwitch] at steps
  obtain ⟨scrutinee, child, steps⟩ := Run.lift_bind_ok steps
  obtain ⟨_, s₁, first, steps⟩ := Run.bind_ok.1 steps
  obtain ⟨value, has, -⟩ := Lower.valueOf_bind_ok steps
  have child := Lower.childAt_eq_ok.1 child
  rw [walkSwitch_eq child first has] at run
  obtain ⟨_, s₂, tests, run⟩ := Run.bind_ok.1 run
  obtain ⟨isOpen, run⟩ := Lower.terminate_bind_ok.1 run
  obtain ⟨_, s₃, bodies, run⟩ := Run.bind_ok.1 run
  exact ⟨scrutinee, value, s₁, s₂, s₃, child, first, has, tests, isOpen, bodies,
    (Lower.moveTo_eq_ok.1 run).2⟩

/-- The children of a switch in the order in which they are walked. -/
theorem sublist_switch {scrutinee : NodeId} (child : kids[0]? = some scrutinee)
    (values cases : Nat) :
    (scrutinee :: ((kids.drop 1).take values ++ (kids.drop (1 + values)).take cases)).Sublist
      kids := by
  obtain ⟨lt, found⟩ := List.getElem?_eq_some_iff.1 child
  have parts : kids = scrutinee :: ((kids.drop 1).take values ++ kids.drop (1 + values)) := by
    rw [← List.drop_drop, List.take_append_drop, ← found]
    exact List.drop_eq_getElem_cons lt
  conv => rhs; rw [parts]
  exact ((List.take_sublist _ _).append_left _).cons_cons _

theorem Follows.walkSwitch (h : Follows a s₀ fuel) (layout : SwitchLayout)
    (trees : ∀ k ∈ kids, a.IsTree k) (apart : kids.Pairwise a.Apart) :
    Reads a s₀ kids (Lower.walkSwitch (fuel + 1) kids layout.cases)
      (a.readSwitch s₀ (fuel + 1) kids layout.cases) := by
  intro s s' run f u
  obtain ⟨scrutinee, value, s₁, s₂, s₃, child, first, has, tests, _, bodies, rfl⟩ :=
    walkSwitch_ok run
  have sub := sublist_switch child (total layout.counts) layout.counts.length
  have ⟨across, inner⟩ := List.pairwise_cons.1 (apart.sublist sub)
  have ⟨_, _, across'⟩ := List.pairwise_append.1 inner
  obtain ⟨eval, read, draft, t₁⟩ := h.expr (trees _ (sub.mem (by simp))) first f
    (List.forall_mem_singleton.2 (u _ (sub.mem (by simp))))
  have has₀ := (t₁.faithful f).alike.value? has
  have t₂ := t₁.redraft (s₁.draft.newSwitch layout.counts.length)
  rw [map_blocks] at tests
  obtain ⟨testCode, readTests, draftTests, t₃⟩ :=
    exists_readTests_of_testCases h value _ trees apart
    tests (t₂.faithful f) fun x mem => t₂.untouched f
      (List.forall_mem_singleton.2 (across x (List.mem_append_left _ mem)))
      (u x (sub.mem (List.mem_cons_of_mem _ (List.mem_append_left _ mem))))
  have t₄ := (t₂.trans t₃).redraft (s₂.draft.close (.jump ⟨s₁.draft.size +
    (SwitchCase.lastDefault layout.cases).getD layout.counts.length⟩))
  obtain ⟨bodyCode, readBodies, length, draftBodies, t₅⟩ := exists_readBodies_of_walkCases h trees
    apart bodies (t₄.faithful f) fun y mem => t₄.untouched f
      (fun x mx => by
        rcases List.mem_append.1 mx with mx | mx
        · cases List.mem_singleton.1 mx
          exact across y (List.mem_append_right _ mem)
        · exact across' x mx y mem)
      (u y (sub.mem (List.mem_cons_of_mem _ (List.mem_append_right _ mem))))
  have cases : layout.cases = SwitchLayout.place layout.counts 1 (1 + total layout.counts) := rfl
  rw [Lowering.insts_redraft, ← cases] at readTests readBodies
  refine ⟨.seq eval (.switch value testCode (SwitchCase.lastDefault layout.cases) bodyCode),
    ?_, ?_, ?_⟩
  · rw [Arena.readSwitch, Reading.lift_bind child, Reading.bind_eq read, Reading.lift_bind has₀,
      Reading.bind_eq readTests, Reading.bind_eq readBodies]
    rfl
  · have target := SwitchCase.lastDefault_getD_le layout.cases
    rw [SwitchLayout.length_cases] at target
    have place : bodyCode.place s₁.draft.size
        = fun i => ⟨s₁.draft.size + min i layout.counts.length⟩ := by
      funext i
      rw [Bodies.place, length]
    rw [Lowering.draft_redraft, draftBodies, Lowering.draft_redraft, Draft.moveTo_close, draftTests,
      Lowering.draft_redraft]
    simp only [Code.lower, ← draft, place, length, Nat.min_eq_left target]
  · have all := (t₄.trans t₅).redraft
      (s₃.draft.moveTo ⟨s₁.draft.size + layout.counts.length⟩)
    simp only [Code.placed, ← List.append_assoc]
    exact all.weaken fun x mem => sub.mem (by simpa using mem)

end

end Codegen
