import Codegen.Proofs.Lowering.Effect

/-!
Lowering a tree lays out what the tree says. The walk empties nodes as it goes, so that it agrees
with a reading of the tree as it was only if it comes to each node once.
-/

namespace Codegen

/-! ## Reading along -/

namespace Reading

variable {α β : Type} {n m : Nat}

theorem bind_eq {x : Reading α} {v : α} (h : x n = some (v, m)) (f : α → Reading β) :
    (x >>= f) n = f v m := by
  simp [bind, StateT.bind, h]

theorem lift_bind {o : Option α} {v : α} (h : o = some v) (f : α → Reading β) :
    ((liftM o : Reading α) >>= f) n = f v n := by
  subst h
  rfl

end Reading

section

variable {a : Arena} {s₀ : InstStore} {s s' : Lowering}

/-- A walk below nodes `xs` lays out what a reading finds there. -/
def Reads (a : Arena) (s₀ : InstStore) (xs : List NodeId) (walk : Lower Unit)
    (read : Reading Code) : Prop :=
  ∀ {s s'}, walk s = .ok ((), s') → Faithful a s₀ s → (∀ x ∈ xs, Untouched a s x) →
    ∃ code, read s.insts.slots.size = some (code, s'.insts.slots.size) ∧
      s'.draft = code.lower s.draft ∧ Effect a xs code.placed s s'

/-- One node after the other. -/
theorem exists_mapM_of_forM {walk : NodeId → Lower Unit} {read : NodeId → Reading Code}
    {xs : List NodeId} (each : ∀ x ∈ xs, Reads a s₀ [x] (walk x) (read x))
    (apart : xs.Pairwise a.Apart) (h : xs.forM walk s = .ok ((), s')) (f : Faithful a s₀ s)
    (u : ∀ x ∈ xs, Untouched a s x) :
    ∃ codes, xs.mapM read s.insts.slots.size = some (codes, s'.insts.slots.size) ∧
      s'.draft = (Code.all codes).lower s.draft ∧ Effect a xs (Code.all codes).placed s s' := by
  induction xs generalizing s with
  | nil =>
    obtain ⟨_, rfl⟩ := Run.pure_ok h
    exact ⟨[], rfl, rfl, .refl _⟩
  | cons x rest ih =>
    obtain ⟨s₁, e, later⟩ := Run.forM_cons_ok h
    have ⟨apart₁, apart₂⟩ := List.pairwise_cons.1 apart
    obtain ⟨code, e₁, d₁, t₁⟩ := each x (by simp) e f (by simpa using u x (by simp))
    have u₁ : ∀ y ∈ rest, Untouched a s₁ y := fun y my =>
      t₁.untouched f (by simpa using apart₁ y my) (u y (by simp [my]))
    obtain ⟨codes, e₂, d₂, t₂⟩ := ih (fun y my => each y (by simp [my])) apart₂ later
      (t₁.faithful f) u₁
    refine ⟨code :: codes, ?_, by rw [d₂, d₁]; rfl, t₁.trans t₂⟩
    rw [List.mapM_cons, Reading.bind_eq e₁, Reading.bind_eq e₂]
    rfl

/-! ## Instructions -/

theorem InstStore.read_of_ret {s : InstStore} {id : InstId} {inst : Inst} {v : Option Value}
    (found : s.find? id = some inst) (ret : inst.kind = .ret v) : s.read id = .leave v := by
  cases inst
  cases ret
  simp only [read, found]

theorem InstStore.read_of_not_ret {s : InstStore} {id : InstId} {inst : Inst}
    (found : s.find? id = some inst) (no : ∀ v, inst.kind ≠ .ret v) : s.read id = .inst id := by
  unfold read
  split
  · rename_i v ty e
    cases found.symm.trans e
    exact absurd rfl (no v)
  · rfl

/-- A node is emptied before its instructions are placed. -/
theorem Lower.placeInsts_ok {id : NodeId} (h : Lower.placeInsts id s = .ok ((), s')) :
    ∃ node, s.arena.find? id = some node ∧ node.insts.forM Lower.place
      { s with arena := s.arena.set id { node with insts := [] } } = .ok ((), s') := by
  rw [Lower.placeInsts, Run.get_bind] at h
  obtain ⟨⟨insts, arena⟩, e, h⟩ := Run.lift_bind_ok h
  obtain ⟨node, got, e⟩ := bind_eq_ok.1 e
  cases e
  exact ⟨node, Arena.get_eq_ok.1 got, h⟩

/-- Instructions are laid out as they were read. -/
theorem forM_place_ok {insts : List InstId} (h : insts.forM Lower.place s = .ok ((), s'))
    (later : s₀.Later s.insts) :
    s'.draft = (Code.all (insts.map s₀.read)).lower s.draft ∧
      s'.insts.slots.size = s.insts.slots.size ∧ s.insts.Later s'.insts ∧ s'.arena = s.arena ∧
      s'.func = s.func ∧
      ∀ p ∈ (Code.all (insts.map s₀.read)).placed, p.Made s.insts s'.insts := by
  induction insts generalizing s with
  | nil =>
    obtain ⟨_, rfl⟩ := Run.pure_ok h
    exact ⟨rfl, rfl, .refl _, rfl, rfl, by simp [Code.all, Code.placed]⟩
  | cons id rest ih =>
    obtain ⟨s₁, e, h'⟩ := Run.forM_cons_ok h
    obtain ⟨-, inst, found, ⟨v, ret, rfl⟩ | ⟨no, rfl⟩⟩ := Lower.place_eq_ok.1 e
    · have step := InstStore.later_free found ret
      obtain ⟨d, size, later', arena, func, made⟩ := ih h' (later.trans step)
      rw [List.map_cons, later.read_eq found, InstStore.read_of_ret found ret]
      exact ⟨d, by simpa using size, step.trans later', arena, func, fun p mem =>
        (made p mem).earlier step.size_le⟩
    · obtain ⟨d, size, later', arena, func, made⟩ := ih h' later
      rw [List.map_cons, later.read_eq found, InstStore.read_of_not_ret found no]
      refine ⟨d, size, later', arena, func, fun p mem => ?_⟩
      rcases List.mem_cons.1 mem with rfl | mem
      · have own : (Placed.own id).Made s.insts s.insts := ⟨inst, found, no⟩
        exact own.later later'
      · exact made p mem

theorem InstStore.labels_read (s : InstStore) (id : InstId) :
    (s.read id).labels = [] ∧ (s.read id).gotos = [] := by
  unfold read
  split <;> exact ⟨rfl, rfl⟩

theorem Code.labels_all_read (s : InstStore) (insts : List InstId) :
    (Code.all (insts.map s.read)).labels = [] := by
  induction insts with
  | nil => rfl
  | cons id rest ih => simp [Code.all, Code.labels, s.labels_read id, ih]

theorem Code.gotos_all_read (s : InstStore) (insts : List InstId) :
    (Code.all (insts.map s.read)).gotos = [] := by
  induction insts with
  | nil => rfl
  | cons id rest ih => simp [Code.all, Code.gotos, s.labels_read id, ih]

/-! ## The walk -/

/-- Within a number of steps down, every part of the walk lays out what is read. -/
structure Follows (a : Arena) (s₀ : InstStore) (fuel : Nat) : Prop where
  stmt : ∀ {id}, a.IsTree id → Reads a s₀ [id] (Lower.walk fuel id) (a.readStmt s₀ fuel id)
  choice : ∀ {kids cond thenStmt elseStmt}, kids = [cond, thenStmt, elseStmt] →
    (∀ k ∈ kids, a.IsTree k) → kids.Pairwise a.Apart →
    Reads a s₀ kids (Lower.walkIf fuel cond thenStmt elseStmt)
      (a.readIf s₀ fuel cond thenStmt elseStmt)
  switch : ∀ {kids} (layout : SwitchLayout), (∀ k ∈ kids, a.IsTree k) → kids.Pairwise a.Apart →
    Reads a s₀ kids (Lower.walkSwitch fuel kids layout.cases)
    (a.readSwitch s₀ fuel kids layout.cases)
  expr : ∀ {id}, a.IsTree id → Reads a s₀ [id] (Lower.emit fuel id) (a.readExpr s₀ fuel id)

theorem follows_zero : Follows a s₀ 0 where
  stmt _ _ _ h := by cases h
  choice _ _ _ _ _ h := by cases h
  switch _ _ _ _ _ h := by cases h
  expr _ _ _ h := by cases h

/-- A child of an expression, which may be a statement. -/
theorem Follows.child {fuel : Nat} (h : Follows a s₀ fuel) {id : NodeId} (t : a.IsTree id) :
    Reads a s₀ [id]
      (do if (← Lower.node id).isStmt then Lower.walk fuel id else Lower.emit fuel id)
      (do
        let child ← a.find? id
        if child.isStmt then a.readStmt s₀ fuel id else a.readExpr s₀ fuel id) := by
  intro s s' run f u
  obtain ⟨node, found, run⟩ := Lower.node_bind_ok run
  obtain ⟨node₀, find, kind, _⟩ := f.alike.find found
  have same : node₀.isStmt = node.isStmt := by rw [Node.isStmt, Node.isStmt, kind]
  rw [Reading.lift_bind find, same]
  split at run
  · rename_i stmt
    rw [if_pos stmt]
    exact h.stmt t run f u
  · rename_i expr
    rw [if_neg expr]
    exact h.expr t run f u

section

variable {fuel : Nat} {id : NodeId} {node : Node} {s s' : Lowering} (bare : a.SentinelsBare)

include bare

/-- Below an untouched node, children are untouched. -/
theorem Untouched.kid {k : NodeId} (f : Faithful a s₀ s) (u : Untouched a s id)
    (find : a.find? id = some node) (mem : k ∈ node.kids) : Untouched a s k := by
  intro n below
  by_cases sk : k.isSentinel
  · have e := bare.eq_of_below sk below
    exact f.sentinels (e ▸ sk)
  · exact u n (.head ((Arena.mem_kidsOf find).2 ⟨mem, sk⟩) below)

theorem Effect.of_kids {ps : List Placed} (find : a.find? id = some node)
    (h : Effect a node.kids ps s s') : Effect a [id] ps s s' := by
  refine h.mono bare fun x mem => ?_
  by_cases sx : x.isSentinel
  · exact .inl sx
  · exact .inr ⟨id, by simp, .single ((Arena.mem_kidsOf find).2 ⟨mem, sx⟩)⟩

theorem placeInsts_ok (h : Lower.placeInsts id s = .ok ((), s')) (f : Faithful a s₀ s)
    (find : a.find? id = some node) (found : s.arena.find? id = some node) :
    s'.draft = (Code.all (node.insts.map s₀.read)).lower s.draft ∧
      s'.insts.slots.size = s.insts.slots.size ∧
      Effect a [id] (Code.all (node.insts.map s₀.read)).placed s s' := by
  obtain ⟨node', found', h⟩ := Lower.placeInsts_ok h
  cases found.symm.trans found'
  obtain ⟨draft, size, later, arena, func, made⟩ := forM_place_ok h f.store
  have live := Arena.isLive_of_find? found
  refine ⟨draft, size, func, fun {n} out => ?_, fun n => ?_, fun {n} sentinel => ?_, later, made⟩
  · have ne : n ≠ id := fun e => out id (by simp) (e ▸ .refl)
    rw [arena]
    exact Arena.find?_set_of_ne ne
  · rw [arena]
    by_cases e : n = id
    · subst e
      simp only [Arena.find?_set live, found]
      rfl
    · simp only [Arena.find?_set_of_ne e]
  · rw [arena]
    by_cases e : n = id
    · subst e
      have none := (bare n node sentinel find).2
      simp only [Arena.find?_set live, found, ← none]
    · exact Arena.find?_set_of_ne e

theorem Follows.emit (h : Follows a s₀ fuel) (t : a.IsTree id) :
    Reads a s₀ [id] (Lower.emit (fuel + 1) id) (a.readExpr s₀ (fuel + 1) id) := by
  intro s s' run f u
  rw [Lower.emit] at run
  obtain ⟨node, found, run⟩ := Lower.node_bind_ok run
  have ui := u id (by simp)
  have find : a.find? id = some node := (ui id .refl).symm.trans found
  obtain ⟨_, s₁, first, own⟩ := Run.bind_ok.1 run
  obtain ⟨codes, read, draft, t₁⟩ := exists_mapM_of_forM
    (fun k mem => h.child (t.kid bare find mem)) (t.apart .refl find) first f
    (fun k mem => ui.kid bare f find mem)
  have found₁ : s₁.arena.find? id = some node := by
    rw [t₁.frame fun k mem => t.not_below .refl find mem, found]
  obtain ⟨draft', size, t₂⟩ := placeInsts_ok bare own (t₁.faithful f) find found₁
  refine ⟨.seq (.all codes) (.all (node.insts.map s₀.read)), ?_, ?_, ?_⟩
  · rw [Arena.readExpr, Reading.lift_bind find, Reading.bind_eq read, size]
    rfl
  · rw [draft', draft]
    rfl
  · exact ((t₁.of_kids bare find).trans t₂).mono bare fun x mem => .inr ⟨id, by simp, by
      have : x = id := by simpa using mem
      exact this ▸ .refl⟩

theorem Follows.walk (h : Follows a s₀ fuel) (t : a.IsTree id) :
    Reads a s₀ [id] (Lower.walk (fuel + 1) id) (a.readStmt s₀ (fuel + 1) id) := by
  intro s s' run f u
  obtain ⟨node, found, walks⟩ := Lower.walk_ok run
  have ui := u id (by simp)
  have find : a.find? id = some node := (ui id .refl).symm.trans found
  have trees := fun k mem => t.kid bare (k := k) find mem
  have untouched := fun k mem => ui.kid bare (k := k) f find mem
  have apart := t.apart .refl find
  rw [Arena.readStmt, Reading.lift_bind find]
  cases walks with
  | block kind run =>
    simp only [kind]
    obtain ⟨codes, read, draft, t₁⟩ := exists_mapM_of_forM (fun k mem => h.stmt (trees k mem)) apart
      run f untouched
    exact ⟨.all codes, by rw [Reading.bind_eq read]; rfl, draft, t₁.of_kids bare find⟩
  | @expr _ kid kind child run =>
    simp only [kind]
    have mem := List.mem_of_getElem? child
    obtain ⟨code, read, draft, t₁⟩ :=
      h.expr (trees kid mem) run f (by simpa using untouched kid mem)
    exact ⟨code, by rw [Reading.lift_bind child, read], draft,
      (t₁.weaken (by simpa using mem)).of_kids bare find⟩
  | choice kind kids run =>
    simp only [kind, kids]
    obtain ⟨code, read, draft, t₁⟩ := h.choice kids trees apart run f untouched
    exact ⟨code, read, draft, t₁.of_kids bare find⟩
  | @label owner l kind =>
    simp only [kind]
    exact ⟨.label l, rfl, rfl, .weaken (.redraft (.refl s) _) (by simp)⟩
  | @goto owner l kind =>
    simp only [kind]
    exact ⟨.goto l, rfl, rfl, .weaken (.redraft (.refl s) _) (by simp)⟩
  | switch layout kind run =>
    simp only [kind]
    obtain ⟨code, read, draft, t₁⟩ := h.switch layout trees apart run f untouched
    exact ⟨code, read, draft, t₁.of_kids bare find⟩
  | nothing kind =>
    rcases kind with kind | kind <;> simp only [kind] <;>
      exact ⟨.skip, rfl, rfl, .weaken (.refl _) (by simp)⟩

omit bare in
theorem Follows.walkIf (h : Follows a s₀ fuel) {cond thenStmt elseStmt : NodeId}
    (trees : ∀ k ∈ [cond, thenStmt, elseStmt], a.IsTree k)
    (apart : [cond, thenStmt, elseStmt].Pairwise a.Apart) :
    Reads a s₀ [cond, thenStmt, elseStmt] (Lower.walkIf (fuel + 1) cond thenStmt elseStmt)
      (a.readIf s₀ (fuel + 1) cond thenStmt elseStmt) := by
  intro s s' run f u
  simp only [List.pairwise_cons, List.mem_cons, List.not_mem_nil, or_false, forall_eq_or_imp,
    forall_eq] at apart trees u
  obtain ⟨value, elseNode, s₁, first, has, found, chooses⟩ := Lower.walkIf_eq_ok.1 run
  obtain ⟨eval, read, draft, t₁⟩ := h.expr trees.1 first f (by simpa using u.1)
  have f₁ := t₁.faithful f
  obtain ⟨elseNode₀, find, kind, _⟩ := f₁.alike.find found
  have has₀ := f₁.alike.value? has
  rw [Arena.readIf, Reading.bind_eq read, Reading.lift_bind has₀, Reading.lift_bind find]
  cases chooses with
  | @ifThen s₂ empty _ second =>
    have t₂ := t₁.redraft (s₁.draft.fork value)
    have u₂ := t₂.untouched f (by simpa using apart.1.1) u.2.1
    obtain ⟨body, read₂, draft₂, t₃⟩ := h.stmt trees.2.1 second (t₂.faithful f)
      (List.forall_mem_singleton.2 u₂)
    rw [Lowering.insts_redraft] at read₂
    refine ⟨.seq eval (.ifThen value body), ?_, ?_, ?_⟩
    · rw [Reading.bind_eq read₂, if_pos (kind.trans empty)]
      rfl
    · rw [Lowering.draft_redraft, draft₂, draft]
      rfl
    · exact ((t₂.trans t₃).redraft _).weaken (by simp)
  | @ifElse s₂ s₃ full _ second _ third =>
    have t₂ := t₁.redraft (s₁.draft.forkElse value)
    have u₂ := t₂.untouched f (by simpa using apart.1.1) u.2.1
    obtain ⟨body, read₂, draft₂, t₃⟩ := h.stmt trees.2.1 second (t₂.faithful f)
      (List.forall_mem_singleton.2 u₂)
    have t₄ := (t₂.trans t₃).redraft
      (s₂.draft.turn (.jump ⟨s₁.draft.size + 2⟩) ⟨s₁.draft.size + 1⟩)
    have u₄ := t₄.untouched f (by simpa using ⟨apart.1.2, apart.2.1⟩) u.2.2
    obtain ⟨alt, read₃, draft₃, t₅⟩ := h.stmt trees.2.2 third (t₄.faithful f)
      (List.forall_mem_singleton.2 u₄)
    rw [Lowering.insts_redraft] at read₂ read₃
    refine ⟨.seq eval (.ifElse value body alt), ?_, ?_, ?_⟩
    · rw [Reading.bind_eq read₂, if_neg fun e => full (kind.symm.trans e), Reading.bind_eq read₃]
      rfl
    · rw [Lowering.draft_redraft, draft₃, Lowering.draft_redraft, draft₂, draft]
      rfl
    · rw [Code.placed, Code.placed, ← List.append_assoc]
      exact ((t₄.trans t₅).redraft _).weaken (by simp)

end

end

end Codegen
