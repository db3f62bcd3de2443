import Codegen.Proofs.Compilation.Bodies

/-!
Lowering loses and duplicates no instruction. What the nodes of a tree owned is found in the body,
apart from returns, which are freed and close blocks; and each case value has one comparison.
-/

namespace Codegen

/-- The value that an instruction returns, if it is a return. -/
def InstStore.returned? (s : InstStore) (id : InstId) : Option (Option Value) :=
  (s.find? id).bind fun inst =>
    match inst.kind with
    | .ret value => some value
    | _ => none

namespace InstStore

variable {s s₁ s₂ : InstStore} {id : InstId} {inst : Inst}

theorem returned?_of_ret {v : Option Value} (found : s.find? id = some inst)
    (ret : inst.kind = .ret v) : s.returned? id = some v := by
  simp [returned?, found, ret]

theorem returned?_of_not_ret (found : s.find? id = some inst) (no : ∀ v, inst.kind ≠ .ret v) :
    s.returned? id = none := by
  rw [returned?, found, Option.bind_some]
  split
  · rename_i v e
    exact absurd e (no v)
  · rfl

/-- What an instruction returned at first is what it returns as long as it is there. -/
theorem Later.returned?_eq (h : s.Later s₁) (found : s₁.find? id = some inst) :
    s.returned? id = s₁.returned? id := by
  cases e : s.find? id with
  | some inst₀ =>
    rcases h.kept e with e₁ | ⟨none, _⟩
    · rw [returned?, returned?, e, e₁]
    · simp [none] at found
  | none =>
    rcases h.old found with e₁ | ⟨_, x, y, rfl⟩
    · simp [e] at e₁
    · simp [returned?, e, found]

/-- What was freed stays free. -/
theorem Later.dead (h : s.Later s₁) (lt : id.index < s.slots.size) (gone : s.find? id = none) :
    s₁.find? id = none := by
  cases e : s₁.find? id with
  | none => rfl
  | some inst =>
    rcases h.old e with e₁ | ⟨le, _⟩
    · simp [gone] at e₁
    · omega

end InstStore

namespace Arena

/-- The instructions of all nodes. -/
def attached (a : Arena) : List InstId :=
  ((List.range a.size).map NodeId.mk).flatMap a.instsOf

/-- What is left when some nodes are emptied. -/
theorem perm_attached {a : Arena} (a' : Arena) (nodes : List NodeId) (nodup : nodes.Nodup)
    (bound : ∀ n ∈ nodes, n.index < a.size) (size : a'.size = a.size)
    (empty : ∀ n ∈ nodes, a'.instsOf n = []) (same : ∀ n, n ∉ nodes → a'.instsOf n = a.instsOf n) :
    a.attached.Perm (nodes.flatMap a.instsOf ++ a'.attached) := by
  let all := (List.range a.size).map NodeId.mk
  have distinct : all.Nodup := List.nodup_range.map fun _ _ e => congrArg NodeId.index e
  have split : all.Perm (nodes ++ all.filter (· ∉ nodes)) := by
    rw [List.perm_ext_iff_of_nodup distinct]
    · intro n
      have mem : n ∈ all ↔ n.index < a.size := by
        constructor
        · intro mem
          obtain ⟨i, lt, rfl⟩ := List.mem_map.1 mem
          exact List.mem_range.1 lt
        · exact fun lt => List.mem_map.2 ⟨n.index, List.mem_range.2 lt, rfl⟩
      by_cases here : n ∈ nodes
      · simp [here, mem, bound n here]
      · simp [here]
    · refine List.nodup_append.2 ⟨nodup, distinct.filter _, fun n here m other e => ?_⟩
      subst e
      simp [here] at other
  have left : (all.filter (· ∉ nodes)).flatMap a'.instsOf = (all.filter (· ∉ nodes)).flatMap
    a.instsOf :=
    List.flatMap_congr fun n mem => same n (by simpa using (List.mem_filter.1 mem).2)
  have none : nodes.flatMap a'.instsOf = [] := List.flatMap_eq_nil_iff.2 empty
  have before := split.flatMap_right a.instsOf
  have after := split.flatMap_right a'.instsOf
  rw [List.flatMap_append, none, left, List.nil_append] at after
  rw [List.flatMap_append] at before
  rw [attached, attached, size]
  exact before.trans (after.symm.append_left _)

end Arena

/-! ## What is moved -/

/-- What lowering has done on its way from one state to another: it has taken instructions `ids` off
nodes and has made instructions `fresh`. Which of them are returns is seen in a store `s₀` from
before. -/
structure Moved (s₀ : InstStore) (ids fresh : List InstId) (s s' : Lowering) : Prop where
  later : s.insts.Later s'.insts
  insts : s'.draft.insts.Perm
    (s.draft.insts ++ (ids.filter (fun i => (s₀.returned? i).isNone) ++ fresh))
  returns : s'.draft.returns.Perm (s.draft.returns ++ ids.filterMap s₀.returned?)
  freed : ∀ i ∈ ids, (s₀.returned? i).isSome → s'.insts.find? i = none
  kept : ∀ {i inst}, s.insts.find? i = some inst → i ∉ ids ∨ s₀.returned? i = none →
    s'.insts.find? i = some inst
  size : s'.insts.slots.size = s.insts.slots.size + fresh.length
  numbers : fresh = (List.range' s.insts.slots.size fresh.length).map InstId.mk

namespace Moved

variable {s₀ : InstStore} {ids ids' fresh fresh' : List InstId} {s s₁ s₂ : Lowering}

theorem still {d : Draft} (h : s.draft.Still d) : Moved s₀ [] [] s (s.redraft d) where
  later := .refl _
  insts := by simp [h.insts]
  returns := by simpa using h.returns
  freed _ mem := by simp at mem
  kept find _ := find
  size := rfl
  numbers := rfl

theorem trans (old : s₀.Later s.insts) (h : Moved s₀ ids fresh s s₁)
    (h' : Moved s₀ ids' fresh' s₁ s₂) : Moved s₀ (ids ++ ids') (fresh ++ fresh') s s₂ where
  later := h.later.trans h'.later
  insts := by
    have all := h'.insts.trans (h.insts.append_right _)
    refine all.trans ?_
    rw [List.filter_append, List.append_assoc, List.append_assoc, List.append_assoc]
    refine List.Perm.append_left _ (List.Perm.append_left _ ?_)
    rw [← List.append_assoc, ← List.append_assoc]
    exact List.perm_append_comm.append_right _
  returns := by
    rw [List.filterMap_append, ← List.append_assoc]
    exact h'.returns.trans (h.returns.append_right _)
  freed i mem ret := by
    rcases List.mem_append.1 mem with mem | mem
    · obtain ⟨v, e⟩ := Option.isSome_iff_exists.1 ret
      obtain ⟨inst, found, _⟩ := Option.bind_eq_some_iff.1 e
      have lt := InstStore.lt_of_find? found
      have le := old.size_le
      have more := h.later.size_le
      exact h'.later.dead (by omega) (h.freed i mem ret)
    · exact h'.freed i mem ret
  kept find free := by
    refine h'.kept (h.kept find ?_) ?_
    · exact free.imp_left fun out mem => out (List.mem_append_left _ mem)
    · exact free.imp_left fun out mem => out (List.mem_append_right _ mem)
  size := by
    rw [h'.size, h.size, List.length_append]
    omega
  numbers := by
    have second := h'.numbers
    rw [h.size] at second
    rw [List.length_append, ← List.range'_append_1, List.map_append, ← h.numbers, ← second]

end Moved

theorem Draft.insts_finish (d : Draft) (void : Bool) : (d.builder.finish void).insts = d.insts := by
  have same : (d.builder.finish void).blocks.toList.map (·.insts) =
      d.builder.blocks.toList.map (·.insts) := by
    apply List.ext_getElem
    · simp [Builder.finish]
    · intro i _ _
      simp [Builder.finish]
  simp only [Body.insts, Draft.insts, List.flatMap_def, same]

/-- A change of one element by which something is added to what is collected. -/
theorem flatMap_modify_perm {α β : Type} {g : α → List β} {f : α → α} {ys : List β}
    (grows : ∀ x, g (f x) = g x ++ ys) {l : List α} {i : Nat} (lt : i < l.length) :
    ((l.modify i f).flatMap g).Perm (l.flatMap g ++ ys) := by
  induction l generalizing i with
  | nil => simp at lt
  | cons x rest ih =>
    cases i with
    | zero =>
      simp only [List.modify_zero_cons, List.flatMap_cons, grows, List.append_assoc]
      exact List.perm_append_comm.append_left _
    | succ i =>
      simp only [List.modify_succ_cons, List.flatMap_cons, List.append_assoc]
      exact (ih (by simpa using lt)).append_left _

theorem Draft.insts_add {d : Draft} (lt : d.cursor.index < d.size) (ids : List InstId) :
    (d.add ids).insts.Perm (d.insts ++ ids) := by
  simp only [insts, add, Array.toList_modify]
  exact flatMap_modify_perm (fun _ => rfl) lt

theorem filterMap_modify_eq {α β : Type} {g : α → Option β} {f : α → α} (same : ∀ x, g (f x) = g x)
    (l : List α) (i : Nat) : (l.modify i f).filterMap g = l.filterMap g := by
  induction l generalizing i with
  | nil => simp
  | cons x rest ih =>
    cases i with
    | zero => simp [List.filterMap_cons, same]
    | succ i => simp [List.filterMap_cons, ih]

theorem Draft.returns_add (d : Draft) (ids : List InstId) : (d.add ids).returns = d.returns := by
  simp only [returns, add, Array.toList_modify]
  refine filterMap_modify_eq ?_ _ _
  exact fun _ => rfl

theorem Draft.returns_drop {d : Draft} (isOpen : d.isOpen d.cursor) (exit : Terminator) :
    (d.drop exit).returns.Perm (d.returns ++ exit.returned?.toList) := by
  have still := ((Still.refl d).newBlock s!"orphan.{d.counts.orphans}").count fun c =>
    { c with orphans := c.orphans + 1 }
  have closed := returns_close (d := (d.newBlock s!"orphan.{d.counts.orphans}").count fun c =>
    { c with orphans := c.orphans + 1 }) (isOpen_newBlock isOpen _) exit
  exact closed.trans (still.returns.append_right _)

theorem Draft.insts_drop (d : Draft) (exit : Terminator) : (d.drop exit).insts = d.insts := by
  have still := ((Still.refl d).newBlock s!"orphan.{d.counts.orphans}").count fun c =>
    { c with orphans := c.orphans + 1 }
  exact (insts_close _ exit).trans still.insts

variable {s s' : Lowering} {s₀ : InstStore}

/-- A single instruction goes to the cursor. -/
theorem moved_place {i : InstId} (run : Lower.place i s = .ok ((), s')) (old : s₀.Later s.insts) :
    Moved s₀ [i] [] s s' := by
  obtain ⟨isOpen, inst, found, ⟨v, ret, rfl⟩ | ⟨no, rfl⟩⟩ := Lower.place_eq_ok.1 run
  · have returned : s₀.returned? i = some v := by
      rw [old.returned?_eq found, InstStore.returned?_of_ret found ret]
    refine ⟨InstStore.later_free found ret, ?_, ?_, fun j mem _ => ?_,
      fun {j inst'} find free => ?_, ?_, rfl⟩
    · have none : [i].filter (fun i => (s₀.returned? i).isNone) = [] := by simp [returned]
      rw [none, List.append_nil, List.append_nil]
      exact .of_eq (s.draft.insts_drop (.ret v))
    · have own : [i].filterMap s₀.returned? = [v] := by simp [returned]
      rw [own]
      exact Draft.returns_drop isOpen (.ret v)
    · cases List.mem_singleton.1 mem
      exact InstStore.find?_free _ _
    · have ne : j ≠ i := by
        rintro rfl
        simp [returned] at free
      simpa [InstStore.find?_free_of_ne ne] using find
    · simp
  · have returned : s₀.returned? i = none := by
      rw [old.returned?_eq found, InstStore.returned?_of_not_ret found no]
    refine ⟨.refl _, ?_, ?_, fun j mem ret => ?_, fun find _ => find, rfl, rfl⟩
    · simpa [returned] using Draft.insts_add (Draft.lt_of_isOpen isOpen) [i]
    · simp [returned, Draft.returns_add]
    · cases List.mem_singleton.1 mem
      simp [returned] at ret

theorem moved_forM_place {ids : List InstId} (run : ids.forM Lower.place s = .ok ((), s'))
    (old : s₀.Later s.insts) : Moved s₀ ids [] s s' := by
  induction ids generalizing s with
  | nil =>
    obtain ⟨_, rfl⟩ := Run.pure_ok run
    exact .still (.refl _)
  | cons i rest ih =>
    obtain ⟨s₁, first, later⟩ := Run.forM_cons_ok run
    have one := moved_place first old
    exact one.trans old (ih later (old.trans one.later))

theorem moved_test {x y : Value} {body : BlockId} (run : Lower.test x y body s = .ok ((), s')) :
    Moved s₀ [] [⟨s.insts.slots.size⟩] s s' := by
  obtain ⟨isOpen, rfl⟩ := Lower.test_eq_ok.1 run
  let id : InstId := ⟨s.insts.slots.size⟩
  have still := (Draft.Still.refl (s.draft.add [id])).pass
    ((s.draft.isOpen_add [id] _).trans isOpen) (.inst id) body
  refine ⟨s.insts.later_create x y, ?_, ?_,
    fun _ mem => by simp at mem, fun {i inst} find _ => ?_, ?_, rfl⟩
  · exact (List.Perm.of_eq still.insts).trans (Draft.insts_add (Draft.lt_of_isOpen isOpen) [id])
  · rw [List.filterMap_nil, List.append_nil]
    exact still.returns.trans (.of_eq (s.draft.returns_add [id]))
  · have old := InstStore.lt_of_find? find
    rw [InstStore.find?_create_of_ne fun e => by simp [e, InstStore.create] at old]
    exact find
  · simp [InstStore.create]

/-! ## Conservation along events -/

/-- The nodes whose values are compared. -/
def Event.tested? : Event → Option (NodeId × NodeId)
  | .test x y => some (x, y)
  | .take _ => none

/-- What events do: the taken instructions were owned by nodes, and each comparison has its test. -/
structure Conserved (a : Arena) (s₀ : InstStore) (es : List Event) (ids : List InstId)
    (tests : List (InstId × NodeId × NodeId)) (s s' : Lowering) : Prop where
  moved : Moved s₀ ids (tests.map (·.1)) s s'
  attached : s.arena.attached.Perm (ids ++ s'.arena.attached)
  tested : tests.map (·.2) = es.filterMap Event.tested?
  compares : ∀ t ∈ tests, ∃ v w, a.value? t.2.1 = some v ∧ a.value? t.2.2 = some w ∧
    s'.insts.find? t.1 = some ⟨.compare .eqEq v w, .bool⟩
  emptied : ∀ n, .take n ∈ es → s'.arena.instsOf n = []

namespace Conserved

variable {a : Arena} {s₀ : InstStore} {es es' : List Event} {ids ids' : List InstId}
  {tests tests' : List (InstId × NodeId × NodeId)} {s s₁ s₂ : Lowering}

theorem still {d : Draft} (h : s.draft.Still d) : Conserved a s₀ [] [] [] s (s.redraft d) where
  moved := .still h
  attached := .refl _
  tested := rfl
  compares _ mem := by simp at mem
  emptied _ mem := by simp at mem

theorem trans (old : s₀.Later s.insts) (h : Conserved a s₀ es ids tests s s₁)
    (h' : Conserved a s₀ es' ids' tests' s₁ s₂) (later : Touches es' s₁ s₂) :
    Conserved a s₀ (es ++ es') (ids ++ ids') (tests ++ tests') s s₂ where
  moved := by
    rw [List.map_append]
    exact h.moved.trans old h'.moved
  attached := by
    rw [List.append_assoc]
    exact h.attached.trans (h'.attached.append_left _)
  tested := by rw [List.map_append, List.filterMap_append, h.tested, h'.tested]
  compares t mem := by
    rcases List.mem_append.1 mem with mem | mem
    · obtain ⟨v, w, left, right, found⟩ := h.compares t mem
      have free : s₀.returned? t.1 = none := by
        rw [(old.trans h.moved.later).returned?_eq found]
        exact InstStore.returned?_of_not_ret found (by simp)
      exact ⟨v, w, left, right, h'.moved.kept found (.inr free)⟩
    · exact h'.compares t mem
  emptied n mem := by
    rcases List.mem_append.1 mem with mem | mem
    · have none := h.emptied n mem
      rcases later.nodes n with e | ⟨e, _⟩
      · rw [Arena.instsOf, e]
        exact none
      · rw [Arena.instsOf, e]
        cases s₁.arena.find? n <;> rfl
    · exact h'.emptied n mem

theorem take {id : NodeId} (run : Lower.placeInsts id s = .ok ((), s₁)) (old : s₀.Later s.insts) :
    ∃ ids, Conserved a s₀ [.take id] ids [] s s₁ := by
  obtain ⟨node, found, run⟩ := Lower.placeInsts_ok run
  have live := Arena.isLive_of_find? found
  obtain ⟨_, _, _, arena, _⟩ := forM_place_ok run (.refl s.insts)
  have moved := moved_forM_place run old
  have mine : s.arena.instsOf id = node.insts := by simp [Arena.instsOf, found]
  have empty : s₁.arena.instsOf id = [] := by simp [Arena.instsOf, arena, Arena.find?_set live]
  refine ⟨node.insts, ⟨moved.1, moved.2, moved.3, moved.4, moved.5, moved.6, moved.7⟩, ?_, rfl,
    by simp, fun n mem => ?_⟩
  · have perm := Arena.perm_attached s₁.arena [id] (by simp)
      (by simpa using Arena.lt_of_find? found) (by simp [arena]) (by simpa using empty)
      fun n out => by rw [arena, Arena.instsOf, Arena.find?_set_of_ne (by simpa using out)]; rfl
    simpa [mine] using perm
  · have same : n = id := by simpa using mem
    rw [same, empty]

theorem test (s₀ : InstStore) {x y : NodeId} {v w : Value} {body : BlockId}
    (left : a.value? x = some v)
    (right : a.value? y = some w) (run : Lower.test v w body s = .ok ((), s₁)) :
    Conserved a s₀ [.test x y] [] [(⟨s.insts.slots.size⟩, x, y)] s s₁ where
  moved := moved_test run
  attached := by
    obtain ⟨-, rfl⟩ := Lower.test_eq_ok.1 run
    exact .refl _
  tested := rfl
  compares t mem := by
    cases List.mem_singleton.1 mem
    obtain ⟨-, rfl⟩ := Lower.test_eq_ok.1 run
    exact ⟨v, w, left, right, InstStore.find?_create s.insts _ _⟩
  emptied _ mem := by simp at mem

end Conserved

/-- Every event conserves instructions, and so do all of them. -/
theorem Happens.exists_conserved {a : Arena} {es : List Event} (h : Happens a s es s')
    (old : s₀.Later s.insts) : ∃ ids tests, Conserved a s₀ es ids tests s s' := by
  induction h with
  | nil => exact ⟨[], [], .still (.refl _)⟩
  | still same more ih =>
    obtain ⟨ids, tests, rest⟩ := ih old
    exact ⟨ids, tests, .trans old (.still same) rest more.touches⟩
  | take run more ih =>
    obtain ⟨own, one⟩ := Conserved.take run old
    obtain ⟨ids, tests, rest⟩ := ih (old.trans one.moved.later)
    exact ⟨own ++ ids, tests, one.trans old rest more.touches⟩
  | test left right run more ih =>
    have one := Conserved.test s₀ left right run
    obtain ⟨ids, tests, rest⟩ := ih (old.trans one.moved.later)
    exact ⟨ids, _ :: tests, one.trans old rest more.touches⟩

/-! ## Trees -/

/-- The case values of a node, each with the node switched on. -/
def Arena.caseValuesAt (a : Arena) (id : NodeId) : List (NodeId × NodeId) :=
  (a.find? id).elim [] (·.caseValues)

section

variable {a : Arena} {n : NodeId}

theorem Arena.tested_eventsAt (a : Arena) (n : NodeId) :
    (a.eventsAt n).filterMap Event.tested? = a.caseValuesAt n := by
  rw [eventsAt, caseValuesAt]
  cases a.find? n with
  | none => rfl
  | some node =>
    rw [Option.elim_some, Option.elim_some, Node.events]
    split
    · rw [List.filterMap_map]
      exact List.filterMap_some
    · rename_i expr
      rw [Node.caseValues]
      split
      · rename_i switch
        simp [Node.isStmt, switch, NodeKind.isStmt] at expr
      · rfl

theorem Arena.take_mem_eventsAt {m : NodeId} : .take m ∈ a.eventsAt n ↔
    n = m ∧ ∃ node, a.find? n = some node ∧ ¬node.isStmt := by
  rw [eventsAt]
  cases a.find? n with
  | none => simp
  | some node =>
    rw [Option.elim_some, Node.events]
    by_cases stmt : node.isStmt
    · simp [stmt]
    · simp [stmt, eq_comm (a := m)]

theorem Arena.WellFormed.caseValuesAt_sentinel (shaped : a.WellFormed) (s : n.isSentinel) :
    a.caseValuesAt n = [] := by
  rw [caseValuesAt]
  cases find : a.find? n with
  | none => rfl
  | some node =>
    rw [Option.elim_some, Node.caseValues]
    split
    · simp [SwitchLayout.caseValues, shaped.kids_of_sentinel s find]
    · rfl

end

namespace Conserved

variable {func : FuncId} {a : Arena} {insts : InstStore} {root n : NodeId} {entry : List InstId}
  {void : Bool} {body : Body} {s s' : Lowering} {code : Code} {es : List Event} {ids : List InstId}
  {tests : List (InstId × NodeId × NodeId)} {nodes : List NodeId}
  (h : Conserved a insts es ids tests s s')
  (lowered : Lowered func a insts root entry void body s' code es)
  (shaped : a.WellFormed) (spread : a.Spread root nodes)

include h lowered shaped spread

/-- Every node of the tree has its case values tested. -/
theorem perm_cases : (tests.map (·.2)).Perm (nodes.flatMap a.caseValuesAt) := by
  have deep : Arena.rank nodes root < 8 * (a.size + 1) := by have := spread.rank_le; omega
  rw [h.tested]
  refine ((lowered.perm shaped).filterMap _).trans ?_
  rw [Arena.events, List.filterMap_flatMap]
  simp only [Arena.tested_eventsAt]
  exact spread.perm_unfold shaped (fun _ => shaped.caseValuesAt_sentinel) deep

/-- Every node of the tree is emptied: statements own nothing from the start. -/
theorem instsOf_eq_nil (mem : n ∈ nodes) : s'.arena.instsOf n = [] := by
  have deep : Arena.rank nodes root < 8 * (a.size + 1) := by have := spread.rank_le; omega
  obtain ⟨node, find⟩ := Option.isSome_iff_exists.1 (spread.live n mem)
  by_cases stmt : node.isStmt
  · have none := (shaped.nodes find).insts stmt
    rcases lowered.touches.nodes n with e | ⟨e, _⟩
    · simp [Arena.instsOf, e, Lowering.start, find, none]
    · simp [Arena.instsOf, e, Lowering.start, find, Node.bare]
  · refine h.emptied n ((lowered.perm shaped).mem_iff.2 (List.mem_flatMap.2 ⟨n, ?_, ?_⟩))
    · exact spread.mem_unfold shaped .refl deep (spread.mem_iff.1 mem)
    · exact Arena.take_mem_eventsAt.2 ⟨rfl, node, find, stmt⟩

omit h in
/-- No other node is emptied, as sentinels have nothing to lose. -/
theorem instsOf_eq (bare : a.SentinelsBare) (out : n ∉ nodes) :
    s'.arena.instsOf n = a.instsOf n := by
  rcases lowered.touches.nodes n with e | ⟨e, taken⟩
  · rw [Arena.instsOf, e]
    rfl
  obtain ⟨m, mem, own⟩ := List.mem_flatMap.1 ((lowered.perm shaped).mem_iff.1 taken)
  obtain ⟨rfl, node, find, _⟩ := Arena.take_mem_eventsAt.1 own
  rcases shaped.below_of_reaches (Arena.reaches_of_mem_unfold mem) with s | below
  · simp [Arena.instsOf, e, Lowering.start, find, (bare m node s find).2, Node.bare]
  · exact absurd (spread.mem_iff.2 below) out

/-- What was taken is what the nodes of the tree owned. -/
theorem perm_taken (bare : a.SentinelsBare) (same : s.arena = a) :
    ids.Perm (nodes.flatMap a.instsOf) := by
  have bound : ∀ n ∈ nodes, n.index < a.size := fun n mem => by
    obtain ⟨node, find⟩ := Option.isSome_iff_exists.1 (spread.live n mem)
    exact Arena.lt_of_find? find
  have rest := Arena.perm_attached _ nodes spread.nodup_nodes bound lowered.touches.size
    (fun n => h.instsOf_eq_nil lowered shaped spread)
    fun n => instsOf_eq lowered shaped spread bare
  have taken := h.attached
  rw [same] at taken
  exact (List.perm_append_right_iff _).1 (taken.symm.trans rest)

end Conserved

/-- What lowering a tree does with instructions. The nodes of the tree are `nodes`; the comparisons
that are made are `tests`, each with the nodes whose values it compares. -/
structure KeepsInsts (func : FuncId) (a : Arena) (insts : InstStore) (root : NodeId)
    (entry : List InstId) (void : Bool) (body : Body) (a' : Arena) (insts' : InstStore)
    (nodes : List NodeId) (tests : List (InstId × NodeId × NodeId)) : Prop where
  nodup : nodes.Nodup
  tree : ∀ n, n ∈ nodes ↔ a.Below root n
  /-- The body holds what opens it, what nodes owned without the returns, and the comparisons. -/
  perm : body.insts.Perm (entry ++
    ((nodes.flatMap a.instsOf).filter (fun i => (insts.returned? i).isNone) ++ tests.map (·.1)))
  count : ∀ i ∈ nodes.flatMap a.instsOf,
    body.insts.count i = if (insts.returned? i).isSome then 0 else 1
  /-- There is one comparison for each case value. -/
  cases : (tests.map (·.2)).Perm (nodes.flatMap a.caseValuesAt)
  fresh : tests.map (·.1) = (List.range' insts.slots.size tests.length).map InstId.mk
  compares : ∀ t ∈ tests, ∃ v w, a.value? t.2.1 = some v ∧ a.value? t.2.2 = some w ∧
    insts'.find? t.1 = some ⟨.compare .eqEq v w, .bool⟩
  size : insts'.slots.size = insts.slots.size + tests.length
  freed : ∀ i ∈ nodes.flatMap a.instsOf, (insts.returned? i).isSome → insts'.find? i = none
  kept : ∀ i, i.index < insts.slots.size →
    ¬(i ∈ nodes.flatMap a.instsOf ∧ (insts.returned? i).isSome) → insts'.find? i = insts.find? i
  /-- Before the last block is closed, the blocks that return are those of the returns. -/
  returns : ∃ s, Lower.tree entry (8 * (a.size + 1)) root (.start func a insts) = .ok ((), s) ∧
    body = s.builder.finish void ∧
    s.draft.returns.Perm ((nodes.flatMap a.instsOf).filterMap insts.returned?)
  emptied : ∀ n ∈ nodes, a'.instsOf n = []

section

variable {func : FuncId} {a a' : Arena} {insts insts' : InstStore} {root : NodeId}
  {entry : List InstId} {void : Bool} {body : Body}

/-- A body holds what opens it, what was taken without the returns, and the comparisons. -/
theorem Conserved.perm_insts {es : List Event} {ids : List InstId}
    {tests : List (InstId × NodeId × NodeId)}
    {s : Lowering} {taken : List InstId} (h : Conserved a insts es ids tests
      ((Lowering.start func a insts).redraft (Draft.start.add entry)) s)
    (perm : ids.Perm taken) (void : Bool) : (s.builder.finish void).insts.Perm
      (entry ++ (taken.filter (fun i => (insts.returned? i).isNone) ++ tests.map (·.1))) := by
  refine (List.Perm.of_eq (s.draft.insts_finish void)).trans (h.moved.insts.trans ?_)
  refine List.Perm.append ?_ ((perm.filter _).append_right _)
  exact (Draft.insts_add (by decide) entry).trans (.of_eq rfl)

theorem exists_keepsInsts (shaped : a.WellFormed) (tree : a.sharing root = .ok [])
    (bare : a.SentinelsBare)
    (live : ∀ n, a.Below root n → ∀ i ∈ a.instsOf n, (insts.find? i).isSome)
    (disjoint : ∀ n, a.Below root n → ∀ i ∈ a.instsOf n, i ∉ entry)
    (lowered : lowerBody func a insts root entry void = .ok (body, a', insts')) :
    ∃ nodes tests, KeepsInsts func a insts root entry void body a' insts' nodes tests := by
  obtain ⟨s, code, es, walked, rfl, rfl⟩ := exists_lowered lowered
  obtain ⟨ids, tests, h⟩ := walked.happens.exists_conserved (.refl insts)
  obtain ⟨nodes, spread⟩ := Arena.exists_spread_of_sharing tree
  have taken := h.perm_taken walked shaped spread bare rfl
  have moved := h.moved
  have owned : ∀ i ∈ nodes.flatMap a.instsOf, ∃ n, a.Below root n ∧ i ∈ a.instsOf n :=
      fun i mem => by
    obtain ⟨n, inside, own⟩ := List.mem_flatMap.1 mem
    exact ⟨n, spread.mem_iff.1 inside, own⟩
  have perm := h.perm_insts taken void
  rw [← walked.body_eq] at perm
  refine ⟨nodes, tests, spread.nodup_nodes, fun n => spread.mem_iff, perm, fun i mem => ?_,
    h.perm_cases walked shaped spread, ?_, h.compares, ?_, fun i mem => ?_, fun i lt free => ?_,
    ⟨s, walked.run, walked.body_eq, ?_⟩, fun n => h.instsOf_eq_nil walked shaped spread⟩
  · obtain ⟨n, below, own⟩ := owned i mem
    obtain ⟨inst, found⟩ := Option.isSome_iff_exists.1 (live n below i own)
    have lt := InstStore.lt_of_find? found
    have new : i ∉ tests.map (·.1) := fun new => by
      rw [moved.numbers] at new
      obtain ⟨j, range, rfl⟩ := List.mem_map.1 new
      have := (List.mem_range'_1.1 range).1
      simp at lt
      exact absurd lt (Nat.not_lt.2 this)
    rw [perm.count_eq, List.count_append, List.count_append,
      List.count_eq_zero.2 (disjoint n below i own), List.count_eq_zero.2 new]
    split
    · rename_i ret
      rw [List.count_eq_zero.2]
      simp [List.mem_filter, Option.isSome_iff_ne_none.1 ret]
    · rename_i other
      rw [List.count_filter (by simpa using other), List.count_eq_one_of_mem spread.insts_nodup mem]
  · simpa [Lowering.start] using moved.numbers
  · simpa [Lowering.start] using moved.size
  · exact moved.freed i (taken.mem_iff.2 mem)
  · cases found : insts.find? i with
    | none => exact moved.later.dead lt found
    | some inst =>
      refine moved.kept found ?_
      rw [taken.mem_iff, ← Option.not_isSome_iff_eq_none]
      exact Classical.not_and_iff_not_or_not.1 free
  · refine moved.returns.trans ((List.Perm.of_eq ?_).trans (taken.filterMap _))
    have none : (Draft.start.add entry).returns = [] := Draft.start.returns_add entry
    exact congrArg (· ++ ids.filterMap insts.returned?) none

/-- Lowering loses and duplicates no instruction, and it is the tree that is destroyed when a
function gets its body. Arenas are well formed however they are built (`Arena.Built.wellFormed`). -/
theorem conserved_of_tree (shaped : a.WellFormed) (tree : a.sharing root = .ok [])
    (bare : a.SentinelsBare) :
    (∀ {func insts entry void body a' insts'},
      (∀ n, a.Below root n → ∀ i ∈ a.instsOf n, (insts.find? i).isSome) →
      (∀ n, a.Below root n → ∀ i ∈ a.instsOf n, i ∉ entry) →
      lowerBody func a insts root entry void = .ok (body, a', insts') →
      ∃ nodes tests, KeepsInsts func a insts root entry void body a' insts' nodes tests) ∧
    ∀ {func c c'}, c.arena = a → Build.setBody func root c = .ok (true, c') →
      ∀ n, c'.arena.isLive n ↔ a.isLive n ∧ ¬(a.Below root n ∧ ¬n.isSentinel) := by
  refine ⟨exists_keepsInsts shaped tree bare, fun {func c c'} same run n => ?_⟩
  subst same
  obtain ⟨no, _⟩ | ⟨_, f, f', entry, insts, void, body, a', insts', defines⟩ := Build.setBody_ok run
  · cases no
  exact defines.isLive_iff shaped n

end

/-- A switch on the value of a call. Its one case returns. -/
def caseArena : Arena :=
  ⟨Arena.initial.nodes ++ #[
    some { Node.fresh .call [] .bool .synthetic with
      value := some (.inst ⟨0⟩), flags := ⟨false, true⟩, insts := [⟨0⟩] },
    some { Node.fresh .const [] .bool .synthetic with
      value := some (.const (.bool true)), flags := ⟨false, true⟩ },
    some { Node.fresh .ret [] .void .synthetic with
      value := some (.inst ⟨1⟩), flags := ⟨false, true⟩, insts := [⟨1⟩] },
    some (Node.fresh .exprStmt [⟨4⟩] .void .synthetic),
    some (Node.fresh (.switchStmt ⟨[1]⟩) [⟨2⟩, ⟨3⟩, ⟨5⟩] .void .synthetic)]⟩

def caseInsts : InstStore := ⟨#[some ⟨.call (.func ⟨1⟩) [], .bool⟩, some ⟨.ret none, .void⟩], 2⟩

theorem built_caseArena : caseArena.Built := by
  let call : Node := { Node.fresh .call [] .bool .synthetic with
    value := some (.inst ⟨0⟩), flags := ⟨false, true⟩, insts := [⟨0⟩] }
  let leave : Node := { Node.fresh .ret [] .void .synthetic with
    value := some (.inst ⟨1⟩), flags := ⟨false, true⟩, insts := [⟨1⟩] }
  let a₁ := (Arena.initial.makeLeaf .call .bool (.inst ⟨0⟩) ⟨false, true⟩ .synthetic).2
  let a₂ := a₁.set ⟨2⟩ call
  let a₃ := (a₂.makeLeaf .const .bool (.const (.bool true)) ⟨false, true⟩ .synthetic).2
  let a₄ := (a₃.makeLeaf .ret .void (.inst ⟨1⟩) ⟨false, true⟩ .synthetic).2
  let a₅ := a₄.set ⟨4⟩ leave
  let a₆ := (a₅.add (.fresh .exprStmt [⟨4⟩] .void .synthetic)).2
  have calls : a₁.appendInst ⟨2⟩ ⟨0⟩ = .ok a₂ := rfl
  have leaves : a₄.appendInst ⟨4⟩ ⟨1⟩ = .ok a₅ := rfl
  have stmt : a₅.make .exprStmt [⟨4⟩] .void .synthetic = .ok (⟨5⟩, a₆) := rfl
  have switch : a₆.makeSwitch ⟨[1]⟩ [⟨2⟩, ⟨3⟩, ⟨5⟩] .synthetic = .ok (⟨6⟩, caseArena) := rfl
  have built₁ := (Arena.Built.initial.edit .makeLeaf).edit (.appendInst calls)
  have built₂ := ((built₁.edit .makeLeaf).edit .makeLeaf).edit (.appendInst leaves)
  exact (built₂.edit (.make (by simp) stmt)).edit (.makeSwitch switch)

/-- A function without a body yet, and the switch. -/
def caseCompilation : Compilation :=
  let c := Compilation.initial default
  { c with
    arena := caseArena
    insts := caseInsts
    functions := c.functions.push (.declare ⟨1⟩ .empty .empty .error ⟨0⟩ false .synthetic) }

theorem conserved_of_tree_case :
    ∃ body a' insts' nodes tests c',
      lowerBody ⟨1⟩ caseArena caseInsts ⟨6⟩ [] true = .ok (body, a', insts') ∧
      KeepsInsts ⟨1⟩ caseArena caseInsts ⟨6⟩ [] true body a' insts' nodes tests ∧
      Build.setBody ⟨1⟩ ⟨6⟩ caseCompilation = .ok (true, c') ∧
      ∀ n, c'.arena.isLive n ↔
        caseArena.isLive n ∧ ¬(caseArena.Below ⟨6⟩ n ∧ ¬n.isSentinel) := by
  have isOk : (lowerBody ⟨1⟩ caseArena caseInsts ⟨6⟩ [] true).isOk := by decide +kernel
  have done : (Build.setBody ⟨1⟩ ⟨6⟩ caseCompilation).map (·.1) = .ok true := by decide +kernel
  have bare : caseArena.SentinelsBare :=
    Arena.sentinelsBare_of_find rfl rfl ⟨rfl, rfl⟩ ⟨rfl, rfl⟩
  have live : ∀ n, caseArena.Below ⟨6⟩ n → ∀ i ∈ caseArena.instsOf n,
      (caseInsts.find? i).isSome := by
    intro n below
    have mem := (Arena.reaches_of_below below).mem [⟨6⟩, ⟨2⟩, ⟨3⟩, ⟨5⟩, ⟨4⟩] (by decide) (by decide)
    clear below
    decide +revert
  have tree : caseArena.sharing ⟨6⟩ = .ok [] := rfl
  obtain ⟨keeps, destroys⟩ := conserved_of_tree built_caseArena.wellFormed tree bare
  cases lowered : lowerBody ⟨1⟩ caseArena caseInsts ⟨6⟩ [] true with
  | error fault => simp [lowered, Except.isOk, Except.toBool] at isOk
  | ok out =>
    cases defined : Build.setBody ⟨1⟩ ⟨6⟩ caseCompilation with
    | error fault => simp [defined, Except.map] at done
    | ok result =>
      obtain ⟨made, c'⟩ := result
      obtain rfl : made = true := by simpa [defined, Except.map] using done
      obtain ⟨nodes, tests, kept⟩ := keeps live (by simp) lowered
      exact ⟨_, _, _, nodes, tests, c', rfl, kept, rfl, destroys rfl defined⟩

end Codegen
