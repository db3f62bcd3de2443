import Codegen.Proofs.Lowering.Graph
import Codegen.Proofs.Lowering.Lays
import Codegen.Proofs.Lowering.Open

/-!
Lowered bodies are graphs without loose ends. Names are unique, nothing leads to the entry or to an
orphan, and blocks are left open in two cases only: where the walk ends, and for a label that is
jumped to and never placed.
-/

namespace Codegen

section

variable {func : FuncId} {a a' : Arena} {insts insts' : InstStore} {root : NodeId}
  {entry : List InstId} {void : Bool} {body : Body}

/-- A state before anything is laid out. -/
def Lowering.start (func : FuncId) (a : Arena) (insts : InstStore) : Lowering :=
  ⟨func, a, insts, .initial, [], 0, 0, 0, 0, 0⟩

/-- Lowers a tree after the entry instructions. -/
def Lower.tree (entry : List InstId) (fuel : Nat) (root : NodeId) : Lower Unit := do
  append entry
  walk fuel root

/-- What a lowered body is, whatever its tree looks like. -/
structure Lowered (func : FuncId) (a : Arena) (insts : InstStore) (root : NodeId)
    (entry : List InstId) (void : Bool) (body : Body) (s : Lowering) (code : Code)
    (es : List Event) : Prop where
  run : Lower.tree entry (8 * (a.size + 1)) root (.start func a insts) = .ok ((), s)
  body_eq : body = s.builder.finish void
  draft : s.draft = code.lower (Draft.start.add entry)
  happens : Happens a ((Lowering.start func a insts).redraft (Draft.start.add entry)) es s
  tells : Tells a (8 * (a.size + 1)) [root] [] es code.labels code.gotos

theorem exists_lowered (lowered : lowerBody func a insts root entry void = .ok (body, a', insts')) :
    ∃ s code es, Lowered func a insts root entry void body s code es ∧ a' = s.arena ∧
      insts' = s.insts := by
  obtain ⟨⟨_, s⟩, run, e⟩ := bind_eq_ok.1 lowered
  cases e
  obtain ⟨_, s₁, first, later⟩ := Run.bind_ok.1 run
  obtain ⟨-, rfl⟩ := Lower.append_eq_ok.1 first
  obtain ⟨code, es, draft, happens, tells⟩ := (covers a _).stmt root later fun _ => rfl
  exact ⟨s, code, es, ⟨run, rfl, draft, happens, tells⟩, rfl, rfl⟩

namespace Lowered

variable {s : Lowering} {code : Code} {es : List Event}
  (h : Lowered func a insts root entry void body s code es)

include h

theorem touches : Touches es (.start func a insts) s :=
  ⟨h.happens.touches.1, h.happens.touches.2, h.happens.touches.3, h.happens.touches.4⟩

theorem perm (shaped : a.WellFormed) : es.Perm (a.events (8 * (a.size + 1)) root) := by
  simpa using ((h.tells shaped).2 _ (Nat.le_refl _)).1

end Lowered

end

/-! ## Finished graphs -/

namespace Draft

variable {d : Draft} {roles : List BlockRole} {void : Bool}

theorem name_of_finish {i : Nat} {block : BasicBlock}
    (e : (d.builder.finish void).blocks[i]? = some block) : block.id = ⟨i⟩ ∧
      ∃ old, d.block? ⟨i⟩ = some old ∧ block.name = old.name ∧
        block.terminator = old.terminator.getD (if void then .ret none else .unreachable) := by
  simp only [Builder.finish, Array.getElem?_mapIdx, Option.map_eq_some_iff] at e
  obtain ⟨old, e, rfl⟩ := e
  exact ⟨rfl, old, e, rfl, rfl⟩

namespace Charted

theorem role_of_finish (h : d.Charted roles) {i : Nat} {block : BasicBlock}
    (e : (d.builder.finish void).blocks[i]? = some block) :
    ∃ r, roles[i]? = some r ∧ block.name = r.name := by
  obtain ⟨_, old, found, name, _⟩ := name_of_finish e
  have at' : (roles.map BlockRole.name)[i]? = some block.name := by
    have same : d.builder.blocks[i]? = some old := found
    rw [← h.names, List.getElem?_map, Array.getElem?_toList, same, name]
    rfl
  obtain ⟨r, at', e⟩ := Option.map_eq_some_iff.1 (List.getElem?_map ▸ at')
  exact ⟨r, at', e.symm⟩

theorem targeted_of_finish (h : d.Charted roles) {i : Nat} {block : BasicBlock} {t : BlockId}
    (e : (d.builder.finish void).blocks[i]? = some block) (mem : t ∈ block.terminator.targets) :
    Targeted roles t := by
  obtain ⟨_, old, found, _, exit⟩ := name_of_finish e
  cases has : old.terminator with
  | some made =>
    rw [exit, has] at mem
    exact (h.exits found has).targets t mem
  | none =>
    rw [exit, has] at mem
    cases void <;> simp [Terminator.named] at mem

/-- Nothing leads to a block that is not for that. -/
theorem predecessorsOf_eq_nil (h : d.Charted roles) {b : BlockId} (no : ¬Targeted roles b) :
    (d.builder.finish void).predecessorsOf b = [] := by
  rw [Body.predecessorsOf, List.map_eq_nil_iff, List.filter_eq_nil_iff]
  intro block mem
  obtain ⟨i, e⟩ := List.mem_iff_getElem?.1 mem
  rw [Array.getElem?_toList] at e
  simpa using fun leads => no (h.targeted_of_finish e leads)

theorem nodup_names (h : d.Charted roles) :
    ((d.builder.finish void).blocks.toList.map (·.name)).Nodup := by
  have names : (d.builder.finish void).blocks.toList.map (·.name) = roles.map BlockRole.name := by
    rw [← h.names]
    apply List.ext_getElem
    · simp [Builder.finish]
    · intro i _ _
      simp [Builder.finish]
  rw [names]
  exact h.nodup.map fun _ _ => BlockRole.name_inj

end Charted

end Draft

theorem Body.blockNamed?_eq {body : Body} (nodup : (body.blocks.toList.map (·.name)).Nodup)
    {block : BasicBlock} (mem : block ∈ body.blocks) :
    body.blockNamed? block.name = some block := by
  rw [Body.blockNamed?, ← Array.find?_toList]
  have mem := Array.mem_toList_iff.2 mem
  generalize body.blocks.toList = blocks at nodup mem
  induction blocks with
  | nil => cases mem
  | cons first rest ih =>
    have ⟨new, nodup⟩ := List.nodup_cons.1 nodup
    rcases List.mem_cons.1 mem with rfl | mem
    · simp
    · have ne : first.name ≠ block.name := fun e => new (List.mem_map.2 ⟨block, mem, e.symm⟩)
      rw [List.find?_cons_of_neg (by simpa using ne)]
      exact ih nodup mem

/-! ## Labels of a tree -/

namespace Arena

variable {a : Arena} {root : NodeId} {l : LabelId}

/-- A statement of the tree places the label. -/
def PlacesLabel (a : Arena) (root : NodeId) (l : LabelId) : Prop :=
  ∃ n node owner, a.Reaches root n ∧ a.find? n = some node ∧ node.kind = .labelStmt owner l

/-- A statement of the tree jumps to the label. -/
def JumpsTo (a : Arena) (root : NodeId) (l : LabelId) : Prop :=
  ∃ n node owner, a.Reaches root n ∧ a.find? n = some node ∧ node.kind = .gotoStmt owner l

/-- What is gathered below a node is held by a node that it reaches. -/
theorem exists_of_mem_gather {β : Type} {f : NodeKind → List β} {x : β} {F : Nat} {id : NodeId}
    (mem : x ∈ a.gather f F id) :
    ∃ n node, a.Reaches id n ∧ a.find? n = some node ∧ x ∈ f node.kind := by
  induction F generalizing id with
  | zero => cases mem
  | succ F ih =>
    cases find : a.find? id with
    | none => simp [gather, find] at mem
    | some node =>
      rw [gather_succ find] at mem
      rcases List.mem_append.1 mem with own | below
      · exact ⟨id, node, .refl, find, own⟩
      · obtain ⟨k, kid, mem⟩ := List.mem_flatMap.1 below
        obtain ⟨n, node', reaches, rest⟩ := ih mem
        exact ⟨n, node', .head ⟨node, find, kid⟩ reaches, rest⟩

/-- With enough steps down, all that is reached is gathered. -/
theorem mem_gather_of_reaches {β : Type} {f : NodeKind → List β} {x : β} {id n : NodeId}
    {node : Node} (reaches : a.Reaches id n) (find : a.find? n = some node)
    (mem : x ∈ f node.kind) :
    ∃ k, ∀ F, k ≤ F → x ∈ a.gather f F id := by
  induction reaches using Relation.ReflTransGen.head_induction_on with
  | refl =>
    refine ⟨1, fun F le => ?_⟩
    obtain ⟨F, rfl⟩ : ∃ m, F = m + 1 := ⟨F - 1, by omega⟩
    rw [gather_succ find]
    exact List.mem_append_left _ mem
  | head edge _ ih =>
    obtain ⟨p, found, kid⟩ := edge
    obtain ⟨k, all⟩ := ih
    refine ⟨k + 1, fun F le => ?_⟩
    obtain ⟨F, rfl⟩ : ∃ m, F = m + 1 := ⟨F - 1, by omega⟩
    rw [gather_succ found]
    exact List.mem_append_right _ (List.mem_flatMap.2 ⟨_, kid, all F (by omega)⟩)

end Arena

theorem NodeKind.mem_labels {kind : NodeKind} {l : LabelId} :
    l ∈ kind.labels ↔ ∃ owner, kind = .labelStmt owner l := by
  cases kind <;> simp [NodeKind.labels, eq_comm]

theorem NodeKind.mem_gotos {kind : NodeKind} {l : LabelId} :
    l ∈ kind.gotos ↔ ∃ owner, kind = .gotoStmt owner l := by
  cases kind <;> simp [NodeKind.gotos, eq_comm]

section

variable {a : Arena} {fuel : Nat} {root : NodeId} {es : List Event} {labels gotos : List LabelId}
  {l : LabelId}

/-- What is gathered however far the walk goes is what is reached. -/
theorem Arena.mem_iff_of_gather {β : Type} {f : NodeKind → List β} {xs : List β} {x : β}
    (all : ∀ F, fuel ≤ F → xs = [root].flatMap (a.gather f F)) :
    x ∈ xs ↔ ∃ n node, a.Reaches root n ∧ a.find? n = some node ∧ x ∈ f node.kind := by
  simp only [List.flatMap_singleton] at all
  constructor
  · intro mem
    rw [all fuel (Nat.le_refl _)] at mem
    exact exists_of_mem_gather mem
  · rintro ⟨n, node, reaches, find, mem⟩
    obtain ⟨k, gathered⟩ := mem_gather_of_reaches reaches find mem
    rw [all (max fuel k) (Nat.le_max_left _ _)]
    exact gathered _ (Nat.le_max_right _ _)

theorem Tells.mem_labels (h : Tells a fuel [root] [] es labels gotos) (shaped : a.WellFormed) :
    l ∈ labels ↔ a.PlacesLabel root l := by
  rw [Arena.mem_iff_of_gather fun F le => ((h shaped).2 F le).2.1, Arena.PlacesLabel]
  simp only [NodeKind.mem_labels, exists_and_left]

theorem Tells.mem_gotos (h : Tells a fuel [root] [] es labels gotos) (shaped : a.WellFormed) :
    l ∈ gotos ↔ a.JumpsTo root l := by
  rw [Arena.mem_iff_of_gather fun F le => ((h shaped).2 F le).2.2, Arena.JumpsTo]
  simp only [NodeKind.mem_gotos, exists_and_left]

end

/-! ## Open blocks -/

theorem Draft.balanced_start (entry : List InstId) : (start.add entry).Balanced [] [] := by
  have empty : start.Balanced [] [] := ⟨.refl _, List.nodup_nil, by simp⟩
  exact empty.add entry

namespace Draft

variable {d : Draft} {roles : List BlockRole} {placed : List LabelId} {b : BlockId}

theorem mem_unplaced : b ∈ d.unplaced placed ↔ ∃ l, (l, b) ∈ d.labels ∧ l ∉ placed := by
  simp only [unplaced, List.mem_map, List.mem_filter, decide_eq_true_eq]
  constructor
  · rintro ⟨⟨l, _⟩, ⟨mem, free⟩, rfl⟩
    exact ⟨l, mem, free⟩
  · rintro ⟨l, mem, free⟩
    exact ⟨(l, b), ⟨mem, free⟩, rfl⟩

theorem Balanced.labelled (h : d.Balanced placed []) {l : LabelId} (mem : (l, b) ∈ d.labels) :
    d.labelled? l = some b := by
  have keys := h.keys
  unfold labelled?
  generalize d.labels = pairs at keys mem
  induction pairs with
  | nil => cases mem
  | cons p rest ih =>
    have ⟨new, keys⟩ := List.nodup_cons.1 keys
    rcases List.mem_cons.1 mem with rfl | mem
    · simp
    · have ne : (l == p.1) = false := by
        simpa using fun e => new (List.mem_map.2 ⟨_, mem, e⟩)
      rw [List.lookup_cons, ne]
      exact ih keys mem

/-- The blocks that a finished draft leaves open, by their names. -/
theorem isOpen_iff (balanced : d.Balanced placed []) (charted : d.Charted roles)
    {old : OpenBlock} (found : d.block? b = some old) :
    d.isOpen b ↔ b = d.cursor ∨
      ∃ l, old.name = s!"label.{l.index}" ∧ l ∈ d.met ∧ l ∉ placed := by
  have role : ∀ {r}, roles[b.index]? = some r → old.name = r.name := by
    intro r at'
    have names := congrArg (·[b.index]?) charted.names
    have here : d.builder.blocks[b.index]? = some old := found
    simpa [here, at'] using names
  rw [← d.mem_openBlocks, balanced.perm.mem_iff, List.mem_cons, List.nil_append, mem_unplaced]
  refine or_congr_right ⟨?_, ?_⟩
  · rintro ⟨l, mem, free⟩
    exact ⟨l, role (charted.labels (balanced.labelled mem)), List.mem_map.2 ⟨_, mem, rfl⟩, free⟩
  · rintro ⟨l, name, met, free⟩
    obtain ⟨⟨l', b'⟩, mem, rfl⟩ := List.mem_map.1 met
    have there := charted.labels (balanced.labelled mem)
    have lt : b.index < roles.length := by
      rw [charted.length]
      exact lt_of_block? found
    have same : roles[b.index] = .label l' :=
      BlockRole.name_inj ((role (List.getElem?_eq_getElem lt)).symm.trans name)
    have index : b.index = b'.index := by
      obtain ⟨lt', at'⟩ := List.getElem?_eq_some_iff.1 there
      exact (charted.nodup.getElem_inj_iff).1 (same.trans at'.symm)
    have : b = b' := by
      cases b
      cases b'
      exact congrArg BlockId.mk index
    exact ⟨l', this ▸ mem, free⟩

end Draft

/-- A graph of numbered blocks with names of their own, in which nothing leads to the entry or to
an orphan. -/
structure Body.IsGraph (body : Body) : Prop where
  numbered : ∀ {i : Nat} {block : BasicBlock}, body.blocks[i]? = some block → block.id = ⟨i⟩
  entry : body.entry = ⟨0⟩ ∧ 0 < body.blocks.size
  first : body.predecessorsOf body.entry = []
  targets : ∀ block ∈ body.blocks, ∀ t ∈ block.terminator.targets, t.index < body.blocks.size
  orphans : ∀ block ∈ body.blocks, ∀ n : Nat, block.name = s!"orphan.{n}" →
    body.predecessorsOf block.id = []
  names : (body.blocks.toList.map (·.name)).Nodup
  named : ∀ block ∈ body.blocks, body.blockNamed? block.name = some block

theorem Draft.Charted.isGraph {d : Draft} {roles : List BlockRole} (h : d.Charted roles)
    (void : Bool) : (d.builder.finish void).IsGraph := by
  have size : (d.builder.finish void).blocks.size = roles.length := by
    simp [Builder.finish, h.length, Draft.size]
  have role : ∀ {i r}, roles[i]? = some r → ¬r.isTarget → ¬Targeted roles ⟨i⟩ := by
    rintro i r at' no ⟨r', at'', target⟩
    cases at'.symm.trans at''
    exact no target
  constructor
  · exact fun e => (name_of_finish e).1
  · rw [size]
    exact ⟨rfl, (List.getElem?_eq_some_iff.1 h.entry).1⟩
  · exact h.predecessorsOf_eq_nil (role h.entry (by simp [BlockRole.isTarget]))
  · intro block mem t leads
    obtain ⟨i, e⟩ := Array.mem_iff_getElem?.1 mem
    obtain ⟨r, at', _⟩ := h.targeted_of_finish e leads
    rw [size]
    exact (List.getElem?_eq_some_iff.1 at').1
  · intro block mem n name
    obtain ⟨i, e⟩ := Array.mem_iff_getElem?.1 mem
    obtain ⟨r, at', same⟩ := h.role_of_finish e
    have orphan : r = .orphan n := BlockRole.name_inj (same.symm.trans name)
    rw [(name_of_finish e).1]
    exact h.predecessorsOf_eq_nil (role at' (by simp [orphan, BlockRole.isTarget]))
  · exact h.nodup_names
  · exact fun block mem => Body.blockNamed?_eq h.nodup_names mem

/-- A lowered body is a graph without loose ends. If no label is placed twice, the blocks that
cannot be left are those that the walk left open: the last one, and those of labels that are jumped
to but not placed. Arenas are well formed however they are built (`Arena.Built.wellFormed`). -/
theorem graph_lowerBody {func : FuncId} {a a' : Arena} {insts insts' : InstStore} {root : NodeId}
    {entry : List InstId} {void : Bool} {body : Body}
    (lowered : lowerBody func a insts root entry void = .ok (body, a', insts')) :
    body.IsGraph ∧
      (a.WellFormed → (∀ n, (a.gather NodeKind.labels n root).Nodup) → void = false →
        ∃ s, Lower.tree entry (8 * (a.size + 1)) root (.start func a insts) = .ok ((), s) ∧
          body = s.builder.finish false ∧
          ∀ (b : BlockId) block, body.blocks[b.index]? = some block →
            let loose := b = s.builder.cursor ∨ ∃ l : LabelId, block.name = s!"label.{l.index}" ∧
              a.JumpsTo root l ∧ ¬a.PlacesLabel root l
            (block.terminator = .unreachable ↔ loose) ∧
              (¬loose → s.builder.blocks[b.index]?.bind (·.terminator) =
                some block.terminator)) := by
  obtain ⟨s, code, es, h, _⟩ := exists_lowered lowered
  obtain ⟨more, charted⟩ := code.charted (Draft.charted_start entry)
  rw [← h.draft] at charted
  refine ⟨h.body_eq ▸ charted.isGraph void, ?_⟩
  rintro shaped once rfl
  refine ⟨s, h.run, h.body_eq, fun b block e => ?_⟩
  have labels : code.labels.Nodup := by
    rw [((h.tells shaped).2 _ (Nat.le_refl _)).2.1, List.flatMap_singleton]
    exact once _
  have balanced := code.balanced (Draft.balanced_start entry) (by simpa using labels)
  rw [← h.draft, List.append_nil] at balanced
  rw [h.body_eq] at e
  obtain ⟨_, old, found, name, exit⟩ := Draft.name_of_finish (d := s.draft) e
  have met : ∀ l, l ∈ s.draft.met ∧ l ∉ code.labels ↔ a.JumpsTo root l ∧ ¬a.PlacesLabel root l := by
    intro l
    rw [h.draft, code.mem_met, ← h.tells.mem_labels shaped, ← h.tells.mem_gotos shaped]
    have : l ∉ (Draft.start.add entry).met := by simp [Draft.met, Draft.start, Draft.add]
    tauto
  have isOpen := Draft.isOpen_iff balanced charted found
  simp only [met, ← name] at isOpen
  have open_iff : s.draft.isOpen b ↔ old.terminator = none := by
    simp [Draft.isOpen, show s.draft.block? b = some old from found]
  rw [open_iff] at isOpen
  have here : s.builder.blocks[b.index]? = some old := found
  constructor
  · refine Iff.trans ?_ isOpen
    cases has : old.terminator with
    | none => simp [exit, has]
    | some made =>
      have := (charted.exits found has).leads
      simpa [exit, has] using this
  · intro tight
    rw [here, exit]
    cases has : old.terminator with
    | none => exact absurd (isOpen.1 has) tight
    | some made => simp [has]

/-- A jump to a label that nothing places, then a label that nothing jumps to. -/
def looseArena : Arena :=
  ⟨Arena.initial.nodes ++ #[
    some (Node.fresh (.gotoStmt ⟨0⟩ ⟨3⟩) [] .void .synthetic),
    some (Node.fresh (.labelStmt ⟨0⟩ ⟨4⟩) [] .void .synthetic),
    some (Node.fresh .blockStmt [⟨2⟩, ⟨3⟩] .void .synthetic)]⟩

def looseBody : Body :=
  ⟨#[⟨⟨0⟩, "entry", [], .jump ⟨1⟩⟩, ⟨⟨1⟩, "label.3", [], .unreachable⟩,
    ⟨⟨2⟩, "orphan.0", [], .jump ⟨3⟩⟩, ⟨⟨3⟩, "label.4", [], .unreachable⟩], ⟨0⟩⟩

theorem built_looseArena : looseArena.Built := by
  let one := (Arena.initial.add (.fresh (.gotoStmt ⟨0⟩ ⟨3⟩) [] .void .synthetic)).2
  let two := (one.add (.fresh (.labelStmt ⟨0⟩ ⟨4⟩) [] .void .synthetic)).2
  have jump : Arena.initial.make (.gotoStmt ⟨0⟩ ⟨3⟩) [] .void .synthetic = .ok (⟨2⟩, one) := rfl
  have label : one.make (.labelStmt ⟨0⟩ ⟨4⟩) [] .void .synthetic = .ok (⟨3⟩, two) := rfl
  have block : two.make .blockStmt [⟨2⟩, ⟨3⟩] .void .synthetic = .ok (⟨4⟩, looseArena) := rfl
  have built₁ := Arena.Built.initial.edit (.make (by simp) jump)
  have built₂ := built₁.edit (.make (by simp) label)
  exact built₂.edit (.make (by simp) block)

/-- The missing label and the end of the walk are the two places that cannot be left. -/
theorem graph_lowerBody_loose :
    lowerBody ⟨0⟩ looseArena ⟨#[], 0⟩ ⟨4⟩ [] false = .ok (looseBody, looseArena, ⟨#[], 0⟩) ∧
      looseArena.WellFormed ∧ (∀ n, (looseArena.gather NodeKind.labels n ⟨4⟩).Nodup) ∧
      looseBody.IsGraph ∧ (∃ l : LabelId, "label.3" = s!"label.{l.index}" ∧
        looseArena.JumpsTo ⟨4⟩ l ∧ ¬looseArena.PlacesLabel ⟨4⟩ l) := by
  have lowered : lowerBody ⟨0⟩ looseArena ⟨#[], 0⟩ ⟨4⟩ [] false =
      .ok (looseBody, looseArena, ⟨#[], 0⟩) := by decide +kernel
  have shaped := built_looseArena.wellFormed
  have once : ∀ n, (looseArena.gather NodeKind.labels n ⟨4⟩).Nodup := by
    rintro (_ | _ | n)
    · decide
    · decide
    · exact List.nodup_singleton (⟨4⟩ : LabelId)
  obtain ⟨graph, loose⟩ := graph_lowerBody lowered
  refine ⟨lowered, shaped, once, graph, ?_⟩
  obtain ⟨s, run, e, exits⟩ := loose shaped once rfl
  have last : (Lower.tree [] (8 * (looseArena.size + 1)) ⟨4⟩ (.start ⟨0⟩ looseArena ⟨#[], 0⟩)).map
      (·.2.builder.cursor) = .ok ⟨3⟩ := by decide +kernel
  have away : (⟨1⟩ : BlockId) ≠ s.builder.cursor := by
    rw [run] at last
    have cursor : s.builder.cursor = ⟨3⟩ := Except.ok.inj last
    rw [cursor]
    decide
  exact ((exits ⟨1⟩ _ rfl).1.1 rfl).resolve_left away

end Codegen
