import Codegen.Proofs.Compilation.Laws
import Codegen.Proofs.Compilation.Sound

/-!
Steps that keep compilations sound, and a logic for them. A fact about a state lasts in all later
states, so that the facts of all steps so far can be used in each step.
-/

namespace Codegen

/-- Something about a compilation that stays true as the compilation grows. -/
structure Fact where
  holds : Compilation → Prop
  lasts : ∀ {c c'}, c.Sound → c.Grows c' → holds c → holds c'

namespace Fact

def none : Fact := ⟨fun _ => True, fun _ _ _ => trivial⟩

def and (P Q : Fact) : Fact :=
  ⟨fun c => P.holds c ∧ Q.holds c, fun s g h => ⟨P.lasts s g h.1, Q.lasts s g h.2⟩⟩

/-- A fact under a condition on nothing but data. -/
def given (p : Prop) (P : Fact) : Fact :=
  ⟨fun c => p → P.holds c, fun s g h hp => P.lasts s g (h hp)⟩

def all {α : Type} (xs : List α) (P : α → Fact) : Fact :=
  ⟨fun c => ∀ x ∈ xs, (P x).holds c, fun s g h x mem => (P x).lasts s g (h x mem)⟩

/-- A value is there once some nodes were evaluated. -/
def sourced (ids : List NodeId) (v : Value) : Fact :=
  ⟨fun c => c.Sourced ids v, fun s g h => g.sourced s h⟩

/-- A node that takes instructions: no sentinel, and an expression over some children at least. -/
def hosts (id : NodeId) (kids : List NodeId) : Fact where
  holds c := id.index < c.arena.size ∧ ¬id.isSentinel ∧
    ∀ node, c.arena.find? id = some node → node.isExpr ∧ kids ⊆ node.kids
  lasts {c c'} _ g h := by
    refine ⟨Nat.lt_of_lt_of_le h.1 g.arena_le, h.2.1, fun node' find' => ?_⟩
    cases find : c.arena.find? id with
    | none => simp [g.dead h.1 find] at find'
    | some node =>
      obtain ⟨expr, sub⟩ := h.2.2 node find
      rcases g.nodes find with gone | ⟨node'', e, grows⟩
      · simp [gone] at find'
      · cases find'.symm.trans e
        exact ⟨by rwa [Node.isExpr_eq, grows.isStmt, ← Node.isExpr_eq],
          List.Subset.trans sub grows.kids⟩

/-- A node that is not under construction. -/
def done (id : NodeId) : Fact where
  holds c := id.index < c.arena.size ∧ ∀ node, c.arena.find? id = some node → ¬node.isBuilding
  lasts {c c'} _ g h := by
    refine ⟨Nat.lt_of_lt_of_le h.1 g.arena_le, fun node' find' building => ?_⟩
    cases find : c.arena.find? id with
    | none => simp [g.dead h.1 find] at find'
    | some node =>
      rcases g.nodes find with gone | ⟨node'', e, grows⟩
      · simp [gone] at find'
      · cases find'.symm.trans e
        exact h.2 node find (grows.building building)

/-- A node that was made over some children. -/
def node (kind : NodeKind) (kids : List NodeId) (id : NodeId) : Fact :=
  .and (.given (kind.isExpr = true) (.hosts id kids))
    (.given (kind ≠ .composite .building) (.done id))

/-- An instruction of a kind, as long as it is not freed. -/
def made (i : InstId) (kind : InstKind) : Fact where
  holds c := i.index < c.insts.slots.size ∧ ∀ inst, c.insts.find? i = some inst → inst.kind = kind
  lasts {c c'} _ g h := by
    refine ⟨Nat.lt_of_lt_of_le h.1 g.insts_le, fun inst found => ?_⟩
    rcases g.store h.1 with e | gone
    · exact h.2 inst (e ▸ found)
    · simp [gone] at found

end Fact

theorem Node.kind_of_isBuilding {node : Node} (building : node.isBuilding) :
    node.kind = .composite .building := by
  cases kind : node.kind <;> simp_all [Node.isBuilding, NodeKind.compositeState?]

/-- A composite with its value. -/
def Node.finished (n : Node) (value : Value) : Node :=
  { n with kind := .composite .finalized, value := some value }

/-- A node whose value was an address and is loaded now. -/
def Node.loaded (n : Node) (load : InstId) : Node :=
  { n with
    insts := n.insts ++ [load]
    value := some (.inst load)
    flags := { n.flags with address := false } }

/-- A step that keeps compilations sound, and gives a fact about its answer where it starts with
another fact. -/
def Keeps {α : Type} (P : Fact) (op : Build α) (Q : α → Fact) : Prop :=
  ∀ c a c', c.Sound → P.holds c → op c = .ok (a, c') → c'.Sound ∧ c.Grows c' ∧ (Q a).holds c'

/-- Steps that keep compilations sound, wherever they start. -/
def steadying : Law where
  start := Compilation.Sound
  holds c c' := c'.Sound ∧ c.Grows c'
  refl sound := ⟨sound, .refl _⟩
  trans h h' := ⟨h'.1, h.2.trans h'.2⟩
  keeps _ h := h.1

abbrev Steady {α : Type} (op : Build α) : Prop := Obeys steadying op

namespace Build

variable {α : Type} {c c' : Compilation}

theorem changeArena_ok {step : Arena → Except Fault Arena} {u : Unit}
    (h : changeArena step c = .ok (u, c')) :
    ∃ arena, step c.arena = .ok arena ∧ c' = { c with arena } := by
  rw [changeArena, Run.get_bind] at h
  obtain ⟨arena, e, h⟩ := Run.lift_bind_ok h
  exact ⟨arena, e, Run.set_ok h⟩

theorem onArena_ok {step : Arena → Except Fault (α × Arena)} {a : α}
    (h : onArena step c = .ok (a, c')) :
    ∃ arena, step c.arena = .ok (a, arena) ∧ c' = { c with arena } := by
  rw [onArena, Run.get_bind] at h
  obtain ⟨⟨b, arena⟩, e, h⟩ := Run.lift_bind_ok h
  cases h
  exact ⟨arena, e, rfl⟩

theorem onTypes_ok {step : TypeTable → Except Fault (α × TypeTable)} {a : α}
    (h : onTypes step c = .ok (a, c')) :
    ∃ types, step c.types = .ok (a, types) ∧ c' = { c with types } := by
  rw [onTypes, Run.get_bind] at h
  obtain ⟨⟨b, types⟩, e, h⟩ := Run.lift_bind_ok h
  cases h
  exact ⟨types, e, rfl⟩

/-! ## Edits of nodes -/

variable {id : NodeId} {node : Node} {u : Unit} {v : Value} {i : InstId} {inst : InstKind}
  {ty : TypeId}

theorem update_ok {f : Node → Node} (run : changeArena (·.update id f) c = .ok (u, c'))
    (find : c.arena.find? id = some node) : c' = { c with arena := c.arena.set id (f node) } := by
  obtain ⟨arena, step, rfl⟩ := changeArena_ok run
  obtain ⟨_, found, rfl⟩ := Arena.update_ok step
  cases find.symm.trans found
  rfl

theorem attach_ok (run : attach id inst ty c = .ok (i, c')) : ∃ node, c.arena.find? id = some node ∧
    node.isExpr ∧ i = ⟨c.insts.slots.size⟩ ∧ c' = { c with
      arena := c.arena.set id { node with insts := node.insts ++ [i] }
      insts := (c.insts.create inst ty).2 } := by
  obtain ⟨j, c₁, create, run⟩ := Run.bind_ok.1 run
  cases create
  obtain ⟨_, c₂, append, run⟩ := Run.bind_ok.1 run
  obtain ⟨rfl, rfl⟩ := Run.pure_ok run
  obtain ⟨arena, step, rfl⟩ := changeArena_ok append
  obtain ⟨node, found, expr, rfl⟩ := Arena.appendInst_ok step
  exact ⟨node, found, expr, rfl, rfl⟩

/-- A composite is finished with an instruction of its own. -/
theorem finishWith_ok {c₁ : Compilation} (attached : attach id inst ty c = .ok (i, c₁))
    (finished : changeArena (·.finishComposite id (.inst i)) c₁ = .ok (u, c')) :
    ∃ node, c.arena.find? id = some node ∧ node.kind = .composite .building ∧
      i = ⟨c.insts.slots.size⟩ ∧ c' = { c with
        arena := c.arena.set id ({ node with insts := node.insts ++ [i] }.finished (.inst i))
        insts := (c.insts.create inst ty).2 } := by
  obtain ⟨node, find, -, rfl, rfl⟩ := attach_ok attached
  obtain ⟨arena, step, rfl⟩ := changeArena_ok finished
  obtain ⟨_, found, building, rfl⟩ := Arena.finishComposite_ok step
  cases (Arena.find?_set (Arena.isLive_of_find? find)).symm.trans found
  exact ⟨node, find, building, rfl, by rw [Arena.set_set]; rfl⟩

/-- Settling loads an address and leaves any other value alone. -/
theorem settle_cases (run : settle id c = .ok (v, c')) : ∃ node w, c.arena.find? id = some node ∧
    node.value = some w ∧ (node.flags.address = true ∧ node.isExpr ∧
      v = .inst ⟨c.insts.slots.size⟩ ∧ c' = { c with
        arena := c.arena.set id (node.loaded ⟨c.insts.slots.size⟩)
        insts := (c.insts.create (.load w) node.ty).2 } ∨
    node.flags.address = false ∧ v = w ∧ c' = c) := by
  obtain ⟨node, got, run⟩ := ask_bind_ok run
  have found := Arena.get_eq_ok.1 got
  cases has : node.value with
  | none =>
    simp only [has] at run
    cases run
  | some value =>
  simp only [has] at run
  refine ⟨node, value, found, has, ?_⟩
  split at run
  · rename_i address
    obtain ⟨load, c₁, attached, run⟩ := Run.bind_ok.1 run
    obtain ⟨_, c₂, valued, run⟩ := Run.bind_ok.1 run
    obtain ⟨_, c₃, flagged, run⟩ := Run.bind_ok.1 run
    obtain ⟨rfl, rfl⟩ := Run.pure_ok run
    obtain ⟨_, found', expr, rfl, rfl⟩ := attach_ok attached
    cases found.symm.trans found'
    have live := Arena.isLive_of_find? found
    have e := update_ok valued (Arena.find?_set live)
    rw [Arena.set_set] at e
    subst e
    have e := update_ok flagged (Arena.find?_set live)
    rw [Arena.set_set] at e
    exact .inl ⟨address, expr, rfl, e⟩
  · rename_i loaded
    obtain ⟨rfl, rfl⟩ := Run.pure_ok run
    exact .inr ⟨by simpa using loaded, rfl, rfl⟩

end Build

namespace Keeps

variable {α β : Type} {P P' : Fact} {Q : α → Fact} {R : β → Fact}

theorem bind {x : Build α} {f : α → Build β} (hx : Keeps P x Q)
    (hf : ∀ a, Keeps (P.and (Q a)) (f a) R) : Keeps P (x >>= f) R := by
  intro c b c' sound pre run
  obtain ⟨a, c₁, first, run⟩ := Run.bind_ok.1 run
  obtain ⟨sound₁, g, post⟩ := hx c a c₁ sound pre first
  obtain ⟨sound₂, g', post'⟩ := hf a c₁ b c' sound₁ ⟨P.lasts sound g pre, post⟩ run
  exact ⟨sound₂, g.trans g', post'⟩

theorem weaken {op : Build α} (h : Keeps P op Q) (pre : ∀ c, P'.holds c → P.holds c) :
    Keeps P' op Q := fun c a c' sound hp run => h c a c' sound (pre c hp) run

theorem imp {op : Build α} {Q' : α → Fact} (h : Keeps P op Q)
    (post : ∀ a c, (Q a).holds c → (Q' a).holds c) : Keeps P op Q' := fun c a c' sound pre run =>
  have ⟨sound', g, hq⟩ := h c a c' sound pre run
  ⟨sound', g, post a c' hq⟩

theorem forget {op : Build α} (h : Keeps P op Q) : Keeps P op fun _ => .none :=
  h.imp fun _ _ _ => trivial

theorem of_steady {op : Build α} (h : Steady op) : Keeps P op fun _ => .none :=
  fun c a c' sound _ run =>
    have ⟨sound', g⟩ := h c a c' sound run
    ⟨sound', g, trivial⟩

theorem steady {op : Build α} (h : Keeps .none op fun _ => .none) :
    Steady op := fun c a c' sound run =>
  have ⟨sound', g, _⟩ := h c a c' sound trivial run
  ⟨sound', g⟩

/-- A step whose answer tells nothing. -/
theorem pass {x : Build α} {f : α → Build β} (hx : Steady x) (hf : ∀ a, Keeps P (f a) R) :
    Keeps P (x >>= f) R :=
  .bind (.of_steady hx) fun a => (hf a).weaken fun _ h => h.1

theorem pure {a : α} (h : ∀ c, P.holds c → (Q a).holds c) : Keeps P (pure a : Build α) Q := by
  intro c b c' sound pre run
  obtain ⟨rfl, rfl⟩ := Run.pure_ok run
  exact ⟨sound, .refl _, h _ pre⟩

theorem throw {fault : Fault} : Keeps P (throw fault : Build α) Q := fun _ _ _ _ _ run => by
  cases run

theorem ite {p : Prop} [Decidable p] {x y : Build α} (hx : p → Keeps P x Q)
    (hy : ¬p → Keeps P y Q) : Keeps P (if p then x else y) Q := by
  split
  · exact hx ‹_›
  · exact hy ‹_›

/-- What is asked changes nothing. -/
theorem ask {q : Compilation → Except Fault α} (h : ∀ c a, c.Sound → q c = .ok a → (Q a).holds c) :
    Keeps P (Build.ask q) Q := by
  intro c a c' sound _ run
  obtain ⟨answer, rfl⟩ := Build.ask_ok run
  exact ⟨sound, .refl _, h _ _ sound answer⟩

end Keeps

end Codegen
