import Codegen.Proofs.Compilation.Laws
import Codegen.Proofs.Compilation.Tidy

/-!
Steps that take nodes over and hand out new ones, and a logic for them. A step may do what it likes
with the trees it is given; it leaves every other expression as it is.
-/

namespace Codegen

/-! ## Steps beside the nodes -/

/-- Steps that leave the nodes as they are. -/
def idling : Law where
  start _ := True
  holds := Compilation.Extends
  refl _ := .of_same rfl rfl rfl rfl
  trans := .trans
  keeps _ _ := trivial

abbrev Idle {α : Type} (op : Build α) : Prop := Obeys idling op

namespace Idle

variable {α : Type}

/-- A step that touches neither nodes, instructions, variables nor functions. -/
theorem of_same {op : Build α} (same : ∀ c a c', op c = .ok (a, c') → c'.arena = c.arena ∧
    c'.insts = c.insts ∧ c'.vars = c.vars ∧ c'.functions = c.functions) : Idle op := by
  intro c a c' _ run
  obtain ⟨arena, insts, vars, functions⟩ := same c a c' run
  exact .of_same arena insts vars functions

end Idle

namespace Build

@[grind ←] theorem idle_onTypes {α : Type} (step : TypeTable → Except Fault (α × TypeTable)) :
    Idle (onTypes step) :=
  .of_same fun c a c' run => by
    rw [onTypes, Run.get_bind] at run
    obtain ⟨⟨b, types⟩, -, run⟩ := Run.lift_bind_ok run
    cases run
    exact ⟨rfl, rfl, rfl, rfl⟩

@[grind ←] theorem idle_intern (s : String) : Idle (intern s) := .of_same fun _ _ _ run => by
  cases run
  exact ⟨rfl, rfl, rfl, rfl⟩

@[grind ←] theorem idle_createInst (kind : InstKind) (ty : TypeId) : Idle (createInst kind ty) := by
  intro c a c' _ run
  cases run
  refine ⟨rfl, by simp, fun {i} lt => ?_, .inl⟩
  refine InstStore.find?_create_of_ne ?_
  rintro rfl
  exact Nat.lt_irrefl _ lt

end Build

/-! ## Steps that stay within a tree -/

/-- Steps that neither make nor free a node. -/
def sizing : Law where
  start _ := True
  holds c c' := c'.arena.size = c.arena.size
  refl _ := rfl
  trans h h' := h'.trans h
  keeps _ _ := trivial

abbrev Sized {α : Type} (op : Build α) : Prop := Obeys sizing op

namespace Sized

variable {α : Type}

theorem of_idle {op : Build α} (h : Idle op) : Sized op := fun c a c' _ run =>
  congrArg Arena.size (h c a c' trivial run).arena

theorem changeArena {step : Arena → Except Fault Arena}
    (h : ∀ a a', step a = .ok a' → a'.size = a.size) : Sized (Build.changeArena step) := by
  intro c _ c' _ run
  obtain ⟨arena, done, rfl⟩ := Build.changeArena_ok run
  exact h _ _ done

end Sized

namespace Build

variable {id : NodeId}

theorem sized_update (f : Node → Node) : Sized (changeArena (·.update id f)) := by
  refine .changeArena fun a a' step => ?_
  obtain ⟨node, -, rfl⟩ := Arena.update_ok step
  exact Arena.size_set ..

theorem sized_finishComposite (v : Value) : Sized (changeArena (·.finishComposite id v)) := by
  refine .changeArena fun a a' step => ?_
  obtain ⟨node, -, -, rfl⟩ := Arena.finishComposite_ok step
  exact Arena.size_set ..

theorem sized_appendInst (i : InstId) : Sized (changeArena (·.appendInst id i)) := by
  refine .changeArena fun a a' step => ?_
  obtain ⟨node, -, -, rfl⟩ := Arena.appendInst_ok step
  exact Arena.size_set ..

theorem sized_attach (kind : InstKind) (ty : TypeId) : Sized (attach id kind ty) :=
  .bind (Sized.of_idle (idle_createInst kind ty)) fun i => .bind (sized_appendInst i)
  fun _ => .pure _

theorem sized_settle : Sized (settle id) := by
  intro c v c' _ run
  obtain ⟨_, _, -, -, ⟨-, -, -, rfl⟩ | ⟨-, -, rfl⟩⟩ := settle_cases run
  · exact Arena.size_set ..
  · rfl

theorem sized_rvalueWithin (fuel : Nat) (id : NodeId) : Sized (rvalueWithin fuel id) := by
  induction fuel generalizing id with
  | zero => exact .throw _
  | succ fuel ih =>
    refine .bind (.ask _) fun node => .ite ?_ sized_settle
    exact .bind (.mapM ih) fun _ => .bind (sized_attach _ _) fun _ =>
      .bind (sized_finishComposite _) fun _ => sized_settle

end Build

/-- A step that changes nothing but what is below a node, and there no children. -/
structure Within {α : Type} (x : NodeId) (op : Build α) : Prop where
  sized : Sized op
  revises : ∀ c a c', c.Orderly → op c = .ok (a, c') → c.Revises c' (c.arena.Below x)

namespace Within

variable {α β : Type} {x : NodeId}

theorem bind {op : Build α} {f : α → Build β} (hx : Within x op) (hf : ∀ a, Within x (f a)) :
    Within x (op >>= f) where
  sized := hx.sized.bind fun a => (hf a).sized
  revises c b c' o run := by
    obtain ⟨a, c₁, first, run⟩ := Run.bind_ok.1 run
    have h := hx.revises c a c₁ o first
    have h' := (hf a).revises c₁ b c' (h.orderly o) run
    rw [h.below] at h'
    exact h.trans h'

theorem throw {fault : Fault} : Within x (throw fault : Build α) :=
  ⟨.throw _, fun _ _ _ _ run => by cases run⟩

end Within

namespace Build

open Compilation (revises_set)

variable {id : NodeId}

theorem within_update (plain : ¬id.isSentinel) {f : Node → Node}
    (same : ∀ node, (f node).kids = node.kids ∧ (f node).ty = node.ty ∧
      (f node).insts = node.insts) :
    Within id (changeArena (·.update id f)) := by
  refine ⟨sized_update f, fun c _ c' _ run => ?_⟩
  obtain ⟨arena, step, rfl⟩ := changeArena_ok run
  obtain ⟨node, find, rfl⟩ := Arena.update_ok step
  obtain ⟨kids, ty, insts⟩ := same node
  exact revises_set find plain kids ty fun i mem => .inl (insts ▸ mem)

theorem within_setValue (plain : ¬id.isSentinel) (v : Value) :
    Within id (changeArena (·.setValue id v)) := within_update plain fun _ => ⟨rfl, rfl, rfl⟩

theorem within_setFlags (plain : ¬id.isSentinel) (flags : NodeFlags) :
    Within id (changeArena (·.setFlags id flags)) := within_update plain fun _ => ⟨rfl, rfl, rfl⟩

theorem within_finishComposite (v : Value) : Within id (changeArena (·.finishComposite id v)) := by
  refine ⟨sized_finishComposite v, fun c _ c' o run => ?_⟩
  obtain ⟨arena, step, rfl⟩ := changeArena_ok run
  obtain ⟨node, find, kind, rfl⟩ := Arena.finishComposite_ok step
  have plain : ¬id.isSentinel := by
    intro s
    have idle := (o.blank s find).2
    simp [Node.isBuilding, kind, NodeKind.compositeState?] at idle
  exact revises_set find plain rfl rfl fun i mem => .inl mem

theorem within_attach (plain : ¬id.isSentinel) (kind : InstKind) (ty : TypeId) :
    Within id (attach id kind ty) := by
  refine ⟨sized_attach kind ty, fun c i c' o run => ?_⟩
  obtain ⟨node, find, -, rfl, rfl⟩ := attach_ok run
  exact (idle_createInst kind ty c _ _ trivial rfl).revises_set _ find plain rfl rfl rfl (by simp)

theorem within_attachValue (plain : ¬id.isSentinel) (kind : InstKind) (ty : TypeId) :
    Within id (attachValue id kind ty) :=
  .bind (within_attach plain kind ty) fun _ => within_setValue plain _

theorem within_settle : Within id (settle id) := by
  refine ⟨sized_settle, fun c a c' o run => ?_⟩
  obtain ⟨node, w, find, has, h⟩ := settle_cases run
  have plain : ¬id.isSentinel := fun s => by simp [(o.blank s find).1] at has
  obtain ⟨-, -, -, rfl⟩ | ⟨-, -, rfl⟩ := h
  · exact (idle_createInst _ _ c _ _ trivial rfl).revises_set _ find plain rfl rfl rfl (by simp)
  · exact .refl _ (Arena.not_isSentinel_of_below plain)

/-- Steps within some trees, one after the other. -/
theorem revises_each {α : Type} {f : NodeId → Build α} (each : ∀ k, Within k (f k))
    {kids : List NodeId} {c c' : Compilation} {as : List α} (o : c.Orderly)
    (run : kids.mapM f c = .ok (as, c')) :
    c.Revises c' fun n => ∃ k ∈ kids, c.arena.Below k n := by
  induction kids generalizing c as with
  | nil =>
    obtain ⟨-, rfl⟩ := Run.pure_ok run
    exact .refl _ (by simp)
  | cons k rest ih =>
    rw [List.mapM_cons] at run
    obtain ⟨a, c₁, first, run⟩ := Run.bind_ok.1 run
    obtain ⟨as', c₂, later, run⟩ := Run.bind_ok.1 run
    cases run
    have h := (each k).revises c a c₁ o first
    have h' := ih (h.orderly o) later
    simp only [h.below] at h'
    have plain {n : NodeId} : (∃ k' ∈ k :: rest, c.arena.Below k' n) → ¬n.isSentinel := by
      rintro ⟨k', mem, below⟩
      rcases List.mem_cons.1 mem with rfl | mem
      · exact h.plain below
      · exact h'.plain ⟨k', mem, below⟩
    exact (h.mono (fun below => ⟨k, by simp, below⟩) plain).trans
      (h'.mono (fun ⟨k', mem, below⟩ => ⟨k', by simp [mem], below⟩) plain)

/-- Steps within the children of a node, one after the other. -/
theorem revises_mapM {α : Type} {f : NodeId → Build α} (each : ∀ k, Within k (f k))
    {kids : List NodeId} {c c' : Compilation} {as : List α} (o : c.Orderly) (plain : ¬id.isSentinel)
    (sub : ∀ k ∈ kids, ¬k.isSentinel → k ∈ c.arena.kidsOf id) (run : kids.mapM f c = .ok (as, c')) :
    c.Revises c' (c.arena.Below id) := by
  have h := revises_each each o run
  refine h.mono (fun ⟨k, mem, below⟩ => ?_) (Arena.not_isSentinel_of_below plain)
  exact below.head (sub k mem (h.plain ⟨k, mem, .refl⟩))

theorem within_rvalueWithin (fuel : Nat) (id : NodeId) : Within id (rvalueWithin fuel id) := by
  induction fuel generalizing id with
  | zero => exact .throw
  | succ fuel ih =>
    refine ⟨sized_rvalueWithin _ id, fun c a c' o run => ?_⟩
    rw [rvalueWithin] at run
    obtain ⟨node, got, run⟩ := ask_bind_ok run
    have find := Arena.get_eq_ok.1 got
    split at run
    · rename_i building
      have plain : ¬id.isSentinel := by
        intro s
        simp [(o.blank s find).2] at building
      obtain ⟨elems, c₁, first, run⟩ := Run.bind_ok.1 run
      have h := revises_mapM ih o plain (fun k mem other => (Arena.mem_kidsOf find).2 ⟨mem, other⟩)
        first
      have later := Within.bind (within_attach plain (.aggregate elems) node.ty) fun aggregate =>
        .bind (within_finishComposite (.inst aggregate)) fun _ => within_settle
      have h' := later.revises c₁ a c' (h.orderly o) run
      rw [h.below] at h'
      exact h.trans h'
    · exact within_settle.revises c a c' o run

theorem within_rvalue (id : NodeId) : Within id (rvalue id) := by
  refine ⟨.bind .get fun _ => sized_rvalueWithin _ id, fun c a c' o run => ?_⟩
  rw [rvalue, Run.get_bind] at run
  exact (within_rvalueWithin _ id).revises c a c' o run

end Build

/-! ## Steps that take nodes -/

/-- A step that is given some roots and hands out others. What it takes may depend on its answer;
that there are sentinels and what holds of the answer does not depend on the roots. -/
def Spends {α : Type} (used : α → List NodeId) (op : Build α) (made : α → List NodeId)
    (Q : α → Prop) : Prop :=
  ∀ c a c', 2 ≤ c.arena.size → op c = .ok (a, c') → 2 ≤ c'.arena.size ∧ Q a ∧
    ∀ rest, c.Tidy (used a ++ rest) → c'.Tidy (made a ++ rest) ∧ c.Leaves c' rest

namespace Spends

variable {α β : Type} {T : List NodeId} {U V : β → List NodeId} {G : α → List NodeId}
  {H : β → List NodeId} {Q : α → Prop} {R : β → Prop}

/-- One step after the other; what the first one hands out goes to the second, with more. -/
theorem bind {x : Build α} {f : α → Build β} (hx : Spends (fun _ => T) x G Q)
    (hf : ∀ a, Q a → Spends (fun b => G a ++ V b) (f a) H R) :
    Spends (fun b => T ++ V b) (x >>= f) H R := by
  intro c b c' two run
  obtain ⟨a, c₁, first, run⟩ := Run.bind_ok.1 run
  obtain ⟨two, post, h⟩ := hx c a c₁ two first
  obtain ⟨two, post', h'⟩ := hf a post c₁ b c' two run
  refine ⟨two, post', fun rest tidy => ?_⟩
  obtain ⟨tidy, leaves⟩ := h (V b ++ rest) (by rwa [← List.append_assoc])
  obtain ⟨tidy, leaves'⟩ := h' rest (by rwa [List.append_assoc])
  exact ⟨tidy, (leaves.mono fun n mem => List.mem_append_right _ mem).trans leaves'⟩

/-- One step after the other; what the first one hands out goes to the second. -/
theorem andThen {x : Build α} {f : α → Build β} (hx : Spends (fun _ => T) x G Q)
    (hf : ∀ a, Q a → Spends (fun _ => G a) (f a) H R) : Spends (fun _ => T) (x >>= f) H R := by
  have := bind (V := fun _ => []) hx fun a q => by simpa using hf a q
  simpa using this

/-- A step beside the nodes comes first. -/
theorem pass {x : Build α} {f : α → Build β} (hx : Idle x) (hf : ∀ a, Spends U (f a) H R) :
    Spends U (x >>= f) H R := by
  intro c b c' two run
  obtain ⟨a, c₁, first, run⟩ := Run.bind_ok.1 run
  have h := hx c a c₁ trivial first
  obtain ⟨two, post, h'⟩ := hf a c₁ b c' (h.arena ▸ two) run
  refine ⟨two, post, fun rest tidy => ?_⟩
  obtain ⟨tidy', leaves⟩ := h' rest (h.tidy tidy)
  exact ⟨tidy', (h.leaves tidy.toOrderly).trans leaves⟩

/-- A step within one of the roots comes first. -/
theorem touch {x : NodeId} {op : Build α} {f : α → Build β} (mem : x ∈ T) (hx : Within x op)
    (hf : ∀ a, Spends (fun _ => T) (f a) H R) : Spends (fun _ => T) (op >>= f) H R := by
  intro c b c' two run
  obtain ⟨a, c₁, first, run⟩ := Run.bind_ok.1 run
  obtain ⟨two, post, h'⟩ := hf a c₁ b c' (hx.sized c a c₁ trivial first ▸ two) run
  refine ⟨two, post, fun rest tidy => ?_⟩
  have h := hx.revises c a c₁ tidy.toOrderly first
  obtain ⟨tidy', leaves⟩ := h' rest (h.tidy tidy)
  exact ⟨tidy', (h.leaves tidy mem).trans leaves⟩

/-- Steps within some of the roots come first. -/
theorem touchAll {xs : List NodeId} {step : NodeId → Build α} {f : List α → Build β} (sub : xs ⊆ T)
    (each : ∀ x, Within x (step x)) (hf : ∀ as, Spends (fun _ => T) (f as) H R) :
    Spends (fun _ => T) (xs.mapM step >>= f) H R := by
  induction xs generalizing f with
  | nil => exact hf []
  | cons x xs ih =>
    rw [List.mapM_cons, bind_assoc]
    refine touch (sub (by simp)) (each x) fun a => ?_
    rw [bind_assoc]
    exact ih (fun y mem => sub (by simp [mem])) fun as => hf (a :: as)

theorem touchEach {xs : List NodeId} {step : NodeId → Build α} {k : Build β} (sub : xs ⊆ T)
    (each : ∀ x, Within x (step x)) (hk : Spends (fun _ => T) k H R) :
    Spends (fun _ => T) (do
      xs.forM fun x => do let _ ← step x
      k) H R := by
  induction xs with
  | nil => exact hk
  | cons x xs ih =>
    rw [List.forM, bind_assoc, bind_assoc]
    refine touch (sub (by simp)) (each x) fun _ => ?_
    rw [pure_bind]
    exact ih fun y mem => sub (by simp [mem])

theorem pure {b : β} (made : H b = U b) (post : R b) : Spends U (pure b : Build β) H R := by
  intro c a c' two run
  obtain ⟨rfl, rfl⟩ := Run.pure_ok run
  exact ⟨two, post, fun _ tidy => ⟨made ▸ tidy, .refl _ _⟩⟩

theorem throw {fault : Fault} : Spends U (throw fault : Build β) H R := fun _ _ _ _ run => by
  cases run

theorem throwWithType {ty : TypeId} {fault : String → Fault} :
    Spends U (Build.throwWithType ty fault : Build β) H R :=
  pass (.ask _) fun _ => throw

theorem ite {p : Prop} [Decidable p] {x y : Build β} (hx : Spends U x H R) (hy : Spends U y H R) :
    Spends U (if p then x else y) H R := by
  split
  · exact hx
  · exact hy

/-- More may be given than is taken. -/
theorem weaken {op : Build β} (h : Spends U op H R) (sub : ∀ b, (U b).Sublist (V b)) :
    Spends V op H R := by
  intro c a c' two run
  obtain ⟨two, post, h⟩ := h c a c' two run
  exact ⟨two, post, fun rest tidy => h rest (tidy.sublist ((sub a).append_right rest))⟩

theorem perm {op : Build β} (h : Spends U op H R) (perm : ∀ b, (V b).Perm (U b)) :
    Spends V op H R := by
  intro c a c' two run
  obtain ⟨two, post, h⟩ := h c a c' two run
  exact ⟨two, post, fun rest tidy => h rest (tidy.perm ((perm a).append_right rest))⟩

end Spends

/-- A step that makes one new node out of some roots. -/
def Makes (used : List NodeId) (op : Build NodeId) : Prop :=
  Spends (fun _ => used) op (fun id => [id]) fun id => ¬id.isSentinel

namespace Build

variable {c c' : Compilation}

theorem two_le_size_add (two : 2 ≤ c.arena.size) (node : Node) : 2 ≤ (c.arena.add node).2.size := by
  rw [Arena.size_add]
  exact Nat.le_succ_of_le two

/-- A new node over roots, which are no roots any more. -/
theorem tidy_add (node : Node) {rest : List NodeId} (tidy : c.Tidy (node.kids ++ rest))
    (live : ∀ k ∈ node.kids, c.arena.isLive k) (bare : node.insts = []) :
    ({ c with arena := (c.arena.add node).2 } : Compilation).Tidy (⟨c.arena.size⟩ :: rest) ∧
      c.Leaves { c with arena := (c.arena.add node).2 } rest := by
  have new {n : NodeId} (lt : n.index < c.arena.size) : n ≠ ⟨c.arena.size⟩ := by
    rintro rfl
    exact Nat.lt_irrefl _ lt
  have plain : ¬(⟨c.arena.size⟩ : NodeId).isSentinel := NodeId.not_isSentinel tidy.sentinels
  have apart := tidy.apart
  rw [List.filter_append] at apart
  obtain ⟨nodup, nodup', disjoint⟩ := List.nodup_append.1 apart
  have root (n : NodeId) (mem : n ∈ rest) :
      (c.arena.add node).2.IsRoot n := by
    intro p kid
    by_cases e : p = ⟨c.arena.size⟩
    · rw [e, Arena.kidsOf_add_self] at kid
      exact disjoint n kid n (List.mem_filter.2 ⟨mem, (List.mem_filter.1 kid).2⟩) rfl
    · rw [Arena.kidsOf_add_of_ne e] at kid
      exact tidy.roots n (by simp [mem]) p kid
  refine ⟨⟨⟨?_, ?_, fun {id other} s find => ?_, fun {n i} mem => ?_, tidy.slots⟩, ?_, ?_, ?_⟩, ?_⟩
  · exact two_le_size_add tidy.sentinels node
  · exact tidy.forest.add nodup (fun k mem => tidy.roots k (by simp [mem])) live
  · have ne : id ≠ (c.arena.add node).1 := by
      rintro rfl
      exact plain s
    exact tidy.blank s ((Arena.find?_add_of_ne ne).symm.trans find)
  · by_cases e : n = (c.arena.add node).1
    · rw [e, Arena.instsOf_eq_of_find? (Arena.find?_add _ _), bare] at mem
      cases mem
    · rw [Arena.instsOf, Arena.find?_add_of_ne e] at mem
      exact tidy.insts mem
  · rw [List.filter_cons_of_pos (by simpa using plain)]
    refine List.nodup_cons.2 ⟨fun mem => ?_, nodup'⟩
    exact new (tidy.known _ (by simp [List.mem_of_mem_filter mem])) rfl
  · intro n mem
    rcases List.mem_cons.1 mem with rfl | mem
    · intro p kid
      by_cases e : p = ⟨c.arena.size⟩
      · rw [e, Arena.kidsOf_add_self] at kid
        exact new (tidy.known _ (by simp [List.mem_of_mem_filter kid])) rfl
      · rw [Arena.kidsOf_add_of_ne e] at kid
        exact new (Arena.lt_of_isLive (tidy.forest.live kid)) rfl
    · exact root n mem
  · intro n mem
    rw [Arena.size_add]
    rcases List.mem_cons.1 mem with rfl | mem
    · exact Nat.lt_succ_self _
    · exact Nat.lt_succ_of_lt (tidy.known n (by simp [mem]))
  · refine ⟨fun x mem _ _ n below => ⟨Arena.find?_add_of_ne ?_, fun _ _ _ found _ => found⟩,
      fun h => h⟩
    rcases Relation.ReflTransGen.cases_tail below with rfl | ⟨p, -, kid⟩
    · exact new (tidy.known n (by simp [mem]))
    · exact new (Arena.lt_of_isLive (tidy.forest.live kid))

theorem makes_make (kind : NodeKind) (kids : List NodeId) (ty : TypeId) (span : Span) :
    Makes kids (onArena (·.make kind kids ty span)) := by
  intro c id c' two run
  obtain ⟨arena, step, rfl⟩ := onArena_ok run
  obtain ⟨_, -, step⟩ := bind_eq_ok.1 step
  obtain ⟨_, checked, step⟩ := bind_eq_ok.1 step
  cases step
  have live : ∀ k ∈ kids, c.arena.isLive k := by
    intro k mem
    obtain ⟨i, at'⟩ := List.mem_iff_getElem?.1 mem
    obtain ⟨child, find, -⟩ := Arena.checkKids_ok checked at'
    exact Arena.isLive_of_find? find
  exact ⟨two_le_size_add two _, NodeId.not_isSentinel two,
    fun rest tidy => tidy_add (.fresh kind kids ty span) tidy live rfl⟩

theorem makes_leaf {node : Node} (none : node.kids = []) (bare : node.insts = []) :
    Makes [] (addNode (·.add node)) := by
  intro c id c' two run
  cases run
  exact ⟨two_le_size_add two _, NodeId.not_isSentinel two,
    fun rest tidy => tidy_add node (by rwa [none]) (by simp [none]) bare⟩

end Build

end Codegen
