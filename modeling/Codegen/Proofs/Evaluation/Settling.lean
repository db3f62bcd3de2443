import Codegen.Proofs.Evaluation.Progress
import Codegen.Proofs.Tree.Sharing

/-!
Using a value settles it once. A composite under construction is finished with an aggregate of the
values of its members, which are settled first, and an address is loaded. Each node that is met
gets its instructions the first time and has its value from then on.
-/

namespace Codegen

open Relation

namespace Arena

variable {a : Arena} {id k n : NodeId} {fuel : Nat}

/-- A member of a composite that is under construction. -/
def Member (a : Arena) (p k : NodeId) : Prop :=
  ∃ node, a.find? p = some node ∧ node.isBuilding ∧ k ∈ node.kids

/-- What is met where a value is used: the node itself, and members of what is met. -/
abbrev Meets (a : Arena) : NodeId → NodeId → Prop := ReflTransGen a.Member

/-- A live expression that has a value, or will have one when it is finished. -/
def Usable (a : Arena) (n : NodeId) : Prop :=
  ∃ node, a.find? n = some node ∧ node.isExpr ∧ (node.isBuilding ∨ node.value.isSome)

/-- All that is met is usable, fewer than a number of steps down. -/
def Ripe (a : Arena) : Nat → NodeId → Prop
  | 0, _ => False
  | fuel + 1, id => a.Usable id ∧ ∀ k, a.Member id k → a.Ripe fuel k

theorem Ripe.succ (h : a.Ripe fuel id) : a.Ripe (fuel + 1) id := by
  induction fuel generalizing id with
  | zero => cases h
  | succ fuel ih => exact ⟨h.1, fun k member => ih (h.2 k member)⟩

theorem Ripe.of_meets (h : a.Ripe fuel k) (meets : a.Meets k id) : a.Ripe fuel id := by
  induction meets with
  | refl => exact h
  | tail _ member ih =>
    cases fuel with
    | zero => cases h
    | succ fuel => exact (ih.2 _ member).succ

theorem Ripe.not_meets (h : a.Ripe fuel id) (member : a.Member id k) : ¬a.Meets k id := by
  induction fuel with
  | zero => cases h
  | succ fuel ih => exact fun back => ih ((h.2 k member).of_meets back) back

/-- Without circles no way down is longer than the arena: what is above a node is not met again. -/
theorem ripe_of_acyclic (path : List NodeId) (nodup : path.Nodup) (live : ∀ p ∈ path, a.isLive p)
    (above : ∀ p ∈ path, TransGen a.Member p id) (usable : ∀ n, a.Meets id n → a.Usable n)
    (acyclic : ∀ n, a.Meets id n → ¬TransGen a.Member n n) (enough : a.size < path.length + fuel) :
    a.Ripe fuel id := by
  induction fuel generalizing path id with
  | zero =>
    have := length_le_size nodup live
    omega
  | succ fuel ih =>
    have here := usable id .refl
    refine ⟨here, fun k member => ih (id :: path) ?_ ?_ ?_
      (fun n meets => usable n (meets.head member))
      (fun n meets => acyclic n (meets.head member)) (by simp; omega)⟩
    · exact List.nodup_cons.2 ⟨fun mem => acyclic id .refl (above id mem), nodup⟩
    · obtain ⟨node, find, -⟩ := here
      exact List.forall_mem_cons.2 ⟨isLive_of_find? find, live⟩
    · exact List.forall_mem_cons.2 ⟨.single member, fun p mem => (above p mem).tail member⟩

end Arena

namespace Compilation

open Build

/-- A node that has its value for good. -/
def Final (c : Compilation) (n : NodeId) (v : Value) : Prop :=
  ∃ node, c.arena.find? n = some node ∧ node.isBuilding = false ∧ node.flags.address = false ∧
    node.value = some v

/-- The instructions that a node has got. -/
def made (c c' : Compilation) (n : NodeId) : List InstId :=
  match c.arena.find? n, c'.arena.find? n with
  | some node, some node' => node'.insts.drop node.insts.length
  | _, _ => []

/-- A composite under construction is finished with an aggregate of the values of its members. -/
inductive Builds (c : Compilation) (node : Node) : List InstId → Node → Prop
  | kept (done : node.isBuilding = false) : Builds c node [] node
  | built {i elems} (building : node.isBuilding) (values : List.Forall₂ c.Final node.kids elems)
    (found : c.insts.find? i = some ⟨.aggregate elems, node.ty⟩) :
    Builds c node [i] ({ node with insts := node.insts ++ [i] }.finished (.inst i))

/-- An address is loaded. -/
inductive Loads (c : Compilation) (node : Node) : List InstId → Node → Prop
  | kept (done : node.flags.address = false) : Loads c node [] node
  | loaded {i v} (address : node.flags.address = true) (value : node.value = some v)
    (found : c.insts.find? i = some ⟨.load v, node.ty⟩) : Loads c node [i] (node.loaded i)

/-- Nodes were settled in an order, each once and after its members; nothing else has changed. The
new instructions are theirs, in the same order. -/
structure Settles (c : Compilation) (order : List NodeId) (c' : Compilation) : Prop where
  rest : c' = { c with arena := c'.arena, insts := c'.insts }
  frame : ∀ {n}, n ∉ order → c'.arena.find? n = c.arena.find? n
  nodes : ∀ {n}, n ∈ order → ∃ node mid node' own own', c.arena.find? n = some node ∧
    c'.arena.find? n = some node' ∧ c'.Builds node own mid ∧ c'.Loads mid own' node' ∧
      node'.value.isSome
  once : order.Nodup
  members : ∀ {before p after}, order = before ++ p :: after → ∀ k, c.arena.Member p k → k ∈ before
  store : ∀ {i}, i.index < c.insts.slots.size → c'.insts.find? i = c.insts.find? i
  size_le : c.insts.slots.size ≤ c'.insts.slots.size
  insts : (order.flatMap (c.made c')).map (·.index) =
    List.range' c.insts.slots.size (c'.insts.slots.size - c.insts.slots.size)

/-- One node gets instructions, which are new. -/
structure Attaches (c c' : Compilation) (n : NodeId) (node : Node) (own : List InstId) : Prop where
  rest : c' = { c with arena := c'.arena, insts := c'.insts }
  find : c'.arena.find? n = some node
  others : ∀ {m}, m ≠ n → c'.arena.find? m = c.arena.find? m
  store : ∀ {i}, i.index < c.insts.slots.size → c'.insts.find? i = c.insts.find? i
  size_le : c.insts.slots.size ≤ c'.insts.slots.size
  insts : own.map (·.index) =
    List.range' c.insts.slots.size (c'.insts.slots.size - c.insts.slots.size)

variable {c c' c'' c₁ c₂ : Compilation} {n k : NodeId} {node node' mid : Node}
  {own own' : List InstId} {order : List NodeId} {v : Value}

theorem range'_trans {x y z : Nat} (h : x ≤ y) (h' : y ≤ z) :
    List.range' x (y - x) ++ List.range' y (z - y) = List.range' x (z - x) := by
  have e := List.range'_append_1 (s := x) (m := y - x) (n := z - y)
  rwa [show x + (y - x) = y by omega, show y - x + (z - y) = z - x by omega] at e

namespace Attaches

theorem refl (find : c.arena.find? n = some node) : c.Attaches c n node [] :=
  ⟨rfl, find, fun _ => rfl, fun _ => rfl, Nat.le_refl _, by simp⟩

theorem single (find : c.arena.find? n = some node) (kind : InstKind) (ty : TypeId) :
    c.Attaches { c with
      arena := c.arena.set n node'
      insts := (c.insts.create kind ty).2 } n node' [⟨c.insts.slots.size⟩] where
  rest := rfl
  find := Arena.find?_set (Arena.isLive_of_find? find)
  others ne := Arena.find?_set_of_ne ne
  store {i} lt := InstStore.find?_create_of_ne fun e => by
    rw [e] at lt
    exact Nat.lt_irrefl _ lt
  size_le := by simp [InstStore.create]
  insts := by simp [InstStore.create]

theorem trans (h : c.Attaches c' n mid own) (h' : c'.Attaches c'' n node own') :
    c.Attaches c'' n node (own ++ own') where
  rest := by
    rw [h'.rest, h.rest]
  find := h'.find
  others ne := (h'.others ne).trans (h.others ne)
  store lt := (h'.store (Nat.lt_of_lt_of_le lt h.size_le)).trans (h.store lt)
  size_le := Nat.le_trans h.size_le h'.size_le
  insts := by rw [List.map_append, h.insts, h'.insts, range'_trans h.size_le h'.size_le]

end Attaches

theorem Final.of_find (h : c.Final n v) (same : c'.arena.find? n = c.arena.find? n) :
    c'.Final n v := by
  rwa [Final, same]

theorem Builds.insts_eq (h : c.Builds node own mid) : mid.insts = node.insts ++ own := by
  cases h <;> simp [Node.finished]

theorem Loads.insts_eq (h : c.Loads node own mid) : mid.insts = node.insts ++ own := by
  cases h <;> simp [Node.loaded]

theorem Builds.mono (h : c.Builds node own mid)
    (kids : node.isBuilding → ∀ k ∈ node.kids, c'.arena.find? k = c.arena.find? k)
    (store : ∀ {i}, i.index < c.insts.slots.size → c'.insts.find? i = c.insts.find? i) :
    c'.Builds node own mid := by
  cases h with
  | kept done => exact .kept done
  | built building values found =>
    refine .built building ?_ ((store (InstStore.lt_of_find? found)).trans found)
    exact ((List.forall₂_and_left _ _).2 ⟨kids building, values⟩).imp fun _ _ ⟨same, final⟩ =>
      final.of_find same

theorem Loads.mono (h : c.Loads node own mid)
    (store : ∀ {i}, i.index < c.insts.slots.size → c'.insts.find? i = c.insts.find? i) :
    c'.Loads node own mid := by
  cases h with
  | kept done => exact .kept done
  | loaded address value found =>
    exact .loaded address value ((store (InstStore.lt_of_find? found)).trans found)

namespace Settles

theorem refl (c : Compilation) : c.Settles [] c := by
  refine ⟨rfl, fun _ => rfl, nofun, .nil, ?_, fun _ => rfl, Nat.le_refl _, by simp⟩
  intro before p after e
  simp at e

theorem closed (h : c.Settles order c') (mem : n ∈ order) (meets : c.arena.Meets n k) :
    k ∈ order := by
  induction meets with
  | refl => exact mem
  | tail _ member ih =>
    obtain ⟨before, after, split⟩ := List.append_of_mem ih
    rw [split]
    exact List.mem_append_left _ (h.members split _ member)

/-- What was settled has its value for good. -/
theorem exists_final (h : c.Settles order c') (mem : n ∈ order) : ∃ v, c'.Final n v := by
  obtain ⟨node, mid, node', own, own', -, find, builds, loads, value⟩ := h.nodes mem
  obtain ⟨v, value⟩ := Option.isSome_iff_exists.1 value
  refine ⟨v, node', find, ?_, ?_, value⟩
  · have built : mid.isBuilding = false := by
      cases builds with
      | kept done => exact done
      | built => rfl
    cases loads with
    | kept => exact built
    | loaded => exact built
  · cases loads with
    | kept done => exact done
    | loaded => rfl

/-- One more node is settled, after its members. -/
theorem snoc (h : c.Settles order c₁) (new : n ∉ order) (find : c.arena.find? n = some node)
    (members : ∀ k, c.arena.Member n k → k ∈ order)
    (attaches : c₁.Attaches c₂ n node' (own ++ own'))
    (builds : c₂.Builds node own mid) (loads : c₂.Loads mid own' node')
    (value : node'.value.isSome) :
    c.Settles (order ++ [n]) c₂ where
  rest := by rw [attaches.rest, h.rest]
  frame {m} out := by
    rw [List.mem_append, List.mem_singleton, not_or] at out
    exact (attaches.others out.2).trans (h.frame out.1)
  nodes {m} mem := by
    rcases List.mem_append.1 mem with old | mem
    · obtain ⟨node, mid, node', own, own', find, find', builds, loads, value⟩ := h.nodes old
      have others {k} (mem : k ∈ order) : c₂.arena.find? k = c₁.arena.find? k :=
        attaches.others fun e => new (e ▸ mem)
      refine ⟨node, mid, node', own, own', find, (others old).trans find', ?_,
        loads.mono attaches.store, value⟩
      exact builds.mono (fun building k kid =>
        others (h.closed old (.single ⟨node, find, building, kid⟩))) attaches.store
    · rw [List.mem_singleton.1 mem]
      exact ⟨node, mid, node', own, own', find, attaches.find, builds, loads, value⟩
  once := List.nodup_append.2 ⟨h.once, List.nodup_singleton n,
    fun m mem x mem' e => new (by simp_all)⟩
  members {before p after} split k member := by
    rcases List.append_eq_append_iff.1 split with ⟨more, rfl, e⟩ | ⟨more, rfl, e⟩
    · cases more with
      | nil =>
        cases e
        simpa using members k member
      | cons x more => simp at e
    · cases more with
      | nil =>
        cases e
        simpa using members k member
      | cons x more =>
        cases e
        exact h.members rfl k member
  store lt := (attaches.store (Nat.lt_of_lt_of_le lt h.size_le)).trans (h.store lt)
  size_le := Nat.le_trans h.size_le attaches.size_le
  insts := by
    have before : order.flatMap (c.made c₂) = order.flatMap (c.made c₁) := by
      refine List.flatMap_congr fun m mem => ?_
      rw [made, made, attaches.others fun e => new (e ▸ mem)]
    have here : c.made c₂ n = own ++ own' := by
      simp [made, find, attaches.find, loads.insts_eq, builds.insts_eq]
    rw [List.flatMap_append, List.map_append, before, h.insts, List.flatMap_singleton, here,
      attaches.insts, range'_trans h.size_le attaches.size_le]

end Settles

/-! ## Uses -/

/-- Some values were used: all that is met is settled now, and what was settled before is as it
was. -/
structure Serves (c : Compilation) (order : List NodeId) (c₁ : Compilation) (ks : List NodeId)
    (order' : List NodeId) (c₂ : Compilation) (vs : List Value) : Prop where
  settles : c.Settles order' c₂
  mem : ∀ n, n ∈ order' ↔ n ∈ order ∨ ∃ k ∈ ks, c.arena.Meets k n
  same : ∀ n ∈ order, c₂.arena.find? n = c₁.arena.find? n
  values : List.Forall₂ c₂.Final ks vs

theorem rvalueWithin_final (final : c.Final n v) (fuel : Nat) :
    rvalueWithin (fuel + 1) n c = .ok (v, c) := by
  obtain ⟨node, find, built, loaded, value⟩ := final
  have got : getNode n c = .ok (node, c) := ask_of_ok (Arena.get_eq_ok.2 find)
  rw [rvalueWithin, Run.bind_of_ok got, built, if_neg (by simp)]
  change settle n c = _
  rw [settle, Run.bind_of_ok got]
  simp only [value, loaded, Bool.false_eq_true, if_false]
  rfl

/-- The address of a node is loaded, if it has one. -/
theorem attaches_settle (find : c.arena.find? n = some node) (expr : node.isExpr)
    (built : node.isBuilding = false) (value : node.value.isSome) : ∃ v c' node' own,
      settle n c = .ok (v, c') ∧ c.Attaches c' n node' own ∧ c'.Loads node own node' ∧
        c'.Final n v := by
  obtain ⟨w, value⟩ := Option.isSome_iff_exists.1 value
  obtain ⟨v, c', run⟩ := exists_settle find expr value
  obtain ⟨_, _, found, has, ⟨address, -, rfl, e⟩ | ⟨loaded, rfl, rfl⟩⟩ := settle_cases run
  · cases find.symm.trans found
    have attaches : c.Attaches c' n (node.loaded ⟨c.insts.slots.size⟩) [⟨c.insts.slots.size⟩] :=
      e ▸ .single find (.load _) node.ty
    refine ⟨_, c', _, _, run, attaches, .loaded address has ?_, _, attaches.find, built, rfl, rfl⟩
    rw [e]
    exact InstStore.find?_create ..
  · cases find.symm.trans found
    exact ⟨_, _, node, [], run, .refl find, .kept loaded, node, find, built, loaded, has⟩

/-- A composite under construction is finished with an aggregate. -/
theorem attaches_finish (find : c.arena.find? n = some node) (building : node.isBuilding = true)
    (elems : List Value) : ∃ i c₁ c', attach n (.aggregate elems) node.ty c = .ok (i, c₁) ∧
      changeArena (·.finishComposite n (.inst i)) c₁ = .ok ((), c') ∧
      c.Attaches c' n ({ node with insts := node.insts ++ [i] }.finished (.inst i)) [i] ∧
      c'.insts.find? i = some ⟨.aggregate elems, node.ty⟩ := by
  have kind := Node.kind_of_isBuilding building
  have expr : node.isExpr := by simp [Node.isExpr, kind, NodeKind.isExpr, NodeKind.isStmt]
  obtain ⟨i, c₁, attached⟩ := exists_attach find expr (.aggregate elems) node.ty
  obtain ⟨sets, -⟩ := sets_attach find attached
  obtain ⟨c', finished⟩ := exists_finishComposite sets.find kind (.inst i)
  obtain ⟨_, found, -, rfl, rfl⟩ := finishWith_ok attached finished
  cases find.symm.trans found
  exact ⟨_, c₁, _, attached, finished, .single find _ _, InstStore.find?_create ..⟩

theorem serves_mapM {fuel : Nat} {use : NodeId → Build Value}
    (each : ∀ {order c₁ k}, c.Settles order c₁ → c.arena.Ripe fuel k →
      ∃ v c₂ order', use k c₁ = .ok (v, c₂) ∧ c.Serves order c₁ [k] order' c₂ [v])
    {ks : List NodeId} (h : c.Settles order c₁) (ripe : ∀ k ∈ ks, c.arena.Ripe fuel k) :
    ∃ vs c₂ order', ks.mapM use c₁ = .ok (vs, c₂) ∧ c.Serves order c₁ ks order' c₂ vs := by
  induction ks generalizing order c₁ with
  | nil => exact ⟨[], c₁, order, rfl, h, by simp, fun _ _ => rfl, .nil⟩
  | cons k ks ih =>
    obtain ⟨v, c₂, order', first, one⟩ := each h (ripe k (by simp))
    obtain ⟨vs, c₃, order'', later, others⟩ := ih one.settles fun k' mem => ripe k' (by simp [mem])
    refine ⟨v :: vs, c₃, order'', ?_, others.settles, fun n => ?_, fun n mem => ?_,
      .cons ?_ others.values⟩
    · rw [List.mapM_cons, Run.bind_of_ok first, Run.bind_of_ok later]
      rfl
    · rw [others.mem, one.mem]
      simp [or_assoc]
    · exact (others.same n ((one.mem n).2 (.inl mem))).trans (one.same n mem)
    · have settled : k ∈ order' := (one.mem k).2 (.inr ⟨k, by simp, .refl⟩)
      exact (List.forall₂_cons.1 one.values).1.of_find (others.same k settled)

/-- A node is settled after its members were. -/
theorem Settles.serves {before : List NodeId} (h : c.Settles before c') (new : n ∉ before)
    (mem : ∀ m, m ∈ before ↔ m ∈ order ∨ ∃ k, c.arena.Member n k ∧ c.arena.Meets k m)
    (same : ∀ m ∈ order, c'.arena.find? m = c₁.arena.find? m) (find : c.arena.find? n = some node)
    (attaches : c'.Attaches c₂ n node' (own ++ own')) (builds : c₂.Builds node own mid)
    (loads : c₂.Loads mid own' node') (final : c₂.Final n v) :
    c.Serves order c₁ [n] (before ++ [n]) c₂ [v] where
  settles := by
    obtain ⟨_, found, -, -, value⟩ := final
    cases attaches.find.symm.trans found
    exact h.snoc new find (fun k member => (mem k).2 (.inr ⟨k, member, .refl⟩)) attaches
      builds loads (by simp [value])
  mem m := by
    have head : c.arena.Meets n m ↔ n = m ∨ ∃ k, c.arena.Member n k ∧ c.arena.Meets k m :=
      ReflTransGen.cases_head_iff
    simp only [List.mem_append, List.mem_singleton, mem, exists_eq_left, head, eq_comm (a := m)]
    exact or_assoc.trans (or_congr_right or_comm)
  same m old := by
    have ne : m ≠ n := fun e => new ((mem n).2 (.inl (e ▸ old)))
    exact (attaches.others ne).trans (same m old)
  values := .cons final .nil

/-- The value of an expression is used where some nodes were settled before. -/
theorem serves_rvalueWithin (fuel : Nat) (h : c.Settles order c₁) (ripe : c.arena.Ripe fuel n) :
    ∃ v c₂ order', rvalueWithin fuel n c₁ = .ok (v, c₂) ∧ c.Serves order c₁ [n] order' c₂ [v] := by
  induction fuel generalizing order c₁ n with
  | zero => cases ripe
  | succ fuel ih =>
    by_cases old : n ∈ order
    · -- settled before, and with it all that is met
      obtain ⟨v, final⟩ := h.exists_final old
      refine ⟨v, c₁, order, rvalueWithin_final final fuel, h, fun m => ?_, fun _ _ => rfl,
        .cons final .nil⟩
      simpa using h.closed old
    have apart {k} (member : c.arena.Member n k) := ripe.not_meets member
    obtain ⟨⟨node, find, expr, ready⟩, below⟩ := ripe
    have member_iff (k : NodeId) : c.arena.Member n k ↔ node.isBuilding ∧ k ∈ node.kids := by
      simp [Arena.Member, find]
    have find₁ : c₁.arena.find? n = some node := (h.frame old).trans find
    rw [rvalueWithin, getNode, Run.bind_of_ok (ask_of_ok (Arena.get_eq_ok.2 find₁))]
    cases building : node.isBuilding with
    | false =>
      simp only [building, Bool.false_eq_true, false_and] at member_iff
      obtain ⟨v, c₂, node', own, run, attaches, loads, final⟩ :=
        attaches_settle find₁ expr building (by simpa [building] using ready)
      exact ⟨v, c₂, _, run, h.serves old (by simp [member_iff]) (fun _ _ => rfl) find attaches
        (.kept building) loads final⟩
    | true =>
      simp only [building, true_and] at member_iff
      obtain ⟨elems, c₂, before, used, served⟩ :=
        serves_mapM ih h fun k kid => below k ((member_iff k).2 kid)
      have new : n ∉ before := by
        rw [served.mem]
        rintro (mem | ⟨k, kid, back⟩)
        · exact old mem
        · exact apart ((member_iff k).2 kid) back
      have find₂ : c₂.arena.find? n = some node := (served.settles.frame new).trans find
      obtain ⟨i, c₃, c₄, attached, finished, first, built⟩ := attaches_finish find₂ building elems
      obtain ⟨v, c₅, node', own, run, second, loads, final⟩ :=
        attaches_settle first.find rfl rfl rfl
      have attaches := first.trans second
      have others (k : NodeId) (kid : k ∈ node.kids) : c₅.arena.find? k = c₂.arena.find? k :=
        attaches.others fun e => new ((served.mem n).2 (.inr ⟨k, kid, e ▸ .refl⟩))
      have values : List.Forall₂ c₅.Final node.kids elems :=
        ((List.forall₂_and_left _ _).2 ⟨others, served.values⟩).imp fun _ _ both =>
          both.2.of_find both.1
      refine ⟨v, c₅, _, ?_, served.settles.serves new (fun m => ?_) served.same find attaches
        (.built building values ((second.store (InstStore.lt_of_find? built)).trans built))
        loads final⟩
      · rw [if_pos rfl]
        exact Run.bind_ok.2 ⟨_, _, used,
          Run.bind_ok.2 ⟨_, _, attached, Run.bind_ok.2 ⟨_, _, finished, run⟩⟩⟩
      · simp only [served.mem, member_iff]

/-- Using a value settles all that is met, each node once and after its members, and nothing else.
From then on each of them has its value for good: using it again gives that and changes nothing. -/
theorem rvalue_settles {root : NodeId} (usable : ∀ n, c.arena.Meets root n → c.arena.Usable n)
    (acyclic : ∀ n, c.arena.Meets root n → ¬TransGen c.arena.Member n n) :
    ∃ v c' order, rvalue root c = .ok (v, c') ∧ (∀ n, n ∈ order ↔ c.arena.Meets root n) ∧
      c.Settles order c' ∧ c'.Final root v ∧
      ∀ n, c.arena.Meets root n → ∃ w, c'.Final n w ∧ rvalue n c' = .ok (w, c') := by
  have ripe : c.arena.Ripe (c.arena.size + 1) root :=
    Arena.ripe_of_acyclic [] .nil nofun nofun usable acyclic (by simp)
  obtain ⟨v, c', order, run, served⟩ := serves_rvalueWithin _ (.refl c) ripe
  have met (n : NodeId) : n ∈ order ↔ c.arena.Meets root n := by simp [served.mem]
  refine ⟨v, c', order, run, met, served.settles, (List.forall₂_cons.1 served.values).1,
    fun n meets => ?_⟩
  obtain ⟨w, final⟩ := served.settles.exists_final ((met n).2 meets)
  exact ⟨w, final, rvalueWithin_final final _⟩

/-- A variable stands for both members of a literal. -/
def twice : Compilation :=
  { Compilation.initial .standard with
    arena := ((Arena.initial.makeVar ⟨1⟩ .bool (.param 0) .synthetic).2.add
      (.fresh (.composite .building) [⟨2⟩, ⟨2⟩] .void .synthetic)).2 }

/-- The variable is loaded once. -/
theorem rvalue_settles_twice : ∃ c' order, rvalue ⟨3⟩ twice = .ok (.inst ⟨1⟩, c') ∧
    c'.insts.slots.size = 2 ∧ twice.Settles order c' ∧ c'.Final ⟨3⟩ (.inst ⟨1⟩) := by
  have member {p k : NodeId} (h : twice.arena.Member p k) : p = ⟨3⟩ ∧ k = ⟨2⟩ := by
    obtain ⟨node, find, building, kid⟩ := h
    obtain ⟨_ | _ | _ | _ | i⟩ := p <;> cases find
    all_goals simp_all [Node.isBuilding, Node.fresh, NodeKind.compositeState?]
  have meets {n : NodeId} (h : twice.arena.Meets ⟨3⟩ n) : n = ⟨3⟩ ∨ n = ⟨2⟩ := by
    rcases ReflTransGen.cases_tail h with e | ⟨_, _, last⟩
    · exact .inl e
    · exact .inr (member last).2
  have usable (n : NodeId) (h : twice.arena.Meets ⟨3⟩ n) : twice.arena.Usable n := by
    rcases meets h with rfl | rfl <;> exact ⟨_, rfl, rfl, by decide⟩
  obtain ⟨v, c', order, run, -, settles, final, -⟩ := rvalue_settles usable fun n _ circle => by
    obtain ⟨_, first, -⟩ := TransGen.head'_iff.1 circle
    obtain ⟨_, -, last⟩ := TransGen.tail'_iff.1 circle
    cases (member first).1.symm.trans (member last).2
  have known : (rvalue ⟨3⟩ twice).map (fun r => (r.1, r.2.insts.slots.size)) =
    .ok (.inst ⟨1⟩, 2) := by decide
  rw [run] at known
  obtain ⟨rfl, size⟩ := Prod.mk.inj (Except.ok.inj known)
  exact ⟨c', order, run, size, settles, final⟩

end Compilation

end Codegen
