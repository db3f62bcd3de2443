import Codegen.Proofs.Requests.Acting

/-!
Addresses and their types. Where no type turns out to be an error, an address that was not freed
points at objects of the type of its node and a load reads what its address points at, except for
slots that were made for another type. Such a slot is shared by variables of several types:
parameters get it by their position, whatever their types are.
-/

namespace Codegen

open Relation

/-- What the type of an instruction has to be for a node to have its value: a pointer to what the
node stands for if the value is an address, and otherwise the type of the node, or one that points
at the same. -/
def Node.Expects (n : Node) (t : TypeTable) (ty : TypeId) : Prop :=
  if n.flags.address then t.pointee? ty = .ok (some n.ty.stored)
  else ty = n.ty ∨ ∃ target, t.pointee? ty = .ok (some target) ∧ t.pointee? n.ty = .ok (some target)

/-- A slot that was made for objects of another type. -/
def Inst.ForeignTo (inst : Inst) (ty : TypeId) : Prop :=
  ∃ allotted name, inst.kind = .alloca allotted name ∧ allotted.stored ≠ ty.stored

namespace Compilation

/-- A slot that variables of different types share. -/
def Mixed (c : Compilation) (j : InstId) : Prop :=
  ∃ v ∈ c.vars, ∃ w ∈ c.vars, v.storage = .inst j ∧ w.storage = .inst j ∧ v.ty ≠ w.ty

/-- An instruction that is one of those that are gone, or of a type as it should be, unless a type
has turned out to be an error or it is a slot that variables of different types share. -/
def Provides (c : Compilation) (gone : InstId → Prop) (i : InstId)
    (P : TypeTable → TypeId → Prop) : Prop :=
  gone i ∨ ∃ inst, c.insts.find? i = some inst ∧ inst.kind.isRet = false ∧
    (c.types.ErrorFree → P c.types inst.ty ∨ c.Mixed i)

/-- An instruction that gives the address of an object of a type. -/
def PointsAt (c : Compilation) (gone : InstId → Prop) (i : InstId) (ty : TypeId) : Prop :=
  c.Provides gone i fun t ty' => t.pointee? ty' = .ok (some ty.stored)

/-- Every instruction that values come from has the type that goes with them, or is gone. -/
structure Typed (c : Compilation) (gone : InstId → Prop) : Prop where
  nodes : ∀ {id : NodeId} {node i}, c.arena.find? id = some node → node.value = some (.inst i) →
    c.Provides gone i node.Expects
  loads : ∀ {i p : InstId} {ty}, c.insts.find? i = some ⟨.load (.inst p), ty⟩ → c.PointsAt gone p ty
  slots : ∀ {i : InstId} {allotted name ty}, c.insts.find? i = some ⟨.alloca allotted name, ty⟩ →
    c.types.ErrorFree → c.types.pointee? ty = .ok (some allotted.stored)
  vars : ∀ {k : Nat} {v j}, c.vars[k]? = some v → v.storage = .inst j →
    gone j ∨ ∃ allotted, c.insts.Allots j allotted ∧ (allotted = v.ty ∨ c.Mixed j)
  spills : ∀ {i p : Nat} {j}, c.spill? i p = some j →
    ∃ (k : Nat) (v : Variable), c.vars[k]? = some v ∧ v.storage = .inst j

/-- An instruction that is there and points at objects of a type, unless it is a slot that was made
for another type. Such a slot is shared by variables of different types. -/
def Addresses (c : Compilation) (i : InstId) (ty : TypeId) : Prop :=
  ∃ inst, c.insts.find? i = some inst ∧
    (c.types.pointee? inst.ty = .ok (some ty.stored) ↔ ¬inst.ForeignTo ty) ∧
    (inst.ForeignTo ty → c.Mixed i)

/-! ## What an action keeps -/

namespace Acts

variable {T : Prop} {R : Option Value → Prop} {c c' : Compilation} {gone : InstId → Prop}
  {i : InstId}

/-- Instructions are kept, but for returns that are laid out. -/
theorem kept (h : c.Acts T R c') (t : T) : c.insts.Kept c'.insts := by
  have created {kind : InstKind} {ty : TypeId} : c.insts.Kept (c.insts.create kind ty).2 := by
    intro i inst found _
    refine (InstStore.find?_create_of_ne fun e => ?_).trans found
    have lt := InstStore.lt_of_find? found
    simp [e, InstStore.create] at lt
  cases h with
  | inst => exact created
  | load => exact created
  | shed _ kept => exact kept t
  | body defines =>
    intro i inst found ret
    have lt := InstStore.lt_of_find? found
    have opened := ((Function.materializeEntry_ok defines.materialized).2.2.2.1 lt).trans found
    rcases defines.later.kept opened with same | ⟨-, v, e⟩
    · exact same
    · rw [e] at ret
      cases ret
  | _ => exact fun _ _ found _ => found

/-- Variables keep their types, and the slots that they have. -/
theorem vars_kept (h : c.Acts T R c') {k : Nat} {v : Variable} (found : c.vars[k]? = some v) :
    ∃ v', c'.vars[k]? = some v' ∧ v'.ty = v.ty ∧
      ∀ j, v.storage = .inst j → v'.storage = .inst j := by
  have moved {n : Nat} {w : Variable} {j : InstId} (at' : c.vars[n]? = some w)
      (unused : ∀ i, w.storage ≠ .inst i) :
      ∃ v', (c.vars.modify n fun _ => { w with storage := .inst j })[k]? = some v' ∧
        v'.ty = v.ty ∧ ∀ j, v.storage = .inst j → v'.storage = .inst j := by
    rw [Array.getElem?_modify, found]
    split
    · rename_i e
      subst e
      cases at'.symm.trans found
      exact ⟨_, rfl, rfl, fun j e => absurd e (unused j)⟩
    · exact ⟨v, rfl, rfl, fun _ => id⟩
  cases h with
  | newVar =>
    have lt := (Array.getElem?_eq_some_iff.1 found).1
    exact ⟨v, (Array.getElem?_push_lt lt).trans ((Array.getElem?_eq_getElem lt).symm.trans found),
      rfl, fun _ => id⟩
  | slot at' unused => exact moved at' unused
  | spill at' unused => exact moved at' unused
  | body defines => exact ⟨v, by rw [defines.rest]; exact found, rfl, fun _ => id⟩
  | _ => exact ⟨v, found, rfl, fun _ => id⟩

theorem mixed (h : c.Acts T R c') {j : InstId} (mixed : c.Mixed j) : c'.Mixed j := by
  obtain ⟨v, mem, w, mem', stored, stored', ne⟩ := mixed
  obtain ⟨k, found⟩ := Array.mem_iff_getElem?.1 mem
  obtain ⟨k', found'⟩ := Array.mem_iff_getElem?.1 mem'
  obtain ⟨v', now, ty, stays⟩ := h.vars_kept found
  obtain ⟨w', now', ty', stays'⟩ := h.vars_kept found'
  exact ⟨v', Array.mem_of_getElem? now, w', Array.mem_of_getElem? now', stays j stored,
    stays' j stored', by rwa [ty, ty']⟩

theorem provides (h : c.Acts T R c') (t : T) (reach : c.types.Reachable)
    {P : TypeTable → TypeId → Prop} (stable : ∀ {ty}, P c.types ty → P c'.types ty)
    (provides : c.Provides gone i P) : c'.Provides gone i P := by
  obtain was | ⟨inst, found, ret, typed⟩ := provides
  · exact .inl was
  refine .inr ⟨inst, h.kept t i inst found ret, ret, fun free => ?_⟩
  exact (typed (free.before reach (TypeTable.run_of_asks h.types_le))).imp stable h.mixed

theorem pointsAt (h : c.Acts T R c') (t : T) (reach : c.types.Reachable) {ty : TypeId}
    (points : c.PointsAt gone i ty) : c'.PointsAt gone i ty :=
  h.provides t reach (reach.pointee?_eq (TypeTable.run_of_asks h.types_le)) points

theorem expects (h : c.Acts T R c') (t : T) (reach : c.types.Reachable) {node : Node}
    (provides : c.Provides gone i node.Expects) : c'.Provides gone i node.Expects := by
  have same {ty target : TypeId} (found : c.types.pointee? ty = .ok (some target)) :=
    reach.pointee?_eq (TypeTable.run_of_asks h.types_le) found
  refine h.provides t reach (fun {ty} expects => ?_) provides
  unfold Node.Expects at expects ⊢
  split
  · rename_i address
    rw [if_pos address] at expects
    exact same expects
  · rename_i address
    rw [if_neg address] at expects
    exact expects.imp_right fun ⟨target, points, points'⟩ => ⟨target, same points, same points'⟩

end Acts

/-! ## New values -/

variable {c : Compilation} {gone : InstId → Prop} {i : InstId}

theorem Provides.imp {P Q : TypeTable → TypeId → Prop} (h : c.Provides gone i P)
    (imp : ∀ ty, P c.types ty → Q c.types ty) : c.Provides gone i Q :=
  h.imp_right fun ⟨inst, found, ret, typed⟩ =>
    ⟨inst, found, ret, fun free => (typed free).imp_left (imp _)⟩

theorem Locates.pointsAt {ty : TypeId} (h : c.Locates i ty) : c.PointsAt gone i ty := by
  obtain ⟨inst, found, ret, points⟩ := h
  exact .inr ⟨inst, found, ret, fun free => .inl (points free)⟩

theorem PointsAt.expects {node : Node} (h : c.PointsAt gone i node.ty)
    (address : node.flags.address = true) : c.Provides gone i node.Expects :=
  h.imp fun ty points => by rwa [Node.Expects, if_pos address]

theorem Produces.expects {node : Node} (h : c.Produces i node.ty)
    (loaded : node.flags.address = false) : c.Provides gone i node.Expects := by
  obtain ⟨inst, found, ret, ty⟩ := h
  refine .inr ⟨inst, found, ret, fun _ => .inl ?_⟩
  rw [Node.Expects, if_neg (by simp [loaded])]
  exact .inl ty

namespace Typed

variable {R : Option Value → Prop} {c c' : Compilation} {gone gone' : InstId → Prop} {i j : InstId}
  {node : Node} {ty : TypeId}

theorem pointsAt (h : c.Typed gone) {id : NodeId} (found : c.arena.find? id = some node)
    (value : node.value = some (.inst i)) (address : node.flags.address = true) :
    c.PointsAt gone i node.ty :=
  (h.nodes found value).imp fun ty points => by rwa [Node.Expects, if_pos address] at points

theorem pointsAt_var (h : c.Typed gone) {k : Nat} {v : Variable} (found : c.vars[k]? = some v)
    (stored : v.storage = .inst j) : c.PointsAt gone j v.ty := by
  refine (h.vars found stored).imp_right fun ⟨allotted, ⟨name, slotType, live⟩, known⟩ => ?_
  refine ⟨_, live, rfl, fun free => known.imp_left ?_⟩
  rintro rfl
  exact h.slots live free

/-- A new node has a value that it expects. -/
theorem valued (h : c.Typed gone) (asked : c.types.Asked) (valued : c.Valued node)
    (value : node.value = some (.inst i)) : c.Provides gone i node.Expects := by
  cases valued with
  | plain other => exact absurd value (other i)
  | computed produces value' loaded =>
    cases value.symm.trans value'
    exact produces.expects loaded
  | located locates value' address =>
    cases value.symm.trans value'
    exact locates.pointsAt.expects address
  | ofVar found stored ty address =>
    have points := h.pointsAt_var found (Option.some.inj (stored.symm.trans value))
    exact PointsAt.expects (ty ▸ points) address
  | same found same ty address =>
    refine (h.nodes found (same.symm.trans value)).imp fun _ expects => ?_
    rwa [Node.Expects, ← address, ← ty] at expects
  | deref found same loaded address points =>
    refine (h.nodes found (same.symm.trans value)).imp fun ty expects => ?_
    rw [Node.Expects, if_neg (by simp [loaded])] at expects
    rw [Node.Expects, if_pos address, asked.stored_pointee points]
    rcases expects with rfl | ⟨target, points', points''⟩
    · exact points
    · cases points.symm.trans points''
      exact points'
  | address found same address loaded points =>
    refine (h.pointsAt found (same.symm.trans value) address).imp fun ty points' => ?_
    rw [Node.Expects, if_neg (by simp [loaded])]
    exact .inr ⟨_, points', points⟩

/-! ## Actions -/

theorem acts_nodes (h : c.Typed gone) (regular : c.Regular) (act : c.Acts True R c') {id : NodeId}
    (found : c'.arena.find? id = some node) (value : node.value = some (.inst i)) :
    c'.Provides gone i node.Expects := by
  have carry {n : Node} (provides : c.Provides gone i n.Expects) : c'.Provides gone i n.Expects :=
    act.expects trivial regular.asked.reachable provides
  have old {n : Node} (before : c.arena.find? id = some n) (look : node.look = n.look) :
      c'.Provides gone i node.Expects := by
    obtain ⟨-, ty, same, flags⟩ := Node.look_eq.1 look
    have e : n.Expects = node.Expects := by
      funext t ty'
      rw [Node.Expects, Node.Expects, ty, flags]
    exact e ▸ carry (h.nodes before (same.symm.trans value))
  cases act with
  | node valued =>
    obtain ⟨-, rfl⟩ | before := Arena.find?_add_cases found
    · exact carry (h.valued regular.asked (valued trivial) value)
    · exact old before rfl
  | retouch find look =>
    obtain ⟨rfl, rfl⟩ | before := Arena.find?_set_cases find found
    · exact old find look
    · exact old before rfl
  | finish find loaded produces =>
    obtain ⟨rfl, rfl⟩ | before := Arena.find?_set_cases find found
    · exact carry (Produces.expects (produces trivial i (Option.some.inj value)) (loaded trivial))
    · exact old before rfl
  | load find =>
    obtain ⟨rfl, rfl⟩ | before := Arena.find?_set_cases find found
    · cases value
      exact Produces.expects ⟨_, InstStore.find?_create .., rfl, rfl⟩ rfl
    · exact old before rfl
  | body defines =>
    obtain ⟨n, before, look⟩ := defines.look_eq found
    exact old before look
  | shed sheds =>
    obtain ⟨n, before, rfl | rfl⟩ := sheds.nodes found
    · exact old before rfl
    · exact old before rfl
  | _ => exact old found rfl

theorem acts_loads (h : c.Typed gone) (reach : c.types.Reachable) (act : c.Acts True R c')
    {p : InstId}
    (found : c'.insts.find? i = some ⟨.load (.inst p), ty⟩) : c'.PointsAt gone p ty := by
  refine act.pointsAt trivial reach ?_
  by_cases lt : i.index < c.insts.slots.size
  · exact h.loads (act.follows.find?_of_lt lt found)
  · have made := act.follows.new (Nat.le_of_not_lt lt) found
    obtain ⟨id, node, find, value, address, rfl⟩ := made.loads _ rfl
    exact h.pointsAt find value address

theorem acts_slots (h : c.Typed gone) (reach : c.types.Reachable) (act : c.Acts True R c')
    {allotted : TypeId} {name : Name} (found : c'.insts.find? i = some ⟨.alloca allotted name, ty⟩)
    (free : c'.types.ErrorFree) : c'.types.pointee? ty = .ok (some allotted.stored) := by
  have run := TypeTable.run_of_asks act.types_le
  have before := free.before reach run
  refine reach.pointee?_eq run ?_
  by_cases lt : i.index < c.insts.slots.size
  · exact h.slots (act.follows.find?_of_lt lt found) before
  · exact (act.follows.new (Nat.le_of_not_lt lt) found).slots trivial _ _ rfl before

theorem acts_vars (h : c.Typed gone) (act : c.Acts True R c') {k : Nat} {v : Variable}
    (found : c'.vars[k]? = some v) (stored : v.storage = .inst j) :
    gone j ∨ ∃ allotted, c'.insts.Allots j allotted ∧ (allotted = v.ty ∨ c'.Mixed j) := by
  have stays {allotted : TypeId} (allots : c.insts.Allots j allotted) :
      c'.insts.Allots j allotted := by
    obtain ⟨name, slotType, live⟩ := allots
    exact ⟨name, slotType, act.kept trivial j _ live rfl⟩
  have mixes (mixed : c.Mixed j) : c'.Mixed j := act.mixed mixed
  have old (before : c.vars[k]? = some v) :
      gone j ∨ ∃ allotted, c'.insts.Allots j allotted ∧ (allotted = v.ty ∨ c'.Mixed j) :=
    (h.vars before stored).imp_right fun ⟨allotted, allots, known⟩ =>
      ⟨allotted, stays allots, known.imp_right mixes⟩
  have keeps {n : Nat} {w : Variable} (found : c.vars[n]? = some w) := act.vars_kept found
  cases act with
  | newVar allots =>
    rw [Array.getElem?_push] at found
    split at found
    · cases found
      exact .inr ⟨v.ty, stays (allots j stored), .inl rfl⟩
    · exact old found
  | slot at' _ allots =>
    rw [Array.getElem?_modify] at found
    split at found
    · rename_i e
      subst e
      rw [at'] at found
      cases found
      cases stored
      exact .inr ⟨_, stays allots, .inl rfl⟩
    · exact old found
  | spill at' _ slot =>
    have now := found
    rw [Array.getElem?_modify] at found
    split at found
    · rename_i e
      subst e
      rw [at'] at found
      cases found
      cases stored
      -- The slot was made for a variable that has it still, of this type or of another one.
      obtain ⟨n, w, before, owner⟩ := h.spills slot
      obtain ⟨w', now', ty, stored'⟩ := keeps before
      refine (h.vars before owner).imp_right fun ⟨allotted, allots, known⟩ => ?_
      refine ⟨allotted, stays allots, ?_⟩
      rcases known with rfl | mixed
      · refine Classical.or_iff_not_imp_left.2 fun ne => ?_
        exact ⟨w', Array.mem_of_getElem? now', _, Array.mem_of_getElem? now, stored' j owner, rfl,
          by rwa [ty]⟩
      · exact .inr (mixes mixed)
    · exact old found
  | body defines =>
    rw [defines.rest] at found
    exact old found
  | _ => exact old found

theorem acts_spills (h : c.Typed gone) (act : c.Acts True R c') {i p : Nat}
    (spilled : c'.spill? i p = some j) :
    ∃ (k : Nat) (v : Variable), c'.vars[k]? = some v ∧ v.storage = .inst j := by
  have old (before : c.spill? i p = some j) :
      ∃ (k : Nat) (v : Variable), c'.vars[k]? = some v ∧ v.storage = .inst j := by
    obtain ⟨k, v, found, stored⟩ := h.spills before
    obtain ⟨v', now, -, stays⟩ := act.vars_kept found
    exact ⟨k, v', now, stays j stored⟩
  cases act with
  | aside spills => exact old ((spills i p).symm.trans spilled)
  | @slot _ k v _ at' _ _ spills =>
    rcases spills spilled with before | rfl
    · exact old before
    · refine ⟨k, { v with storage := .inst j }, ?_, rfl⟩
      rw [Array.getElem?_modify, if_pos rfl, at']
      rfl
  | body defines => exact old ((defines.spill?_eq i p).symm.trans spilled)
  | _ => exact old spilled

theorem acts (h : c.Typed gone) (regular : c.Regular) (act : c.Acts True R c') : c'.Typed gone :=
  have reach := regular.asked.reachable
  ⟨h.acts_nodes regular act, h.acts_loads reach act, h.acts_slots reach act, h.acts_vars act,
    h.acts_spills act⟩

theorem proceeds (h : c.Typed gone) (regular : c.Regular) (acts : c.Proceeds True R c') :
    c'.Typed gone := by
  induction acts with
  | refl => exact h
  | tail before act ih => exact ih.acts (Proceeds.regular before trivial regular) act

theorem mono (h : c.Typed gone) (imp : ∀ i, gone i → gone' i) : c.Typed gone' where
  nodes found value := (h.nodes found value).imp_left (imp _)
  loads found := (h.loads found).imp_left (imp _)
  slots := h.slots
  vars found stored := (h.vars found stored).imp_left (imp _)
  spills := h.spills

/-- What is consumed is gone from then on. -/
theorem consume (h : c.Typed gone) (consumes : consuming.holds c c')
    (old : ∀ i, gone i → gone' i)
    (new : ∀ i, c.insts.isLive i → c'.insts.find? i = none → gone' i) : c'.Typed gone' := by
  obtain ⟨arena, insts, globals, rfl, sheds⟩ := consumes
  have before {i : InstId} {inst : Inst} (found : insts.find? i = some inst) :
      c.insts.find? i = some inst := by
    rcases sheds.store i with same | freed
    · exact same.symm.trans found
    · cases freed.symm.trans found
  have stays {i : InstId} {inst : Inst} (found : c.insts.find? i = some inst) :
      gone' i ∨ insts.find? i = some inst := by
    rcases sheds.store i with same | freed
    · exact .inr (same.trans found)
    · exact .inl (new i (by simp [InstStore.isLive, found]) freed)
  have carry {i : InstId} {P : TypeTable → TypeId → Prop} (provides : c.Provides gone i P) :
      Provides { c with arena, insts, globals } gone' i P := by
    obtain was | ⟨inst, found, typed⟩ := provides
    · exact .inl (old i was)
    · exact (stays found).imp_right fun found => ⟨inst, found, typed⟩
  refine ⟨fun found value => ?_, fun found => carry (h.loads (before found)),
    fun found => h.slots (before found), fun found stored => ?_, h.spills⟩
  · obtain ⟨node, find, rfl | rfl⟩ := sheds.nodes found
    · exact carry (h.nodes find value)
    · have provides := h.nodes find value
      exact carry provides
  · obtain was | ⟨allotted, ⟨name, slotType, found⟩, known⟩ := h.vars found stored
    · exact .inl (old _ was)
    · exact (stays found).imp_right fun found => ⟨allotted, ⟨name, slotType, found⟩, known⟩

/-- An address that is not gone points at what it should exactly if it is no slot for another
type. -/
theorem addresses (h : c.Typed gone) (free : c.types.ErrorFree) (points : c.PointsAt gone i ty)
    (left : ¬gone i) : c.Addresses i ty := by
  obtain ⟨inst, live, -, known⟩ := points.resolve_left left
  have slot {allotted : TypeId} {name : Name} (kind : inst.kind = .alloca allotted name) :
      c.types.pointee? inst.ty = .ok (some allotted.stored) := by
    obtain ⟨_, slotType⟩ := inst
    cases kind
    exact h.slots live free
  have foreign : inst.ForeignTo ty → c.types.pointee? inst.ty ≠ .ok (some ty.stored) := by
    rintro ⟨allotted, name, kind, ne⟩ points
    exact ne (Option.some.inj (Except.ok.inj ((slot kind).symm.trans points)))
  refine ⟨inst, live, ⟨fun points other => foreign other points, fun own => ?_⟩, fun other => ?_⟩
  · rcases known free with points | ⟨v, mem, -, -, stored, -, -⟩
    · exact points
    · obtain ⟨k, found⟩ := Array.mem_iff_getElem?.1 mem
      obtain ⟨allotted, ⟨name, slotType, live'⟩, -⟩ := (h.vars found stored).resolve_left left
      cases live.symm.trans live'
      have same : allotted.stored = ty.stored :=
        Classical.not_not.1 fun ne => own ⟨allotted, name, rfl, ne⟩
      rw [slot rfl, same]
  · exact (known free).resolve_left (foreign other)

end Typed

/-! ## Sessions -/

theorem Regular.consume {c c' : Compilation} (h : c.Regular) (consumes : consuming.holds c c') :
    c'.Regular := by
  obtain ⟨arena, insts, globals, rfl, sheds⟩ := consumes
  refine ⟨h.asked, fun found building => ?_, h.params⟩
  obtain ⟨node, find, rfl | rfl⟩ := sheds.nodes found
  · exact h.building find building
  · have plain := h.building find building
    exact plain

theorem regular_initial (settings : Settings) : (initial settings).Regular where
  asked := ⟨settings.target, .refl⟩
  building {id node} found building := by
    match id with
    | ⟨0⟩ | ⟨1⟩ =>
      cases found
      cases building
    | ⟨_ + 2⟩ => cases found
  params {k p v} found kind := by
    cases k with
    | zero =>
      cases found
      cases kind
    | succ k => cases found

theorem typed_initial (settings : Settings) (gone : InstId → Prop) :
    (initial settings).Typed gone where
  nodes {id node i} found value := by
    match id with
    | ⟨0⟩ | ⟨1⟩ =>
      cases found
      cases value
    | ⟨_ + 2⟩ => cases found
  loads found := by cases found
  slots found := by cases found
  vars {k v j} found stored := by
    cases k with
    | zero =>
      cases found
      cases stored
    | succ k => cases found
  spills {i p j} spilled := by
    cases i with
    | zero => cases spilled
    | succ i => cases spilled

end Compilation

/-- Nothing is done by hand, and requests are straight. -/
def Move.Straight : Move → Prop
  | request before r _ _ => r.Straight before
  | rework .. => False

instance (m : Move) : Decidable m.Straight :=
  match m with
  | .request before r .. => inferInstanceAs (Decidable (r.Straight before))
  | .rework .. => .isFalse id

/-- An expression is consumed, and an instruction is freed with it. -/
def Move.Frees (i : InstId) : Move → Bool
  | request before r _ after => r.consumes && before.insts.isLive i && !after.insts.isLive i
  | rework .. => false

/-- Some move has freed an instruction together with an expression that it consumed. -/
def Session.Freed (moves : List Move) (i : InstId) : Prop := ∃ m ∈ moves, m.Frees i

instance (moves : List Move) (i : InstId) : Decidable (Session.Freed moves i) :=
  inferInstanceAs (Decidable (∃ m ∈ moves, _))

namespace Session

open Compilation

variable {c : Compilation} {moves : List Move}

theorem typed (session : Session c moves) (straight : ∀ m ∈ moves, m.Straight) :
    c.Regular ∧ c.Typed (Freed moves) := by
  induction session with
  | start settings => exact ⟨regular_initial settings, typed_initial settings _⟩
  | @request c c' moves r reply _ run ih =>
    obtain ⟨here, straight⟩ := List.forall_mem_cons.1 straight
    obtain ⟨regular, typed⟩ := ih straight
    have old (i : InstId) (freed : Freed moves i) : Freed (.request c r reply c' :: moves) i :=
      freed.imp fun _ => And.imp_left (List.mem_cons_of_mem _)
    by_cases consumes : r.consumes
    · have consumed := Build.consumes_request consumes c reply c' trivial run
      refine ⟨regular.consume consumed, typed.consume consumed old fun i live dead => ?_⟩
      exact ⟨_, List.mem_cons_self, by
        rw [Move.Frees, consumes, live, InstStore.isLive, dead]
        rfl⟩
    · have acts := Build.proceeds_request (T := True) (fun _ => regular) (fun _ => here)
        (fun _ => consumes) run
      exact ⟨acts.regular trivial regular, (typed.proceeds regular acts).mono old⟩
  | rework => exact absurd (straight _ List.mem_cons_self) id

/-- What was freed does not come back. -/
theorem dead_of_freed (session : Session c moves) {i : InstId} (freed : Freed moves i) :
    i.index < c.insts.slots.size ∧ c.insts.find? i = none := by
  induction session with
  | start => simp [Freed] at freed
  | request _ run ih =>
    have follows := (Build.proceeds_request False.elim False.elim False.elim run).returns
    obtain ⟨m, mem, frees⟩ := freed
    rcases List.mem_cons.1 mem with rfl | mem
    · simp only [Move.Frees, InstStore.isLive, Bool.and_eq_true, Bool.not_eq_true',
        Option.isSome_eq_false_iff, Option.isNone_iff_eq_none] at frees
      obtain ⟨inst, live⟩ := Option.isSome_iff_exists.1 frees.1.2
      exact ⟨Nat.lt_of_lt_of_le (InstStore.lt_of_find? live) follows.size_le, frees.2⟩
    · obtain ⟨lt, dead⟩ := ih ⟨m, mem, frees⟩
      exact ⟨Nat.lt_of_lt_of_le lt follows.size_le, (follows.old lt).elim (·.trans dead) id⟩
  | rework _ _ ih =>
    obtain ⟨m, mem, frees⟩ := freed
    rcases List.mem_cons.1 mem with rfl | mem
    · cases frees
    · exact ih ⟨m, mem, frees⟩

/-- Unless it was freed, an address is an instruction that points at objects of the type of its
node, and a load reads what its address points at. The only exceptions are slots that were made for
another type. -/
theorem addresses_typed_iff (session : Session c moves) (straight : ∀ m ∈ moves, m.Straight)
    (free : c.types.ErrorFree) :
    (∀ id node i, c.arena.find? id = some node → node.flags.address = true →
      node.value = some (.inst i) → (c.Addresses i node.ty ↔ ¬Freed moves i)) ∧
    ∀ i p ty, c.insts.find? i = some ⟨.load (.inst p), ty⟩ →
      (c.Addresses p ty ↔ ¬Freed moves p) := by
  obtain ⟨-, typed⟩ := session.typed straight
  have left {i : InstId} {ty : TypeId} (addresses : c.Addresses i ty) (freed : Freed moves i) :
      False := by
    obtain ⟨inst, live, -⟩ := addresses
    cases (session.dead_of_freed freed).2.symm.trans live
  refine ⟨fun id node i found address value => ⟨left, ?_⟩, fun i p ty found => ⟨left, ?_⟩⟩
  · exact typed.addresses free (typed.pointsAt found value address)
  · exact typed.addresses free (typed.loads found)

/-- A field of a struct behind a pointer, reached once more through its address, and a local of
which there are no objects. -/
def followed : Compilation × List Move :=
  record .standard [.structType [(.empty, ⟨5⟩), (.empty, ⟨11⟩)], .pointerType ⟨14⟩,
    .functionType none [] [] .void, .declareFunction ⟨16⟩ "f" "" ⟨0⟩ false .synthetic,
    .parameterVariable ⟨1⟩ "p" ⟨15⟩ false .synthetic, .varExpr ⟨1⟩ .synthetic,
    .indirect ⟨14⟩ ⟨2⟩ .synthetic, .structField ⟨3⟩ 1 .synthetic, .addressOf ⟨4⟩ .synthetic,
    .indirect ⟨11⟩ ⟨5⟩ .synthetic, .unary .minus ⟨6⟩ .synthetic,
    .localVariable ⟨1⟩ "v" .void false .synthetic, .varExpr ⟨2⟩ .synthetic]

/-- The struct, its field as it is loaded, and the local. -/
theorem addresses_typed_followed : (∀ m ∈ followed.2, m.Straight) ∧ followed.1.types.ErrorFree ∧
    followed.1.Addresses ⟨1⟩ ⟨14⟩ ∧ followed.1.Addresses ⟨2⟩ ⟨11⟩ ∧
    followed.1.Addresses ⟨5⟩ .void := by
  have straight : ∀ m ∈ followed.2, m.Straight := by decide +kernel
  have free : followed.1.types.ErrorFree := by decide +kernel
  have session : Session followed.1 followed.2 := session_record ..
  obtain ⟨addresses, loads⟩ := addresses_typed_iff session straight free
  have struct : followed.1.arena.find? ⟨3⟩ =
      some ⟨.deref, [⟨2⟩], .synthetic, ⟨14⟩, some (.inst ⟨1⟩), [], ⟨true, false⟩⟩ := by
    decide +kernel
  have empty : followed.1.arena.find? ⟨8⟩ =
      some ⟨.var ⟨2⟩, [], .synthetic, .void, some (.inst ⟨5⟩), [], ⟨true, false⟩⟩ := by
    decide +kernel
  exact ⟨straight, free, (addresses _ _ _ struct rfl rfl).2 (by decide +kernel),
    (loads ⟨3⟩ _ _ (by decide +kernel)).2 (by decide +kernel),
    (addresses _ _ _ empty rfl rfl).2 (by decide +kernel)⟩

/-- Two parameters, of which one is dropped from the list, and a third one of another type. The
second and the third are used. -/
def mistyped : Compilation × List Move :=
  record .standard [.functionType none [] [] .void,
    .declareFunction ⟨14⟩ "f" "" ⟨0⟩ false .synthetic,
    .parameterVariable ⟨1⟩ "a" ⟨5⟩ false .synthetic,
    .parameterVariable ⟨1⟩ "b" ⟨5⟩ false .synthetic, .setParameters ⟨1⟩ [⟨2⟩],
    .parameterVariable ⟨1⟩ "c" ⟨11⟩ false .synthetic, .varExpr ⟨2⟩ .synthetic,
    .varExpr ⟨3⟩ .synthetic]

/-- The slot of the second is the address of the third, and points at objects of the wrong type. -/
theorem addresses_not_typed_mistyped : Session mistyped.1 mistyped.2 ∧
    (∀ m ∈ mistyped.2, m.Straight) ∧ mistyped.1.types.ErrorFree ∧
    mistyped.1.arena.find? ⟨3⟩ =
      some ⟨.var ⟨3⟩, [], .synthetic, ⟨11⟩, some (.inst ⟨0⟩), [], ⟨true, false⟩⟩ ∧
    mistyped.1.insts.find? ⟨0⟩ = some ⟨.alloca ⟨5⟩ ⟨3⟩, ⟨15⟩⟩ ∧
    mistyped.1.types.pointee? ⟨15⟩ = .ok (some ⟨5⟩) :=
  ⟨session_record .., by decide +kernel⟩

/-- A composite whose value was followed as a pointer, and then consumed for a global. -/
def consumed : Compilation × List Move :=
  record .standard [.pointerType ⟨5⟩, .structLiteral ⟨14⟩ [] .synthetic,
    .indirect ⟨5⟩ ⟨2⟩ .synthetic, .globalVariable "g" "" ⟨14⟩ false false false .synthetic,
    .setGlobalInit ⟨1⟩ ⟨2⟩]

/-- The instruction of an address is gone. -/
example : (consumed.1.arena.find? ⟨3⟩).map (fun node => (node.flags.address, node.value)) =
      some (true, some (.inst ⟨0⟩)) ∧
    (∀ m ∈ consumed.2, m.Straight) ∧ Freed consumed.2 ⟨0⟩ := by decide +kernel

end Session

end Codegen
