import Codegen.Proofs.Lowering.Draft
import Codegen.Proofs.Outcome

/-!
Steps of lowering, each as a change of the draft. A step that succeeds leaves the arena and the
store alone unless it says so.
-/

namespace Codegen

namespace Lowering

/-- The body under construction. -/
def draft (s : Lowering) : Draft :=
  ⟨s.builder, s.labels, ⟨s.nextIf, s.nextOrphan, s.nextSwitch, s.nextCase, s.nextTest⟩⟩

/-- The same state with another draft. -/
def redraft (s : Lowering) (d : Draft) : Lowering :=
  ⟨s.func, s.arena, s.insts, d.builder, d.labels, d.counts.ifs, d.counts.orphans, d.counts.switches,
    d.counts.cases, d.counts.tests⟩

section

variable (s : Lowering) (d d' : Draft)

@[simp] theorem insts_redraft : (s.redraft d).insts = s.insts := rfl

@[simp] theorem draft_redraft : (s.redraft d).draft = d := rfl

@[simp] theorem redraft_redraft : (s.redraft d).redraft d' = s.redraft d' := rfl

theorem with_nextIf (n : Nat) :
    { s with nextIf := n } = s.redraft (s.draft.count fun c => { c with ifs := n }) := rfl

theorem with_nextSwitch (n : Nat) :
    { s with nextSwitch := n } = s.redraft (s.draft.count fun c => { c with switches := n }) := rfl

end

end Lowering

namespace Draft

def moveTo (d : Draft) (b : BlockId) : Draft := { d with builder := { d.builder with cursor := b } }

/-- Closes the block at the cursor. -/
def close (d : Draft) (exit : Terminator) : Draft := d.turn exit d.cursor

@[simp] theorem size_close (d : Draft) (exit : Terminator) : (d.close exit).size = d.size :=
  Array.size_modify

theorem moveTo_close (d : Draft) (exit : Terminator) (b : BlockId) :
    (d.close exit).moveTo b = d.turn exit b := rfl

theorem push_modify {γ : Type} {xs : Array γ} {i : Nat} (lt : i < xs.size) (f : γ → γ) (x : γ) :
    (xs.modify i f).push x = (xs.push x).modify i f := by
  apply Array.ext_getElem?
  intro j
  simp only [Array.getElem?_push, Array.getElem?_modify, Array.size_modify]
  by_cases e : j = xs.size
  · have : i ≠ j := by omega
    simp [e, Nat.ne_of_lt lt]
  · simp [e]

/-- A block is closed before or after the next one is made. -/
theorem drop_eq {d : Draft} {block : OpenBlock} (found : d.block? d.cursor = some block)
    (exit : Terminator) :
    d.drop exit = (((d.close exit).newBlock s!"orphan.{d.counts.orphans}").count fun c =>
      { c with orphans := c.orphans + 1 }).moveTo (d.close exit).fresh := by
  have fresh : (d.close exit).fresh = d.fresh := by simp [Draft.fresh, close]
  have lt : d.builder.cursor.index < d.builder.blocks.size := lt_of_block? found
  rw [fresh]
  simp only [drop, turn, newBlock, count, close, moveTo, Builder.newBlock, cursor, push_modify lt]

end Draft

namespace Lower

variable {α β : Type} {s s' : Lowering} {exit : Terminator} {fuel i : Nat} {id : NodeId} {u : Unit}

section

variable (s) (b : BlockId) (name : String)

theorem newBlock_bind (f : BlockId → Lower β) :
    (newBlock name >>= f) s = f s.draft.fresh (s.redraft (s.draft.newBlock name)) := rfl

end

/-- A step of the builder that passes one test and then has one outcome. -/
theorem onBuilder_eq_ok (step : Builder → Except Fault Builder) {P : Prop} {b : Builder}
    (steps : ∀ {b'}, step s.builder = .ok b' ↔ P ∧ b' = b) :
    (do let s ← get; set { s with builder := ← step s.builder } : Lower Unit) s = .ok (u, s') ↔
      P ∧ s' = { s with builder := b } := by
  rw [Run.get_bind]
  constructor
  · intro h
    obtain ⟨_, e, h⟩ := Run.lift_bind_ok h
    obtain ⟨passed, rfl⟩ := steps.1 e
    exact ⟨passed, Run.set_ok h⟩
  · rintro ⟨passed, rfl⟩
    exact Run.bind_of_ok (Run.lift_of_ok (steps.2 ⟨passed, rfl⟩)) _

theorem tested_bind_ok {op : Lower Unit} {P : Prop} {s₁ : Lowering} {f : Unit → Lower α}
    {r : α × Lowering} (steps : ∀ {u s'}, op s = .ok (u, s') ↔ P ∧ s' = s₁) :
    (op >>= f) s = .ok r ↔ P ∧ f () s₁ = .ok r := by
  rw [Run.bind_ok]
  constructor
  · rintro ⟨_, _, e, h⟩
    obtain ⟨passed, rfl⟩ := steps.1 e
    exact ⟨passed, h⟩
  · exact fun h => ⟨(), _, steps.2 ⟨h.1, rfl⟩, h.2⟩

theorem moveTo_eq_ok {b : BlockId} : moveTo b s = .ok (u, s') ↔
    b.index < s.draft.size ∧ s' = s.redraft (s.draft.moveTo b) := by
  refine onBuilder_eq_ok (·.moveTo b) fun {b'} => ?_
  by_cases lt : b.index < s.builder.blocks.size <;>
    simp [Builder.moveTo, Draft.size, Lowering.draft, Draft.moveTo, lt, eq_comm]

theorem moveTo_bind_ok {b : BlockId} {f : Unit → Lower α} {r : α × Lowering} :
    (moveTo b >>= f) s = .ok r ↔
      b.index < s.draft.size ∧ f () (s.redraft (s.draft.moveTo b)) = .ok r :=
  tested_bind_ok moveTo_eq_ok

theorem node_bind_ok {f : Node → Lower β} {r : β × Lowering} (h : (Lower.node id >>= f) s = .ok r) :
    ∃ node, s.arena.find? id = some node ∧ f node s = .ok r := by
  obtain ⟨node, found, h⟩ := Run.lift_bind_ok (x := s.arena.get id) h
  exact ⟨node, Arena.get_eq_ok.1 found, h⟩

theorem valueOf_bind_ok {f : Value → Lower β} {r : β × Lowering}
    (h : (valueOf id >>= f) s = .ok r) :
    ∃ value, s.arena.value? id = some value ∧ f value s = .ok r := by
  obtain ⟨value, s₁, e, h⟩ := Run.bind_ok.1 h
  obtain ⟨node, found, e⟩ := node_bind_ok e
  cases has : node.value with
  | some v =>
    simp only [has] at e
    cases e
    exact ⟨_, by simp [Arena.value?, found, has], h⟩
  | none =>
    simp only [has] at e
    cases e

theorem node_eq {node : Node} (found : s.arena.find? id = some node) :
    Lower.node id s = .ok (node, s) := by
  rw [Lower.node, Run.get_bind]
  exact Run.lift_of_ok (Arena.get_eq_ok.2 found)

theorem valueOf_eq {value : Value} (has : s.arena.value? id = some value) :
    valueOf id s = .ok (value, s) := by
  obtain ⟨node, found, has⟩ := Option.bind_eq_some_iff.1 has
  rw [valueOf, Run.bind_of_ok (node_eq found), has]
  rfl

theorem modify_of_getElem? {γ : Type} {xs : Array γ} {x : γ} (h : xs[i]? = some x) (f : γ → γ) :
    (xs.modify i fun _ => f x) = xs.modify i f := by
  apply Array.ext_getElem?
  intro j
  by_cases e : i = j
  · subst e
    simp [Array.getElem?_modify, h]
  · simp [Array.getElem?_modify, e]

/-- A change of the block at the cursor, which has to be open. -/
theorem atCursor_eq_ok {b b' : Builder} {fault : Fault} {f : OpenBlock → OpenBlock} :
    (b.current >>= fun block => if block.terminator.isSome then throw fault
      else pure (b.setCurrent (f block))) = .ok b' ↔
      (b.blocks[b.cursor.index]?).any (·.terminator.isNone) ∧
        b' = { b with blocks := b.blocks.modify b.cursor.index f } := by
  unfold Builder.current Builder.setCurrent
  cases found : b.blocks[b.cursor.index]? with
  | none => simp [bind, Except.bind]
  | some block =>
    have same := modify_of_getElem? found f
    cases none : block.terminator <;> simp [bind, Except.bind, pure, Except.pure, none,
      same, eq_comm]

theorem append_eq_ok {insts : List InstId} : append insts s = .ok (u, s') ↔
    s.draft.isOpen s.draft.cursor ∧ s' = s.redraft (s.draft.add insts) :=
  onBuilder_eq_ok (·.append insts) atCursor_eq_ok

theorem terminate_eq_ok : terminate exit s = .ok (u, s') ↔
    s.draft.isOpen s.draft.cursor ∧ s' = s.redraft (s.draft.close exit) :=
  onBuilder_eq_ok (·.terminate exit) atCursor_eq_ok

theorem terminate_bind_ok {f : Unit → Lower α} {r : α × Lowering} :
    (terminate exit >>= f) s = .ok r ↔
      s.draft.isOpen s.draft.cursor ∧ f () (s.redraft (s.draft.close exit)) = .ok r :=
  tested_bind_ok terminate_eq_ok

/-- The cursor leaves the block that it closes. -/
theorem turn_bind_ok {next : BlockId} {f : Unit → Lower α} {r : α × Lowering} :
    (terminate exit >>= fun _ => moveTo next >>= f) s = .ok r ↔
      s.draft.isOpen s.draft.cursor ∧ next.index < s.draft.size ∧
        f () (s.redraft (s.draft.turn exit next)) = .ok r := by
  rw [terminate_bind_ok, moveTo_bind_ok, Lowering.draft_redraft, Draft.size_close]
  rfl

theorem turn_eq_ok {next : BlockId} : (terminate exit >>= fun _ => moveTo next) s = .ok (u, s') ↔
    s.draft.isOpen s.draft.cursor ∧ next.index < s.draft.size ∧
      s' = s.redraft (s.draft.turn exit next) := by
  rw [terminate_bind_ok, moveTo_eq_ok, Lowering.draft_redraft, Draft.size_close]
  rfl

theorem drop_eq_ok : (terminate exit >>= fun _ => startOrphan) s = .ok (u, s') ↔
    s.draft.isOpen s.draft.cursor ∧ s' = s.redraft (s.draft.drop exit) := by
  refine terminate_bind_ok.trans (and_congr_right fun isOpen => ?_)
  obtain ⟨block, found, _⟩ := Draft.exists_of_isOpen isOpen
  rw [Draft.drop_eq found]
  refine moveTo_eq_ok.trans (and_iff_right ?_)
  exact Nat.lt_of_lt_of_eq (Nat.lt_succ_self _) (Draft.size_newBlock ..).symm

theorem labelBlock_eq_ok {owner : FuncId} {l : LabelId} {b : BlockId} :
    labelBlock owner l s = .ok (b, s') ↔
      owner = s.func ∧ b = s.draft.target l ∧ s' = s.redraft (s.draft.meet l) := by
  have lookup : s.draft.labelled? l = s.labels.lookup l := rfl
  rw [labelBlock, Run.get_bind]
  by_cases own : owner = s.func
  · rw [if_neg (by simp [own])]
    cases e : s.labels.lookup l <;> simp only [own, true_and, Draft.target, Draft.meet, lookup, e]
    all_goals exact ⟨fun h => (by cases h; exact ⟨rfl, rfl⟩), fun h => (by rw [h.1, h.2]; rfl)⟩
  · rw [if_pos own]
    exact ⟨fun h => (by cases h), fun h => absurd h.1 own⟩

theorem childAt_eq_ok {kids : List NodeId} {kid : NodeId} :
    childAt kids i = .ok kid ↔ kids[i]? = some kid := by
  unfold childAt
  split <;> simp_all

theorem childrenFrom_eq_ok {kids values : List NodeId} {start count : Nat} :
    childrenFrom kids start count = .ok values ↔
      start + count ≤ kids.length ∧ (kids.drop start).take count = values := by
  unfold childrenFrom
  split <;> rename_i le <;> simp [le]

/-- Case blocks are numbered in a row. -/
theorem caseBlocks_eq (cases : List SwitchCase) (s : Lowering) :
    caseBlocks cases s = .ok ((List.range' s.draft.size cases.length).map BlockId.mk,
      s.redraft (s.draft.newCases cases.length)) := by
  induction cases generalizing s with
  | nil => rfl
  | cons case rest ih =>
    let d := (s.draft.newBlock s!"case.{s.nextCase}").count fun c => { c with cases := c.cases + 1 }
    have size : (s.redraft d).draft.size = s.draft.size + 1 := by simp [d]
    rw [caseBlocks, Run.get_bind, Run.set_bind, newBlock_bind]
    refine (Run.bind_of_ok (ih (s.redraft d)) _).trans ?_
    rw [size, List.length_cons, List.range'_succ]
    rfl

/-- A test makes its comparison and goes on where it fails. -/
theorem test_eq_ok {scrutinee value : Value} {body : BlockId} :
    test scrutinee value body s = .ok (u, s') ↔ s.draft.isOpen s.draft.cursor ∧
      s' = { s.redraft ((s.draft.add [⟨s.insts.slots.size⟩]).pass (.inst ⟨s.insts.slots.size⟩)
        body) with insts := (s.insts.create (.compare .eqEq scrutinee value) .bool).2 } := by
  let made : Lowering :=
    { s with
      insts := (s.insts.create (.compare .eqEq scrutinee value) .bool).2
      nextTest := s.nextTest + 1 }
  have start : test scrutinee value body s = (append [⟨s.insts.slots.size⟩] >>= fun _ =>
      newBlock s!"switch.test.{s.nextTest}" >>= fun next =>
        terminate (.branch (.inst ⟨s.insts.slots.size⟩) body next) >>= fun _ => moveTo next) made :=
          rfl
  rw [start, Run.bind_ok]
  constructor
  · rintro ⟨_, _, e, h⟩
    obtain ⟨isOpen, rfl⟩ := append_eq_ok.1 e
    exact ⟨isOpen, (turn_eq_ok.1 h).2.2⟩
  · rintro ⟨isOpen, rfl⟩
    refine ⟨(), _, append_eq_ok.2 ⟨isOpen, rfl⟩, ?_⟩
    refine turn_eq_ok.2 ⟨Draft.isOpen_newBlock ((Draft.isOpen_add ..).trans isOpen) _, ?_, rfl⟩
    exact Nat.lt_of_lt_of_eq (Nat.lt_succ_self _) (Draft.size_newBlock ..).symm

/-- An instruction goes to the cursor, or is a return and closes the block. -/
theorem place_eq_ok {id : InstId} : place id s = .ok (u, s') ↔ s.draft.isOpen s.draft.cursor ∧
    ∃ inst, s.insts.find? id = some inst ∧
      ((∃ v, inst.kind = .ret v ∧
          s' = { s.redraft (s.draft.drop (.ret v)) with insts := s.insts.free id }) ∨
        (∀ v, inst.kind ≠ .ret v) ∧ s' = s.redraft (s.draft.add [id])) := by
  rw [place, Run.get_bind]
  cases found : s.insts.find? id with
  | none =>
    refine ⟨fun h => ?_, fun h => by simp at h⟩
    obtain ⟨inst, e, -⟩ := Run.lift_bind_ok h
    cases found.symm.trans (InstStore.get_eq_ok.1 e)
  | some inst =>
    rw [Run.bind_of_ok (Run.lift_of_ok (InstStore.get_eq_ok.2 found))]
    cases kind : inst.kind
    case ret v =>
      refine (drop_eq_ok (s := { s with insts := s.insts.free id })).trans ?_
      simp [kind]
      rfl
    all_goals
      refine append_eq_ok.trans ?_
      simp [kind]

/-! ## Statements -/

/-- What a walk into a statement does, by the kind of the statement. -/
inductive Walks (fuel : Nat) (node : Node) (s : Lowering) : Lowering → Prop
  | block {s' : Lowering} (kind : node.kind = .blockStmt)
    (run : node.kids.forM (walk fuel) s = .ok ((), s')) : Walks fuel node s s'
  | expr {s' : Lowering} {kid : NodeId} (kind : node.kind = .exprStmt)
    (child : node.kids[0]? = some kid) (run : emit fuel kid s = .ok ((), s')) : Walks fuel node s s'
  | choice {s' : Lowering} {cond thenStmt elseStmt : NodeId} (kind : node.kind = .ifStmt)
    (kids : node.kids = [cond, thenStmt, elseStmt])
    (run : walkIf fuel cond thenStmt elseStmt s = .ok ((), s')) : Walks fuel node s s'
  | label {owner l} (kind : node.kind = .labelStmt owner l)
    (isOpen : (s.draft.meet l).isOpen (s.draft.meet l).cursor) : Walks fuel node s
      (s.redraft ((s.draft.meet l).turn (.jump (s.draft.target l)) (s.draft.target l)))
  | goto {owner l} (kind : node.kind = .gotoStmt owner l)
    (isOpen : (s.draft.meet l).isOpen (s.draft.meet l).cursor) : Walks fuel node s
      (s.redraft ((s.draft.meet l).drop (.jump (s.draft.target l))))
  | switch {s' : Lowering} (layout : SwitchLayout) (kind : node.kind = .switchStmt layout)
    (run : walkSwitch fuel node.kids layout.cases s = .ok ((), s')) : Walks fuel node s s'
  | nothing (kind : node.kind = .emptyStmt ∨ node.kind = .errorStmt) : Walks fuel node s s

theorem Walks.congr {node node' : Node} (h : Walks fuel node s s') (kind : node'.kind = node.kind)
    (kids : node'.kids = node.kids) : Walks fuel node' s s' := by
  cases h with
  | block k run => exact .block (kind.trans k) (kids ▸ run)
  | expr k child run => exact .expr (kind.trans k) (kids ▸ child) run
  | choice k e run => exact .choice (kind.trans k) (kids.trans e) run
  | label k isOpen => exact .label (kind.trans k) isOpen
  | goto k isOpen => exact .goto (kind.trans k) isOpen
  | switch layout k run => exact .switch layout (kind.trans k) (kids ▸ run)
  | nothing k => exact .nothing (kind ▸ k)

theorem walk_ok (h : walk (fuel + 1) id s = .ok ((), s')) :
    ∃ node, s.arena.find? id = some node ∧ Walks fuel node s s' := by
  rw [walk] at h
  obtain ⟨node, found, h⟩ := node_bind_ok h
  refine ⟨node, found, ?_⟩
  cases kind : node.kind
  case blockStmt =>
    simp only [kind] at h
    exact .block kind h
  case exprStmt =>
    simp only [kind] at h
    obtain ⟨kid, first, h⟩ := Run.lift_bind_ok h
    exact .expr kind (childAt_eq_ok.1 first) h
  case ifStmt =>
    simp only [kind] at h
    rcases kids : node.kids with _ | ⟨cond, _ | ⟨thenStmt, _ | ⟨elseStmt, _ | ⟨_, _⟩⟩⟩⟩
    case cons.cons.cons.nil =>
      simp only [kids] at h
      exact .choice kind kids h
    all_goals
      simp only [kids] at h
      cases h
  case labelStmt owner l =>
    simp only [kind] at h
    obtain ⟨b, s₁, e, h⟩ := Run.bind_ok.1 h
    obtain ⟨-, rfl, rfl⟩ := labelBlock_eq_ok.1 e
    obtain ⟨isOpen, -, rfl⟩ := turn_eq_ok.1 h
    exact .label kind isOpen
  case gotoStmt owner l =>
    simp only [kind] at h
    obtain ⟨b, s₁, e, h⟩ := Run.bind_ok.1 h
    obtain ⟨-, rfl, rfl⟩ := labelBlock_eq_ok.1 e
    obtain ⟨isOpen, rfl⟩ := drop_eq_ok.1 h
    exact .goto kind isOpen
  case switchStmt layout =>
    simp only [kind] at h
    exact .switch layout kind h
  case emptyStmt | errorStmt =>
    simp only [kind] at h
    obtain ⟨_, rfl⟩ := Run.pure_ok h
    exact .nothing (by simp [kind])
  all_goals
    simp only [kind] at h
    cases h

/-- What a walk into the arms of a condition does, once that has left a value: the arms are a new
block each, or there is but one arm. -/
inductive Chooses (fuel : Nat) (thenStmt elseStmt : NodeId) (elseNode : Node) (value : Value)
    (s : Lowering) : Lowering → Prop
  | ifThen {s₁} (empty : elseNode.kind = .emptyStmt)
    (forked : ((s.draft.newBlock s!"then.{s.nextIf}").newBlock s!"fallthrough.{s.nextIf}").isOpen
      s.draft.cursor)
    (body : walk fuel thenStmt (s.redraft (s.draft.fork value)) = .ok ((), s₁))
    (isOpen : s₁.draft.isOpen s₁.draft.cursor) (join : s.draft.size + 1 < s₁.draft.size) :
    Chooses fuel thenStmt elseStmt elseNode value s
      (s₁.redraft (s₁.draft.turn (.jump ⟨s.draft.size + 1⟩) ⟨s.draft.size + 1⟩))
  | ifElse {s₁ s₂} (full : elseNode.kind ≠ .emptyStmt)
    (forked : (((s.draft.newBlock s!"then.{s.nextIf}").newBlock s!"else.{s.nextIf}").newBlock
      s!"fallthrough.{s.nextIf}").isOpen s.draft.cursor)
    (body : walk fuel thenStmt (s.redraft (s.draft.forkElse value)) = .ok ((), s₁))
    (isOpen₁ : s₁.draft.isOpen s₁.draft.cursor)
    (other : walk fuel elseStmt (s₁.redraft
      (s₁.draft.turn (.jump ⟨s.draft.size + 2⟩) ⟨s.draft.size + 1⟩)) = .ok ((), s₂))
    (isOpen₂ : s₂.draft.isOpen s₂.draft.cursor) (turn : s.draft.size + 1 < s₁.draft.size)
    (join : s.draft.size + 2 < s₂.draft.size) : Chooses fuel thenStmt elseStmt elseNode value s
      (s₂.redraft (s₂.draft.turn (.jump ⟨s.draft.size + 2⟩) ⟨s.draft.size + 2⟩))

theorem walkIf_eq_ok {cond thenStmt elseStmt : NodeId} :
    walkIf (fuel + 1) cond thenStmt elseStmt s = .ok ((), s') ↔
      ∃ value elseNode s₁, emit fuel cond s = .ok ((), s₁) ∧ s₁.arena.value? cond = some value ∧
        s₁.arena.find? elseStmt = some elseNode ∧
        Chooses fuel thenStmt elseStmt elseNode value s₁ s' := by
  rw [walkIf]
  constructor
  · intro h
    obtain ⟨_, s₁, first, h⟩ := Run.bind_ok.1 h
    obtain ⟨value, has, h⟩ := valueOf_bind_ok h
    rw [Run.get_bind, Run.set_bind, newBlock_bind, Lowering.with_nextIf] at h
    obtain ⟨elseNode, found, h⟩ := node_bind_ok h
    refine ⟨value, elseNode, s₁, first, has, found, ?_⟩
    split at h <;> simp only [newBlock_bind, Lowering.draft_redraft, Lowering.redraft_redraft,
      Draft.fresh_newBlock, Draft.size_newBlock, Draft.fresh_count, Draft.size_count] at h
    · obtain ⟨forked, -, h⟩ := turn_bind_ok.1 h
      obtain ⟨_, s₂, body, h⟩ := Run.bind_ok.1 h
      obtain ⟨isOpen, join, rfl⟩ := turn_eq_ok.1 h
      exact .ifThen ‹_› forked body isOpen join
    · obtain ⟨forked, -, h⟩ := turn_bind_ok.1 h
      obtain ⟨_, s₂, body, h⟩ := Run.bind_ok.1 h
      obtain ⟨isOpen₁, turn, h⟩ := turn_bind_ok.1 h
      obtain ⟨_, s₃, other, h⟩ := Run.bind_ok.1 h
      obtain ⟨isOpen₂, join, rfl⟩ := turn_eq_ok.1 h
      exact .ifElse ‹_› forked body isOpen₁ other isOpen₂ turn join
  · rintro ⟨value, elseNode, s₁, first, has, found, chooses⟩
    rw [Run.bind_of_ok first, Run.bind_of_ok (valueOf_eq has), Run.get_bind, Run.set_bind,
      newBlock_bind, Lowering.with_nextIf,
      Run.bind_of_ok (node_eq (s := (s₁.redraft _).redraft _) found)]
    cases chooses with
    | ifThen empty forked body isOpen join =>
      rw [if_pos empty]
      simp only [newBlock_bind, Lowering.draft_redraft, Lowering.redraft_redraft,
        Draft.fresh_newBlock, Draft.fresh_count, Draft.size_count]
      refine turn_bind_ok.2 ⟨forked, ?_, (Run.bind_of_ok body _).trans
        (turn_eq_ok.2 ⟨isOpen, join, rfl⟩)⟩
      simp only [Lowering.draft_redraft, Draft.size_newBlock, Draft.size_count, Draft.index_fresh]
      omega
    | ifElse full forked body isOpen₁ other isOpen₂ turn join =>
      rw [if_neg full]
      simp only [newBlock_bind, Lowering.draft_redraft, Lowering.redraft_redraft,
        Draft.fresh_newBlock, Draft.fresh_count, Draft.size_count, Draft.size_newBlock]
      refine turn_bind_ok.2 ⟨forked, ?_, (Run.bind_of_ok body _).trans
        (turn_bind_ok.2 ⟨isOpen₁, turn, (Run.bind_of_ok other _).trans
          (turn_eq_ok.2 ⟨isOpen₂, join, rfl⟩)⟩)⟩
      simp only [Lowering.draft_redraft, Draft.size_newBlock, Draft.size_count, Draft.index_fresh]
      omega

end Lower

end Codegen
