import Codegen.Proofs.Lowering.Code

/-!
Lowering of structured code. Code is laid out at the cursor of a draft: blocks that are open or
closed, and a block for each label met so far. Where the cursor leaves a block it closes it.
-/

namespace Codegen

/-- The numbers in names of blocks. -/
structure Counts where
  ifs : Nat
  orphans : Nat
  switches : Nat
  cases : Nat
  tests : Nat
  deriving DecidableEq, Repr

/-- A body under construction, with the labels met. -/
structure Draft where
  builder : Builder
  labels : List (LabelId × BlockId)
  counts : Counts
  deriving DecidableEq, Repr

namespace Draft

/-- An entry block that is open and empty. -/
def start : Draft := ⟨.initial, [], ⟨0, 0, 0, 0, 0⟩⟩

def size (d : Draft) : Nat := d.builder.blocks.size

def cursor (d : Draft) : BlockId := d.builder.cursor

def block? (d : Draft) (b : BlockId) : Option OpenBlock := d.builder.blocks[b.index]?

/-- There is such a block, and it has no exit. -/
def isOpen (d : Draft) (b : BlockId) : Bool := (d.block? b).any (·.terminator.isNone)

/-- The block of a label, if the label was met. -/
def labelled? (d : Draft) (l : LabelId) : Option BlockId := d.labels.lookup l

/-- The number that the next block gets. -/
def fresh (d : Draft) : BlockId := ⟨d.size⟩

def count (d : Draft) (f : Counts → Counts) : Draft := { d with counts := f d.counts }

def newBlock (d : Draft) (name : String) : Draft :=
  { d with builder := (d.builder.newBlock name).2 }

/-- Adds instructions at the cursor. -/
def add (d : Draft) (insts : List InstId) : Draft :=
  { d with builder := { d.builder with
      blocks := d.builder.blocks.modify d.cursor.index fun block =>
        { block with insts := block.insts ++ insts } } }

/-- Closes the block at the cursor and goes on in another. -/
def turn (d : Draft) (exit : Terminator) (next : BlockId) : Draft :=
  { d with builder := ⟨d.builder.blocks.modify d.cursor.index fun block =>
      { block with terminator := some exit }, next⟩ }

/-- Closes the block at the cursor and goes on in a block that nothing leads to. -/
def drop (d : Draft) (exit : Terminator) : Draft :=
  let orphan := d.newBlock s!"orphan.{d.counts.orphans}"
  (orphan.count fun c => { c with orphans := c.orphans + 1 }).turn exit d.fresh

/-- The block of a label, old or new. -/
def target (d : Draft) (l : LabelId) : BlockId := (d.labelled? l).getD d.fresh

/-- Gives a label a block. -/
def mark (d : Draft) (l : LabelId) (b : BlockId) : Draft := { d with labels := (l, b) :: d.labels }

/-- A label that is met for the first time gets a new block. -/
def meet (d : Draft) (l : LabelId) : Draft :=
  match d.labelled? l with
  | some _ => d
  | none => (d.newBlock s!"label.{l.index}").mark l d.fresh

/-- A choice between a new block, where the cursor goes on, and the one after it. -/
def fork (d : Draft) (cond : Value) : Draft :=
  let n := d.counts.ifs
  let blocks := (d.newBlock s!"then.{n}").newBlock s!"fallthrough.{n}"
  (blocks.count fun c => { c with ifs := n + 1 }).turn (.branch cond d.fresh ⟨d.size + 1⟩) d.fresh

/-- A choice between a new block, where the cursor goes on, and the one after it; the two meet in a
third. -/
def forkElse (d : Draft) (cond : Value) : Draft :=
  let n := d.counts.ifs
  let blocks := ((d.newBlock s!"then.{n}").newBlock s!"else.{n}").newBlock s!"fallthrough.{n}"
  (blocks.count fun c => { c with ifs := n + 1 }).turn (.branch cond d.fresh ⟨d.size + 1⟩) d.fresh

/-- Blocks for a number of cases. -/
def newCases : Nat → Draft → Draft
  | 0, d => d
  | n + 1, d =>
    newCases n ((d.newBlock s!"case.{d.counts.cases}").count fun c =>
      { c with cases := c.cases + 1 })

/-- Blocks for a number of cases, and one to leave them. -/
def newSwitch (d : Draft) (cases : Nat) : Draft :=
  let n := d.counts.switches
  ((d.count fun c => { c with switches := n + 1 }).newCases cases).newBlock s!"switch.exit.{n}"

/-- A choice between a block and a new one, where the cursor goes on. -/
def pass (d : Draft) (cond : Value) (selected : BlockId) : Draft :=
  let n := d.counts.tests
  let next := (d.newBlock s!"switch.test.{n}").count fun c => { c with tests := n + 1 }
  next.turn (.branch cond selected d.fresh) d.fresh

end Draft

def Bodies.length : Bodies → Nat
  | .nil => 0
  | .cons _ rest => rest.length + 1

/-- The block of the body at a position, for bodies in consecutive blocks. After the last body
comes the block that all of them lead to. -/
def Bodies.place (bodies : Bodies) (base i : Nat) : BlockId := ⟨base + min i bodies.length⟩

mutual

/-- Lays code out at the cursor. -/
def Code.lower : Code → Draft → Draft
  | .skip, d => d
  | .seq first second, d => second.lower (first.lower d)
  | .inst id, d => d.add [id]
  | .leave value, d => d.drop (.ret value)
  | .label l, d => (d.meet l).turn (.jump (d.target l)) (d.target l)
  | .goto l, d => (d.meet l).drop (.jump (d.target l))
  | .ifThen cond body, d =>
    (body.lower (d.fork cond)).turn (.jump ⟨d.size + 1⟩) ⟨d.size + 1⟩
  | .ifElse cond body other, d =>
    let arm := (body.lower (d.forkElse cond)).turn (.jump ⟨d.size + 2⟩) ⟨d.size + 1⟩
    (other.lower arm).turn (.jump ⟨d.size + 2⟩) ⟨d.size + 2⟩
  | .switch _ tests default bodies, d =>
    let place := bodies.place d.size
    let tested := tests.lower place (d.newSwitch bodies.length)
    bodies.lower d.size (tested.turn (.jump (place (default.getD bodies.length))) ⟨d.size⟩)

/-- Lays tests out at the cursor, for bodies in given blocks. -/
def Tests.lower (place : Nat → BlockId) : Tests → Draft → Draft
  | .done, d => d
  | .test eval _ compare body rest, d =>
    rest.lower place (((eval.lower d).add [compare]).pass (.inst compare) (place body))

/-- Lays bodies out in their blocks, the first of them at the cursor. -/
def Bodies.lower : Bodies → Nat → Draft → Draft
  | .nil, _, d => d
  | .cons body rest, base, d =>
    rest.lower (base + 1) ((body.lower d).turn (.jump ⟨base + 1⟩) ⟨base + 1⟩)

end

namespace Draft

/-! ## What each step does to the blocks -/

section

variable (d : Draft) (name : String) (insts : List InstId) (exit : Terminator) (next : BlockId)
  (f : Counts → Counts) (l : LabelId)

@[simp] theorem size_count : (d.count f).size = d.size := rfl

@[simp] theorem size_mark (b : BlockId) : (d.mark l b).size = d.size := rfl

@[simp] theorem cursor_mark (b : BlockId) : (d.mark l b).cursor = d.cursor := rfl

theorem labelled?_mark (l' : LabelId) (b : BlockId) :
    (d.mark l b).labelled? l' = if l' = l then some b else d.labelled? l' := by
  by_cases h : l' = l
  · simp [mark, labelled?, h]
  · have : (l' == l) = false := by simpa using h
    simp [mark, labelled?, List.lookup_cons, h, this]

@[simp] theorem size_newBlock : (d.newBlock name).size = d.size + 1 := by
  simp [newBlock, size, Builder.newBlock]

@[simp] theorem index_fresh : d.fresh.index = d.size := rfl

@[simp] theorem fresh_count : (d.count f).fresh = d.fresh := rfl

@[simp] theorem fresh_newBlock : (d.newBlock name).fresh = ⟨d.size + 1⟩ := by
  simp [fresh]

@[simp] theorem cursor_newBlock : (d.newBlock name).cursor = d.cursor := rfl

@[simp] theorem labelled?_newBlock : (d.newBlock name).labelled? l = d.labelled? l := rfl

@[simp] theorem block?_newBlock_fresh :
    (d.newBlock name).block? d.fresh = some ⟨name, [], none⟩ := by
  simp [newBlock, block?, fresh, size, Builder.newBlock]

@[simp] theorem size_add : (d.add insts).size = d.size := by
  simp [add, size]

@[simp] theorem cursor_add : (d.add insts).cursor = d.cursor := rfl

@[simp] theorem labelled?_add : (d.add insts).labelled? l = d.labelled? l := rfl

@[simp] theorem size_turn : (d.turn exit next).size = d.size := by
  simp [turn, size]

@[simp] theorem cursor_turn : (d.turn exit next).cursor = next := rfl

end

@[simp] theorem size_newCases (n : Nat) (d : Draft) : (d.newCases n).size = d.size + n := by
  induction n generalizing d with
  | zero => rfl
  | succ n ih =>
    rw [newCases, ih, size_count, size_newBlock, Nat.add_assoc, Nat.add_comm 1]

@[simp] theorem fresh_newCases (n : Nat) (d : Draft) : (d.newCases n).fresh = ⟨d.size + n⟩ := by
  simp [fresh]

variable {b : BlockId} {block : OpenBlock} {d : Draft}

theorem exists_of_isOpen (h : d.isOpen b) :
    ∃ block, d.block? b = some block ∧ block.terminator = none := by
  obtain ⟨block, found, none⟩ := (Option.any_eq_true _ _).1 h
  exact ⟨block, found, Option.isNone_iff_eq_none.1 none⟩

theorem lt_of_block? (h : d.block? b = some block) : b.index < d.size := by
  rw [block?] at h
  exact (Array.getElem?_eq_some_iff.1 h).1

theorem lt_of_isOpen (h : d.isOpen b) : b.index < d.size := by
  obtain ⟨block, found, _⟩ := exists_of_isOpen h
  exact lt_of_block? found

theorem index_ne {c : BlockId} (h : b ≠ c) : b.index ≠ c.index := by
  intro e
  cases b
  cases c
  exact h (congrArg BlockId.mk e)

theorem block?_newBlock_of_ne (h : b ≠ d.fresh) (name : String) :
    (d.newBlock name).block? b = d.block? b := by
  have : b.index ≠ d.builder.blocks.size := index_ne h
  simp [newBlock, block?, Builder.newBlock, Array.getElem?_push, this]

theorem isOpen_newBlock (h : d.isOpen b) (name : String) : (d.newBlock name).isOpen b := by
  have ne : b ≠ d.fresh := fun e => by simpa [e] using lt_of_isOpen h
  rwa [isOpen, block?_newBlock_of_ne ne]

theorem block?_add_cursor (h : d.block? d.cursor = some block) (insts : List InstId) :
    (d.add insts).block? d.cursor = some { block with insts := block.insts ++ insts } := by
  rw [block?] at h
  simp [add, block?, Array.getElem?_modify, h]

theorem block?_add_of_ne (h : b ≠ d.cursor) (insts : List InstId) :
    (d.add insts).block? b = d.block? b := by
  simp [add, block?, Array.getElem?_modify, (index_ne h).symm]

theorem isOpen_add (insts : List InstId) (b : BlockId) : (d.add insts).isOpen b = d.isOpen b := by
  by_cases e : b = d.cursor
  · subst e
    cases found : d.block? d.cursor with
    | none =>
      have : (d.add insts).block? d.cursor = none := by
        rw [block?] at found ⊢
        simpa [add] using found
      rw [isOpen, isOpen, this, found]
    | some block => rw [isOpen, isOpen, block?_add_cursor found, found]; rfl
  · rw [isOpen, isOpen, block?_add_of_ne e]

theorem block?_turn_cursor (h : d.block? d.cursor = some block) (exit : Terminator)
    (next : BlockId) :
    (d.turn exit next).block? d.cursor = some { block with terminator := some exit } := by
  rw [block?] at h
  simp [turn, block?, Array.getElem?_modify, h]

theorem block?_turn_of_ne (h : b ≠ d.cursor) (exit : Terminator) (next : BlockId) :
    (d.turn exit next).block? b = d.block? b := by
  simp [turn, block?, Array.getElem?_modify, (index_ne h).symm]

/-! ## Finished drafts -/

theorem blocks_finish (e : d.block? b = some block) (void : Bool) :
    (d.builder.finish void).blocks[b.index]? = some ⟨b, block.name, block.insts,
      block.terminator.getD (if void then .ret none else .unreachable)⟩ := by
  rw [block?] at e
  simp [Builder.finish, e]

theorem exists_block_of_finish {void : Bool} {block : BasicBlock}
    (e : (d.builder.finish void).blocks[b.index]? = some block) :
    ∃ openBlock, d.block? b = some openBlock ∧ block.insts = openBlock.insts ∧
      block.terminator = openBlock.terminator.getD (if void then .ret none else .unreachable) := by
  simp only [Builder.finish, Array.getElem?_mapIdx, Option.map_eq_some_iff] at e
  obtain ⟨openBlock, e, rfl⟩ := e
  exact ⟨openBlock, e, rfl, rfl⟩

end Draft

end Codegen
