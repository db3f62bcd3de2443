import Codegen.Proofs.Lowering.Frame
import Mathlib.Data.List.Perm.Basic
import Mathlib.Data.List.Nodup
import Mathlib.Tactic.Tauto

/-!
Which blocks of a draft are open. They are the one under the cursor, those set aside for code that
is still to come, and those of labels that were met and not placed.
-/

namespace Codegen

namespace Draft

/-- The blocks without an exit, in order. -/
def openBlocks (d : Draft) : List BlockId :=
  ((List.range d.size).map BlockId.mk).filter d.isOpen

/-- The blocks of the labels that are not among some. -/
def unplaced (d : Draft) (placed : List LabelId) : List BlockId :=
  (d.labels.filter (·.1 ∉ placed)).map (·.2)

/-- A draft whose open blocks are accounted for. The labels `placed` have had their code, the blocks
`reserved` are still to be laid out. -/
structure Balanced (d : Draft) (placed : List LabelId) (reserved : List BlockId) : Prop where
  perm : d.openBlocks.Perm (d.cursor :: (reserved ++ d.unplaced placed))
  keys : (d.labels.map (·.1)).Nodup
  known : ∀ l ∈ placed, l ∈ d.labels.map (·.1)

section

variable (d : Draft)

theorem nodup_openBlocks : d.openBlocks.Nodup :=
  (List.nodup_range.map fun _ _ e => congrArg BlockId.index e).filter _

theorem mem_openBlocks {b : BlockId} : b ∈ d.openBlocks ↔ d.isOpen b := by
  simp only [openBlocks, List.mem_filter, List.mem_map, List.mem_range]
  constructor
  · exact And.right
  · intro h
    obtain ⟨block, e, _⟩ := (Option.any_eq_true _ _).1 h
    exact ⟨⟨b.index, lt_of_block? e, rfl⟩, h⟩

theorem openBlocks_newBlock (name : String) :
    (d.newBlock name).openBlocks = d.openBlocks ++ [d.fresh] := by
  have old : ∀ b ∈ (List.range d.size).map BlockId.mk, (d.newBlock name).isOpen b = d.isOpen b := by
    intro b mem
    obtain ⟨i, lt, rfl⟩ := List.mem_map.1 mem
    rw [isOpen, block?_newBlock_of_ne (ne_fresh_of_lt (List.mem_range.1 lt)), isOpen]
  have new : (d.newBlock name).isOpen d.fresh := by simp [isOpen]
  rw [openBlocks, size_newBlock, List.range_succ, List.map_append, List.filter_append,
    List.filter_congr old]
  simp only [List.map_cons, List.map_nil]
  rw [List.filter_singleton, show (⟨d.size⟩ : BlockId) = d.fresh from rfl, new]
  rfl

theorem openBlocks_add (insts : List InstId) : (d.add insts).openBlocks = d.openBlocks := by
  rw [openBlocks, size_add, openBlocks, List.filter_congr fun b _ => d.isOpen_add insts b]

theorem openBlocks_turn (exit : Terminator) (next : BlockId) :
    (d.turn exit next).openBlocks = d.openBlocks.filter (· ≠ d.cursor) := by
  have each : ∀ b, (d.turn exit next).isOpen b = (decide (b ≠ d.cursor) && d.isOpen b) := by
    intro b
    by_cases e : b = d.cursor
    · subst e
      cases found : d.block? d.cursor with
      | none =>
        have : (d.turn exit next).block? d.cursor = none := by
          rw [block?] at found ⊢
          simpa [turn] using found
        simp [isOpen, this]
      | some block => simp [isOpen, block?_turn_cursor found]
    · simp [isOpen, block?_turn_of_ne e, e]
  rw [openBlocks, size_turn, openBlocks, List.filter_filter, List.filter_congr fun b _ => each b]

end

namespace Balanced

variable {d : Draft} {placed placed' : List LabelId} {reserved reserved' : List BlockId}

theorem isOpen_cursor (h : d.Balanced placed reserved) : d.isOpen d.cursor :=
  d.mem_openBlocks.1 (h.perm.mem_iff.2 (by simp))

/-- Only the order of what is accounted for changes. -/
theorem cursor_lt (h : d.Balanced placed reserved) : d.cursor.index < d.size := by
  obtain ⟨_, found, _⟩ := exists_of_isOpen h.isOpen_cursor
  exact lt_of_block? found

theorem congr (h : d.Balanced placed reserved) (labels : ∀ l, l ∈ placed' ↔ l ∈ placed)
    (blocks : reserved.Perm reserved') : d.Balanced placed' reserved' := by
  have same : d.unplaced placed' = d.unplaced placed := by
    simp only [unplaced, labels]
  refine ⟨?_, h.keys, fun l mem => h.known l ((labels l).1 mem)⟩
  rw [same]
  exact h.perm.trans ((blocks.append_right _).cons _)

theorem count (h : d.Balanced placed reserved) (f : Counts → Counts) :
    (d.count f).Balanced placed reserved := ⟨h.1, h.2, h.3⟩

theorem add (h : d.Balanced placed reserved) (insts : List InstId) :
    (d.add insts).Balanced placed reserved := by
  refine ⟨?_, h.keys, h.known⟩
  rw [openBlocks_add]
  exact h.perm

/-- A new block is set aside. -/
theorem newBlock (h : d.Balanced placed reserved) (name : String) :
    (d.newBlock name).Balanced placed (d.fresh :: reserved) := by
  refine ⟨?_, h.keys, h.known⟩
  rw [openBlocks_newBlock]
  exact (List.perm_append_comm.trans (h.perm.cons d.fresh)).trans (.swap _ _ _)

/-- The cursor turns to a block that was set aside. -/
theorem turn {next : BlockId} (h : d.Balanced placed (next :: reserved)) (exit : Terminator) :
    (d.turn exit next).Balanced placed reserved := by
  refine ⟨?_, h.keys, h.known⟩
  rw [openBlocks_turn]
  have nodup := h.perm.nodup_iff.1 d.nodup_openBlocks
  have others : (next :: (reserved ++ d.unplaced placed)).filter (· ≠ d.cursor) =
      next :: (reserved ++ d.unplaced placed) := by
    rw [List.filter_eq_self]
    intro b mem
    have ne : b ≠ d.cursor := fun e => (List.nodup_cons.1 nodup).1 (e ▸ mem)
    simpa using ne
  have filtered := h.perm.filter (· ≠ d.cursor)
  rw [List.cons_append, List.filter_cons, others] at filtered
  rw [show (d.turn exit next).unplaced placed = d.unplaced placed from rfl]
  simpa using filtered

theorem drop (h : d.Balanced placed reserved) (exit : Terminator) :
    (d.drop exit).Balanced placed reserved := ((h.newBlock _).count _).turn exit

theorem pass (h : d.Balanced placed reserved) (cond : Value) (selected : BlockId) :
    (d.pass cond selected).Balanced placed reserved := ((h.newBlock _).count _).turn _

theorem fork (h : d.Balanced placed reserved) (cond : Value) :
    (d.fork cond).Balanced placed (⟨d.size + 1⟩ :: reserved) := by
  have two := (h.newBlock s!"then.{d.counts.ifs}").newBlock s!"fallthrough.{d.counts.ifs}"
  rw [fresh_newBlock] at two
  exact ((two.congr (fun _ => .rfl) (.swap _ _ _)).count _).turn _

theorem forkElse (h : d.Balanced placed reserved) (cond : Value) :
    (d.forkElse cond).Balanced placed (⟨d.size + 1⟩ :: ⟨d.size + 2⟩ :: reserved) := by
  have three := ((h.newBlock s!"then.{d.counts.ifs}").newBlock s!"else.{d.counts.ifs}").newBlock
    s!"fallthrough.{d.counts.ifs}"
  simp only [fresh_newBlock, size_newBlock, Nat.add_assoc] at three
  have order : [(⟨d.size + (1 + 1)⟩ : BlockId), ⟨d.size + 1⟩, d.fresh].Perm
      [d.fresh, ⟨d.size + 1⟩, ⟨d.size + 2⟩] :=
    (List.Perm.swap _ _ _).trans (((List.Perm.swap _ _ _).cons _).trans (.swap _ _ _))
  exact ((three.congr (fun _ => .rfl) (order.append_right reserved)).count _).turn _

theorem newCases (h : d.Balanced placed reserved) (n : Nat) :
    (d.newCases n).Balanced placed ((List.range' d.size n).map BlockId.mk ++ reserved) := by
  induction n generalizing d reserved with
  | zero => exact h
  | succ n ih =>
    have one := (h.newBlock s!"case.{d.counts.cases}").count fun c =>
      { c with cases := c.cases + 1 }
    have more := ih one
    rw [size_count, size_newBlock] at more
    rw [List.range'_succ, List.map_cons]
    exact more.congr (fun _ => .rfl) List.perm_middle

theorem newSwitch (h : d.Balanced placed reserved) (n : Nat) :
    (d.newSwitch n).Balanced placed ((List.range' d.size (n + 1)).map BlockId.mk ++ reserved) := by
  have all := ((h.count fun c => { c with switches := d.counts.switches + 1 }).newCases n).newBlock
    s!"switch.exit.{d.counts.switches}"
  rw [fresh_newCases] at all
  refine all.congr (fun _ => .rfl) ?_
  rw [List.range'_1_concat, List.map_append, List.append_assoc]
  exact List.perm_middle.symm

/-- A label that is met for the first time has a block to be placed. -/
theorem meet (h : d.Balanced placed reserved) (l : LabelId) :
    (d.meet l).Balanced placed reserved := by
  unfold Draft.meet
  split
  · exact h
  · rename_i none
    have new : l ∉ d.labels.map (·.1) := by
      intro mem
      obtain ⟨⟨l', b⟩, there, rfl⟩ := List.mem_map.1 mem
      exact absurd none (by simpa [labelled?, List.lookup_eq_none_iff] using ⟨b, there⟩)
    have free : l ∉ placed := fun mem => new (h.known l mem)
    have made := h.newBlock s!"label.{l.index}"
    refine ⟨?_, List.nodup_cons.2 ⟨new, h.keys⟩,
      fun l' mem => List.mem_cons_of_mem _ (h.known l' mem)⟩
    have unplaced_eq : ((d.newBlock s!"label.{l.index}").mark l d.fresh).unplaced placed =
        d.fresh :: d.unplaced placed := by
      simp [unplaced, mark, free, Draft.newBlock]
    rw [unplaced_eq]
    exact made.perm.trans (List.perm_middle.symm.cons _)

theorem mem_labels_meet (d : Draft) (l : LabelId) : (l, d.target l) ∈ (d.meet l).labels := by
  unfold Draft.meet
  split
  · rename_i b e
    obtain ⟨_, _, split, _⟩ := List.lookup_eq_some_iff.1 e
    rw [target, e, split]
    simp
  · rename_i e
    simp [mark, target, e]

/-- The code of a label starts in its block. -/
theorem label (h : d.Balanced placed reserved) {l : LabelId} (free : l ∉ placed)
    (exit : Terminator) : ((d.meet l).turn exit (d.target l)).Balanced (l :: placed) reserved := by
  have met := h.meet l
  have mem := mem_labels_meet d l
  have split : ((d.meet l).unplaced placed).Perm
      (d.target l :: (d.meet l).unplaced (l :: placed)) := by
    obtain ⟨before, after, e⟩ := List.append_of_mem mem
    have keys := met.keys
    rw [e] at keys
    simp only [List.map_append, List.map_cons] at keys
    have others := List.nodup_middle.1 keys
    have none : ∀ p ∈ before ++ after, p.1 ≠ l := fun p mem e =>
      (List.nodup_cons.1 others).1 (e ▸ by simpa using List.mem_map_of_mem (f := (·.1)) mem)
    have same : ∀ ps : List (LabelId × BlockId), (∀ p ∈ ps, p ∈ before ++ after) →
        ps.filter (·.1 ∉ l :: placed) = ps.filter (·.1 ∉ placed) := fun ps sub =>
      List.filter_congr fun p mem => by simp [none p (sub p mem)]
    simp only [unplaced, e, List.filter_append, List.filter_cons, List.map_append]
    rw [same before (by simp +contextual), same after (by simp +contextual)]
    simp [free]
  have known : ∀ l' ∈ l :: placed, l' ∈ (d.meet l).labels.map (·.1) := by
    intro l' mem'
    rcases List.mem_cons.1 mem' with rfl | mem'
    · exact List.mem_map.2 ⟨_, mem, rfl⟩
    · exact met.known l' mem'
  have moved : (d.meet l).Balanced (l :: placed) (d.target l :: reserved) := by
    refine ⟨met.perm.trans (List.Perm.cons _ ?_), met.keys, known⟩
    exact (split.append_left reserved).trans List.perm_middle
  exact moved.turn exit

end Balanced

end Draft

open Draft

section

variable {xs ys placed : List LabelId} {d : Draft} {reserved : List BlockId}

theorem nodup_first (h : (xs ++ ys ++ placed).Nodup) : (xs ++ placed).Nodup :=
  h.sublist ((List.sublist_append_left xs ys).append_right placed)

theorem nodup_second (h : (xs ++ ys ++ placed).Nodup) : (ys ++ (xs ++ placed)).Nodup := by
  rw [← List.append_assoc]
  exact (List.perm_append_comm.append_right placed).nodup_iff.1 h

theorem Draft.Balanced.both (h : d.Balanced (ys ++ (xs ++ placed)) reserved) :
    d.Balanced (xs ++ ys ++ placed) reserved :=
  h.congr (fun l => by simp only [List.mem_append]; tauto) (.refl _)

end

mutual

/-- Code places its labels and leaves no other block behind. -/
theorem Code.balanced : ∀ (code : Code) {d : Draft} {placed : List LabelId}
    {reserved : List BlockId}, d.Balanced placed reserved → (code.labels ++ placed).Nodup →
    (code.lower d).Balanced (code.labels ++ placed) reserved
  | .skip, _, _, _, h, _ => h
  | .seq first second, _, _, _, h, nodup =>
    (second.balanced (first.balanced h (nodup_first nodup)) (nodup_second nodup)).both
  | .inst _, _, _, _, h, _ => h.add _
  | .leave _, _, _, _, h, _ => h.drop _
  | .label _, _, _, _, h, nodup => h.label (List.nodup_cons.1 nodup).1 _
  | .goto l, _, _, _, h, _ => (h.meet l).drop _
  | .ifThen cond body, _, _, _, h, nodup => (body.balanced (h.fork cond) nodup).turn _
  | .ifElse cond body other, _, _, _, h, nodup => by
    have one := body.balanced (h.forkElse cond) (nodup_first nodup)
    exact (other.balanced (one.turn _) (nodup_second nodup)).both.turn _
  | .switch _ tests default bodies, d, _, _, h, nodup => by
    have one := tests.balanced (bodies.place d.size) (h.newSwitch bodies.length) (nodup_first nodup)
    rw [List.range'_succ, List.map_cons, List.cons_append] at one
    exact (bodies.balanced d.size (one.turn _) (nodup_second nodup)).both

theorem Tests.balanced (place : Nat → BlockId) : ∀ (tests : Tests) {d : Draft}
    {placed : List LabelId} {reserved : List BlockId}, d.Balanced placed reserved →
    (tests.labels ++ placed).Nodup →
      (tests.lower place d).Balanced (tests.labels ++ placed) reserved
  | .done, _, _, _, h, _ => h
  | .test eval _ compare body rest, _, _, _, h, nodup => by
    have one := ((eval.balanced h (nodup_first nodup)).add [compare]).pass (.inst compare)
      (place body)
    exact (rest.balanced place one (nodup_second nodup)).both

/-- Bodies take up the blocks that were set aside for them. -/
theorem Bodies.balanced : ∀ (bodies : Bodies) (base : Nat) {d : Draft} {placed : List LabelId}
    {reserved : List BlockId},
    d.Balanced placed ((List.range' (base + 1) bodies.length).map BlockId.mk ++ reserved) →
    (bodies.labels ++ placed).Nodup →
    (bodies.lower base d).Balanced (bodies.labels ++ placed) reserved
  | .nil, _, _, _, _, h, _ => h
  | .cons body rest, base, _, _, _, h, nodup => by
    have one := body.balanced h (nodup_first nodup)
    rw [Bodies.length, List.range'_succ, List.map_cons, List.cons_append] at one
    exact (rest.balanced (base + 1) (one.turn _) (nodup_second nodup)).both

end

/-! ## Labels met -/

/-- The labels that have a block. -/
def Draft.met (d : Draft) : List LabelId := d.labels.map (·.1)

theorem Draft.mem_met_meet {d : Draft} {l l' : LabelId} :
    l' ∈ (d.meet l).met ↔ l' ∈ d.met ∨ l' = l := by
  unfold Draft.meet
  split
  · rename_i b e
    obtain ⟨_, _, split, _⟩ := List.lookup_eq_some_iff.1 e
    have here : l ∈ d.met := by simp [met, split]
    exact ⟨.inl, fun h => h.elim id fun e => e ▸ here⟩
  · exact List.mem_cons.trans or_comm

theorem Draft.met_newCases (n : Nat) (d : Draft) : (d.newCases n).met = d.met := by
  induction n generalizing d with
  | zero => rfl
  | succ n ih => exact ih _

theorem Draft.met_newSwitch (d : Draft) (n : Nat) : (d.newSwitch n).met = d.met :=
  met_newCases n _

section

variable (d : Draft)

theorem Draft.met_turn (exit : Terminator) (next : BlockId) : (d.turn exit next).met = d.met := rfl

theorem Draft.met_add (insts : List InstId) : (d.add insts).met = d.met := rfl

theorem Draft.met_drop (exit : Terminator) : (d.drop exit).met = d.met := rfl

theorem Draft.met_pass (cond : Value) (selected : BlockId) : (d.pass cond selected).met = d.met :=
  rfl

theorem Draft.met_fork (cond : Value) : (d.fork cond).met = d.met := rfl

theorem Draft.met_forkElse (cond : Value) : (d.forkElse cond).met = d.met := rfl

end

mutual

/-- Code meets the labels that it places and those that it jumps to. -/
theorem Code.mem_met : ∀ (code : Code) {d : Draft} {l : LabelId},
    l ∈ (code.lower d).met ↔ l ∈ d.met ∨ l ∈ code.labels ∨ l ∈ code.gotos
  | .skip, _, _ => by simp [Code.lower, Code.labels, Code.gotos]
  | .seq first second, _, _ => by
    rw [Code.lower, second.mem_met, first.mem_met, Code.labels, Code.gotos, List.mem_append,
      List.mem_append]
    tauto
  | .inst _, _, _ => by simp [Code.lower, met_add, Code.labels, Code.gotos]
  | .leave _, _, _ => by simp [Code.lower, met_drop, Code.labels, Code.gotos]
  | .label _, _, _ => by simp [Code.lower, met_turn, mem_met_meet, Code.labels, Code.gotos]
  | .goto _, _, _ => by simp [Code.lower, met_drop, mem_met_meet, Code.labels, Code.gotos]
  | .ifThen _ body, _, _ => by
    rw [Code.lower, met_turn, body.mem_met, met_fork, Code.labels, Code.gotos]
  | .ifElse _ body other, _, _ => by
    rw [Code.lower, met_turn, other.mem_met, met_turn, body.mem_met, met_forkElse, Code.labels,
      Code.gotos, List.mem_append, List.mem_append]
    tauto
  | .switch _ tests _ bodies, _, _ => by
    rw [Code.lower, bodies.mem_met, met_turn, tests.mem_met, met_newSwitch, Code.labels, Code.gotos,
      List.mem_append, List.mem_append]
    tauto

theorem Tests.mem_met (place : Nat → BlockId) : ∀ (tests : Tests) {d : Draft} {l : LabelId},
    l ∈ (tests.lower place d).met ↔ l ∈ d.met ∨ l ∈ tests.labels ∨ l ∈ tests.gotos
  | .done, _, _ => by simp [Tests.lower, Tests.labels, Tests.gotos]
  | .test eval _ _ _ rest, _, _ => by
    rw [Tests.lower, rest.mem_met, met_pass, met_add, eval.mem_met, Tests.labels, Tests.gotos,
      List.mem_append, List.mem_append]
    tauto

theorem Bodies.mem_met : ∀ (bodies : Bodies) (base : Nat) {d : Draft} {l : LabelId},
    l ∈ (bodies.lower base d).met ↔ l ∈ d.met ∨ l ∈ bodies.labels ∨ l ∈ bodies.gotos
  | .nil, _, _, _ => by simp [Bodies.lower, Bodies.labels, Bodies.gotos]
  | .cons body rest, _, _, _ => by
    rw [Bodies.lower, rest.mem_met, met_turn, body.mem_met, Bodies.labels, Bodies.gotos,
      List.mem_append, List.mem_append]
    tauto

end

end Codegen
