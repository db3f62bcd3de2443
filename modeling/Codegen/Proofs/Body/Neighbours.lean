import Codegen.Body.Lowering
import Codegen.Proofs.Outcome

/-!
Neighbours in the graph of a body. Successors are read off one exit, without those that are listed
already, and may lie outside of the body. Predecessors are gathered in one pass over all exits,
which skips what it has seen of an exit and what lies outside. Where blocks have their positions for
numbers, the two agree.
-/

namespace Codegen

/-! ## Exits -/

/-- A scan adds what the list does not hold, once each in order of the first mention. -/
theorem BlockId.foldl_addTo (out ids : List BlockId) :
    ids.foldl addTo out = out ++ (ids.filter (· ∉ out)).eraseDups := by
  induction ids generalizing out with
  | nil => simp
  | cons id ids ih =>
    rw [List.foldl_cons, ih, addTo]
    by_cases mem : id ∈ out
    · simp [mem]
    · have rest : (ids.filter (· ∉ out)).filter (fun other => !other == id) =
          ids.filter (· ∉ out ++ [id]) := by
        rw [List.filter_filter]
        exact List.filter_congr fun other _ => by by_cases e : other = id <;> simp [e]
      rw [if_neg mem, List.filter_cons_of_pos (by simpa using mem), List.eraseDups_cons, rest]
      simp

theorem BlockId.nodup_foldl_addTo {out : List BlockId} (once : out.Nodup) (ids : List BlockId) :
    (ids.foldl addTo out).Nodup := by
  induction ids generalizing out with
  | nil => exact once
  | cons id ids ih =>
    refine ih ?_
    unfold addTo
    split
    · exact once
    · exact List.nodup_append.2 ⟨once, by simp, by grind⟩

namespace Terminator

variable {exit : Terminator} {id : BlockId}

theorem targets_eq_eraseDups (exit : Terminator) : exit.targets = exit.named.eraseDups := by
  rw [targets, BlockId.foldl_addTo, List.nil_append, List.filter_eq_self.2 (by simp)]

theorem nodup_targets (exit : Terminator) : exit.targets.Nodup := BlockId.nodup_foldl_addTo .nil _

@[simp] theorem mem_targets : id ∈ exit.targets ↔ id ∈ exit.named := by
  rw [targets_eq_eraseDups, List.mem_eraseDups]

end Terminator

namespace Body

variable {b : Body} {p s : BlockId} {block : BasicBlock}

/-- Blocks have their positions for numbers. -/
def Numbered (b : Body) : Prop := ∀ (i : Nat) block, b.blocks[i]? = some block → block.id = ⟨i⟩

theorem numbered_finish (builder : Builder) (void : Bool) : (builder.finish void).Numbered := by
  intro i block found
  simp only [Builder.finish, Array.getElem?_mapIdx, Option.map_eq_some_iff] at found
  obtain ⟨-, -, rfl⟩ := found
  rfl

theorem numbered_lowerBody {func : FuncId} {a a' : Arena} {insts insts' : InstStore} {root : NodeId}
    {entry : List InstId} {void : Bool}
    (lowered : lowerBody func a insts root entry void = .ok (b, a', insts')) : b.Numbered := by
  obtain ⟨⟨_, state⟩, -, lowered⟩ := bind_eq_ok.1 lowered
  cases lowered
  exact numbered_finish state.builder void

/-! ## Successors -/

theorem successors_eq (found : b.blocks[p.index]? = some block) :
    b.successors p = .ok block.terminator.targets := by
  simp [successors, Body.block, found, bind, Except.bind, pure, Except.pure]

/-! ## Predecessors -/

section Notes

variable {size : Nat} {id : BlockId} {rows : List (List BlockId)} {seen : List BlockId}

/-- One exit adds its block to the rows of all that it names for the first time. -/
theorem getElem?_foldl_note (lt : s.index < size) (targets : List BlockId) :
    (targets.foldl (note size id) (seen, rows)).2[s.index]? =
      rows[s.index]?.map fun row => if s ∈ targets ∧ s ∉ seen then row ++ [id] else row := by
  induction targets generalizing seen rows with
  | nil => simp
  | cons t targets ih =>
    rw [List.foldl_cons, note]
    by_cases new : t.index < size ∧ t ∉ seen
    · rw [if_pos new, ih, List.getElem?_modify]
      by_cases e : s = t
      · subst e
        simp [new.2, Function.comp_def]
      · have ne : t.index ≠ s.index := fun same => e (by cases s; cases t; simp_all)
        simp [e, ne]
    · rw [if_neg new, ih]
      by_cases e : s = t
      · subst e
        have known : s ∈ seen := by simpa [lt] using new
        simp [known]
      · simp [e]

theorem getElem?_foldl_noteAll (lt : s.index < size) (blocks : List BasicBlock) :
    (blocks.foldl (noteAll size) rows)[s.index]? = rows[s.index]?.map
      (· ++ (blocks.filter (s ∈ ·.terminator.targets)).map (·.id)) := by
  induction blocks generalizing rows with
  | nil => simp
  | cons block blocks ih =>
    rw [List.foldl_cons, ih, noteAll, getElem?_foldl_note lt]
    by_cases named : s ∈ block.terminator.named <;> simp [named, Function.comp_def]

theorem length_foldl_noteAll (blocks : List BasicBlock) :
    (blocks.foldl (noteAll size) rows).length = rows.length := by
  have exit (id : BlockId) (targets seen : List BlockId) (rows : List (List BlockId)) :
      (targets.foldl (note size id) (seen, rows)).2.length = rows.length := by
    induction targets generalizing seen rows with
    | nil => rfl
    | cons t targets ih =>
      rw [List.foldl_cons, note]
      split
      · rw [ih, List.length_modify]
      · exact ih seen rows
  induction blocks generalizing rows with
  | nil => rfl
  | cons block blocks ih => rw [List.foldl_cons, ih, noteAll, exit]

end Notes

/-- The blocks that may go on at a position, in block order. -/
def predecessorsOf (b : Body) (id : BlockId) : List BlockId :=
  (b.blocks.toList.filter (id ∈ ·.terminator.targets)).map (·.id)

theorem length_predecessors (b : Body) : b.predecessors.length = b.blocks.size := by
  rw [predecessors, ← Array.foldl_toList, length_foldl_noteAll, List.length_replicate]

/-- The pass gathers for each block those whose exits name it. -/
theorem getElem?_predecessors (lt : s.index < b.blocks.size) :
    b.predecessors[s.index]? = some (b.predecessorsOf s) := by
  rw [predecessors, ← Array.foldl_toList, getElem?_foldl_noteAll lt,
    List.getElem?_replicate_of_lt lt]
  rfl

theorem mem_predecessorsOf (numbered : b.Numbered) (found : b.blocks[p.index]? = some block) :
    p ∈ b.predecessorsOf s ↔ s ∈ block.terminator.targets := by
  simp only [predecessorsOf, List.mem_map, List.mem_filter, decide_eq_true_eq]
  constructor
  · rintro ⟨other, ⟨mem, leads⟩, rfl⟩
    -- the number of a block leads back to the block itself
    obtain ⟨i, at'⟩ := List.mem_iff_getElem?.1 mem
    rw [Array.getElem?_toList] at at'
    rw [numbered i other at'] at found
    cases found.symm.trans at'
    exact leads
  · intro leads
    have mem := List.mem_of_getElem? (Array.getElem?_toList.trans found)
    exact ⟨block, ⟨mem, leads⟩, numbered _ _ found⟩

/-- Blocks that are told apart by their exits keep their order. -/
theorem pairwise_predecessorsOf (numbered : b.Numbered) (s : BlockId) :
    (b.predecessorsOf s).Pairwise (·.index < ·.index) := by
  have all : b.blocks.toList.Pairwise (·.id.index < ·.id.index) := by
    refine List.pairwise_iff_getElem.2 fun i j hi hj lt => ?_
    rw [numbered i _ (Array.getElem?_toList.symm.trans (List.getElem?_eq_getElem hi)),
      numbered j _ (Array.getElem?_toList.symm.trans (List.getElem?_eq_getElem hj))]
    exact lt
  exact (all.filter _).map _ fun _ _ lt => lt

/-- Lowered bodies are numbered, and in every numbered body a block is among the predecessors of
another exactly if that is among its successors, wherever the exits lead. Predecessors come in block
order, successors once each in the order of the exit. -/
theorem predecessors_dual (b : Body) :
    (∀ {func a insts root entry void a' insts'},
      lowerBody func a insts root entry void = .ok (b, a', insts') → b.Numbered) ∧
    (b.Numbered → b.predecessors.length = b.blocks.size ∧
      (∀ p s : BlockId, p.index < b.blocks.size → s.index < b.blocks.size → ∃ before after,
        b.predecessors[s.index]? = some before ∧ b.successors p = .ok after ∧
          (p ∈ before ↔ s ∈ after)) ∧
      (∀ before ∈ b.predecessors, before.Pairwise (·.index < ·.index)) ∧
      (∀ (p : BlockId) block, b.blocks[p.index]? = some block → ∃ after,
        b.successors p = .ok after ∧ after.Nodup ∧ after = block.terminator.named.eraseDups)) := by
  refine ⟨numbered_lowerBody, fun numbered => ⟨b.length_predecessors, fun p s hp hs => ?_,
    fun before mem => ?_, fun p block found => ?_⟩⟩
  · have found := Array.getElem?_eq_getElem hp
    exact ⟨_, _, getElem?_predecessors hs, successors_eq found, mem_predecessorsOf numbered found⟩
  · obtain ⟨i, at'⟩ := List.mem_iff_getElem?.1 mem
    have lt : i < b.blocks.size := b.length_predecessors ▸ (List.getElem?_eq_some_iff.1 at').1
    cases (getElem?_predecessors (s := ⟨i⟩) lt).symm.trans at'
    exact pairwise_predecessorsOf numbered ⟨i⟩
  · exact ⟨_, successors_eq found, block.terminator.nodup_targets,
      block.terminator.targets_eq_eraseDups⟩

/-- A branch both ways of which lead to one block, a loop beside a way out of the body, and a block
that nothing leads to. -/
def knot : Body :=
  ⟨#[⟨⟨0⟩, "fork", [], .branch (.param 0) ⟨1⟩ ⟨1⟩⟩, ⟨⟨1⟩, "loop", [], .branch (.param 0) ⟨9⟩ ⟨1⟩⟩,
    ⟨⟨2⟩, "loose", [], .jump ⟨1⟩⟩], ⟨0⟩⟩

theorem predecessors_dual_knot :
    (∃ body a insts, lowerBody ⟨0⟩ .initial .initial ⟨1⟩ [] true = .ok (body, a, insts) ∧
      body.Numbered) ∧
    knot.Numbered ∧ knot.predecessors = [[], [⟨0⟩, ⟨1⟩, ⟨2⟩], []] ∧
      knot.successors ⟨1⟩ = .ok [⟨9⟩, ⟨1⟩] ∧
      ∃ before after, knot.predecessors[1]? = some before ∧ knot.successors ⟨0⟩ = .ok after ∧
        (⟨0⟩ ∈ before ↔ ⟨1⟩ ∈ after) := by
  have numbered : knot.Numbered := by
    rintro (_ | _ | _ | i) block found
    · cases found; rfl
    · cases found; rfl
    · cases found; rfl
    · simp [knot] at found
  refine ⟨?_, numbered, by decide, rfl, ?_⟩
  · have lowered : ∃ body a insts, lowerBody ⟨0⟩ .initial .initial ⟨1⟩ [] true =
        .ok (body, a, insts) := ⟨_, _, _, by rfl⟩
    obtain ⟨body, a, insts, lowered⟩ := lowered
    exact ⟨body, a, insts, lowered, (predecessors_dual body).1 lowered⟩
  · exact ((predecessors_dual knot).2 numbered).2.1 ⟨0⟩ ⟨1⟩ (by decide) (by decide)

end Body

end Codegen
