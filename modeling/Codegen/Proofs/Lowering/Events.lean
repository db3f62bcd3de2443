import Codegen.Proofs.Body.Dominance
import Codegen.Proofs.Lowering.Switch
import Codegen.Proofs.Tree.Unfold

/-!
What happens to instructions while a tree is lowered. A walk takes the instructions of nodes and
makes comparisons; everything else that it does leaves instructions and returns where they are. It
is to take from each expression and to test each case value once for every way down to it.
-/

namespace Codegen

/-- A value that is returned, if an exit returns. -/
def Terminator.returned? : Terminator → Option (Option Value)
  | .ret value => some value
  | _ => none

namespace Draft

/-- All instructions, block by block. -/
def insts (d : Draft) : List InstId := d.builder.blocks.toList.flatMap (·.insts)

/-- What the blocks that are closed by a return give back. -/
def returns (d : Draft) : List (Option Value) :=
  d.builder.blocks.toList.filterMap fun block => block.terminator.bind Terminator.returned?

/-- Instructions and returns are where they were. -/
structure Still (d d' : Draft) : Prop where
  insts : d'.insts = d.insts
  returns : d'.returns.Perm d.returns

namespace Still

variable {d d₁ d₂ : Draft}

theorem refl (d : Draft) : d.Still d := ⟨rfl, .refl _⟩

theorem trans (h : d.Still d₁) (h' : d₁.Still d₂) : d.Still d₂ :=
  ⟨h'.insts.trans h.insts, h'.returns.trans h.returns⟩

theorem newBlock (h : d.Still d₁) (name : String) : d.Still (d₁.newBlock name) := by
  refine h.trans ⟨?_, ?_⟩
  · simp [Draft.insts, Draft.newBlock, Builder.newBlock]
  · simp [Draft.returns, Draft.newBlock, Builder.newBlock]

theorem count (h : d.Still d₁) (f : Counts → Counts) : d.Still (d₁.count f) := ⟨h.1, h.2⟩

theorem moveTo (h : d.Still d₁) (b : BlockId) : d.Still (d₁.moveTo b) := ⟨h.1, h.2⟩

theorem meet (h : d.Still d₁) (l : LabelId) : d.Still (d₁.meet l) := by
  unfold Draft.meet
  split
  · exact h
  · have made := h.newBlock s!"label.{l.index}"
    exact ⟨made.1, made.2⟩

theorem newCases (h : d.Still d₁) (n : Nat) : d.Still (d₁.newCases n) := by
  induction n generalizing d₁ with
  | zero => exact h
  | succ n ih => exact ih ((h.newBlock _).count _)

theorem newSwitch (h : d.Still d₁) (n : Nat) : d.Still (d₁.newSwitch n) :=
  ((h.count _).newCases n).newBlock _

end Still

end Draft

theorem flatMap_modify_eq {α β : Type} {g : α → List β} {f : α → α} (same : ∀ x, g (f x) = g x)
    (l : List α) (i : Nat) : (l.modify i f).flatMap g = l.flatMap g := by
  induction l generalizing i with
  | nil => simp
  | cons x rest ih =>
    cases i with
    | zero => simp [same]
    | succ i => simp [ih]

/-- A change of one element that had no image. -/
theorem filterMap_modify_perm {α β : Type} {g : α → Option β} {f : α → α} {l : List α} {i : Nat}
    {x : α} (found : l[i]? = some x) (none : g x = none) :
    ((l.modify i f).filterMap g).Perm (l.filterMap g ++ (g (f x)).toList) := by
  induction l generalizing i with
  | nil => simp at found
  | cons y rest ih =>
    cases i with
    | zero =>
      have e : y = x := by simpa using found
      subst e
      cases image : g (f y) with
      | none => simp [none, image]
      | some z => simpa [none, image] using (List.perm_append_singleton z _).symm
    | succ i =>
      have more := ih (by simpa using found)
      cases image : g y with
      | none => simpa [image] using more
      | some z => simpa [image] using more

theorem Draft.insts_close (d : Draft) (exit : Terminator) : (d.close exit).insts = d.insts := by
  simp only [insts, close, turn, Array.toList_modify]
  refine flatMap_modify_eq ?_ _ _
  exact fun _ => rfl

theorem Draft.returns_close {d : Draft} (isOpen : d.isOpen d.cursor) (exit : Terminator) :
    (d.close exit).returns.Perm (d.returns ++ exit.returned?.toList) := by
  obtain ⟨block, found, none⟩ := exists_of_isOpen isOpen
  simp only [returns, close, turn, Array.toList_modify]
  refine filterMap_modify_perm (x := block) ?_ (by simp [none])
  simpa [block?] using found

namespace Draft.Still

variable {d d₁ : Draft}

theorem turn (h : d.Still d₁) (isOpen : d₁.isOpen d₁.cursor) (exit : Terminator) (next : BlockId)
    (goesOn : exit.returned? = none) : d.Still (d₁.turn exit next) := by
  have closed := d₁.returns_close isOpen exit
  rw [goesOn, Option.toList_none, List.append_nil] at closed
  exact h.trans ⟨d₁.insts_close exit, closed⟩

theorem close (h : d.Still d₁) (isOpen : d₁.isOpen d₁.cursor) (exit : Terminator)
    (goesOn : exit.returned? = none) : d.Still (d₁.close exit) :=
  h.turn isOpen exit d₁.cursor goesOn

theorem drop (h : d.Still d₁) (isOpen : d₁.isOpen d₁.cursor) (exit : Terminator)
    (goesOn : exit.returned? = none) : d.Still (d₁.drop exit) :=
  ((h.newBlock _).count _).turn (isOpen_newBlock isOpen _) exit _ goesOn

theorem fork (h : d.Still d₁)
    (isOpen : ((d₁.newBlock s!"then.{d₁.counts.ifs}").newBlock
      s!"fallthrough.{d₁.counts.ifs}").isOpen d₁.cursor) (cond : Value) : d.Still (d₁.fork cond) :=
  (((h.newBlock _).newBlock _).count _).turn isOpen _ _ rfl

theorem forkElse (h : d.Still d₁)
    (isOpen : (((d₁.newBlock s!"then.{d₁.counts.ifs}").newBlock s!"else.{d₁.counts.ifs}").newBlock
      s!"fallthrough.{d₁.counts.ifs}").isOpen d₁.cursor) (cond : Value) :
    d.Still (d₁.forkElse cond) :=
  ((((h.newBlock _).newBlock _).newBlock _).count _).turn isOpen _ _ rfl

theorem pass (h : d.Still d₁) (isOpen : d₁.isOpen d₁.cursor) (cond : Value) (selected : BlockId) :
    d.Still (d₁.pass cond selected) :=
  ((h.newBlock _).count _).turn (isOpen_newBlock isOpen _) _ _ rfl

end Draft.Still

/-! ## Nodes -/

/-- The labels that a node of a kind places. -/
def NodeKind.labels : NodeKind → List LabelId
  | .labelStmt _ l => [l]
  | _ => []

/-- The labels that a node of a kind jumps to. -/
def NodeKind.gotos : NodeKind → List LabelId
  | .gotoStmt _ l => [l]
  | _ => []

/-- What the nodes hold that are fewer than a number of steps below a node, each as often as there
are ways down to it. -/
def Arena.gather {β : Type} (f : NodeKind → List β) (a : Arena) : Nat → NodeId → List β
  | 0, _ => []
  | n + 1, id => (a.find? id).elim [] fun node => f node.kind ++ node.kids.flatMap (a.gather f n)

section

variable {a : Arena} {id : NodeId}

theorem Arena.gather_succ {β : Type} {f : NodeKind → List β} {node : Node}
    (find : a.find? id = some node) (n : Nat) :
    a.gather f (n + 1) id = f node.kind ++ node.kids.flatMap (a.gather f n) := by
  rw [gather, find, Option.elim_some]

end

/-! ## Events -/

/-- What a walk does to instructions. -/
inductive Event where
  /-- The instructions of a node go to the cursor. -/
  | take (node : NodeId)
  /-- A comparison of the value switched on with a case value is made. -/
  | test (scrutinee value : NodeId)
  deriving DecidableEq

/-- States before and after some events. -/
inductive Happens (a : Arena) : Lowering → List Event → Lowering → Prop
  | nil {s} : Happens a s [] s
  | still {s d es s'} : s.draft.Still d → Happens a (s.redraft d) es s' → Happens a s es s'
  | take {s id s₁ es s'} : Lower.placeInsts id s = .ok ((), s₁) → Happens a s₁ es s' →
    Happens a s (.take id :: es) s'
  | test {s x y v w body s₁ es s'} : a.value? x = some v → a.value? y = some w →
    Lower.test v w body s = .ok ((), s₁) → Happens a s₁ es s' → Happens a s (.test x y :: es) s'

/-- What events do to the arena and the store: nodes are emptied, returns are freed and comparisons
added. -/
structure Touches (es : List Event) (s s' : Lowering) : Prop where
  func_eq : s'.func = s.func
  size : s'.arena.size = s.arena.size
  nodes : ∀ n, s'.arena.find? n = s.arena.find? n ∨
    s'.arena.find? n = (s.arena.find? n).map Node.bare ∧ .take n ∈ es
  store : s.insts.Later s'.insts

namespace Touches

variable {s s₁ s₂ : Lowering} {es es' : List Event}

theorem trans (h : Touches es s s₁) (h' : Touches es' s₁ s₂) : Touches (es ++ es') s s₂ where
  func_eq := h'.func_eq.trans h.func_eq
  size := h'.size.trans h.size
  nodes n := by
    rcases h'.nodes n with e' | ⟨e', mem⟩
    · rw [e']
      exact (h.nodes n).imp_right (And.imp_right (List.mem_append_left _))
    · refine .inr ⟨?_, List.mem_append_right _ mem⟩
      rcases h.nodes n with e | ⟨e, _⟩
      · rw [e', e]
      · rw [e', e, Option.map_map]
        rfl
  store := h.store.trans h'.store

theorem take {id : NodeId} (run : Lower.placeInsts id s = .ok ((), s₁)) :
    Touches [.take id] s s₁ := by
  obtain ⟨node, found, run⟩ := Lower.placeInsts_ok run
  obtain ⟨_, _, later, arena, func, _⟩ := forM_place_ok run (.refl s.insts)
  refine ⟨func, by simp [arena], fun n => ?_, later⟩
  rw [arena]
  by_cases e : n = id
  · subst e
    exact .inr ⟨by simp only [Arena.find?_set (Arena.isLive_of_find? found), found]; rfl, by simp⟩
  · exact .inl (Arena.find?_set_of_ne e)

theorem test (es : List Event) {x y : Value} {body : BlockId}
    (run : Lower.test x y body s = .ok ((), s₁)) : Touches es s s₁ := by
  obtain ⟨-, rfl⟩ := Lower.test_eq_ok.1 run
  exact ⟨rfl, rfl, fun _ => .inl rfl, s.insts.later_create _ _⟩

theorem alike {a : Arena} (h : Touches es s s₁) (same : a.Alike s.arena) : a.Alike s₁.arena := by
  intro n
  rw [← same n]
  rcases h.nodes n with e | ⟨e, _⟩
  · rw [e]
  · rw [e, Option.map_map]
    rfl

end Touches

namespace Happens

variable {a : Arena} {s s₁ s₂ : Lowering} {es es' : List Event}

theorem trans (h : Happens a s es s₁) (h' : Happens a s₁ es' s₂) : Happens a s (es ++ es') s₂ := by
  induction h with
  | nil => exact h'
  | still same _ ih => exact .still same (ih h')
  | take run _ ih => exact .take run (ih h')
  | test x y run _ ih => exact .test x y run (ih h')

theorem redraft (h : Happens a s es s₁) {d : Draft} (same : s₁.draft.Still d) :
    Happens a s es (s₁.redraft d) := by
  have all := h.trans (.still same .nil)
  rwa [List.append_nil] at all

theorem touches (h : Happens a s es s₁) : Touches es s s₁ := by
  induction h with
  | nil => exact ⟨rfl, rfl, fun _ => .inl rfl, .refl _⟩
  | still _ _ ih => exact ⟨ih.1, ih.2, ih.3, ih.4⟩
  | take run _ ih => exact (Touches.take run).trans ih
  | test _ _ run _ ih => exact (Touches.test [_] run).trans ih

theorem alike (h : Happens a s es s₁) (same : a.Alike s.arena) : a.Alike s₁.arena :=
  h.touches.alike same

end Happens

/-- The case values of a switch, each with the node switched on. -/
def SwitchLayout.caseValues (layout : SwitchLayout) (kids : List NodeId) : List (NodeId × NodeId) :=
  (kids.take 1).flatMap fun x => ((kids.drop 1).take (total layout.counts)).map fun y => (x, y)

def Node.caseValues (node : Node) : List (NodeId × NodeId) :=
  match node.kind with
  | .switchStmt layout => layout.caseValues node.kids
  | _ => []

/-- What happens at a node, children left out. -/
def Node.events (node : Node) (id : NodeId) : List Event :=
  if node.isStmt then node.caseValues.map fun p => .test p.1 p.2 else [.take id]

theorem Node.events_eq_nil {node : Node} {id : NodeId} (stmt : node.isStmt)
    (other : ∀ layout, node.kind ≠ .switchStmt layout) : node.events id = [] := by
  rw [events, if_pos stmt, caseValues]
  split
  · rename_i layout e
    exact absurd e (other layout)
  · rfl

def Arena.eventsAt (a : Arena) (id : NodeId) : List Event := (a.find? id).elim [] (·.events id)

/-- What happens fewer than a number of steps below a node, once for every way down. -/
def Arena.events (a : Arena) (n : Nat) (id : NodeId) : List Event :=
  (a.unfold n id).flatMap a.eventsAt

section

variable {a : Arena} {fuel : Nat} {xs ys : List NodeId} {own own' es es' : List Event}
  {ls ls' gs gs' : List LabelId} {id : NodeId} {node : Node}

theorem Arena.events_succ (find : a.find? id = some node) (n : Nat) :
    a.events (n + 1) id = node.events id ++ node.kids.flatMap (a.events n) := by
  have below : (node.kids.flatMap (a.unfold n)).flatMap a.eventsAt = node.kids.flatMap
    (a.events n) :=
    List.flatMap_assoc
  rw [events, unfold, find, Option.elim_some, List.flatMap_cons, below, eventsAt, find,
    Option.elim_some]

/-- Events are those below some nodes and some others, in any order; labels and jumps are those
below the nodes. Nothing is too far down. -/
def Tells (a : Arena) (fuel : Nat) (xs : List NodeId) (own es : List Event) (ls gs : List LabelId) :
    Prop :=
  a.WellFormed → (∀ x ∈ xs, a.Within fuel x) ∧ ∀ F, fuel ≤ F →
    es.Perm (own ++ xs.flatMap (a.events F)) ∧ ls = xs.flatMap (a.gather NodeKind.labels F) ∧
      gs = xs.flatMap (a.gather NodeKind.gotos F)

namespace Tells

theorem alone (es : List Event) : Tells a fuel [] es es [] [] :=
  fun _ => ⟨by simp, fun _ _ => ⟨by simp, rfl, rfl⟩⟩

theorem mono {fuel' : Nat} (h : Tells a fuel xs own es ls gs) (le : fuel ≤ fuel') :
    Tells a fuel' xs own es ls gs := by
  intro shaped
  obtain ⟨within, told⟩ := h shaped
  exact ⟨fun x mem => (within x mem).mono le, fun F le' => told F (Nat.le_trans le le')⟩

theorem append (h : Tells a fuel xs own es ls gs) (h' : Tells a fuel ys own' es' ls' gs') :
    Tells a fuel (xs ++ ys) (own ++ own') (es ++ es') (ls ++ ls') (gs ++ gs') := by
  intro shaped
  obtain ⟨within, told⟩ := h shaped
  obtain ⟨within', told'⟩ := h' shaped
  refine ⟨fun x mem => (List.mem_append.1 mem).elim (within x) (within' x), fun F le => ?_⟩
  obtain ⟨perm, labels, gotos⟩ := told F le
  obtain ⟨perm', labels', gotos'⟩ := told' F le
  simp only [List.flatMap_append]
  refine ⟨?_, by rw [labels, labels'], by rw [gotos, gotos']⟩
  rw [List.append_assoc]
  refine (perm.append perm').trans ?_
  rw [List.append_assoc]
  refine List.Perm.append_left own ?_
  rw [← List.append_assoc, ← List.append_assoc]
  exact List.perm_append_comm.append_right _

/-- A node says what its children say, and something itself. -/
theorem parent (find : a.find? id = some node) (h : Tells a fuel xs own es ls gs)
    (kids : a.WellFormed → xs = node.kids) (events : a.WellFormed → own = node.events id)
    (named : a.WellFormed → ls' = node.kind.labels ++ ls ∧ gs' = node.kind.gotos ++ gs) :
    Tells a (fuel + 1) [id] [] es ls' gs' := by
  intro shaped
  obtain ⟨within, told⟩ := h shaped
  rw [kids shaped] at within told
  refine ⟨by simpa using ⟨node, find, within⟩, fun F le => ?_⟩
  obtain ⟨F, rfl⟩ : ∃ n, F = n + 1 := ⟨F - 1, by omega⟩
  obtain ⟨perm, labels, gotos⟩ := told F (by omega)
  obtain ⟨rfl, rfl⟩ := named shaped
  simp only [List.flatMap_singleton, Arena.events_succ find, Arena.gather_succ find,
    List.nil_append, ← events shaped]
  exact ⟨perm, by rw [labels], by rw [gotos]⟩

variable (fuel) in
/-- A statement without children. -/
theorem leaf {kind : NodeKind} (find : a.find? id = some node) (is : node.kind = kind)
    (bare : kind.arity = .fixed 0) (stmt : kind.isStmt) :
    Tells a (fuel + 1) [id] [] [] kind.labels kind.gotos := by
  subst is
  have other : ∀ layout, node.kind ≠ .switchStmt layout := fun layout e => by
    rw [e] at bare
    cases bare
  exact (alone []).parent find (fun shaped => ((shaped.nodes find).kids_eq_nil bare).symm)
    (fun _ => (Node.events_eq_nil stmt other).symm) fun _ => by simp

end Tells

end

end Codegen
