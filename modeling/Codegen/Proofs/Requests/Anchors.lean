import Codegen.Proofs.Requests.Sentinels
import Codegen.Proofs.Requests.Storage
import Codegen.Proofs.Types.Interning

/-!
The sentinels through a session. They are there from the start and stay what they are, so that every
question about one of them has an answer.
-/

namespace Codegen

open Relation

namespace Compilation

/-- The sentinels are in place. -/
structure Anchored (c : Compilation) : Prop where
  shaped : c.arena.WellFormed
  type : c.types.find? .error = some ⟨.error, .interned⟩
  expr : ∃ node, c.arena.find? .errorExpr = some node ∧ node.ty = .error ∧ node.value = none
  block : ∀ f ∈ c.functions, ¬f.hasBlock .errorStmt
  func : ∃ f, c.functions[0]? = some f
  var : ∃ v, c.vars[0]? = some v ∧ v.isError

variable {X : NodeId → Prop} {c c' : Compilation}

theorem anchored_initial (settings : Settings) : (initial settings).Anchored where
  shaped := Arena.wellFormed_initial
  type := TypeTable.find?_initial.2 ⟨rfl, rfl⟩
  expr := ⟨_, rfl, rfl, rfl⟩
  block f mem := by
    cases Array.mem_singleton.1 mem
    exact Bool.false_ne_true
  func := ⟨_, rfl⟩
  var := ⟨_, rfl, rfl⟩

/-- Nothing that a step does moves a sentinel. -/
theorem Anchored.turn (h : c.Anchored) (turns : c.Turns X c')
    (func : ∃ f, c'.functions[0]? = some f)
    (var : ∃ v, c'.vars[0]? = some v ∧ v.isError) : c'.Anchored where
  shaped := turns.nodes.shaped h.shaped
  type := TypeTable.interned_of_changes turns.types h.type
  expr := by
    obtain ⟨node', find', _⟩ := (turns.nodes.shaped h.shaped).errorExpr
    obtain ⟨old, found, ty, value⟩ := h.expr
    obtain ⟨node, find, ripens, -⟩ := turns.nodes.old (Arena.lt_of_find? found) find'
    cases found.symm.trans find
    obtain ⟨_, find₀, kind⟩ := h.shaped.errorExpr
    cases found.symm.trans find₀
    exact ⟨node', find', ripens.ty.trans ty, ripens.value value (by simp [kind])⟩
  block f mem has := by
    rcases turns.blocks mem has with ⟨g, mem, has⟩ | le
    · exact h.block g mem has
    · obtain ⟨node, find, _⟩ := h.shaped.errorStmt
      exact Nat.not_lt.2 le (Arena.lt_of_find? find)
  func := func
  var := var

theorem func_of_allots (h : ReflTransGen Allots c c') (func : ∃ f, c.functions[0]? = some f) :
    ∃ f, c'.functions[0]? = some f := by
  induction h with
  | refl => exact func
  | tail _ step ih =>
    obtain ⟨f, found⟩ := ih
    obtain ⟨f', found', -⟩ := step.params found
    exact ⟨f', found'⟩

/-- Functions are never taken away. -/
theorem Places.func {r : Request Category.Handle} {reply : Reply} (h : c.Places r reply c')
    (func : ∃ f, c.functions[0]? = some f) : ∃ f, c'.functions[0]? = some f := by
  obtain ⟨f, found⟩ := func
  cases h with
  | elsewhere steps => exact func_of_allots steps ⟨f, found⟩
  | parameter | replaced =>
    rw [Array.getElem?_modify, found]
    split
    · exact ⟨_, rfl⟩
    · exact ⟨_, rfl⟩

end Compilation

theorem Session.anchored {c : Compilation} {moves : List Move} (session : Session c moves) :
    c.Anchored := by
  induction session with
  | start settings => exact Compilation.anchored_initial settings
  | request session run ih =>
    have places := Compilation.places run
    exact ih.turn (Request.turns run) (places.func ih.func) (places.stored session.stored).error
  | rework _ run ih =>
    exact ih.turn (.of_functions .refl (Rework.ripens run) rfl) ih.func ih.var

end Codegen
