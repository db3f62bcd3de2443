import Codegen.Proofs.Compilation.Functions
import Codegen.Proofs.Lowering.Exits
import Codegen.Proofs.Tree.Unfold

/-!
The definition of a function's body: what is lowered, and what is left of the tree.
-/

namespace Codegen

/-- How a function got its body. -/
structure Defines (func : FuncId) (root : NodeId) (c c' : Compilation) (f f' : Function)
    (entry : List InstId) (insts : InstStore) (void : Bool) (body : Body) (a : Arena)
    (insts' : InstStore) : Prop where
  func_ne : func ≠ .error
  root_ne : root ≠ .errorStmt
  found : c.functions[func.index]? = some f
  checked : c.settings.integrityChecks → c.arena.sharing root = .ok []
  materialized : f.materializeEntry c.insts = (entry, f', insts)
  lowered : lowerBody func c.arena insts root entry void = .ok (body, a, insts')
  first : f'.body = none
  destroyed : a.destroy insts' root .wrappers = .ok (c'.arena, c'.insts)
  rest : c' = { c with
    arena := c'.arena
    insts := c'.insts
    functions := c.functions.modify func.index fun _ => { f' with body := some body } }
  result : ∃ result, c.types.functionResult? f.fntype = .ok result ∧ void = (result == some .void)

variable {c c' : Compilation} {func : FuncId} {root : NodeId}

theorem Build.checkBody_ok {name : String} {u : Unit}
    (run : Build.checkBody name root c = .ok (u, c')) :
    c' = c ∧ (c.settings.integrityChecks → c.arena.sharing root = .ok []) := by
  rw [Build.checkBody, Run.get_bind] at run
  split at run
  · obtain ⟨violations, found, run⟩ := ask_bind_ok run
    split at run
    · cases run
    · rename_i none
      cases run
      rw [Classical.not_not.1 none] at found
      exact ⟨rfl, fun _ => found⟩
  · rename_i off
    cases run
    exact ⟨rfl, fun on => absurd on off⟩

/-- A body is defined, or nothing is done. -/
theorem Build.setBody_ok {done : Bool} (run : Build.setBody func root c = .ok (done, c')) :
    done = false ∧ c' = c ∨ done = true ∧ ∃ f f' entry insts void body a insts',
      Defines func root c c' f f' entry insts void body a insts' := by
  rw [Build.setBody] at run
  split at run
  · cases run
    exact .inl ⟨rfl, rfl⟩
  rename_i fine
  obtain ⟨f, found, run⟩ := getFunction_bind_ok run
  obtain ⟨name, _, run⟩ := ask_bind_ok run
  obtain ⟨_, c₁, e, run⟩ := Run.bind_ok.1 run
  obtain ⟨same, checked⟩ := Build.checkBody_ok e
  rw [same] at run
  obtain ⟨result, asked, run⟩ := ask_bind_ok run
  rw [Run.get_bind] at run
  rcases materialized : f.materializeEntry c.insts with ⟨entry, f', insts⟩
  simp only [materialized] at run
  obtain ⟨⟨body, a, insts'⟩, lowered, run⟩ := Run.lift_bind_ok run
  simp only [Run.set_bind] at run
  obtain ⟨f₁, set, run⟩ := Run.lift_bind_ok run
  obtain ⟨_, c₂, e, run⟩ := Run.bind_ok.1 run
  cases e
  obtain ⟨_, c₃, e, run⟩ := Run.bind_ok.1 run
  obtain ⟨rfl, rfl⟩ := Run.pure_ok run
  rw [destroy, Run.get_bind] at e
  obtain ⟨⟨arena, store⟩, destroyed, e⟩ := Run.lift_bind_ok e
  cases e
  unfold Function.setBody at set
  split at set
  · cases set
  rename_i none
  cases set
  exact .inr ⟨rfl, f, f', entry, insts, _, body, a, insts', fun e => fine (.inl e),
    fun e => fine (.inr e), found, checked, materialized,
    lowered, by simpa using none, destroyed, rfl,
    result, asked, rfl⟩

/-- Lowering leaves every node in place, with its children. -/
theorem Lowered.kidsOf_eq {a : Arena} {insts : InstStore} {entry : List InstId} {void : Bool}
    {body : Body} {s : Lowering} {code : Code} {es : List Event}
    (h : Lowered func a insts root entry void body s code es) (n : NodeId) :
    s.arena.isLive n = a.isLive n ∧ s.arena.kidsOf n = a.kidsOf n := by
  rcases h.touches.nodes n with e | ⟨e, _⟩
  · rw [Arena.isLive, Arena.kidsOf, e]
    exact ⟨rfl, rfl⟩
  · rw [Arena.isLive, Arena.kidsOf, e]
    constructor
    · exact Option.isSome_map
    · change (((a.find? n).map Node.bare).elim [] (·.kids)).filter _ =
        (((a.find? n).elim [] (·.kids)).filter _)
      cases a.find? n <;> rfl

/-- Where a body was defined, its tree is gone and nothing else is. -/
theorem Defines.isLive_iff {f f' : Function} {entry : List InstId} {insts insts' : InstStore}
    {void : Bool} {body : Body} {a : Arena}
    (h : Defines func root c c' f f' entry insts void body a insts') (shaped : c.arena.WellFormed)
    (n : NodeId) :
    c'.arena.isLive n ↔ c.arena.isLive n ∧ ¬(c.arena.Below root n ∧ ¬n.isSentinel) := by
  obtain ⟨s, code, es, lowered, rfl, rfl⟩ := exists_lowered h.lowered
  have same := lowered.kidsOf_eq
  have below : s.arena.Below = c.arena.Below := by
    have kids : s.arena.kidsOf = c.arena.kidsOf := funext fun n => (same n).2
    unfold Arena.Below
    rw [kids]
  have razed := Arena.razed_of_destroyWithin _ h.destroyed
  have kept : ¬(¬root.isSentinel ∧ c.arena.Below root n) →
      (c'.arena.isLive n ↔ c.arena.isLive n) := by
    intro out
    rw [← (same n).1, Arena.isLive, Arena.isLive, razed.spared (below ▸ out)]
  by_cases sentinel : root.isSentinel
  · -- nothing but the sentinel itself is below it
    rw [kept fun out => out.1 sentinel, and_iff_left]
    rintro ⟨under, other⟩
    have e := shaped.eq_of_reaches sentinel (Arena.reaches_of_below under)
    exact other (e ▸ sentinel)
  by_cases under : c.arena.Below root n
  · have gone := razed.dead_of_below (by decide) sentinel (below ▸ under)
    have other : ¬n.isSentinel := by
      rcases Relation.ReflTransGen.cases_tail under with rfl | ⟨p, _, kid⟩
      · exact sentinel
      · exact Arena.not_isSentinel_of_mem_kidsOf kid
    simp [Arena.isLive, gone, under, other]
  · simp [kept fun out => under out.2, under]

end Codegen
