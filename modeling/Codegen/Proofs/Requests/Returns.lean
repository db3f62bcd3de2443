import Codegen.Proofs.Requests.Acting
import Codegen.Proofs.Types.Signatures

/-!
Returns and signatures. The returns of a body are those that return statements made, each with the
value of its statement, and the ends of a function without a result. A statement with a value
returns it even where the signature was made void, which is the only way in which the two differ.
-/

namespace Codegen

open Relation

/-! ## Returns among instructions -/

namespace InstStore.Follows

variable {N : Inst → Prop} {s s₁ : InstStore}

theorem returned?_of_lt (h : Follows N s s₁) {i : InstId} (lt : i.index < s.slots.size)
    {v : Option Value} (returned : s₁.returned? i = some v) : s.returned? i = some v := by
  rcases h.old lt with same | gone
  · rwa [returned?, same] at returned
  · rw [returned?, gone] at returned
    cases returned

theorem returned?_of_le (h : Follows N s s₁) {i : InstId} (le : s.slots.size ≤ i.index)
    {v : Option Value} (returned : s₁.returned? i = some v) : ∃ ty, N ⟨.ret v, ty⟩ := by
  obtain ⟨⟨kind, ty⟩, found, is⟩ := Option.bind_eq_some_iff.1 returned
  have made := h.new le found
  cases kind with
  | ret w =>
    cases is
    exact ⟨ty, made⟩
  | _ => cases is

end InstStore.Follows

/-- What a request does to types and instructions. -/
theorem Request.proceeds {r : Request Category.Handle} {c c' : Compilation} {reply : Reply}
    (run : r.run c = .ok (reply, c')) : TypeTable.Run c.types c'.types ∧
      c.insts.Follows (fun inst => ∀ v, inst.kind = .ret v → r.MayReturn v) c'.insts :=
  have acts := Build.proceeds_request False.elim False.elim False.elim run
  ⟨TypeTable.run_of_asks acts.types_le, acts.returns⟩

/-! ## Finished bodies -/

/-- What the blocks of a body return. -/
def Body.returns (b : Body) : List (Option Value) :=
  b.blocks.toList.filterMap fun block => block.terminator.returned?

theorem Builder.exits_finish (b : Builder) (void : Bool) :
    (b.finish void).blocks.toList.map (·.terminator) = b.blocks.toList.map fun block =>
      block.terminator.getD (if void then .ret none else .unreachable) := by
  apply List.ext_getElem
  · simp [finish]
  · intro i _ _
    simp [finish]

/-- Blocks that are left open return nothing, and only where nothing is to be returned. -/
theorem Draft.returns_finish (d : Draft) (void : Bool) :
    ∃ ends, (d.builder.finish void).returns.Perm (d.returns ++ ends) ∧
      ∀ v ∈ ends, v = none ∧ void = true := by
  have exits := congrArg (List.filterMap Terminator.returned?) (d.builder.exits_finish void)
  rw [List.filterMap_map, List.filterMap_map] at exits
  unfold Body.returns Draft.returns
  refine exits ▸ ?_
  generalize d.builder.blocks.toList = blocks
  induction blocks with
  | nil => exact ⟨[], .refl _, nofun⟩
  | cons block rest ih =>
    obtain ⟨ends, perm, none⟩ := ih
    cases isOpen : block.terminator with
    | some exit =>
      refine ⟨ends, ?_, none⟩
      cases e : exit.returned? <;> simpa [isOpen, e] using perm
    | none =>
      cases void with
      | false => exact ⟨ends, by simpa [isOpen, Terminator.returned?] using perm, none⟩
      | true =>
        refine ⟨.none :: ends, ?_, List.forall_mem_cons.2 ⟨⟨rfl, rfl⟩, none⟩⟩
        simpa [isOpen, Terminator.returned?] using (perm.cons .none).trans List.perm_middle.symm

/-- The returns of a body that is defined were returns before, and the rest are ends. -/
theorem Defines.returns {func : FuncId} {root : NodeId} {c c' : Compilation} {f f' : Function}
    {entry : List InstId} {insts insts' : InstStore} {void : Bool} {body : Body} {a : Arena}
    (h : Defines func root c c' f f' entry insts void body a insts') :
    ∃ (used : List InstId) (ends : List (Option Value)),
      body.returns.Perm (used.filterMap c.insts.returned? ++ ends) ∧
        ∀ v ∈ ends, v = none ∧ void = true := by
  obtain ⟨s, code, es, lowered, -, -⟩ := exists_lowered h.lowered
  obtain ⟨used, tests, conserved⟩ := lowered.happens.exists_conserved (.refl insts)
  obtain ⟨ends, perm, none⟩ := s.draft.returns_finish void
  rw [lowered.body_eq]
  refine ⟨used, ends, perm.trans (.append_right _ ?_), none⟩
  have start : (Draft.start.add entry).returns = [] := Draft.start.returns_add entry
  have same : insts.returned? = c.insts.returned? := by
    funext i
    by_cases lt : i.index < c.insts.slots.size
    · rw [InstStore.returned?, (Function.materializeEntry_ok h.materialized).2.2.2.1 lt,
        InstStore.returned?]
    · have le := Nat.le_of_not_lt lt
      have opened : c.insts.Follows (fun inst => ∀ v, inst.kind ≠ .ret v) insts :=
        .materializeEntry h.materialized fun _ _ _ => by simp
      have unreturned : insts.returned? i = .none := by
        refine Option.eq_none_iff_forall_ne_some.2 fun v returned => ?_
        obtain ⟨ty, other⟩ := opened.returned?_of_le le returned
        exact other v rfl
      rw [unreturned, InstStore.returned?, InstStore.find?_eq_none_of_le le]
      rfl
  rw [← same]
  exact conserved.moved.returns.trans (.of_eq (congrArg (· ++ _) start))

/-! ## Sessions -/

namespace Session

variable {c : Compilation} {moves : List Move}

theorem asked (session : Session c moves) : c.types.Asked ∧ c.Named := by
  induction session with
  | start =>
    refine ⟨⟨_, .refl⟩, .initial (fun form mem name part e => ?_) _⟩
    simp [e, TypeTable.primitives] at mem
  | request _ run ih =>
    have acts := Build.proceeds_request False.elim False.elim False.elim run
    exact ⟨ih.1.run acts.types_le, acts.named ih.2⟩
  | rework _ _ ih => exact ih

theorem types_reachable (session : Session c moves) : c.types.Reachable := session.asked.1.reachable

/-- What a session has come to since one of its requests. -/
theorem since (session : Session c moves) {before after : Compilation}
    {r : Request Category.Handle} {reply : Reply} (mem : .request before r reply after ∈ moves) :
    r.run before = .ok (reply, after) ∧ before.types.Reachable ∧
      TypeTable.Run after.types c.types ∧ after.insts.slots.size ≤ c.insts.slots.size := by
  induction session with
  | start => cases mem
  | request session run ih =>
    have step := Request.proceeds run
    rcases List.mem_cons.1 mem with e | mem
    · cases e
      exact ⟨run, session.types_reachable, .refl, Nat.le_refl _⟩
    · obtain ⟨ran, reach, types, insts⟩ := ih mem
      exact ⟨ran, reach, types.trans step.1, insts.trans step.2.size_le⟩
  | rework _ _ ih => exact ih ((List.mem_cons.1 mem).resolve_left nofun)

/-- The instruction was made for a return statement of a function. -/
def MadeBy (moves : List Move) (i : InstId) (func : FuncId) (vals : List NodeId) : Prop :=
  ∃ before span reply after, .request before (.returnStmt func vals span) reply after ∈ moves ∧
    before.insts.slots.size ≤ i.index ∧ i.index < after.insts.slots.size

theorem MadeBy.cons {i : InstId} {func : FuncId} {vals : List NodeId} (h : MadeBy moves i func vals)
    (m : Move) : MadeBy (m :: moves) i func vals := by
  obtain ⟨before, span, reply, after, mem, range⟩ := h
  exact ⟨before, span, reply, after, List.mem_cons_of_mem _ mem, range⟩

/-- Every return was made for a return statement. -/
theorem exists_madeBy (session : Session c moves) {i : InstId} {v : Option Value}
    (returned : c.insts.returned? i = some v) : ∃ func vals, MadeBy moves i func vals := by
  induction session with
  | start => cases returned
  | @request c c' moves r reply _ run ih =>
    have step := (Request.proceeds run).2
    by_cases lt : i.index < c.insts.slots.size
    · obtain ⟨func, vals, made⟩ := ih (step.returned?_of_lt lt returned)
      exact ⟨func, vals, made.cons _⟩
    · obtain ⟨ty, made⟩ := step.returned?_of_le (Nat.le_of_not_lt lt) returned
      have may := made v rfl
      cases r
      case returnStmt func vals span =>
        obtain ⟨inst, found, -⟩ := Option.bind_eq_some_iff.1 returned
        exact ⟨func, vals, c, span, reply, c', List.mem_cons_self, Nat.le_of_not_lt lt,
          InstStore.lt_of_find? found⟩
      all_goals cases may
  | rework _ _ ih =>
    obtain ⟨func, vals, made⟩ := ih returned
    exact ⟨func, vals, made.cons _⟩

/-- A return has a value exactly if its statement has. -/
theorem MadeBy.isSome_iff (session : Session c moves) {i : InstId} {v : Option Value}
    {func : FuncId} {vals : List NodeId} (made : MadeBy moves i func vals)
    (returned : c.insts.returned? i = some v) : v.isSome ↔ vals ≠ [] := by
  obtain ⟨before, span, reply, after, mem, le, lt⟩ := made
  induction session with
  | start => cases mem
  | request session run ih =>
    have step := (Request.proceeds run).2
    rcases List.mem_cons.1 mem with e | mem
    · cases e
      obtain ⟨ty, made⟩ := step.returned?_of_le le returned
      exact made v rfl
    · have old := Nat.lt_of_lt_of_le lt (session.since mem).2.2.2
      exact ih (step.returned?_of_lt old returned) mem
  | rework _ _ ih => exact ih returned ((List.mem_cons.1 mem).resolve_left nofun)

end Session

/-! ## Signatures -/

namespace Move

/-- The results of a signature, its type, and whether what it returns was known to take no bytes. -/
def signature? : Move → Option (List (Name × TypeId) × TypeId × Option Bool)
  | request before (.functionType _ _ results resultStruct) (.type fntype) _ =>
    some (results, fntype, (before.types.isZeroSized
      (TypeTable.resultType (Request.fieldsOf results) resultStruct)).toOption)
  | _ => none

/-- The function that a return statement is for, and how many values it has. -/
def passed? : Move → Option (FuncId × Nat)
  | request _ (.returnStmt func vals _) _ _ => some (func, vals.length)
  | _ => none

end Move

namespace Session

variable {c c' : Compilation} {moves : List Move} {results : List (Name × TypeId)} {fntype : TypeId}
  {empty : Bool}

/-- A signature is void exactly if what it returns was known to take no bytes. -/
theorem functionResult?_of_signature (session : Session c moves) {m : Move} (mem : m ∈ moves)
    (signed : m.signature? = some (results, fntype, some empty)) (sound : fntype ≠ .error) :
    ∃ result, c.types.functionResult? fntype = .ok (some result) ∧ (result = .void ↔ empty = true) ∧
      (results = [] → result = .void) := by
  unfold Move.signature? at signed
  split at signed
  case h_2 => cases signed
  rename_i before receiver params given resultStruct made after
  simp only [Option.some.injEq, Prod.mk.injEq] at signed
  obtain ⟨rfl, rfl, known⟩ := signed
  obtain ⟨run, reach, later, -⟩ := session.since mem
  obtain ⟨id, run, e⟩ := Run.map_ok run
  cases e
  rw [Build.onTypes, Run.get_bind] at run
  obtain ⟨⟨id, types⟩, asked, run⟩ := Run.lift_bind_ok run
  cases run
  obtain ⟨-, e, -⟩ | ⟨-, -, empty', known', found⟩ := reach.functionType_cases asked
  · exact absurd e sound
  obtain rfl : empty' = empty := by
    rw [known'] at known
    exact Option.some.inj known
  have kept := TypeTable.interned_of_changes later.changes found
  have form := TypeTable.form_eq_ok.2 ⟨_, kept⟩
  refine ⟨_, ?_, reach.result_eq_void_iff known', fun none => ?_⟩
  · rw [TypeTable.functionResult?, TypeTable.underlyingForm, TypeTable.underlying,
      TypeTable.underlyingWithin, form]
    change (c.types.form _ >>= _) = _
    rw [form]
    rfl
  · subst none
    split <;> rfl

/-- A return of a function agrees with its signature exactly if its statement has no value to return
or the signature has a result. -/
theorem returns_agree_iff (session : Session c moves) {func : FuncId} {root : NodeId}
    (signed : ∃ m ∈ moves, m.signature? = some (results, fntype, some empty))
    (sound : fntype ≠ .error) (declared : c.functions[func.index]?.map (·.fntype) = some fntype)
    (counted : ∀ m ∈ moves, ∀ x ∈ m.passed?, x.1 = func → x.2 = results.length)
    (run : Build.setBody func root c = .ok (true, c')) :
    ∃ result body, c.types.functionResult? fntype = .ok (some result) ∧
      (result = .void ↔ empty = true) ∧
      c'.functions[func.index]?.bind (·.body) = some body ∧
      ∃ (used : List InstId) (ends : List (Option Value)),
        body.returns.Perm (used.filterMap c.insts.returned? ++ ends) ∧
        (∀ v ∈ ends, v = none ∧ result = .void) ∧
        ∀ i ∈ used, ∀ v, c.insts.returned? i = some v → (∃ g vals, MadeBy moves i g vals) ∧
          ∀ vals, MadeBy moves i func vals →
            ((v.isSome ↔ result ≠ .void) ↔ (results = [] ∨ result ≠ .void)) := by
  obtain ⟨m, mem, signed⟩ := signed
  obtain ⟨result, typed, void, bare⟩ := session.functionResult?_of_signature mem signed sound
  obtain ⟨e, -⟩ | ⟨-, g, g', entry, insts, isVoid, body, a, insts', h⟩ := Build.setBody_ok run
  · cases e
  rw [h.found] at declared
  cases declared
  obtain ⟨used, ends, perm, none⟩ := h.returns
  obtain ⟨result', typed', e⟩ := h.result
  cases typed'.symm.trans typed
  refine ⟨result, body, typed, void, ?_, used, ends, perm, fun v mem => ?_,
    fun i _ v returned => ?_⟩
  · rw [h.rest, Array.getElem?_modify, if_pos rfl, h.found]
    rfl
  · obtain ⟨rfl, isVoid⟩ := none v mem
    exact ⟨rfl, by simpa [e] using isVoid⟩
  · refine ⟨session.exists_madeBy returned, fun vals made => ?_⟩
    have some := made.isSome_iff session returned
    obtain ⟨before, span, reply, after, mem, -⟩ := made
    have length : vals.length = results.length := counted _ mem _ rfl rfl
    have none : vals = [] ↔ results = [] := by
      rw [← List.length_eq_zero_iff, length, List.length_eq_zero_iff]
    by_cases empty : results = []
    · simp [some, none, empty, bare empty]
    · simp [some, none, empty]

theorem exists_setBody {func : FuncId} {root : NodeId} {returns : List (Option Value)}
    (h : (Build.setBody func root c).toOption.any fun r => r.1 &&
      decide ((r.2.functions[func.index]?.bind (·.body)).map Body.returns = some returns)) :
    ∃ c' body, Build.setBody func root c = .ok (true, c') ∧
      c'.functions[func.index]?.bind (·.body) = some body ∧ body.returns = returns := by
  obtain ⟨⟨done, c'⟩, run, is⟩ := (Option.any_eq_true _ _).1 h
  obtain ⟨rfl, is⟩ := Bool.and_eq_true_iff.1 is
  obtain ⟨body, found, is⟩ := Option.map_eq_some_iff.1 (of_decide_eq_true is)
  exact ⟨c', body, toOption_eq_some.1 run, found, is⟩

/-- A function that returns a number. -/
def answers : Compilation × List Move :=
  record .standard [.functionType none [] [(.empty, ⟨5⟩)] .void,
    .declareFunction ⟨14⟩ "f" "" ⟨0⟩ false .synthetic, .integerConstant ⟨5⟩ 7,
    .returnStmt ⟨1⟩ [⟨2⟩] .synthetic]

theorem returns_agree_answers :
    (∃ m ∈ answers.2, m.signature? = some ([(.empty, ⟨5⟩)], ⟨14⟩, some false)) ∧
    answers.1.functions[1]?.map (·.fntype) = some ⟨14⟩ ∧
    (∀ m ∈ answers.2, ∀ x ∈ m.passed?, x.1 = ⟨1⟩ → x.2 = 1) ∧
    ∃ c' body result, Build.setBody ⟨1⟩ ⟨4⟩ answers.1 = .ok (true, c') ∧
      c'.functions[1]?.bind (·.body) = some body ∧
      body.returns = [some (.const (.int ⟨5⟩ 7))] ∧
      answers.1.types.functionResult? ⟨14⟩ = .ok (some result) ∧ result ≠ .void := by
  have signed : ∃ m ∈ answers.2, m.signature? = some ([(.empty, ⟨5⟩)], ⟨14⟩, some false) := by
    decide +kernel
  have declared : answers.1.functions[1]?.map (·.fntype) = some ⟨14⟩ := by decide +kernel
  have counted : ∀ m ∈ answers.2, ∀ x ∈ m.passed?, x.1 = ⟨1⟩ → x.2 = 1 := by decide +kernel
  obtain ⟨c', body, run, found, returns⟩ : ∃ c' body,
      Build.setBody ⟨1⟩ ⟨4⟩ answers.1 = .ok (true, c') ∧
        c'.functions[1]?.bind (·.body) = some body ∧
        body.returns = [some (.const (.int ⟨5⟩ 7))] :=
    exists_setBody (by decide +kernel)
  obtain ⟨result, -, typed, void, -⟩ :=
    (session_record ..).returns_agree_iff signed (by decide) declared counted run
  exact ⟨signed, declared, counted, c', body, result, run, found, returns, typed, fun e => by
    cases void.1 e⟩

/-- A function that returns a value of an empty struct. -/
def answersEmpty : Compilation × List Move :=
  record .standard [.structType [], .functionType none [] [(.empty, ⟨14⟩)] .void,
    .declareFunction ⟨15⟩ "f" "" ⟨0⟩ false .synthetic, .zero ⟨14⟩, .returnStmt ⟨1⟩ [⟨2⟩] .synthetic]

/-- The signature is void, and the body returns a value. -/
theorem returns_not_agree_answersEmpty :
    Session answersEmpty.1 answersEmpty.2 ∧
    (∃ m ∈ answersEmpty.2, m.signature? = some ([(.empty, ⟨14⟩)], ⟨15⟩, some true)) ∧
    answersEmpty.1.functions[1]?.map (·.fntype) = some ⟨15⟩ ∧
    (∀ m ∈ answersEmpty.2, ∀ x ∈ m.passed?, x.1 = ⟨1⟩ → x.2 = 1) ∧
    answersEmpty.1.types.functionResult? ⟨15⟩ = .ok (some .void) ∧
    ∃ c' body, Build.setBody ⟨1⟩ ⟨4⟩ answersEmpty.1 = .ok (true, c') ∧
      c'.functions[1]?.bind (·.body) = some body ∧
      body.returns = [some (.const (.zero ⟨14⟩)), none] := by
  refine ⟨session_record .., by decide +kernel, by decide +kernel, by decide +kernel, ?_,
    exists_setBody (by decide +kernel)⟩
  exact toOption_eq_some.1 (by decide +kernel)

end Session

end Codegen
