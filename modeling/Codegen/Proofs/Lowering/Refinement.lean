import Codegen.Proofs.Lowering.Simulation
import Codegen.Proofs.Lowering.Switch

/-!
A lowered body does what its tree says. Under every meaning of instructions and values, the body
and the tree as it was read execute the same instructions and end in the same way.
-/

namespace Codegen

section

variable {a : Arena} {s₀ : InstStore}

/-- However deep it goes, the walk lays out what is read. -/
theorem follows (bare : a.SentinelsBare) (fuel : Nat) : Follows a s₀ fuel := by
  induction fuel with
  | zero => exact follows_zero
  | succ fuel ih =>
    refine ⟨ih.walk bare, fun e trees apart => ?_, ih.walkSwitch, ih.emit bare⟩
    subst e
    exact ih.walkIf trees apart

end

section

variable {func : FuncId} {a a' : Arena} {insts insts' : InstStore} {root : NodeId}
  {entry : List InstId} {void : Bool} {body : Body}

/-- What a lowered body has to do with its tree: it is what the tree says, laid out after the entry
instructions. -/
structure LaidOut (a : Arena) (insts : InstStore) (root : NodeId) (entry : List InstId)
    (void : Bool) (body : Body) (insts' : InstStore) (code : Code) : Prop where
  read : a.reading insts root = some code
  body_eq : body = (code.lower (Draft.start.add entry)).builder.finish void
  made : ∀ p ∈ code.placed, p.Made insts insts'

theorem exists_laidOut_of_lowerBody
    (lowered : lowerBody func a insts root entry void = .ok (body, a', insts'))
    (tree : a.sharing root = .ok []) (bare : a.SentinelsBare) :
    ∃ code, LaidOut a insts root entry void body insts' code := by
  obtain ⟨⟨_, s⟩, run, e⟩ := bind_eq_ok.1 lowered
  cases e
  obtain ⟨_, s₁, first, run⟩ := Run.bind_ok.1 run
  obtain ⟨-, rfl⟩ := Lower.append_eq_ok.1 first
  have faithful : Faithful a insts ⟨func, a, insts, .initial, [], 0, 0, 0, 0, 0⟩ :=
    ⟨fun _ => rfl, fun _ => rfl, .refl insts⟩
  obtain ⟨code, read, draft, effect⟩ := (follows bare _).stmt
    (Arena.isTree_of_sharing bare tree) run ⟨faithful.1, faithful.2, faithful.3⟩ fun _ _ _ _ => rfl
  refine ⟨code, ?_, ?_, effect.made⟩
  · rw [Arena.reading, show a.readStmt insts _ root insts.slots.size = some _ from read]
    rfl
  · exact congrArg (fun d : Draft => d.builder.finish void) draft

end

/-! ## Runs that are cut off -/

section

variable {σ : Type} {I : Interp σ}

namespace Trace

theorem continues_refl (t : Trace σ) : t.Continues t := ⟨List.prefix_refl _, fun _ _ => rfl⟩

theorem continues_cut (t : Trace σ) : cut.Continues t := ⟨List.nil_prefix, fun _ e => by cases e⟩

theorem continues_execAll {rest rest' : σ → Trace σ} (ids : List InstId)
    (h : ∀ s, (rest s).Continues (rest' s)) (s : σ) :
    (execAll I ids rest s).Continues (execAll I ids rest' s) := by
  induction ids generalizing s with
  | nil => exact h s
  | cons id ids ih =>
    have ⟨first, same⟩ := ih (I.exec id s)
    refine ⟨(List.prefix_cons_inj id).2 first, fun how e => ?_⟩
    simp only [execAll, List.foldr_cons, exec] at *
    rw [same how e]

end Trace

/-- With more transfers, a body goes on where it was cut off. -/
theorem Body.continues_runBlock (body : Body) (n : Nat) (b : BlockId) (s : σ) :
    (body.runBlock I n b s).Continues (body.runBlock I (n + 1) b s) := by
  have enter {go go' : BlockId → σ → Trace σ} (h : ∀ t s, (go t s).Continues (go' t s)) (b s) :
      (body.enter I go b s).Continues (body.enter I go' b s) := by
    unfold Body.enter
    cases body.blocks[b.index]? with
    | none => exact Trace.continues_refl _
    | some block =>
      refine Trace.continues_execAll _ (fun s => ?_) s
      cases block.terminator with
      | jump t => exact h t s
      | branch cond t e =>
        simp only [Terminator.run]
        split
        · exact h t s
        · exact h e s
      | ret value => exact Trace.continues_refl _
      | unreachable => exact Trace.continues_refl _
  induction n generalizing b s with
  | zero => exact enter (fun _ _ => Trace.continues_cut _) b s
  | succ n ih => exact enter ih b s

/-! ## What code hands on -/

/-- A property of what is still to be done that is handed on from the rest to what comes before it,
where only some instructions are executed. -/
structure Cont.Closed (I : Interp σ) (allowed : InstId → Prop) (P : Cont σ → Prop) : Prop where
  hop : ∀ {k}, P k → P k.hop
  stop : ∀ value, P (.stop (.returned value))
  exec : ∀ {id k}, allowed id → P k → P (exec I id k)
  choose : ∀ {cond yes no}, P yes → P no → P (choose I cond yes no)
  test : ∀ {compare x y yes no}, allowed compare → P yes → P no → P (test I compare x y yes no)

/-- Something holds of all ways to go on after a label. -/
def Throughout (P : Cont σ → Prop) (resume : LabelId → Option (Cont σ)) : Prop :=
  ∀ l κ, resume l = some κ → P κ

section

variable {P : Cont σ → Prop}

theorem Throughout.none : Throughout P fun _ => none := fun _ _ e => by cases e

theorem Throughout.or {first second : LabelId → Option (Cont σ)} (h : Throughout P first)
    (h' : Throughout P second) : Throughout P fun l => first l <|> second l := by
  intro l κ e
  cases e₁ : first l with
  | none => exact h' l κ (by simpa [e₁] using e)
  | some κ₁ =>
    have : κ₁ = κ := by simpa [e₁] using e
    exact this ▸ h l κ₁ e₁

end

variable {env : LabelId → Cont σ} {allowed : InstId → Prop} {P : Cont σ → Prop}

mutual

theorem Code.hands_on (h : Cont.Closed I allowed P) : ∀ (code : Code) {k : Cont σ},
    (∀ p ∈ code.placed, allowed p.id) → (∀ l ∈ code.gotos, P (env l).hop) → P k →
    P (code.run I env k) ∧ Throughout P fun l => code.resume I env l k
  | .skip, _, _, _, rest => ⟨rest, .none⟩
  | .seq first second, _, only, at_, rest => by
    have ⟨run₂, resume₂⟩ := second.hands_on h (fun p m => only p (List.mem_append_right _ m))
      (fun l m => at_ l (List.mem_append_right _ m)) rest
    have ⟨run₁, resume₁⟩ := first.hands_on h (fun p m => only p (List.mem_append_left _ m))
      (fun l m => at_ l (List.mem_append_left _ m)) run₂
    exact ⟨run₁, resume₁.or resume₂⟩
  | .inst id, _, only, _, rest => ⟨h.exec (only (.own id) (by simp [Code.placed])) rest, .none⟩
  | .leave value, _, _, _, _ => ⟨h.stop value, .none⟩
  | .label l', k, _, _, rest => by
    refine ⟨h.hop rest, fun l κ e => ?_⟩
    simp only [Code.resume, Option.ite_none_right_eq_some, Option.some.injEq] at e
    exact e.2 ▸ rest
  | .goto l, _, _, at_, _ => ⟨at_ l (by simp [Code.gotos]), .none⟩
  | .ifThen cond body, _, only, at_, rest => by
    have ⟨run, resume⟩ := body.hands_on h only at_ (h.hop rest)
    exact ⟨h.choose run rest, resume⟩
  | .ifElse cond body other, _, only, at_, rest => by
    have ⟨run₁, resume₁⟩ := body.hands_on h (fun p m => only p (List.mem_append_left _ m))
      (fun l m => at_ l (List.mem_append_left _ m)) (h.hop rest)
    have ⟨run₂, resume₂⟩ := other.hands_on h (fun p m => only p (List.mem_append_right _ m))
      (fun l m => at_ l (List.mem_append_right _ m)) (h.hop rest)
    exact ⟨h.choose run₁ run₂, resume₁.or resume₂⟩
  | .switch scrutinee tests default bodies, k, only, at_, rest => by
    have ⟨select, resume₂⟩ := bodies.hands_on h (fun p m => only p (List.mem_append_right _ m))
      (fun l m => at_ l (List.mem_append_right _ m)) rest
    have last : P (default.elim k (bodies.run I env k)) := by
      cases default with
      | none => exact rest
      | some i => exact select i
    have ⟨run, resume₁⟩ := tests.hands_on h scrutinee
      (fun p m => only p (List.mem_append_left _ m)) (fun l m => at_ l (List.mem_append_left _ m))
      select (h.hop last)
    exact ⟨run, resume₁.or resume₂⟩

theorem Tests.hands_on (h : Cont.Closed I allowed P) : ∀ (tests : Tests) (scrutinee : Value)
    {select : Nat → Cont σ} {k : Cont σ}, (∀ p ∈ tests.placed scrutinee, allowed p.id) →
    (∀ l ∈ tests.gotos, P (env l).hop) → (∀ i, P (select i)) → P k →
    P (tests.run I env scrutinee select k) ∧
      Throughout P fun l => tests.resume I env l scrutinee select k
  | .done, _, _, _, _, _, _, rest => ⟨rest, .none⟩
  | .test eval value compare body others, scrutinee, _, _, only, at_, select, rest => by
    have ⟨run₂, resume₂⟩ := others.hands_on h scrutinee
      (fun p m => only p (List.mem_append_right _ (List.mem_cons_of_mem _ m)))
      (fun l m => at_ l (List.mem_append_right _ m)) select rest
    have compared : allowed compare :=
      only (.compare compare scrutinee value) (List.mem_append_right _ (List.mem_cons_self ..))
    have ⟨run₁, resume₁⟩ := eval.hands_on h (fun p m => only p (List.mem_append_left _ m))
      (fun l m => at_ l (List.mem_append_left _ m))
      (h.test (x := scrutinee) (y := value) compared (select body) run₂)
    exact ⟨run₁, resume₁.or resume₂⟩

theorem Bodies.hands_on (h : Cont.Closed I allowed P) : ∀ (bodies : Bodies) {k : Cont σ},
    (∀ p ∈ bodies.placed, allowed p.id) → (∀ l ∈ bodies.gotos, P (env l).hop) → P k →
    (∀ i, P (bodies.run I env k i)) ∧ Throughout P fun l => bodies.resume I env l k
  | .nil, _, _, _, rest => ⟨fun _ => rest, .none⟩
  | .cons body others, _, only, at_, rest => by
    have ⟨run₂, resume₂⟩ := others.hands_on h (fun p m => only p (List.mem_append_right _ m))
      (fun l m => at_ l (List.mem_append_right _ m)) rest
    have ⟨run₁, resume₁⟩ := body.hands_on h (fun p m => only p (List.mem_append_left _ m))
      (fun l m => at_ l (List.mem_append_left _ m)) (h.hop (run₂ 0))
    refine ⟨fun i => ?_, resume₁.or resume₂⟩
    cases i with
    | zero => exact run₁
    | succ i => exact run₂ i

end

/-! ## No run goes astray -/

/-- Never comes to a place that there is not. -/
def Cont.Stays (k : Cont σ) : Prop := ∀ n s s', (k n s).ended ≠ some (.astray, s')

namespace Cont.Stays

variable {k : Cont σ}

theorem hop (h : k.Stays) : (hop k).Stays := by
  intro n s s'
  cases n with
  | zero => simp [Cont.hop, Trace.cut]
  | succ n => exact h n s s'

theorem stop {how : Ending} (h : how ≠ .astray) : (Cont.stop how : Cont σ).Stays := by
  intro n s s' e
  simp only [Cont.stop, Trace.stop, Option.some.injEq, Prod.mk.injEq] at e
  exact h e.1

theorem exec (h : k.Stays) (id : InstId) : (exec I id k).Stays := fun n s => h n (I.exec id s)

theorem closed (I : Interp σ) : Closed I (fun _ => True) Stays where
  hop := hop
  stop _ := stop (by simp)
  exec _ h := h.exec _
  choose yes no n s s' := by
    unfold Cont.choose
    split
    · exact yes.hop n s s'
    · exact no.hop n s s'
  test _ yes no n s s' := by
    unfold Cont.test
    split
    · exact yes.hop.exec _ n s s'
    · exact no.hop.exec _ n s s'

end Cont.Stays

theorem Code.stays (code : Code) {k : Cont σ} (at_ : ∀ l ∈ code.gotos, (env l).Stays)
    (rest : k.Stays) :
    (code.run I env k).Stays ∧ Throughout Cont.Stays fun l => code.resume I env l k :=
  code.hands_on (Cont.Stays.closed I) (fun _ _ => trivial) (fun l mem => (at_ l mem).hop) rest

variable {code : Code}

theorem Code.stays_labelled (placed : ∀ l ∈ code.gotos, l ∈ code.labels) {exit : Cont σ}
    (h : exit.Stays) (depth : Nat) : ∀ l ∈ code.gotos, (code.labelled I exit depth l).Stays := by
  induction depth with
  | zero => exact fun l _ n s s' e => by cases e
  | succ depth ih =>
    intro l mem
    have found : code.resume I (code.labelled I exit depth) l exit ≠ none := fun e =>
      code.resume_eq_none.1 e (placed l mem)
    obtain ⟨κ, e⟩ := Option.ne_none_iff_exists'.1 found
    rw [Code.labelled, e]
    exact (code.stays ih h).2 l κ e

/-- If every label that is jumped to is placed, a function's run ends at places that there are. -/
theorem Code.stays_runFunction (placed : ∀ l ∈ code.gotos, l ∈ code.labels) (entry : List InstId)
    (void : Bool) : (code.runFunction I entry void).Stays := by
  have exit : (Cont.stop (.past void) : Cont σ).Stays :=
    .stop (by cases void <;> simp [Ending.past])
  intro n s s'
  have after := (code.stays (I := I) (code.stays_labelled (I := I) placed exit n) exit).1 n
  unfold Code.runFunction
  induction entry generalizing s with
  | nil => exact after s s'
  | cons id entry ih => exact ih (I.exec id s)

end

section

variable {func : FuncId} {a a' : Arena} {insts insts' : InstStore} {root : NodeId}
  {entry : List InstId} {void : Bool} {body : Body}

/-- Lowering preserves meaning. Take a tree without sharing that has a body. What it says can be
read, and if its labels are placed once and its jumps lead to labels of its own, then the body
executes the same instructions and ends in the same way and state, or goes on forever with it: the
two runs agree wherever they are cut off, a run that is cut off later goes on from there, and
every end is a return or a fall past the last instruction. -/
theorem run_lowerBody (lowered : lowerBody func a insts root entry void = .ok (body, a', insts'))
    (tree : a.sharing root = .ok []) (bare : a.SentinelsBare) :
    ∃ code, a.reading insts root = some code ∧
      (code.labels.Nodup → (∀ l ∈ code.gotos, l ∈ code.labels) →
        ∀ {σ : Type} (I : Interp σ), I.Compares insts insts' →
          body.run I = code.runFunction I entry void ∧
          (∀ n s, (body.run I n s).Continues (body.run I (n + 1) s)) ∧
          ∀ n s s', (body.run I n s).ended ≠ some (.astray, s')) := by
  obtain ⟨code, laid⟩ := exists_laidOut_of_lowerBody lowered tree bare
  refine ⟨code, laid.read, fun nodup placed σ I compares => ?_⟩
  rw [laid.body_eq]
  have decides : I.Decides code.placed := fun {id x y} mem => by
    have ⟨le, found⟩ := laid.made _ mem
    exact compares (InstStore.find?_eq_none_of_le le) found
  have same := code.run_finish entry nodup placed decides void
  refine ⟨same, fun n s => Body.continues_runBlock _ n _ s, fun n s s' => ?_⟩
  rw [same]
  exact code.stays_runFunction placed entry void n s s'

end

/-! A loop that a switch leaves: `again: switch (f()) { case true: goto again; default: return;
}`. -/

def loopArena : Arena :=
  ⟨Arena.initial.nodes ++ #[
    some { Node.fresh .call [] .bool .synthetic with value := some (.inst ⟨0⟩), insts := [⟨0⟩] },
    some { Node.fresh .const [] .bool .synthetic with value := some (.const (.bool true)) },
    some (Node.fresh (.gotoStmt ⟨0⟩ ⟨4⟩) [] .void .synthetic),
    some { Node.fresh .ret [⟨0⟩] .void .synthetic with insts := [⟨1⟩] },
    some (Node.fresh .exprStmt [⟨5⟩] .void .synthetic),
    some (Node.fresh (.switchStmt ⟨[1, 0]⟩) [⟨2⟩, ⟨3⟩, ⟨4⟩, ⟨6⟩] .void .synthetic),
    some (Node.fresh (.labelStmt ⟨0⟩ ⟨4⟩) [] .void .synthetic),
    some (Node.fresh .blockStmt [⟨8⟩, ⟨7⟩] .void .synthetic)]⟩

def loopInsts : InstStore :=
  ⟨#[some ⟨.call (.func ⟨0⟩) [], .bool⟩, some ⟨.ret none, .void⟩], 2⟩

def loopCode : Code :=
  .seq (.label ⟨4⟩) (.seq (.seq (.seq .skip (.seq (.inst ⟨0⟩) .skip)) (.switch (.inst ⟨0⟩)
    (.test (.seq .skip .skip) (.const (.bool true)) ⟨2⟩ 0 .done) (some 1)
    (.cons (.goto ⟨4⟩) (.cons (.seq (.seq (.seq .skip .skip) .skip) (.seq (.leave none) .skip))
      .nil)))) .skip)

/-- Counts instructions; values are equal before the fifth. -/
def loopInterp : Interp Nat := ⟨fun _ n => n + 1, fun n _ => n < 5, fun n _ _ => n + 1 < 5⟩

theorem sentinelsBare_loopArena : loopArena.SentinelsBare :=
  Arena.sentinelsBare_of_find rfl rfl ⟨rfl, rfl⟩ ⟨rfl, rfl⟩

/-- The body goes round three times and returns. -/
theorem run_lowerBody_loop :
    ∃ body a' insts', lowerBody ⟨0⟩ loopArena loopInsts ⟨9⟩ [] true = .ok (body, a', insts') ∧
      loopArena.sharing ⟨9⟩ = .ok [] ∧ loopArena.reading loopInsts ⟨9⟩ = some loopCode ∧
      loopInterp.Compares loopInsts insts' ∧
      body.run loopInterp = loopCode.runFunction loopInterp [] true ∧
      body.run loopInterp 20 0 =
        ⟨[⟨0⟩, ⟨2⟩, ⟨0⟩, ⟨2⟩, ⟨0⟩, ⟨2⟩], some (.returned none, 6)⟩ := by
  have isOk : (lowerBody ⟨0⟩ loopArena loopInsts ⟨9⟩ [] true).isOk := by decide +kernel
  cases lowered : lowerBody ⟨0⟩ loopArena loopInsts ⟨9⟩ [] true with
  | error fault => simp [lowered, Except.isOk, Except.toBool] at isOk
  | ok out =>
    obtain ⟨body, a', insts'⟩ := out
    have tree : loopArena.sharing ⟨9⟩ = .ok [] := rfl
    have reading : loopArena.reading loopInsts ⟨9⟩ = some loopCode := rfl
    obtain ⟨code, read, agree⟩ := run_lowerBody lowered tree sentinelsBare_loopArena
    cases reading.symm.trans read
    have compares : loopInterp.Compares loopInsts insts' := fun _ _ _ => rfl
    have same := (agree (by decide) (by decide) loopInterp compares).1
    exact ⟨body, a', insts', rfl, tree, reading, compares, same, by rw [same]; rfl⟩

end Codegen
