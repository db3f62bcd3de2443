import Codegen.Proofs.Evaluation.Literals
import Codegen.Proofs.Evaluation.Progress

/-!
Stores and returns. The instructions of the statement come last, after those of the expressions in
it, and do with the values what the statement says.
-/

namespace Codegen

/-- A node that only stands above another. -/
theorem Arena.Emits.up {a : Arena} {x k : NodeId} {node : Node} {code : List InstId}
    (h : a.Emits k code) (plain : ¬k.isSentinel) (find : a.find? x = some node)
    (kids : node.kids = [k]) (insts : node.insts = []) : a.Emits x code := by
  have kids : a.kidsOf x = [k] := by
    rw [kidsOf_eq_of_find? find, kids]
    exact List.filter_eq_self.2 (by simpa using plain)
  have emits := Emits.node (fun _ => code) find (by simpa [kids] using h)
  rwa [kids, insts, List.flatMap_singleton, List.append_nil] at emits

namespace Compilation

open Build

variable {c c' : Compilation} {x stmt y : NodeId} {v : Value} {f : Meaning} {e e' : Expr}
  {kids rest xs : List NodeId} {vs : List Value} {fs : List Meaning} {span : Span} {func : FuncId}

/-- The instructions below a node, in the order of emission, do to every machine what is meant, and
leave the value that is meant behind. -/
def Executes (c : Compilation) (x : NodeId) (v : Value) (f : Meaning) : Prop :=
  ∃ code, (∀ code', c.arena.Emits x code' ↔ code' = code) ∧
    ∀ (K : Machine) (ρ : K.Regs) (m : K.Mem), ∃ ρ',
      K.exec c.insts code (ρ, m) = some (ρ', (f K ρ m).2) ∧ K.value ρ' v = (f K ρ m).1

theorem executes_of_emits {code : List InstId} (emits : c.arena.Emits x code)
    (run : ∀ (K : Machine) (ρ : K.Regs) (m : K.Mem), ∃ ρ',
      K.exec c.insts code (ρ, m) = some (ρ', (f K ρ m).2) ∧ K.value ρ' v = (f K ρ m).1) :
    c.Executes x v f :=
  ⟨code, fun _ => ⟨fun emits' => emits'.unique emits, fun same => same ▸ emits⟩, run⟩

theorem Computes.executes (h : c.Computes x v f) : c.Executes x v f := by
  obtain ⟨code, emits, runs⟩ := h.code
  refine executes_of_emits emits fun K ρ m => ?_
  obtain ⟨ρ', run, values⟩ := runs.run K ρ ρ m fun _ _ => rfl
  exact ⟨ρ', run, List.head_eq_of_cons_eq values⟩

/-- One instruction for its effect, after the values that it needs. -/
theorem executes_effect {kind : NodeKind} {inst : InstKind} (ready : c.Ready kids vs fs)
    (sound : c.Sound) (t : c.Tidy (kids ++ rest)) (sound' : c'.Sound)
    (run : (do
      let id ← makeStmt kind kids span
      let _ ← attach id inst .void
      makeStmt .exprStmt [id] span) c = .ok (x, c'))
    (applies : f.Applies ⟨inst, .void⟩ vs fs) : ∃ i, c'.Executes x (.inst i) f := by
  obtain ⟨id, c₁, made, run⟩ := Run.bind_ok.1 run
  obtain ⟨i, c₂, attached, run⟩ := Run.bind_ok.1 run
  obtain ⟨rfl, sets⟩ : id = ⟨c.arena.size⟩ ∧ c.Sets c₁ id (.fresh kind kids .void span) :=
    sets_makeNode made
  obtain ⟨sets', found⟩ := sets_attach sets.find attached
  have inner := sets.trans sets'
  obtain ⟨fresh, outer⟩ :
      x = ⟨c₂.arena.size⟩ ∧ c₂.Sets c' x (.fresh .exprStmt [⟨c.arena.size⟩] .void span) :=
    sets_makeNode run
  have lt : c.arena.size < c₂.arena.size := Arena.lt_of_find? inner.find
  have ne : (⟨c.arena.size⟩ : NodeId) ≠ x := by
    rw [fresh]
    exact fun e => Nat.ne_of_lt lt (congrArg NodeId.index e)
  have find := (outer.others ne).trans inner.find
  have spares (k : NodeId) (mem : k ∈ kids) : c.Spares c' k := by
    have old := t.known k (by simp [mem])
    have first := inner.spares (sound.not_below_fresh old)
    refine first.trans (outer.spares fun below => ?_)
    have bound := sound.lt_of_below old (first.below_iff.1 below)
    rw [fresh] at bound
    exact Nat.lt_asymm lt bound
  have apart : kids.Pairwise c'.arena.Apart :=
    (t.pairwise_apart ready.plain).imp_of_mem fun mx my =>
    (spares _ mx).apart (spares _ my)
  obtain ⟨code, emits, runs⟩ := (ready.frame spares).exists_code find rfl sound' apart
  refine ⟨i, executes_of_emits (emits.up sound.not_isSentinel_fresh outer.find rfl rfl)
    fun K ρ m => ?_⟩
  exact runs.exec_snoc (outer.store found) applies m fun _ _ => rfl

/-! ## Stores -/

theorem executes_assign (sound : c.Sound) (t : c.Tidy ([x, y] ++ rest)) (d : c.Denotes x e)
    (d' : c.Denotes y e') (run : assign func x y span c = .ok (stmt, c'))
    (plain : ¬stmt.isSentinel) :
    ∃ i, c'.Executes stmt (.inst i) (Expr.assigned e e') := by
  obtain ⟨sound', -⟩ := steady_assign func x y span c stmt c' sound run
  have run := otherwise run plain rfl
  have run := otherwise (isErrorExpr_bind_ok run) plain rfl
  have run := otherwise (isErrorExpr_bind_ok run) plain rfl
  obtain ⟨ptr, -, computes, run⟩ := lvalue_bind_ok d run
  obtain ⟨value, c₁, used, run⟩ := Run.bind_ok.1 run
  have use := used_rvalue sound t (by simp) d' used
  have computes := (use.spares x (by simp) (t.ne_of_pair d'.plain)).computes computes
  exact executes_effect (.cons computes (.cons use.computes .nil)) use.sound use.tidy sound' run
    (.two (fun _ => Operation.store) (fun _ _ => rfl) fun _ _ => rfl)

/-! ## Returns -/

/-- What a return gives back is the value of its child, if it gives anything back. -/
theorem ready_returned {result : TypeId} {es : List Expr} {child : NodeId} {value : Option Value}
    (sound : c.Sound) (t : c.Tidy (xs ++ rest)) (ds : List.Forall₂ c.Denotes xs es)
    (run : returned result xs span c = .ok ((child, value), c')) :
    c'.Sound ∧ c'.Tidy ([child] ++ rest) ∧ ∃ v f, c'.Ready [child] [v] [f] ∧
      (Expr.returned result es).Applies ⟨.ret value, .void⟩ [v] [f] := by
  have taken {e : Expr} {c₁ : Compilation} {x : NodeId} {v : Value} (sound : c₁.Sound)
      (t : c₁.Tidy ([x] ++ rest)) (d : c₁.Denotes x e) (used : rvalue x c₁ = .ok (v, c'))
      (same : ∀ K σ, Expr.returned result es K σ =
        (e.read K σ >>= fun v => K.act (.ret (some v)) .void)) :
      c'.Sound ∧ c'.Tidy ([x] ++ rest) ∧ ∃ w f, c'.Ready [x] [w] [f] ∧
        (Expr.returned result es).Applies ⟨.ret (some v), .void⟩ [w] [f] := by
    have use := used_rvalue sound t (by simp) d used
    exact ⟨use.sound, use.tidy, v, e.read, .cons use.computes .nil,
      .one (fun _ v => .ret (some v)) (fun _ _ => rfl) same⟩
  cases ds with
  | nil =>
    obtain ⟨void, c₁, made, run⟩ := Run.bind_ok.1 run
    cases run
    obtain ⟨sound', -⟩ := steady_makeConst .void .void span c child c' sound made
    obtain ⟨-, plain, tidy⟩ := makes_makeConst .void .void span c child c' sound.sentinels made
    cases (gives_makeConst sound made).denotes plain with
    | done find _ value _ _ computes =>
      exact ⟨sound', (tidy rest t).1, _, _, .cons computes .nil, fun _ _ _ _ _ => rfl⟩
  | @cons x e xs es d ds =>
    cases ds with
    | nil =>
      obtain ⟨v, c₁, used, run⟩ := Run.bind_ok.1 run
      cases run
      exact taken sound t d used fun _ _ => rfl
    | @cons y e' xs es d' ds =>
      obtain ⟨tuple, c₁, made, run⟩ := Run.bind_ok.1 run
      obtain ⟨v, c₂, used, run⟩ := Run.bind_ok.1 run
      cases run
      obtain ⟨sound₁, -⟩ := steady_makeNode (by decide) c child c₁ sound made
      obtain ⟨-, -, tidy⟩ := makes_makeNode _ result span c child c₁ sound.sentinels made
      have ds : List.Forall₂ c.Denotes (x :: y :: xs) (e :: e' :: es) := .cons d (.cons d' ds)
      have members : List.Forall₂ c.Member (x :: y :: xs) (e :: e' :: es) :=
        ds.imp fun _ _ d => (fun _ => d : c.Member _ _)
      exact taken sound₁ (tidy rest t).1 (denotes_composite sound members made) used fun _ _ => rfl

theorem executes_returnStmt {es : List Expr} (sound : c.Sound) (t : c.Tidy (xs ++ rest))
    (ds : List.Forall₂ c.Denotes xs es) (run : returnStmt func xs span c = .ok (stmt, c'))
    (plain : ¬stmt.isSentinel) :
    ∃ f result i, c.functions[func.index]? = some f ∧
      c.types.functionResult? f.fntype = .ok (some result) ∧
      c'.Executes stmt (.inst i) (Expr.returned result es) := by
  obtain ⟨sound', -⟩ := steady_returnStmt func xs span c stmt c' sound run
  have run := otherwise run plain rfl
  have run := otherwise (anyM_isErrorExpr_bind_ok run) plain rfl
  obtain ⟨f, found, run⟩ := getFunction_bind_ok run
  obtain ⟨result, known, run⟩ := ask_bind_ok run
  cases result with
  | none => cases run
  | some result =>
    obtain ⟨⟨child, value⟩, c₁, given, run⟩ := Run.bind_ok.1 run
    obtain ⟨sound₁, t₁, v, g, ready, applies⟩ := ready_returned sound t ds given
    obtain ⟨i, executes⟩ := executes_effect ready sound₁ t₁ sound' run applies
    exact ⟨f, result, i, found, known, executes⟩

/-! ## Statements can be had -/

theorem exists_makeNode {kind : NodeKind} (arity : Arena.checkArity kind kids = .ok ())
    (category : ∀ i, kind.wantsStmt i = false)
    (exprs : ∀ k ∈ kids, ∃ node, c.arena.find? k = some node ∧ node.isExpr) (ty : TypeId)
    (span : Span) :
    ∃ id c', makeNode kind kids ty span c = .ok (id, c') := by
  have checked (i : Nat) : c.arena.checkKids kind i kids = .ok () := by
    clear arity
    induction kids generalizing i with
    | nil => rfl
    | cons k kids ih =>
      obtain ⟨node, find, expr⟩ := exprs k (by simp)
      refine bind_eq_ok.2 ⟨node, Arena.get_eq_ok.2 find, ?_⟩
      rw [if_pos (by simpa [Node.isExpr_eq, category] using expr)]
      exact ih (fun k mem => exprs k (by simp [mem])) (i + 1)
  have made : c.arena.make kind kids ty span = .ok (c.arena.add (.fresh kind kids ty span)) :=
    bind_eq_ok.2 ⟨(), arity, bind_eq_ok.2 ⟨(), checked 0, rfl⟩⟩
  exact ⟨_, _, onArena_of_ok (·.make kind kids ty span) made⟩

theorem Ready.exists_node (h : c.Ready kids vs fs) :
    ∀ k ∈ kids, ∃ node, c.arena.find? k = some node ∧ node.isExpr := by
  induction h with
  | nil => nofun
  | cons computes _ ih =>
    refine List.forall_mem_cons.2 ⟨?_, ih⟩
    obtain ⟨code, emits, -⟩ := computes.code
    cases emits with
    | node _ find => exact ⟨_, find, computes.tree _ _ .refl find⟩

theorem exists_effect (kind : NodeKind) (ready : c.Ready kids vs fs) (sound : c.Sound)
    (arity : Arena.checkArity kind kids = .ok ()) (category : ∀ i, kind.wantsStmt i = false)
    (expr : kind.isExpr) (inst : InstKind) (span : Span) : ∃ x c', (do
      let id ← makeStmt kind kids span
      let _ ← attach id inst .void
      makeStmt .exprStmt [id] span) c = .ok (x, c') ∧ ¬x.isSentinel := by
  obtain ⟨id, c₁, made⟩ := exists_makeNode arity category ready.exists_node .void span
  obtain ⟨rfl, sets⟩ := sets_makeNode made
  obtain ⟨i, c₂, attached⟩ := exists_attach sets.find expr inst .void
  obtain ⟨sets', -⟩ := sets_attach sets.find attached
  have single : Arena.checkArity .exprStmt [⟨c.arena.size⟩] = .ok () := rfl
  obtain ⟨x, c₃, outer⟩ := exists_makeNode (c := c₂) single (fun _ => rfl)
    (by simpa using ⟨_, sets'.find, expr⟩) .void span
  refine ⟨x, c₃, Run.bind_ok.2 ⟨_, _, made, Run.bind_ok.2 ⟨_, _, attached, outer⟩⟩, ?_⟩
  rw [(sets_makeNode outer).1]
  have lt : c.arena.size < c₂.arena.size := Arena.lt_of_find? sets'.find
  exact NodeId.not_isSentinel (Nat.le_trans sound.sentinels (Nat.le_of_lt lt))

/-- An object takes a value, if neither is an error. -/
theorem exists_assign (sound : c.Sound) (t : c.Tidy ([x, y] ++ rest)) (d : c.Denotes x e)
    (d' : c.Denotes y e') (known : func ≠ .error) (valid : c.types.isError e.ty = .ok false)
    (valid' : c.types.isError e'.ty = .ok false) (place : e.isPlace = true)
    (plain : c.arena.Faultless y) (span : Span) :
    ∃ stmt c', assign func x y span c = .ok (stmt, c') ∧ ¬stmt.isSentinel := by
  obtain ⟨ptr, addressed, computes⟩ := exists_lvalue d place
  obtain ⟨value, c₁, used⟩ := exists_rvalue sound t (by simp) d' plain
  have use := used_rvalue sound t (by simp) d' used
  have computes := (use.spares x (by simp) (t.ne_of_pair d'.plain)).computes computes
  obtain ⟨stmt, c₂, run, proper⟩ := exists_effect .assign
    (.cons computes (.cons use.computes .nil)) use.sound rfl (fun _ => rfl) rfl
    (.store ptr value) span
  refine ⟨stmt, c₂, ?_, proper⟩
  rw [assign, if_neg known, Run.bind_of_ok (d.isErrorExpr_eq valid), if_neg Bool.false_ne_true,
    Run.bind_of_ok (d'.isErrorExpr_eq valid'), if_neg Bool.false_ne_true, Run.bind_of_ok addressed,
    Run.bind_of_ok used]
  exact run

section

variable {xs : List NodeId} {es : List Expr} (sound : c.Sound) (t : c.Tidy (xs ++ rest))
  (ds : List.Forall₂ c.Denotes xs es) (plain : ∀ x ∈ xs, c.arena.Faultless x)

include sound t ds plain

theorem exists_returned (result : TypeId) (span : Span) :
    ∃ child value c', returned result xs span c = .ok ((child, value), c') := by
  cases ds with
  | nil => exact ⟨_, _, _, rfl⟩
  | @cons x e xs es d ds =>
    cases ds with
    | nil =>
      obtain ⟨v, c₁, used⟩ := exists_rvalue sound t (by simp) d (plain x (by simp))
      exact ⟨_, _, _, Run.bind_ok.2 ⟨_, _, used, rfl⟩⟩
    | @cons y e' xs es d' ds =>
      have ds : List.Forall₂ c.Denotes (x :: y :: xs) (e :: e' :: es) := .cons d (.cons d' ds)
      have any : Arena.checkArity (.composite .building) (x :: y :: xs) = .ok () := rfl
      obtain ⟨tuple, c₁, made⟩ := exists_makeNode any (fun _ => rfl) (fun k mem => by
        obtain ⟨e, d⟩ := exists_rel_of_mem ds mem
        obtain ⟨node, find, -⟩ := d.exists_node
        exact ⟨node, find, d.tree k node .refl find⟩) result span
      obtain ⟨sound₁, -⟩ := steady_makeNode (by decide) c tuple c₁ sound made
      obtain ⟨-, -, tidy⟩ := makes_makeNode _ result span c tuple c₁ sound.sentinels made
      have members : List.Forall₂ c.Member (x :: y :: xs) (e :: e' :: es) :=
        ds.imp fun _ _ d => (fun _ => d : c.Member _ _)
      have whole : c₁.arena.Faultless tuple := by
        obtain ⟨rfl, sets⟩ := sets_makeNode made
        intro n node below find k kid
        rcases Relation.ReflTransGen.cases_head below with rfl | ⟨top, edge, below⟩
        · cases sets.find.symm.trans find
          exact (exists_rel_of_mem ds kid).elim fun _ d => d.plain
        · obtain ⟨mem, -⟩ := (Arena.mem_kidsOf sets.find).1 edge
          have spares := sets.spares
            (sound.not_below_fresh (t.known top (List.mem_append_left _ mem)))
          have below := spares.below_iff.1 below
          exact plain top mem n node below ((spares.nodes below).symm.trans find) k kid
      obtain ⟨v, c₂, used⟩ := exists_rvalue sound₁ (tidy rest t).1 (by simp)
        (denotes_composite sound members made) whole
      exact ⟨_, _, _, Run.bind_ok.2 ⟨_, _, made, Run.bind_ok.2 ⟨_, _, used, rfl⟩⟩⟩

/-- A function gives values back, if none of them is an error. -/
theorem exists_returnStmt {func : FuncId} {f : Function} {result : TypeId} (known : func ≠ .error)
    (valid : ∀ e ∈ es, c.types.isError e.ty = .ok false) (found : c.functions[func.index]? = some f)
    (typed : c.types.functionResult? f.fntype = .ok (some result)) (span : Span) :
    ∃ stmt c', returnStmt func xs span c = .ok (stmt, c') ∧ ¬stmt.isSentinel := by
  obtain ⟨child, value, c₁, given⟩ := exists_returned sound t ds plain result span
  obtain ⟨sound₁, t₁, v, g, ready, -⟩ := ready_returned sound t ds given
  obtain ⟨stmt, c₂, run, proper⟩ := exists_effect .ret ready sound₁ rfl (fun _ => rfl) rfl
    (.ret value) span
  refine ⟨stmt, c₂, ?_, proper⟩
  have none : xs.anyM isErrorExpr c = .ok (false, c) := by
    clear t plain given
    induction ds with
    | nil => rfl
    | cons d _ ih =>
      rw [List.anyM_cons, Run.bind_of_ok (d.isErrorExpr_eq (valid _ (by simp)))]
      exact ih fun e mem => valid e (by simp [mem])
  have entry : getFunction func c = .ok (f, c) := ask_of_ok (by rw [entry, found])
  rw [returnStmt, if_neg known, Run.bind_of_ok none, if_neg Bool.false_ne_true,
    Run.bind_of_ok entry, Run.bind_of_ok (ask_of_ok typed)]
  exact Run.bind_ok.2 ⟨_, _, given, run⟩

end

end Compilation

end Codegen
