import Codegen.Proofs.Evaluation.Statements
import Codegen.Proofs.Evaluation.Terms

/-!
Expressions are compiled as they are meant. Main statement: whatever expressions a front end writes
down, with each node used once, the instructions below a node that is used compute what evaluation
from left to right gives, on every machine and from every memory.
-/

namespace Codegen

namespace Compilation

open Build

/-- Calls one after the other, and the expressions that were written down by them. A conversion that
hands its operand back writes nothing down: the operand stands for what it did. -/
inductive Writes : Compilation → List Transfer → List (NodeId × Expr) → Prop
  | initial (settings : Settings) : Writes (.initial settings) [] []
  | call {α : Type} {op : Build α} {used : Compilation → α → List NodeId} {made : α → List NodeId}
    {c c' : Compilation} {answer : α} {history : List Transfer} {env : List (NodeId × Expr)} :
    Writes c history env → Call op → Deal op used made → op c = .ok (answer, c') →
      Writes c' (⟨used c answer, made answer⟩ :: history) env
  | build {c c' : Compilation} {x : NodeId} {es : List Expr} {history : List Transfer}
    {env : List (NodeId × Expr)} (term : Term) : Writes c history env →
    List.Forall₂ (fun n e => (n, e) ∈ env) term.operands es → term.build c = .ok (x, c') →
      ¬x.isSentinel → x ∉ term.operands →
      Writes c' (⟨term.operands, [x]⟩ :: history) ((x, term.expr c c' es) :: env)

/-- Nodes that are free for use, with the expressions that were written down for them. -/
structure Free (history : List Transfer) (env : List (NodeId × Expr)) (xs : List NodeId)
    (es : List Expr) : Prop where
  written : List.Forall₂ (fun x e => (x, e) ∈ env) xs es
  once : Transfer.Linear (⟨xs, []⟩ :: history)

/-- A node that was written down stands for its expression until it is used. -/
structure Stands (c : Compilation) (hand : List NodeId) (history : List Transfer)
    (env : List (NodeId × Expr)) : Prop extends c.Holds hand history where
  plain : ∀ {x e}, (x, e) ∈ env → ¬x.isSentinel
  handed : ∀ {x e}, (x, e) ∈ env → x ∈ history.flatMap (·.handed)
  denotes : ∀ {x e}, (x, e) ∈ env → x ∉ history.flatMap (·.taken) → c.Denotes x e

variable {c c' : Compilation} {hand : List NodeId} {history : List Transfer}
  {env : List (NodeId × Expr)} {xs : List NodeId} {es : List Expr}

theorem Stands.free (h : c.Stands hand history env) (honest : Transfer.Honest history)
    (free : Free history env xs es) :
    c.Tidy (xs ++ hand.filter (· ∉ xs)) ∧ List.Forall₂ c.Denotes xs es := by
  have entry (x : NodeId) (mem : x ∈ xs) : ∃ e, (x, e) ∈ env := exists_rel_of_mem free.written mem
  have known (x : NodeId) (mem : x ∈ xs) : x.isSentinel ∨ x ∈ history.flatMap (·.handed) :=
    (entry x mem).elim fun e written => .inr (h.handed written)
  have unused (x : NodeId) (mem : x ∈ xs) : x ∉ history.flatMap (·.taken) :=
    (entry x mem).elim fun e written => free.once.unused mem (h.plain written)
  refine ⟨h.take ⟨known, honest⟩ free.once, ?_⟩
  have both := (List.forall₂_and_left xs es).2 ⟨unused, free.written⟩
  exact both.imp fun _ _ ⟨unused, written⟩ => h.denotes written unused

theorem Stands.step {α : Type} {op : Build α} {used : Compilation → α → List NodeId}
    {made : α → List NodeId} {answer : α} (h : c.Stands hand history env) (sound : c.Sound)
    (deal : Deal op used made) (run : op c = .ok (answer, c'))
    (honest : Transfer.Honest (⟨used c answer, made answer⟩ :: history))
    (linear : Transfer.Linear (⟨used c answer, made answer⟩ :: history)) :
    c'.Stands (made answer ++ hand.filter (· ∉ used c answer))
      (⟨used c answer, made answer⟩ :: history) env := by
  obtain ⟨holds, leaves⟩ := h.toHolds.step sound deal run honest linear
  refine ⟨holds, h.plain, fun written => ?_, fun {x e} written unused => ?_⟩
  · exact List.mem_append_right _ (h.handed written)
  · rw [List.flatMap_cons, List.mem_append, not_or] at unused
    have d := h.denotes written unused.2
    have kept : x ∈ hand.filter (· ∉ used c answer) :=
      List.mem_filter.2 ⟨h.held x (h.handed written) unused.2, by simpa using unused.1⟩
    exact d.frame (leaves.spares kept d.plain d.tree)

namespace Writes

theorem ledger (h : c.Writes history env) : c.Ledger history := by
  induction h with
  | initial settings => exact .initial settings
  | call _ call deal run ih => exact ih.call call deal run
  | @build c c' x _ _ _ term _ _ run plain new ih =>
    obtain ⟨used, made, deal, same⟩ := term.exists_deal
    have ledger := ih.call term.call_and_maker.1 deal run
    rwa [(same c x plain new).1, (same c x plain new).2] at ledger

theorem sound (h : c.Writes history env) : c.Sound := h.ledger.reachable.sound

theorem exists_stands (h : c.Writes history env) (honest : Transfer.Honest history)
    (linear : Transfer.Linear history) : ∃ hand, c.Stands hand history env := by
  induction h with
  | initial settings => exact ⟨[], ⟨tidy_initial settings, nofun⟩, nofun, nofun, nofun⟩
  | call before _ deal run ih =>
    obtain ⟨hand, stands⟩ := ih honest.2 linear.earlier
    exact ⟨_, stands.step before.sound deal run honest linear⟩
  | @build c c' x es history env term before written run plain new ih =>
    obtain ⟨hand, stands⟩ := ih honest.2 linear.earlier
    obtain ⟨t, ds⟩ := stands.free honest.2 ⟨written, linear⟩
    have d := term.denotes before.sound t ds run plain new
    -- what was written down before stays, as after any other call
    obtain ⟨used, made, deal, same⟩ := term.exists_deal
    obtain ⟨taken, handed⟩ := same c x plain new
    rw [← taken, ← handed] at honest linear
    have stands := stands.step before.sound deal run honest linear
    rw [taken, handed] at stands
    refine ⟨_, stands.toHolds, fun mem => ?_, fun mem => ?_, fun mem unused => ?_⟩ <;>
      rcases List.mem_cons.1 mem with e | mem
    · cases e
      exact plain
    · exact stands.plain mem
    · cases e
      simp
    · exact stands.handed mem
    · cases e
      exact d
    · exact stands.denotes mem unused

/-- Nodes that are free for use stand for what was written down. -/
theorem exists_tidy (h : c.Writes history env) (honest : Transfer.Honest history)
    (free : Free history env xs es) : ∃ rest, c.Tidy (xs ++ rest) ∧ List.Forall₂ c.Denotes xs es :=
  have ⟨_, stands⟩ := h.exists_stands honest free.once.earlier
  ⟨_, stands.free honest free⟩

end Writes

/-- Used as an operand, as an address, in a store or in a return, a node computes what evaluation
from left to right gives for the expression that was written down for it: an object is read once
where its value is used, and not at all where its address is. The value can be used unless a literal
has an error for a member, and the address just where there is an object. -/
theorem executes_as_meant {c : Compilation} {history : List Transfer} {env : List (NodeId × Expr)}
    (writes : c.Writes history env) (honest : Transfer.Honest history) :
    (∀ x e, Free history env [x] [e] →
      (∀ v c', rvalue x c = .ok (v, c') → c'.Executes x v e.read) ∧
      (c.arena.Faultless x → ∃ v c', rvalue x c = .ok (v, c')) ∧
      (∀ v c', lvalue x c = .ok (v, c') → c' = c ∧ c.Executes x v e.eval) ∧
      ((∃ v c', lvalue x c = .ok (v, c')) ↔ e.isPlace = true)) ∧
    (∀ func x y e e' span, Free history env [x, y] [e, e'] →
      (∀ stmt c', assign func x y span c = .ok (stmt, c') → ¬stmt.isSentinel →
        ∃ i, c'.Executes stmt (.inst i) (Expr.assigned e e')) ∧
      (func ≠ .error → c.types.isError e.ty = .ok false → c.types.isError e'.ty = .ok false →
        e.isPlace = true → c.arena.Faultless y →
        ∃ stmt c', assign func x y span c = .ok (stmt, c') ∧ ¬stmt.isSentinel)) ∧
    ∀ func xs es span, Free history env xs es →
      (∀ stmt c', returnStmt func xs span c = .ok (stmt, c') → ¬stmt.isSentinel →
        ∃ f result i, c.functions[func.index]? = some f ∧
          c.types.functionResult? f.fntype = .ok (some result) ∧
          c'.Executes stmt (.inst i) (Expr.returned result es)) ∧
      (∀ f result, func ≠ .error → (∀ e ∈ es, c.types.isError e.ty = .ok false) →
        c.functions[func.index]? = some f → c.types.functionResult? f.fntype = .ok (some result) →
        (∀ x ∈ xs, c.arena.Faultless x) →
        ∃ stmt c', returnStmt func xs span c = .ok (stmt, c') ∧ ¬stmt.isSentinel) := by
  have sound := writes.sound
  refine ⟨fun x e free => ?_, fun func x y e e' span free => ?_, fun func xs es span free => ?_⟩ <;>
    obtain ⟨rest, t, ds⟩ := writes.exists_tidy honest free
  · obtain ⟨d, -⟩ := List.forall₂_cons.1 ds
    refine ⟨fun v c' run => ?_, exists_rvalue sound t (by simp) d, fun v c' run => ?_, ?_⟩
    · exact (used_rvalue sound t (by simp) d run).computes.executes
    · obtain ⟨-, same, computes⟩ := lvalue_ok d run
      exact ⟨same, computes.executes⟩
    · exact ⟨fun ⟨v, c', run⟩ => (lvalue_ok d run).1, fun place =>
        (exists_lvalue d place).imp fun v h => ⟨c, h.1⟩⟩
  · obtain ⟨d, later⟩ := List.forall₂_cons.1 ds
    obtain ⟨d', -⟩ := List.forall₂_cons.1 later
    exact ⟨fun _ _ => executes_assign sound t d d', fun known valid valid' place plain =>
      exists_assign sound t d d' known valid valid' place plain span⟩
  · exact ⟨fun _ _ => executes_returnStmt sound t ds, fun _ _ known valid found typed plain =>
      exists_returnStmt sound t ds plain known valid found typed span⟩

end Compilation

/-- Adds one to a variable, whose value is reached through its address. -/
def successorProgram : Build (List NodeId × List (TypeId × Value)) := do
  let fntype ← Build.onTypes (·.functionType none [] [] .void)
  let func ← Build.declareFunction fntype "f" "" ⟨0⟩ false .synthetic
  let var ← Build.localVariable func "n" .i64 true .synthetic
  let place ← Build.varExpr var .synthetic
  let stored ← Build.getVariable var
  let source ← Build.varExpr var .synthetic
  let read ← Build.getVariable var
  let ptr ← Build.addressOf source .synthetic
  let object ← Build.indirect .i64 ptr .synthetic
  let one ← Build.integerConstant .i64 1
  let sum ← Build.binary .plus object one .synthetic
  let stmt ← Build.assign func place sum .synthetic
  return ([place, source, ptr, object, one, sum, stmt],
    [(stored.ty, stored.storage), (read.ty, read.storage)])

theorem successorProgram_ok : ∃ c history env func c' ptrType,
    let n := Expr.var .i64 (.inst ⟨0⟩)
    let sum := Expr.binary .plus (.deref .i64 (.address ptrType n)) (.const .i64 (.int .i64 1))
    Compilation.Writes c history env ∧ Transfer.Honest history ∧
      Compilation.Free history env [⟨2⟩, ⟨7⟩] [n, sum] ∧
      Build.assign func ⟨2⟩ ⟨7⟩ .synthetic c = .ok (⟨9⟩, c') := by
  have outcome : (successorProgram (.initial default)).map (fun r => r.1) =
      .ok ([⟨2⟩, ⟨3⟩, ⟨4⟩, ⟨5⟩, ⟨6⟩, ⟨7⟩, ⟨9⟩], [(.i64, .inst ⟨0⟩), (.i64, .inst ⟨0⟩)]) := by
        decide +kernel
  obtain ⟨⟨made, c'⟩, run, e⟩ := map_eq_ok outcome
  obtain ⟨fntype, c₁, typed, run⟩ := Run.bind_ok.1 run
  obtain ⟨func, c₂, declared, run⟩ := Run.bind_ok.1 run
  obtain ⟨var, c₃, named, run⟩ := Run.bind_ok.1 run
  obtain ⟨place, c₄, first, run⟩ := Run.bind_ok.1 run
  obtain ⟨stored, found, run⟩ := Build.getVariable_bind_ok run
  obtain ⟨source, c₅, second, run⟩ := Run.bind_ok.1 run
  obtain ⟨read, found', run⟩ := Build.getVariable_bind_ok run
  obtain ⟨ptr, c₆, pointed, run⟩ := Run.bind_ok.1 run
  obtain ⟨object, c₇, reached, run⟩ := Run.bind_ok.1 run
  obtain ⟨one, c₈, counted, run⟩ := Run.bind_ok.1 run
  obtain ⟨sum, c₉, added, run⟩ := Run.bind_ok.1 run
  obtain ⟨stmt, c₁₀, assigned, run⟩ := Run.bind_ok.1 run
  cases run
  simp only [Prod.mk.injEq, List.cons.injEq, and_true] at e
  obtain ⟨⟨rfl, rfl, rfl, rfl, rfl, rfl, rfl⟩, ⟨ty, storage⟩, ty', storage'⟩ := e
  have ready := (((Compilation.Writes.initial default).call (.onTypes _) (.beside (.onTypes _))
    typed).call (.declareFunction ..) (.beside (.declareFunction ..)) declared).call
    (.localVariable ..) (.beside (.localVariable ..)) named
  have named := (ready.build (.var var .synthetic) .nil first (by decide) List.not_mem_nil).build
    (.var var .synthetic) .nil second (by decide) List.not_mem_nil
  simp only [Term.expr, Term.operands, found, found', ty, storage, ty', storage'] at named
  have reached := (named.build (.address ⟨3⟩ .synthetic) (.cons (.head _) .nil) pointed (by decide)
    (by decide)).build (.deref .i64 ⟨4⟩ .synthetic) (.cons (.head _) .nil) reached (by decide)
    (by decide)
  have writes := (reached.build (.int .i64 1) .nil counted (by decide) (by decide)).build
    (.binary .plus ⟨5⟩ ⟨6⟩ .synthetic) (.cons (.tail _ (.head _)) (.cons (.head _) .nil)) added
    (by decide) (by decide)
  exact ⟨c₉, _, _, func, c', _, writes, by decide,
    ⟨.cons (by simp) (.cons (.head _) .nil), by decide⟩, assigned⟩

/-- The variable is loaded once for the sum, and not for the store. -/
theorem Compilation.executes_successor : ∃ c history env func c' ptrType i,
    let n := Expr.var .i64 (.inst ⟨0⟩)
    let sum := Expr.binary .plus (.deref .i64 (.address ptrType n)) (.const .i64 (.int .i64 1))
    c.Writes history env ∧ Transfer.Honest history ∧ Free history env [⟨2⟩, ⟨7⟩] [n, sum] ∧
      Build.assign func ⟨2⟩ ⟨7⟩ .synthetic c = .ok (⟨9⟩, c') ∧
      c'.Executes ⟨9⟩ (.inst i) (Expr.assigned n sum) := by
  obtain ⟨c, history, env, func, c', ptrType, writes, honest, free, run⟩ := successorProgram_ok
  obtain ⟨-, stores, -⟩ := executes_as_meant writes honest
  obtain ⟨i, executes⟩ := (stores func ⟨2⟩ ⟨7⟩ _ _ .synthetic free).1 ⟨9⟩ c' run (by decide)
  exact ⟨c, history, env, func, c', ptrType, i, writes, honest, free, run, executes⟩

end Codegen
