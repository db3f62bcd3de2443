import Codegen.Proofs.Lowering.Code

/-!
Runs of structured code and of lowered bodies, under any meaning of instructions and values. A run
is cut off after a number of transfers of control, so that one that never ends is known by all of
its parts.
-/

namespace Codegen

/-- What instructions do to a state, and what values say in it. -/
structure Interp (σ : Type) where
  exec : InstId → σ → σ
  truth : σ → Value → Bool
  equal : σ → Value → Value → Bool

/-- A comparison that was not there before leaves a truth value: whether its operands are equal. -/
def Interp.Compares {σ : Type} (I : Interp σ) (before after : InstStore) : Prop :=
  ∀ {id x y}, before.find? id = none → after.find? id = some ⟨.compare .eqEq x y, .bool⟩ →
    ∀ s, I.truth (I.exec id s) (.inst id) = I.equal s x y

/-- Each comparison that is laid out leaves a truth value: whether what it compares is equal. -/
def Interp.Decides {σ : Type} (I : Interp σ) (placed : List Placed) : Prop :=
  ∀ {id x y}, .compare id x y ∈ placed → ∀ s, I.truth (I.exec id s) (.inst id) = I.equal s x y

/-- How a run comes to its end. -/
inductive Ending where
  | returned (value : Option Value)
  /-- Past the last instruction of a function that has a result to give. -/
  | fell
  /-- At a place that there is not. -/
  | astray
  deriving DecidableEq, Repr

/-- The instructions that were executed, and how and in what state the run ended if it did. -/
structure Trace (σ : Type) where
  insts : List InstId
  ended : Option (Ending × σ)

namespace Trace

variable {σ : Type}

def stop (how : Ending) (s : σ) : Trace σ := ⟨[], some (how, s)⟩

/-- Cut off. -/
def cut : Trace σ := ⟨[], none⟩

/-- An instruction before a rest. -/
def exec (I : Interp σ) (id : InstId) (rest : σ → Trace σ) (s : σ) : Trace σ :=
  let t := rest (I.exec id s)
  { t with insts := id :: t.insts }

/-- A trace that goes on where another was cut off. -/
def Continues (t t' : Trace σ) : Prop :=
  t.insts <+: t'.insts ∧ ∀ how, t.ended = some how → t' = t

/-- Instructions before a rest. -/
def execAll (I : Interp σ) (ids : List InstId) (rest : σ → Trace σ) : σ → Trace σ :=
  ids.foldr (exec I) rest

end Trace

/-- What is still to be done, from a state and within a number of transfers. -/
abbrev Cont (σ : Type) := Nat → σ → Trace σ

namespace Cont

variable {σ : Type}

/-- A transfer of control. -/
def hop (k : Cont σ) : Cont σ
  | 0, _ => .cut
  | n + 1, s => k n s

def stop (how : Ending) : Cont σ := fun _ s => .stop how s

def exec (I : Interp σ) (id : InstId) (k : Cont σ) : Cont σ := fun n => Trace.exec I id (k n)

/-- A choice by a value. -/
def choose (I : Interp σ) (cond : Value) (yes no : Cont σ) : Cont σ :=
  fun n s => if I.truth s cond then hop yes n s else hop no n s

/-- A comparison, and a choice by its outcome. -/
def test (I : Interp σ) (compare : InstId) (x y : Value) (yes no : Cont σ) : Cont σ :=
  fun n s => exec I compare (if I.equal s x y then hop yes else hop no) n s

end Cont

/-! ## Structured code -/

section

variable {σ : Type} (I : Interp σ) (env : LabelId → Cont σ)

open Cont

mutual

/-- Code before a rest. `env` says how to go on at each label. -/
def Code.run : Code → Cont σ → Cont σ
  | .skip, k => k
  | .seq first second, k => first.run (second.run k)
  | .inst id, k => exec I id k
  | .leave value, _ => stop (.returned value)
  | .label _, k => hop k
  | .goto l, _ => hop (env l)
  | .ifThen cond body, k => choose I cond (body.run (hop k)) k
  | .ifElse cond body other, k => choose I cond (body.run (hop k)) (other.run (hop k))
  | .switch scrutinee tests default bodies, k =>
    tests.run scrutinee (bodies.run k) (hop (default.elim k (bodies.run k)))

/-- The tests of a switch before a rest. `select` runs the bodies from a position on. -/
def Tests.run (scrutinee : Value) (select : Nat → Cont σ) : Tests → Cont σ → Cont σ
  | .done, k => k
  | .test eval value compare body rest, k =>
    eval.run (test I compare scrutinee value (select body) (rest.run scrutinee select k))

/-- The bodies of a switch from a position on, each running on into the next. -/
def Bodies.run : Bodies → Cont σ → Nat → Cont σ
  | .nil, k, _ => k
  | .cons body rest, k, 0 => body.run (hop (rest.run k 0))
  | .cons _ rest, k, i + 1 => rest.run k i

end

mutual

/-- What is to be done after a label, if code before a rest places it. -/
def Code.resume (l : LabelId) : Code → Cont σ → Option (Cont σ)
  | .label l', k => if l' = l then some k else none
  | .seq first second, k => first.resume l (second.run I env k) <|> second.resume l k
  | .ifThen _ body, k => body.resume l (hop k)
  | .ifElse _ body other, k => body.resume l (hop k) <|> other.resume l (hop k)
  | .switch scrutinee tests default bodies, k =>
    tests.resume l scrutinee (bodies.run I env k) (hop (default.elim k (bodies.run I env k))) <|>
      bodies.resume l k
  | .skip, _ | .inst _, _ | .leave _, _ | .goto _, _ => none

def Tests.resume (l : LabelId) (scrutinee : Value) (select : Nat → Cont σ) :
    Tests → Cont σ → Option (Cont σ)
  | .done, _ => none
  | .test eval value compare body rest, k =>
    eval.resume l (test I compare scrutinee value (select body) (rest.run I env scrutinee select k))
      <|> rest.resume l scrutinee select k

def Bodies.resume (l : LabelId) : Bodies → Cont σ → Option (Cont σ)
  | .nil, _ => none
  | .cons body rest, k => body.resume l (hop (rest.run I env k 0)) <|> rest.resume l k

end

end

section

variable {σ : Type} (I : Interp σ)

/-- How to go on at a label of a whole function, as far as a number of jumps goes. -/
def Code.labelled (code : Code) (exit : Cont σ) : Nat → LabelId → Cont σ
  | 0, _ => fun _ _ => .cut
  | depth + 1, l => (code.resume I (code.labelled exit depth) l exit).getD (.stop .astray)

/-- What a function does past the end of its code: without a result it returns. -/
def Ending.past (resultIsVoid : Bool) : Ending := if resultIsVoid then .returned none else .fell

/-- The run of a function's code after its entry instructions. -/
def Code.runFunction (code : Code) (entry : List InstId) (resultIsVoid : Bool) : Cont σ :=
  let exit : Cont σ := .stop (.past resultIsVoid)
  fun n => Trace.execAll I entry (code.run I (code.labelled I exit n) exit n)

/-! ## Lowered bodies -/

/-- The exit of a block. `go` enters a block. -/
def Terminator.run (go : BlockId → σ → Trace σ) : Terminator → σ → Trace σ
  | .jump target => go target
  | .branch cond thenBlock elseBlock =>
    fun s => if I.truth s cond then go thenBlock s else go elseBlock s
  | .ret value => .stop (.returned value)
  | .unreachable => .stop .fell

/-- A block, and where it leads to. -/
def Body.enter (body : Body) (go : BlockId → σ → Trace σ) (id : BlockId) : σ → Trace σ :=
  match body.blocks[id.index]? with
  | none => .stop .astray
  | some block => Trace.execAll I block.insts (block.terminator.run I go)

/-- A block and all it leads to, within a number of transfers. -/
def Body.runBlock (body : Body) : Nat → BlockId → σ → Trace σ
  | 0 => body.enter I fun _ _ => .cut
  | n + 1 => body.enter I (body.runBlock n)

/-- The run of a body from its entry. -/
def Body.run (body : Body) : Cont σ := fun n => body.runBlock I n body.entry

end

end Codegen
