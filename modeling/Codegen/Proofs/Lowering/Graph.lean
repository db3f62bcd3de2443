import Codegen.Proofs.Body.Neighbours
import Codegen.Proofs.Lowering.Frame
import Mathlib.Data.List.Nodup

/-!
The graph of a lowered body. Each block is made for one purpose, of which it has its name, and no
purpose comes twice; exits lead to blocks that there are, but never to the entry or to a block that
was started because nothing leads to it.
-/

namespace Codegen

/-- What a block is made for. -/
inductive BlockRole where
  | entry
  | thenArm (n : Nat)
  | elseArm (n : Nat)
  | join (n : Nat)
  | orphan (n : Nat)
  | case (n : Nat)
  | exit (n : Nat)
  | test (n : Nat)
  | label (l : LabelId)
  deriving DecidableEq, Repr

namespace BlockRole

def name : BlockRole → String
  | entry => "entry"
  | thenArm n => "then." ++ toString n
  | elseArm n => "else." ++ toString n
  | join n => "fallthrough." ++ toString n
  | orphan n => "orphan." ++ toString n
  | case n => "case." ++ toString n
  | exit n => "switch.exit." ++ toString n
  | test n => "switch.test." ++ toString n
  | label l => "label." ++ toString l.index

theorem toDigits_inj {m n : Nat} (h : Nat.toDigits 10 m = Nat.toDigits 10 n) : m = n := by
  rw [← Nat.ofDigitChars_ten_toDigits (n := m), h, Nat.ofDigitChars_ten_toDigits]

/-- A name tells what its block is for. -/
theorem name_inj {r r' : BlockRole} (h : r.name = r'.name) : r = r' := by
  have e := congrArg String.toList h
  cases r <;> cases r' <;> simp [name, String.toList_append] at e ⊢
  case label.label l l' =>
    cases l
    exact congrArg LabelId.mk (toDigits_inj e)
  all_goals exact toDigits_inj e

/-- Exits may lead to the block. -/
def isTarget : BlockRole → Bool
  | entry | orphan _ => false
  | _ => true

/-- A block for the purpose was made. -/
def Issued (d : Draft) : BlockRole → Prop
  | entry => True
  | thenArm n | elseArm n | join n => n < d.counts.ifs
  | orphan n => n < d.counts.orphans
  | case n => n < d.counts.cases
  | exit n => n < d.counts.switches
  | test n => n < d.counts.tests
  | label l => (d.labelled? l).isSome

end BlockRole

/-- A block that exits may lead to, by what blocks are made for. -/
def Targeted (roles : List BlockRole) (b : BlockId) : Prop :=
  ∃ r, roles[b.index]? = some r ∧ r.isTarget

theorem Targeted.append {roles : List BlockRole} {b : BlockId} (h : Targeted roles b)
    (more : List BlockRole) : Targeted (roles ++ more) b := by
  obtain ⟨r, at', target⟩ := h
  have lt := (List.getElem?_eq_some_iff.1 at').1
  exact ⟨r, by rw [List.getElem?_append_left lt, at'], target⟩

theorem Terminator.mem_targets_branch {cond : Value} {x y t : BlockId} :
    t ∈ (Terminator.branch cond x y).targets ↔ t = x ∨ t = y := by
  simp [named]

/-- An exit that leads somewhere, and only to blocks that may be led to. -/
structure Proper (roles : List BlockRole) (exit : Terminator) : Prop where
  leads : exit ≠ .unreachable
  targets : ∀ t ∈ exit.targets, Targeted roles t

namespace Proper

variable {roles : List BlockRole}

theorem append {exit : Terminator} (h : Proper roles exit) (more : List BlockRole) :
    Proper (roles ++ more) exit :=
  ⟨h.leads, fun t mem => (h.targets t mem).append more⟩

theorem ret (value : Option Value) : Proper roles (.ret value) :=
  ⟨by simp, by simp [Terminator.named]⟩

theorem jump {t : BlockId} (h : Targeted roles t) : Proper roles (.jump t) :=
  ⟨by simp, List.forall_mem_singleton.2 h⟩

theorem branch {cond : Value} {x y : BlockId} (hx : Targeted roles x) (hy : Targeted roles y) :
    Proper roles (.branch cond x y) := by
  refine ⟨by simp, fun t mem => ?_⟩
  rcases Terminator.mem_targets_branch.1 mem with rfl | rfl
  · exact hx
  · exact hy

end Proper

namespace Draft

/-- A draft whose blocks are made for the purposes `roles`, in order. -/
structure Charted (d : Draft) (roles : List BlockRole) : Prop where
  names : d.builder.blocks.toList.map (·.name) = roles.map BlockRole.name
  entry : roles[0]? = some .entry
  nodup : roles.Nodup
  issued : ∀ r ∈ roles, r.Issued d
  labels : ∀ {l b}, d.labelled? l = some b → roles[b.index]? = some (.label l)
  exits : ∀ {b block exit}, d.block? b = some block → block.terminator = some exit →
    Proper roles exit

variable {d : Draft} {roles : List BlockRole}

namespace Charted

theorem length (h : d.Charted roles) : roles.length = d.size := by
  have := congrArg List.length h.names
  simpa [Draft.size] using this.symm

theorem targeted_label (h : d.Charted roles) {l : LabelId} {b : BlockId}
    (e : d.labelled? l = some b) : Targeted roles b := ⟨_, h.labels e, rfl⟩

/-- Counters go up. -/
theorem count (h : d.Charted roles) {f : Counts → Counts} (up : d.counts.ifs ≤ (f d.counts).ifs ∧
      d.counts.orphans ≤ (f d.counts).orphans ∧ d.counts.switches ≤ (f d.counts).switches ∧
      d.counts.cases ≤ (f d.counts).cases ∧ d.counts.tests ≤ (f d.counts).tests) :
    (d.count f).Charted roles := by
  refine ⟨h.names, h.entry, h.nodup, fun r mem => ?_, h.labels, h.exits⟩
  obtain ⟨ifs, orphans, switches, cases, tests⟩ := up
  have issued := h.issued r mem
  cases r with
  | entry => trivial
  | thenArm | elseArm | join => exact Nat.lt_of_lt_of_le issued ifs
  | orphan => exact Nat.lt_of_lt_of_le issued orphans
  | case => exact Nat.lt_of_lt_of_le issued cases
  | exit => exact Nat.lt_of_lt_of_le issued switches
  | test => exact Nat.lt_of_lt_of_le issued tests
  | label => exact issued

/-- One block changes and keeps its name. -/
theorem modify (h : d.Charted roles) {f : OpenBlock → OpenBlock} (i : Nat) (next : BlockId)
    (name : ∀ block, (f block).name = block.name)
    (exits : ∀ {block exit}, (f block).terminator = some exit →
      block.terminator = some exit ∨ Proper roles exit) :
    Charted { d with builder := ⟨d.builder.blocks.modify i f, next⟩ } roles := by
  refine ⟨?_, h.entry, h.nodup, h.issued, h.labels, fun {b block exit} e has => ?_⟩
  · rw [← h.names, Array.toList_modify]
    apply List.ext_getElem?
    intro j
    by_cases e : i = j <;> simp [e, name, Option.map_map, Function.comp_def]
  · change (d.builder.blocks.modify i f)[b.index]? = some block at e
    rw [Array.getElem?_modify] at e
    split at e
    · obtain ⟨old, found, rfl⟩ := Option.map_eq_some_iff.1 e
      exact (exits has).elim (h.exits found) fun proper => proper
    · exact h.exits e has

theorem add (h : d.Charted roles) (insts : List InstId) : (d.add insts).Charted roles :=
  h.modify _ _ (fun _ => rfl) .inl

theorem turn (h : d.Charted roles) {exit : Terminator} (proper : Proper roles exit)
    (next : BlockId) : (d.turn exit next).Charted roles := by
  refine h.modify _ _ (fun _ => rfl) fun e => ?_
  cases e
  exact .inr proper

/-- One more block, for a purpose that is new. -/
theorem push (h : d.Charted roles) {d' : Draft} {r : BlockRole} (new : r ∉ roles)
    (blocks : d'.builder.blocks = d.builder.blocks.push ⟨r.name, [], none⟩)
    (issued : ∀ r' ∈ roles ++ [r], r'.Issued d')
    (labels : ∀ {l b}, d'.labelled? l = some b →
      d.labelled? l = some b ∨ r = .label l ∧ b = d.fresh) : d'.Charted (roles ++ [r]) := by
  refine ⟨by simp [blocks, ← h.names], ?_, ?_, issued, fun {l b} e => ?_,
    fun {b block exit} e has => ?_⟩
  · rw [List.getElem?_append_left (List.getElem?_eq_some_iff.1 h.entry).1, h.entry]
  · refine List.nodup_append.2 ⟨h.nodup, List.nodup_singleton r, fun x mem y mem' e => ?_⟩
    rw [List.mem_singleton.1 mem'] at e
    exact new (e ▸ mem)
  · rcases labels e with e | ⟨rfl, rfl⟩
    · have at' := h.labels e
      rw [List.getElem?_append_left (List.getElem?_eq_some_iff.1 at').1, at']
    · rw [index_fresh, ← h.length]
      simp
  · change d'.builder.blocks[b.index]? = some block at e
    rw [blocks, Array.getElem?_push] at e
    split at e
    · cases e
      cases has
    · exact (h.exits e has).append _

theorem newBlock (h : d.Charted roles) {r : BlockRole} (new : r ∉ roles) (issued : r.Issued d) :
    (d.newBlock r.name).Charted (roles ++ [r]) := by
  refine h.push new rfl (fun r' mem => ?_) .inl
  rcases List.mem_append.1 mem with mem | mem
  · exact h.issued r' mem
  · rw [List.mem_singleton.1 mem]
    exact issued

/-- A block that was made last, by what it was made for. -/
theorem targeted_new (h : d.Charted roles) {more : List BlockRole} {i : Nat} {r : BlockRole}
    (at' : more[i]? = some r) (target : r.isTarget) : Targeted (roles ++ more) ⟨d.size + i⟩ := by
  refine ⟨r, ?_, target⟩
  rw [← h.length, List.getElem?_append_right (Nat.le_add_right _ _)]
  simpa using at'

theorem drop (h : d.Charted roles) {exit : Terminator} (proper : Proper roles exit) :
    (d.drop exit).Charted (roles ++ [.orphan d.counts.orphans]) := by
  have counted := h.count (f := fun c => { c with orphans := c.orphans + 1 }) (by simp)
  have made := counted.newBlock (r := .orphan d.counts.orphans)
    (fun mem => absurd (h.issued _ mem) (by simp [BlockRole.Issued]))
    (by simp [BlockRole.Issued, Draft.count])
  exact made.turn (proper.append _) d.fresh

theorem pass (h : d.Charted roles) (cond : Value) {selected : BlockId}
    (target : Targeted roles selected) :
    (d.pass cond selected).Charted (roles ++ [.test d.counts.tests]) := by
  have counted := h.count (f := fun c => { c with tests := c.tests + 1 }) (by simp)
  have made := counted.newBlock (r := .test d.counts.tests)
    (fun mem => absurd (h.issued _ mem) (by simp [BlockRole.Issued]))
    (by simp [BlockRole.Issued, Draft.count])
  have next : Targeted (roles ++ [.test d.counts.tests]) ⟨d.size + 0⟩ := h.targeted_new rfl rfl
  exact made.turn (.branch (target.append _) next) d.fresh

/-- The blocks of a choice, all under one number. -/
theorem count_ifs (h : d.Charted roles) :
    (d.count fun c => { c with ifs := c.ifs + 1 }).Charted roles :=
  h.count (by simp)

theorem fork (h : d.Charted roles) (cond : Value) :
    (d.fork cond).Charted (roles ++ [.thenArm d.counts.ifs, .join d.counts.ifs]) := by
  have old : ∀ {r : BlockRole}, r ∈ roles → r.Issued d := fun mem => h.issued _ mem
  have one := h.count_ifs.newBlock (r := .thenArm d.counts.ifs)
    (fun mem => absurd (old mem) (by simp [BlockRole.Issued]))
    (by simp [BlockRole.Issued, Draft.count])
  have two := one.newBlock (r := .join d.counts.ifs)
    (fun mem => absurd (old (by simpa using mem)) (by simp [BlockRole.Issued]))
    (by simp [BlockRole.Issued, Draft.count, Draft.newBlock])
  rw [List.append_assoc] at two
  exact two.turn (.branch (h.targeted_new (i := 0) rfl rfl) (h.targeted_new (i := 1) rfl rfl))
    d.fresh

theorem forkElse (h : d.Charted roles) (cond : Value) : (d.forkElse cond).Charted
    (roles ++ [.thenArm d.counts.ifs, .elseArm d.counts.ifs, .join d.counts.ifs]) := by
  have old : ∀ {r : BlockRole}, r ∈ roles → r.Issued d := fun mem => h.issued _ mem
  have one := h.count_ifs.newBlock (r := .thenArm d.counts.ifs)
    (fun mem => absurd (old mem) (by simp [BlockRole.Issued]))
    (by simp [BlockRole.Issued, Draft.count])
  have two := one.newBlock (r := .elseArm d.counts.ifs)
    (fun mem => absurd (old (by simpa using mem)) (by simp [BlockRole.Issued]))
    (by simp [BlockRole.Issued, Draft.count, Draft.newBlock])
  have three := two.newBlock (r := .join d.counts.ifs)
    (fun mem => absurd (old (by simpa using mem)) (by simp [BlockRole.Issued]))
    (by simp [BlockRole.Issued, Draft.count, Draft.newBlock])
  rw [List.append_assoc, List.append_assoc] at three
  exact three.turn (.branch (h.targeted_new (i := 0) rfl rfl) (h.targeted_new (i := 1) rfl rfl))
    d.fresh

theorem newCases (h : d.Charted roles) (n : Nat) : ∃ more, (d.newCases n).Charted (roles ++ more) ∧
    more.length = n ∧ ∀ r ∈ more, ∃ m, r = .case m := by
  induction n generalizing d roles with
  | zero => exact ⟨[], by rwa [List.append_nil], rfl, by simp⟩
  | succ n ih =>
    have counted := h.count (f := fun c => { c with cases := c.cases + 1 }) (by simp)
    have made := counted.newBlock (r := .case d.counts.cases)
      (fun mem => absurd (h.issued _ mem) (by simp [BlockRole.Issued]))
      (by simp [BlockRole.Issued, Draft.count])
    obtain ⟨more, rest, length, cases⟩ := ih made
    rw [List.append_assoc] at rest
    refine ⟨.case d.counts.cases :: more, rest, by simp [length], fun r mem => ?_⟩
    rcases List.mem_cons.1 mem with rfl | mem
    · exact ⟨_, rfl⟩
    · exact cases r mem

theorem switches_newCases (n : Nat) (d : Draft) :
    (d.newCases n).counts.switches = d.counts.switches := by
  induction n generalizing d with
  | zero => rfl
  | succ n ih => exact ih _

theorem newSwitch (h : d.Charted roles) (n : Nat) :
    ∃ more, (d.newSwitch n).Charted (roles ++ more) ∧ more.length = n + 1 ∧
      ∀ r ∈ more, r.isTarget := by
  have counted := h.count (f := fun c => { c with switches := d.counts.switches + 1 }) (by simp)
  obtain ⟨more, made, length, cases⟩ := counted.newCases n
  have new : BlockRole.exit d.counts.switches ∉ roles ++ more := by
    intro mem
    rcases List.mem_append.1 mem with mem | mem
    · exact absurd (h.issued _ mem) (by simp [BlockRole.Issued])
    · obtain ⟨m, e⟩ := cases _ mem
      cases e
  have all : (d.newSwitch n).Charted (roles ++ more ++ [.exit d.counts.switches]) :=
    made.newBlock new (by simp [BlockRole.Issued, switches_newCases, Draft.count])
  rw [List.append_assoc] at all
  refine ⟨more ++ [.exit d.counts.switches], all, by simp [length], fun r mem => ?_⟩
  rcases List.mem_append.1 mem with mem | mem
  · obtain ⟨m, rfl⟩ := cases r mem
    rfl
  · rw [List.mem_singleton.1 mem]
    rfl

theorem meet (h : d.Charted roles) (l : LabelId) :
    ∃ more, (d.meet l).Charted (roles ++ more) ∧ Targeted (roles ++ more) (d.target l) := by
  unfold Draft.meet
  split
  · rename_i b e
    refine ⟨[], by rwa [List.append_nil], ?_⟩
    rw [List.append_nil, target, e]
    exact h.targeted_label e
  · rename_i none
    have new : BlockRole.label l ∉ roles := fun mem =>
      absurd (h.issued _ mem) (by simp [BlockRole.Issued, none])
    refine ⟨[.label l], h.push new rfl (fun r mem => ?_) fun {l' b} e => ?_, ?_⟩
    · rcases List.mem_append.1 mem with mem | mem
      · have issued := h.issued r mem
        cases r with
        | label l' =>
          simp only [BlockRole.Issued, labelled?_mark, labelled?_newBlock]
          split
          · rfl
          · exact issued
        | _ => exact issued
      · rw [List.mem_singleton.1 mem]
        simp [BlockRole.Issued, labelled?_mark]
    · rw [labelled?_mark, labelled?_newBlock] at e
      split at e
      · rename_i same
        cases e
        exact .inr ⟨by rw [same], rfl⟩
      · exact .inl e
    · rw [target, none]
      exact h.targeted_new (i := 0) rfl rfl

end Charted

end Draft

open Draft

mutual

/-- Code only adds blocks, and leads only to blocks that may be led to. -/
theorem Code.charted : ∀ (code : Code) {d : Draft} {roles : List BlockRole}, d.Charted roles →
    ∃ more, (code.lower d).Charted (roles ++ more)
  | .skip, _, roles, h => ⟨[], by rwa [List.append_nil]⟩
  | .seq first second, _, roles, h => by
    obtain ⟨one, h₁⟩ := first.charted h
    obtain ⟨two, h₂⟩ := second.charted h₁
    exact ⟨one ++ two, by rwa [← List.append_assoc]⟩
  | .inst _, _, roles, h => ⟨[], by rw [List.append_nil]; exact h.add _⟩
  | .leave _, _, _, h => ⟨_, h.drop (.ret _)⟩
  | .label l, _, _, h => by
    obtain ⟨more, met, target⟩ := h.meet l
    exact ⟨more, met.turn (.jump target) _⟩
  | .goto l, d, _, h => by
    obtain ⟨more, met, target⟩ := h.meet l
    have done := met.drop (.jump target)
    rw [List.append_assoc] at done
    exact ⟨_, done⟩
  | .ifThen cond body, d, roles, h => by
    obtain ⟨more, inner⟩ := body.charted (h.fork cond)
    have join : Targeted (roles ++ [.thenArm d.counts.ifs, .join d.counts.ifs]) ⟨d.size + 1⟩ :=
      h.targeted_new rfl rfl
    have done := inner.turn (.jump (join.append more)) ⟨d.size + 1⟩
    rw [List.append_assoc] at done
    exact ⟨_, done⟩
  | .ifElse cond body other, d, roles, h => by
    have join : Targeted (roles ++ [.thenArm d.counts.ifs, .elseArm d.counts.ifs,
        .join d.counts.ifs]) ⟨d.size + 2⟩ := h.targeted_new rfl rfl
    obtain ⟨more, one⟩ := body.charted (h.forkElse cond)
    have join₁ := join.append more
    obtain ⟨more', two⟩ := other.charted (one.turn (.jump join₁) ⟨d.size + 1⟩)
    have done := two.turn (.jump (join₁.append more')) ⟨d.size + 2⟩
    rw [List.append_assoc, List.append_assoc] at done
    exact ⟨_, done⟩
  | .switch _ tests default bodies, d, roles, h => by
    obtain ⟨cases, made, length, all⟩ := h.newSwitch bodies.length
    have place : ∀ i, i ≤ bodies.length → Targeted (roles ++ cases) ⟨d.size + i⟩ := fun i le => by
      have lt : i < cases.length := by omega
      exact h.targeted_new (List.getElem?_eq_getElem lt) (all _ (List.getElem_mem lt))
    obtain ⟨more, tested⟩ := tests.charted (bodies.place d.size) made
      fun i => place _ (Nat.min_le_right _ _)
    have selected : Targeted (roles ++ cases) (bodies.place d.size (default.getD bodies.length)) :=
      place _ (Nat.min_le_right _ _)
    have turned := tested.turn (.jump (selected.append more)) ⟨d.size⟩
    obtain ⟨more', done⟩ := bodies.charted d.size turned
      fun i le => (place i le).append more
    rw [List.append_assoc, List.append_assoc] at done
    exact ⟨_, done⟩

theorem Tests.charted (place : Nat → BlockId) : ∀ (tests : Tests) {d : Draft}
    {roles : List BlockRole}, d.Charted roles → (∀ i, Targeted roles (place i)) →
    ∃ more, (tests.lower place d).Charted (roles ++ more)
  | .done, _, _, h, _ => ⟨[], by rwa [List.append_nil]⟩
  | .test eval _ compare body rest, _, _, h, targets => by
    obtain ⟨more, one⟩ := eval.charted h
    have two := (one.add [compare]).pass (.inst compare) ((targets body).append more)
    obtain ⟨more', done⟩ := rest.charted place two fun i => ((targets i).append _).append _
    rw [List.append_assoc, List.append_assoc] at done
    exact ⟨_, done⟩

theorem Bodies.charted : ∀ (bodies : Bodies) (base : Nat) {d : Draft} {roles : List BlockRole},
    d.Charted roles → (∀ i ≤ bodies.length, Targeted roles ⟨base + i⟩) →
    ∃ more, (bodies.lower base d).Charted (roles ++ more)
  | .nil, _, _, _, h, _ => ⟨[], by rwa [List.append_nil]⟩
  | .cons body rest, base, _, _, h, targets => by
    obtain ⟨more, one⟩ := body.charted h
    have next := targets 1 (by simp [Bodies.length])
    obtain ⟨more', done⟩ := rest.charted (base + 1)
      (one.turn (.jump (next.append more)) ⟨base + 1⟩) fun i le => by
        have := (targets (1 + i) (by simp [Bodies.length]; omega)).append more
        rwa [← Nat.add_assoc] at this
    rw [List.append_assoc] at done
    exact ⟨_, done⟩

end

theorem Draft.charted_start (entry : List InstId) : (start.add entry).Charted [.entry] := by
  have empty : start.Charted [.entry] := by
    refine ⟨rfl, rfl, by simp, fun r mem => ?_, fun {l b} e => ?_, fun {b block exit} e has => ?_⟩
    · rw [List.mem_singleton.1 mem]
      trivial
    · simp [start, labelled?] at e
    · have lt := lt_of_block? e
      obtain ⟨i⟩ := b
      obtain rfl : i = 0 := Nat.lt_one_iff.1 lt
      cases e
      cases has
  exact empty.add entry

end Codegen
