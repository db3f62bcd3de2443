import Codegen.Proofs.Evaluation.Progress
import Codegen.Proofs.Requests.Returns
import Mathlib.Algebra.Order.Ring.Int

/-!
Integer constants are taken exactly if their type has room for them, whatever types a front end has
asked for. The test of the range stays within the integers that it computes with.
-/

namespace Codegen

/-- The integers that fit a number of bits, one of which may be the sign. -/
def InRange (bits : Nat) (signed : Bool) (value : Int) : Prop :=
  (if signed then -2 ^ (bits - 1) else 0) ≤ value ∧ value < 2 ^ (if signed then bits - 1 else bits)

instance (bits : Nat) (signed : Bool) (value : Int) : Decidable (InRange bits signed value) :=
  inferInstanceAs (Decidable (_ ∧ _))

variable {bits : Nat} {signed : Bool} {value : Int}

theorem Wide.bit_eq {n : Nat} (lt : n < 127) :
    bit n = .ok (2 ^ n) ∧ neg (2 ^ n) = .ok (-2 ^ n) := by
  have pos : (0 : Int) < 2 ^ n := Int.pow_pos (by decide)
  have least : (-limit : Int) < 0 := by decide
  constructor
  · rw [bit, if_pos lt, Nat.one_shiftLeft]
    push_cast
    rfl
  · rw [neg, if_neg (by omega)]

/-- The test of the range neither shifts too far nor leaves the integers of 128 bits. -/
theorem fitsInteger_eq (width : 1 ≤ bits ∧ bits ≤ 128) (wide : InRange 128 true value) :
    fitsInteger value bits signed = .ok (decide (InRange bits signed value)) := by
  unfold fitsInteger
  cases signed with
  | true =>
    by_cases widest : 128 ≤ bits
    · obtain rfl : bits = 128 := by omega
      simpa using wide
    · obtain ⟨half, low⟩ := @Wide.bit_eq (bits - 1) (by omega)
      simp only [if_true, if_neg widest, Word.sub, if_pos width.1]
      exact bind_eq_ok.2 ⟨_, rfl, bind_eq_ok.2 ⟨_, half, bind_eq_ok.2 ⟨_, low, by simp [InRange]⟩⟩⟩
  | false =>
    have high : value < 2 ^ 127 := wide.2
    by_cases negative : value < 0
    · simp [InRange, negative]
    by_cases widest : 127 ≤ bits
    · obtain rfl | rfl : bits = 127 ∨ bits = 128 := by omega
      all_goals simp [InRange, negative]; omega
    · simp only [if_neg, negative, widest, Bool.false_eq_true, not_false_eq_true]
      exact bind_eq_ok.2 ⟨_, (Wide.bit_eq (by omega)).1, by simp [InRange, Int.not_lt.1 negative]⟩

namespace TypeTable

variable {t : TypeTable} {id : TypeId}

/-- An integer type is one by itself or by name. -/
theorem form_of_integer (integer : t.underlyingForm id = .ok (.int bits signed)) :
    t.form id = .ok (.int bits signed) ∨ ∃ name part, t.form id = .ok (.named name part) := by
  obtain ⟨under, down, known⟩ := bind_eq_ok.1 integer
  obtain ⟨form, top, down⟩ := bind_eq_ok.1 down
  cases form with
  | named name part => exact .inr ⟨name, part, top⟩
  | _ =>
    cases down
    exact .inl known

/-- The widths of the integer types that can be asked for. -/
theorem Asked.width_of_integer (asked : t.Asked)
    (integer : t.underlyingForm id = .ok (.int bits signed)) : 1 ≤ bits ∧ bits ≤ 128 := by
  obtain ⟨under, -, known⟩ := bind_eq_ok.1 integer
  simpa [TypeForm.isRegular] using asked.regular _ _ known

end TypeTable

namespace Compilation

variable {c : Compilation} {ty : TypeId}

/-- An integer type that a front end has asked for is no error and has a text. -/
theorem Named.exists_text (named : c.Named) (reach : c.types.Reachable)
    (integer : c.types.underlyingForm ty = .ok (.int bits signed)) :
    c.types.isError ty = .ok false ∧ ∃ text, c.types.display c.names ty = .ok text := by
  rcases TypeTable.form_of_integer integer with known | ⟨name, part, known⟩
  · refine ⟨reach.canonical.isError_of_form known (by simp),
      (if signed then "i" else "u") ++ toString bits, ?_⟩
    simp only [TypeTable.display, TypeTable.displayWithin, known]
    rfl
  · obtain ⟨text, found⟩ := named _ _ known name part rfl
    refine ⟨reach.canonical.isError_of_form known (by simp), text, ?_⟩
    simp only [TypeTable.display, TypeTable.displayWithin, known]
    exact found

end Compilation

namespace Session

open Build

variable {c : Compilation} {moves : List Move} {ty : TypeId}

/-- An integer constant of 128 bits is made exactly if it is in the range of its type, however many
names the type has. Otherwise the fault says so. -/
theorem integerConstant_iff (session : Session c moves)
    (integer : c.types.underlyingForm ty = .ok (.int bits signed)) (wide : InRange 128 true value) :
    fitsInteger value bits signed = .ok (decide (InRange bits signed value)) ∧
    ((∃ id c' node, integerConstant ty value c = .ok (id, c') ∧ c'.arena.find? id = some node ∧
      node.kind = .const ∧ node.ty = ty ∧ node.value = some (.const (.int ty value))) ↔
      InRange bits signed value) ∧
    (¬InRange bits signed value → ∃ text fault, c.types.display c.names ty = .ok text ∧
      integerConstant ty value c = .error fault ∧
      fault.message = s!"constant {value} does not fit {text}") := by
  obtain ⟨asked, named⟩ := session.asked
  obtain ⟨valid, text, shown⟩ := named.exists_text asked.reachable integer
  have fits := @fitsInteger_eq _ signed _ (asked.width_of_integer integer) wide
  have range : c.types.integer? ty = .ok (some (bits, signed)) := by
    rw [TypeTable.integer?, integer]
    rfl
  have run : integerConstant ty value c = ((if decide (InRange bits signed value) = true
      then makeConst ty (.int ty value) .synthetic
      else throwWithType ty (.doesNotFit value) : Build NodeId)) c := by
    rw [integerConstant, isErrorType, Run.bind_of_ok (ask_of_ok valid)]
    change (ask _ >>= _) c = _
    rw [Run.bind_of_ok (ask_of_ok range)]
    exact Run.bind_of_ok (Run.lift_of_ok fits) _
  refine ⟨fits, ?_⟩
  by_cases inside : InRange bits signed value
  · rw [run, decide_eq_true inside]
    refine ⟨iff_of_true ⟨_, _, _, rfl, Arena.find?_add .., rfl, rfl, rfl⟩ inside, (absurd inside ·)⟩
  · rw [run, decide_eq_false inside]
    have refused : (throwWithType ty (.doesNotFit value) : Build NodeId) c =
        .error (.doesNotFit value text) := by
      rw [throwWithType, typeName, Run.bind_of_ok (ask_of_ok shown)]
      rfl
    refine ⟨iff_of_false ?_ inside, fun _ => ⟨text, _, shown, refused, rfl⟩⟩
    rintro ⟨id, c', -, made, -⟩
    cases refused.symm.trans made

/-- A signed type of 127 bits that has two names. -/
def namedTwice : Compilation × List Move :=
  record .standard [.integerType false 127, .namedType "inner" (⟨14⟩ : TypeId),
    .namedType "outer" (⟨15⟩ : TypeId)]

/-- The least integer of 127 bits is a constant of the type, and the one past the greatest is
not. -/
theorem integerConstant_namedTwice :
    (∃ id c', integerConstant ⟨16⟩ (-2 ^ 126) namedTwice.1 = .ok (id, c')) ∧
    ∃ fault, integerConstant ⟨16⟩ (2 ^ 126) namedTwice.1 = .error fault ∧
      fault.message = "constant 85070591730234615865843651857942052864 does not fit outer" := by
  have session : Session namedTwice.1 namedTwice.2 := session_record _ _
  have integer : namedTwice.1.types.underlyingForm ⟨16⟩ = .ok (.int 127 true) := by decide +kernel
  have text : namedTwice.1.types.display namedTwice.1.names ⟨16⟩ = .ok "outer" := by decide +kernel
  obtain ⟨id, c', -, made, -⟩ := (integerConstant_iff session integer (by decide)).2.1.2
    (by decide : InRange 127 true (-2 ^ 126))
  obtain ⟨_, fault, shown, refused, message⟩ :=
    (integerConstant_iff session integer (by decide)).2.2 (by decide : ¬InRange 127 true (2 ^ 126))
  cases text.symm.trans shown
  exact ⟨⟨id, c', made⟩, fault, refused, message.trans (by decide +kernel)⟩

end Session

end Codegen
