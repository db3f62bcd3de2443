import Codegen.Proofs.Compilation.Keeps
import Codegen.Proofs.Lowering.Switch

/-!
Where the children of a switch are. The positions that a layout names for the value switched on, for
the values of its cases and for its statements are all positions of its children, each of them once.
A switch statement puts its operands there, and lowering finds them.
-/

namespace Codegen

namespace SwitchLayout

/-- What is read where a layout says: the value switched on, and for each case its values and its
statement. -/
structure Seats (layout : SwitchLayout) (kids : List NodeId) (value : NodeId)
    (cases : List (List NodeId)) (stmts : List NodeId) : Prop where
  count : kids.length = layout.childCount
  scrutinee : Lower.childAt kids 0 = .ok value
  values : (layout.cases.mapM fun case =>
    Lower.childrenFrom kids case.valueIndex case.valueCount) = .ok cases
  stmts : (layout.cases.mapM fun case => Lower.childAt kids case.stmtIndex) = .ok stmts

theorem ofCounts_eq_ok {counts : List Nat} {layout : SwitchLayout} : ofCounts counts = .ok layout ↔
    1 + total counts + counts.length < Word.limit ∧ layout = ⟨counts⟩ := by
  unfold ofCounts
  split <;> rename_i fits <;> simp [fits, eq_comm]

theorem place_values (counts : List Nat) (v s : Nat) :
    ((place counts v s).flatMap fun case => List.range' case.valueIndex case.valueCount) =
      List.range' v (total counts) := by
  induction counts generalizing v s with
  | nil => rfl
  | cons count rest ih => rw [place, List.flatMap_cons, ih, total, List.range'_append_1]

theorem place_stmts (counts : List Nat) (v s : Nat) :
    (place counts v s).map (·.stmtIndex) = List.range' s counts.length := by
  induction counts generalizing v s with
  | nil => rfl
  | cons count rest ih => rw [place, List.map_cons, ih, List.length_cons, List.range'_succ]

/-- Every position of a child is named once, in the order of the children. -/
theorem positions_eq (layout : SwitchLayout) :
    0 :: (layout.cases.flatMap fun case => List.range' case.valueIndex case.valueCount) ++
      layout.cases.map (·.stmtIndex) = List.range layout.childCount := by
  rw [cases, place_values, place_stmts, childCount_eq, List.range_eq_range',
    ← List.range'_append_1, ← List.range'_append_1]
  simp [List.range'_one]

theorem mem_stmts (layout : SwitchLayout) (i : Nat) :
    (∃ case ∈ layout.cases, case.stmtIndex = i) ↔ layout.valueCount ≤ i ∧
      i < layout.childCount := by
  rw [← List.mem_map, cases, place_stmts, List.mem_range'_1, childCount_eq, valueCount_eq]

/-- The values of all cases, in a row that starts after some other children. -/
theorem mapM_childrenFrom (cases : List (List NodeId)) (before after : List NodeId) (s : Nat) :
    (place (cases.map List.length) before.length s).mapM (fun case =>
      Lower.childrenFrom (before ++ cases.flatten ++ after) case.valueIndex case.valueCount) =
      .ok cases := by
  induction cases generalizing before s with
  | nil => rfl
  | cons vals rest ih =>
    have here : Lower.childrenFrom (before ++ (vals :: rest).flatten ++ after) before.length
        vals.length = .ok vals := Lower.childrenFrom_eq_ok.2 ⟨by simp, by simp⟩
    have later := ih (before ++ vals) (s + 1)
    rw [List.length_append, List.append_assoc before, ← List.flatten_cons] at later
    rw [List.map_cons, place, List.mapM_cons, here, later]
    rfl

/-- The statements of all cases, in a row that starts after some other children. -/
theorem mapM_childAt (counts : List Nat) (v : Nat) (before : List NodeId) {stmts : List NodeId}
    (count : counts.length = stmts.length) :
    (place counts v before.length).mapM
      (fun case => Lower.childAt (before ++ stmts) case.stmtIndex) = .ok stmts := by
  induction counts generalizing before stmts v with
  | nil => cases List.length_eq_zero_iff.1 count.symm; rfl
  | cons n counts ih =>
    obtain _ | ⟨stmt, rest⟩ := stmts
    · cases count
    have here : Lower.childAt (before ++ stmt :: rest) before.length = .ok stmt :=
      Lower.childAt_eq_ok.2 (by simp)
    have later := ih (v + n) (before ++ [stmt]) (Nat.succ.inj count)
    rw [List.length_append, List.append_assoc] at later
    rw [place, List.mapM_cons, here]
    exact bind_eq_ok.2 ⟨stmt, rfl, bind_eq_ok.2 ⟨rest, later, rfl⟩⟩

theorem length_flatten (cases : List (List NodeId)) :
    cases.flatten.length = total (cases.map List.length) := by
  induction cases with
  | nil => rfl
  | cons vals rest ih => rw [List.flatten_cons, List.length_append, ih, List.map_cons, total]

/-- Operands are where the layout of their cases says, if they are put in a row. -/
theorem seats (value : NodeId) (cases : List (List NodeId)) {stmts : List NodeId}
    (count : cases.length = stmts.length) :
    Seats ⟨cases.map List.length⟩ (value :: cases.flatten ++ stmts) value cases stmts := by
  have size : (value :: cases.flatten).length = 1 + total (cases.map List.length) := by
    rw [List.length_cons, length_flatten, Nat.add_comm]
  refine ⟨?_, rfl, mapM_childrenFrom cases [value] stmts _, ?_⟩
  · rw [childCount_eq, List.length_append, size, List.length_map, count]
  · rw [SwitchLayout.cases, ← size]
    exact mapM_childAt _ 1 _ (by rw [List.length_map, count])

end SwitchLayout

/-- A switch that is built has the layout of its cases and its operands in a row. -/
theorem Build.switchStmt_ok {func : FuncId} {value id : NodeId} {cases : List (List NodeId)}
    {stmts : List NodeId} {span : Span} {c c' : Compilation}
    (run : switchStmt func value cases stmts span c = .ok (id, c')) (made : id ≠ .errorStmt) :
    ∃ layout node, SwitchLayout.ofCounts (cases.map List.length) = .ok layout ∧
      c'.arena.find? id = some node ∧ node.kind = .switchStmt layout ∧
      node.kids = value :: cases.flatten ++ stmts := by
  unfold switchStmt at run
  split at run
  · cases run
  split at run
  · exact absurd (Run.pure_ok run).1 made
  obtain ⟨bad, c₁, -, run⟩ := Run.bind_ok.1 run
  split at run
  · exact absurd (Run.pure_ok run).1 made
  obtain ⟨bad, c₂, -, run⟩ := Run.bind_ok.1 run
  split at run
  · exact absurd (Run.pure_ok run).1 made
  split at run
  · exact absurd (Run.pure_ok run).1 made
  obtain ⟨_, c₃, -, run⟩ := Run.bind_ok.1 run
  obtain ⟨layout, laid, run⟩ := Run.lift_bind_ok run
  obtain ⟨_, c₄, -, run⟩ := Run.bind_ok.1 run
  obtain ⟨arena, done, rfl⟩ := onArena_ok run
  unfold Arena.makeSwitch at done
  split at done
  · obtain ⟨_, -, done⟩ := bind_eq_ok.1 done
    obtain ⟨_, -, done⟩ := bind_eq_ok.1 done
    cases done
    exact ⟨layout, _, laid, Arena.find?_add .., rfl, rfl⟩
  · cases done

/-- A layout has one case for each count, and is made exactly if all positions are words. Its cases
name every position of a child once: that of the value switched on, then those of the values in the
order of the cases, then those of the statements, one after the other. The positions from which on
children have to be statements are those of the statements. Operands in a row, as a switch statement
has them for children, are where their cases say. -/
theorem SwitchLayout.cases_partition (counts : List Nat) :
    ((∃ layout, ofCounts counts = .ok layout) ↔ 1 + total counts + counts.length < Word.limit) ∧
    ∀ layout, ofCounts counts = .ok layout →
      layout.cases.map (·.valueCount) = counts ∧
      0 :: (layout.cases.flatMap fun case => List.range' case.valueIndex case.valueCount) ++
        layout.cases.map (·.stmtIndex) = List.range layout.childCount ∧
      (∀ i < layout.childCount,
        (layout.childCount - layout.cases.length ≤ i ↔ ∃ case ∈ layout.cases, case.stmtIndex = i) ∧
        ((NodeKind.switchStmt layout).wantsStmt i ↔ layout.childCount - layout.cases.length ≤ i)) ∧
      ∀ value cases stmts, cases.map List.length = counts → stmts.length = counts.length →
        layout.Seats (value :: cases.flatten ++ stmts) value cases stmts ∧
        ∀ func span c id c', Build.switchStmt func value cases stmts span c = .ok (id, c') →
          id ≠ .errorStmt → ∃ node, c'.arena.find? id = some node ∧
            node.kind = .switchStmt layout ∧ node.kids = value :: cases.flatten ++ stmts := by
  refine ⟨by simp [ofCounts_eq_ok], fun layout laid => ?_⟩
  obtain ⟨-, rfl⟩ := ofCounts_eq_ok.1 laid
  refine ⟨map_valueCount _ _ _, positions_eq _, fun i lt => ?_, ?_⟩
  · rw [mem_stmts, childCount, Nat.add_sub_cancel]
    exact ⟨⟨fun le => ⟨le, lt⟩, And.left⟩, decide_eq_true_iff⟩
  · rintro value cases stmts rfl count
    refine ⟨seats value cases (by simpa using count.symm), fun func span c id c' run made => ?_⟩
    obtain ⟨layout, node, laid', found⟩ := Build.switchStmt_ok run made
    cases laid.symm.trans laid'
    exact ⟨node, found⟩

/-- A case of two values, the default and a case of one value. -/
theorem SwitchLayout.cases_partition_default : ∃ layout, ofCounts [2, 0, 1] = .ok layout ∧
    layout.cases = [⟨1, 2, 4⟩, ⟨3, 0, 5⟩, ⟨3, 1, 6⟩] ∧ layout.childCount = 7 ∧
    0 :: (layout.cases.flatMap fun case => List.range' case.valueIndex case.valueCount) ++
      layout.cases.map (·.stmtIndex) = List.range 7 ∧
    ∀ x y z w s t u : NodeId,
      layout.Seats [x, y, z, w, s, t, u] x [[y, z], [], [w]] [s, t, u] := by
  obtain ⟨fits, partition⟩ := cases_partition [2, 0, 1]
  obtain ⟨layout, laid⟩ := fits.2 (by decide)
  obtain ⟨-, positions, -, seats⟩ := partition layout laid
  obtain ⟨-, rfl⟩ := ofCounts_eq_ok.1 laid
  exact ⟨_, laid, rfl, rfl, positions, fun x y z w s t u =>
    (seats x [[y, z], [], [w]] [s, t, u] rfl rfl).1⟩

/-- Where the values are as many as a word can tell, there is no position left for the statement. -/
theorem SwitchLayout.ofCounts_full : total [Word.limit - 1] < Word.limit ∧
    ofCounts [Word.limit - 1] = .error .addOverflow := ⟨by decide, rfl⟩

end Codegen
