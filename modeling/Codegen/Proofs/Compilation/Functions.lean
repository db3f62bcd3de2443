import Codegen.Compilation.Functions
import Codegen.Compilation.Types
import Codegen.Proofs.Compilation.Statements
import Codegen.Proofs.Tree.Destruction

/-!
The steps on types, variables and functions keep compilations sound, the definition of a body
apart.
-/

namespace Codegen.Build

@[grind ←] theorem steady_disableIntegrityChecks : Steady disableIntegrityChecks := by
  intro c _ c' sound run
  cases run
  exact sound.of_same _ rfl rfl rfl rfl

/-! ## Variables -/

@[grind ←] theorem steady_parameterVariable (func : FuncId) (name : String) (ty : TypeId)
    (addressTaken : Bool) (span : Span) :
    Steady (parameterVariable func name ty addressTaken span) := by
  refine .ite (.pure _) <| .guard (.ask _) <| .bind (steady_intern _) fun name => ?_
  intro c a c' sound run
  rw [Run.get_bind] at run
  obtain ⟨f, found, run⟩ := getFunction_bind_ok run
  have ⟨sound₁, g⟩ := sound_setFunction sound found (f.pushParam ⟨c.vars.size⟩).2
    ⟨rfl, rfl, rfl, rfl⟩
  obtain ⟨sound₂, g'⟩ := steady_pushVariable (by simp) _ a c' sound₁ run
  exact ⟨sound₂, g.trans g'⟩

/-- Trees are destroyed together with their instructions, which are no slots. -/
theorem steady_destroy (root : NodeId) : Steady (destroy root .all) := by
  intro c _ c' sound run
  rw [destroy, Run.get_bind] at run
  obtain ⟨⟨arena, insts⟩, e, run⟩ := Run.lift_bind_ok run
  cases run
  have razed := Arena.razed_of_destroyWithin _ e
  have shaped := (Arena.Edit.destroy e).wellFormed sound.shaped
  exact sound.prune shaped razed.size (Nat.le_of_eq razed.slots.symm)
    (razed.find_of_dies (by decide))
    (fun {i} _ => (razed.store i).imp_right And.left) (sound.allocates_of_razed razed)

theorem steady_setGlobals (globals : Compilation → Array GlobalData) :
    Steady (modify fun c => { c with globals := globals c } : Build Unit) := by
  intro c _ c' sound run
  cases run
  exact sound.of_same _ rfl rfl rfl rfl

@[grind ←] theorem steady_setGlobalInit (var : VarId) (init : NodeId) :
    Steady (setGlobalInit var init) := by
  refine .guard (obeys_isErrorVar _) <| .guard (obeys_isErrorExpr _) <| .bind (.ask _) fun v => ?_
  split
  · exact .bind (.ask _) fun value => .bind (.ask _) fun data => .ite (.throw _) <|
      .bind (steady_setGlobals _) fun _ => steady_destroy _
  · exact .throw _

/-! ## Functions -/

@[grind ←] theorem steady_declareFunction (fntype : TypeId) (name asmName : String)
    (flags : FunctionFlags) (splitStack : Bool) (span : Span) :
    Steady (declareFunction fntype name asmName flags splitStack span) := by
  refine .guard (.ask _) <| .bind (.ask _) fun result => .ite (obeys_throwWithType _ _) ?_
  intro c a c' sound run
  rw [Run.get_bind] at run
  obtain ⟨name, c₁, first, run⟩ := Run.bind_ok.1 run
  obtain ⟨sound₁, g₁⟩ := steady_intern _ c _ c₁ sound first
  obtain ⟨asmName, c₂, second, run⟩ := Run.bind_ok.1 run
  obtain ⟨sound₂, g₂⟩ := steady_intern _ c₁ _ c₂ sound₁ second
  cases run
  have ⟨sound₃, g₃⟩ := sound₂.pushFunction (.declare ⟨c.functions.size⟩ name asmName fntype
    flags splitStack span) (Function.sound_declare ..)
  exact ⟨sound₃, (g₁.trans g₂).trans g₃⟩

@[grind ←] theorem steady_setParameters (func : FuncId) (params : List VarId) :
    Steady (setParameters func params) := by
  refine .ite (.pure _) <| .guard (.anyM obeys_isErrorVar) ?_
  intro c a c' sound run
  obtain ⟨f, found, run⟩ := getFunction_bind_ok run
  cases run
  exact sound_setFunction sound found { f with params } ⟨rfl, rfl, rfl, rfl⟩

end Codegen.Build
