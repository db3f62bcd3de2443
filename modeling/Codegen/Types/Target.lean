/-!
What layout depends on besides the type.
-/

namespace Codegen

/-- Sizes and alignments of a target machine, in bytes. -/
structure Target where
  pointerSize : Nat
  pointerAlign : Nat
  /-- No integer is aligned to more than this. -/
  maxIntAlign : Nat
  deriving DecidableEq, Repr

/-- A 64-bit machine. -/
def Target.standard : Target := ⟨8, 8, 16⟩

instance : Inhabited Target := ⟨Target.standard⟩

end Codegen
