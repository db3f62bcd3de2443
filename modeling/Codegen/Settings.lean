import Codegen.Text.Blank
import Codegen.Types.Target

/-!
Settings of a compilation, and how two switches of the environment change the default ones.
-/

namespace Codegen

structure Settings where
  /-- Check every tree for sharing before it is lowered. -/
  integrityChecks : Bool
  target : Target
  /-- Log every tree before it is lowered. -/
  dumpTrees : Bool
  deriving DecidableEq, Repr

namespace Settings

def standard : Settings := ⟨true, .standard, false⟩

instance : Inhabited Settings := ⟨standard⟩

/-- What a word says a switch should be. Case does not count, nor do blanks around it. -/
def readSwitch? (word : String) : Option Bool :=
  let word := (Text.trim word).map Char.toLower
  if word ∈ ["1", "true", "on", "yes"] then some true
  else if word ∈ ["0", "false", "off", "no"] then some false
  else none

/-- The default settings, changed by the values of two switches, where they are set. A word that
says nothing keeps the default; any value at all turns logging of trees on. -/
def ofSwitches (integrity dump : Option String) : Settings :=
  { standard with
    integrityChecks := (integrity.bind readSwitch?).getD standard.integrityChecks
    dumpTrees := dump.isSome }

end Settings

end Codegen
