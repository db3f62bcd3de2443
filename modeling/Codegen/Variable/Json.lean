import Codegen.Inst.Json
import Codegen.Variable

/-!
Initial values of globals as JSON.
-/

namespace Codegen.GlobalInit

mutual

def toJson : GlobalInit → Json
  | .scalar c => .tag "Scalar" c.toJson
  | .aggregate members => .tag "Aggregate" (.arr (membersToJson members))

def membersToJson : List GlobalInit → List Json
  | [] => []
  | member :: rest => member.toJson :: membersToJson rest

end

end Codegen.GlobalInit
