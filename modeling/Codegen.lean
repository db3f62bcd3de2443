import Codegen.Body.Json
import Codegen.Compilation.Functions
import Codegen.Compilation.Types
import Codegen.Json.Reader
import Codegen.Json.Writer
import Codegen.Proofs.Body.Neighbours
import Codegen.Proofs.Compilation.Operands
import Codegen.Proofs.Compilation.Placing
import Codegen.Proofs.Evaluation.Correctness
import Codegen.Proofs.Evaluation.Initializers
import Codegen.Proofs.Evaluation.Settling
import Codegen.Proofs.Lowering.Exits
import Codegen.Proofs.Lowering.Graph
import Codegen.Proofs.Lowering.Lays
import Codegen.Proofs.Lowering.Open
import Codegen.Proofs.Lowering.Progress
import Codegen.Proofs.Naming
import Codegen.Proofs.Requests.Addresses
import Codegen.Proofs.Requests.Arrays
import Codegen.Proofs.Requests.Assembly
import Codegen.Proofs.Requests.Editing
import Codegen.Proofs.Requests.Integers
import Codegen.Proofs.Requests.Returns
import Codegen.Proofs.Requests.Switches
import Codegen.Proofs.Requests.Tolerance
import Codegen.Proofs.Tree.Extent
import Codegen.Proofs.Tree.Shape
import Codegen.Proofs.Tree.Sharing
import Codegen.Proofs.Types.Building
import Codegen.Proofs.Types.Natural
import Codegen.Proofs.Types.Rendering
import Codegen.Types.Flags
import Codegen.Variable.Json
