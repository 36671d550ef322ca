import Rehearsal.Execution.Broker
import Rehearsal.Execution.Http

/-!
Running a step against the world, whatever its kind.
-/

namespace Rehearsal.World

def run (w : World) (settings : Settings) : Step → Except Fault StepResult × World
  | .http step => w.runHttp settings step
  | .produce step => w.runProduce settings step
  | .consume step => w.runConsume settings step
  | .batchProduce step => w.runBatchProduce settings step
  | .batchConsume step => w.runBatchConsume settings step

end Rehearsal.World
