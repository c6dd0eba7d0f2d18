import Flux.Fs.PathKey
import Flux.Fs.Types

namespace Flux.Run

open Base

inductive RunWarning where
  | notRemoved (path : Path) (error : FsError)
  | partialKept (path : Path) (error : FsError) (kept : Path)
  | dryRunLockTakeover (why : String)
  | dryRunLockRecord (operationId ownerInstanceId bootSessionId : Text) (heartbeatAgeSecs : Option UInt64)
    (workspacePath : Text)
  deriving DecidableEq, Repr

end Flux.Run
