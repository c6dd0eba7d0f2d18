import Flux.Checkpoint.Ended
import Flux.Checkpoint.Readable
import Flux.Copy.Discipline
import Flux.Copy.Resume
import Flux.Copy.Staged
import Flux.Lock.Cause
import Flux.Lock.Preview
import Flux.Lock.Torn
import Flux.Names.Same
import Flux.Run.Completed
import Flux.Run.FoldProbe
import Flux.Scratch.Fresh
import Flux.Scratch.Served
import Flux.Spill.Wide
import Flux.State.Canonical
import Flux.State.Written
import Flux.Verify.Display
import Flux.Verify.Exact
import Flux.Wal.Damage
import Flux.Wal.Fold
import Flux.Wal.Recovery
import Flux.Wal.Strict
import Flux.Walk.Cycle
import Flux.Walk.Exact
