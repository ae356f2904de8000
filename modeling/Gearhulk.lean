import Gearhulk.Runtime
import Gearhulk.Worker.InPack
import Gearhulk.Worker.Payload
import Gearhulk.Worker.Registration
import Gearhulk.Worker.Exec
import Gearhulk.Worker.Concurrency
import Gearhulk.Cmd.Scanner
import Gearhulk.Cmd.Subprocess
import Gearhulk.Cmd.Client
import Gearhulk.Cmd.Pipes
import Gearhulk.Cmd.EofMode
import Gearhulk.Cmd.PersistentMode
import Gearhulk.Cmd.PersistentRuns
