import Cyptos.Riscv.Word
import Cyptos.Riscv.Napot
import Cyptos.Riscv.Pmp
import Cyptos.Riscv.Hart
import Cyptos.Kernel.Config
import Cyptos.Kernel.Serial
import Cyptos.Kernel.Timer
import Cyptos.Kernel.Frame
import Cyptos.Kernel.Pmp
import Cyptos.Kernel.Allocator
import Cyptos.Kernel.Policy
import Cyptos.Kernel.Scheduler
import Cyptos.Kernel.Spec
import Cyptos.Kernel.Trap
import Cyptos.Kernel.Boot
import Cyptos.Kernel.Board
import Cyptos.Logic.Driver
import Cyptos.Logic.Regions
import Cyptos.Logic.Rights
import Cyptos.Logic.Switch
import Cyptos.Logic.Table
import Cyptos.Logic.Trap
import Cyptos.Logic.Spawn
import Cyptos.Logic.Step
import Cyptos.Logic.System
import Cyptos.Logic.Isolation
import Cyptos.Logic.Entry
import Cyptos.Logic.History
import Cyptos.Logic.Privilege
import Cyptos.Logic.Containment
import Cyptos.Logic.Lock
import Cyptos.Logic.Init
import Cyptos.Logic.Builder
import Cyptos.Logic.Fairness
import Cyptos.Logic.Transparent
import Cyptos.Logic.Interleaving
import Cyptos.Logic.Stacks
import Cyptos.Kernel.IrqCell
import Cyptos.Logic.Critical
import Cyptos.Kernel.Echo
import Cyptos.Logic.Console
import Cyptos.Logic.Echo
import Cyptos.Logic.Encoding
import Cyptos.Logic.Loading
import Cyptos.Logic.Numerals
import Cyptos.Logic.ContextSwitch
import Cyptos.Logic.Linearization
import Cyptos.Logic.Ticks
import Cyptos.Logic.Waiting
import Cyptos.Logic.Sharing
import Cyptos.Kernel.Uart16550
import Cyptos.Logic.Uart16550
import Cyptos.Riscv.Checked
import Cyptos.Kernel.Protected
import Cyptos.Logic.Protected
import Cyptos.Kernel.Main
import Cyptos.Logic.Transcript
import Cyptos.Logic.Main
import Cyptos.Logic.Saved
import Cyptos.Kernel.Start
import Cyptos.Logic.Start
import Cyptos.Kernel.Violation
import Cyptos.Logic.Violation
import Cyptos.Logic.Shares
