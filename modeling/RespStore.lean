import RespStore.Client.Connection
import RespStore.Console.Session
import RespStore.Main
import RespStore.Options.LogLevel
import RespStore.Options.Programs
import RespStore.Text.Lines
import RespStore.Proofs.Client.Calls
import RespStore.Proofs.Client.Conversation
import RespStore.Proofs.Command.Answer
import RespStore.Proofs.Command.Batches
import RespStore.Proofs.Command.Countdown
import RespStore.Proofs.Command.Deadlines
import RespStore.Proofs.Command.Failure
import RespStore.Proofs.Command.Fields
import RespStore.Proofs.Command.Frame
import RespStore.Proofs.Command.Interchange
import RespStore.Proofs.Command.Listing
import RespStore.Proofs.Command.Names
import RespStore.Proofs.Command.Pushes
import RespStore.Proofs.Command.Refusals
import RespStore.Proofs.Command.Sweeps
import RespStore.Proofs.Command.Views
import RespStore.Proofs.Console.Alignment
import RespStore.Proofs.Server.Accounting
import RespStore.Proofs.Server.Independence
import RespStore.Proofs.Server.Lifecycle
import RespStore.Proofs.Server.Notice
import RespStore.Proofs.Wire.Backlog
import RespStore.Proofs.Wire.Delivery
import RespStore.Proofs.Wire.Grammar
import RespStore.Proofs.Wire.LongLine
import RespStore.Proofs.Wire.Pipeline
import RespStore.Proofs.Wire.ReplyCuts
