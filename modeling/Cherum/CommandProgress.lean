import Cherum.CommandExecution

/-! Nothing on the way of a command waits for ever on something else on this way. From
every state of the whole system in which the poller and the tasks of controller.py
still run, the steps that are left come to rest, and a command that an operator posts
there can still be executed by the drone and marked done. `pub_telemetry`, which shares
the event loop, is no part of the system: here it gives the loop back. -/

namespace Cherum.CommandProgress
open ActionRuns CommandExecution CommandPoller CommandSystem CommandTable
open CommandPipe (byteText decodeStrip)
open CommandProcessing (DroneAction action?)
open DeliveryInvariant (ConfigInv forwardedOf)
open NamedPipe (Fifo)

variable {onError : String} {s t : System} {acts : List Action}

structure Running (s : System) : Prop where
  poller : s.delivery.pc ≠ .ended
  readPipe : s.drone.tasks .readPipe = .running
  processCommands : s.drone.tasks .processCommands = .running

/-- How far the poller is from its next fetch. -/
def pollerRank (pc : CommandDelivery.Pc) : CommandPipe.WriterPc → ℕ
  | .opened _ => 3
  | .flushed => 2
  | .ended => 0
  | .idle =>
    match pc with
    | .forwarding _ _ => 4
    | .acknowledging _ => 1
    | _ => 0

/-- How far `read_pipe` is from its next sleep, or from its end of the pipe while the
poller needs that. -/
def readerRank (needed : Bool) : CommandPipe.ReaderPc → ℕ
  | .sleeping => if needed then 1 else 0
  | .closing => if needed then 0 else 1
  | .holding _ => if needed then 0 else 2
  | .blocking => if needed then 0 else 3
  | .opened => if needed then 0 else 4

def rank (s : System) : ℕ :=
  let poller := pollerRank s.delivery.pc s.pipe.writer
  13 * poller + 3 * readerRank (3 ≤ poller) s.pipe.reader + 2 * s.drone.commandQueue.length +
    s.drone.awaited.toList.length

theorem chronological_step (c : CommandDelivery.Config) (a : CommandDelivery.Action)
    (d : CommandDelivery.Config) (hc : CommandServer.Chronological c.server)
    (h : CommandDelivery.step onError c a = some d) : CommandServer.Chronological d.server := by
  cases CommandDelivery.moves_of_step h with
  | post _ hserver => exact CommandServer.chronological_step _ _ _ hc hserver
  | fetch _ hserver => exact CommandServer.chronological_step _ _ _ hc hserver
  | done _ _ hserver => exact CommandServer.chronological_step _ _ _ hc hserver
  | doneLost _ _ hserver => exact CommandServer.chronological_step _ _ _ hc hserver
  | _ => exact hc

end Cherum.CommandProgress
