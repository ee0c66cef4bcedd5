import EtherApe.BasicStats
import EtherApe.Capture
import EtherApe.Lib.Runs
import EtherApe.Lib.Timeouts

/-!
# Replay of a capture file

The model of `capture.c` for a capture file: the timer that reads the next packet, and the calls that
start, pause, stop and hurry it. GLib runs the destroy notify of a timeout that is removed or whose
function returns FALSE before it goes on. What `pcap_next_ex` returned and what was handed to
`packet_acquired` since the capture was opened is kept as a record, in which every packet has its
number, so that a packet handed over twice is not two equal packets.
-/

namespace EtherApe

/-- A packet as `pcap_next_ex` gives it: header and data. -/
structure PcapPacket where
  ts : Timeval
  caplen : Nat
  len : Nat
  data : Nat → UInt8

/-- What `pcap_next_ex` returns; at the end of the file and on an error it leaves its arguments. -/
inductive PcapResult
  | packet (p : PcapPacket)
  | endOfFile
  | error

def PcapResult.packet? : PcapResult → Option PcapPacket
  | packet p => some p
  | endOfFile => none
  | error => none

/-- A packet with its number in the capture. -/
abbrev Delivered := PcapPacket × Nat

def delivered (results : List PcapResult) : List Delivered :=
  (results.filterMap PcapResult.packet?).zipIdx

/-- The bounds for the distance of packets. -/
structure Delays where
  minDelay : Nat
  maxDelay : Nat
deriving DecidableEq, Repr

/-- The globals of `capture.c` and the statics of `get_offline_packet`, with the record. -/
structure Replay where
  captureStatus : Status
  captureSource : Nat
  msToNext : Nat
  pkt : Option Delivered
  lastReadTime : Timeval
  timeouts : Timeouts
  results : List PcapResult
  acquired : List Delivered

namespace Replay

def initial : Replay where
  captureStatus := .stop
  captureSource := 0
  msToNext := 0
  pkt := none
  lastReadTime := ⟨0, 0⟩
  timeouts := Timeouts.empty
  results := []
  acquired := []

/-! ### Timers -/

/-- `g_timeout_add_full` for `get_offline_packet`, with the id in `capture_source`. -/
def addTimeout (s : Replay) (interval : Nat) : Replay :=
  { s with
    captureSource := (s.timeouts.add interval).1
    timeouts := (s.timeouts.add interval).2 }

def capTODestroy (s : Replay) : Replay :=
  if s.captureStatus = .play then s.addTimeout s.msToNext else s

/-- Takes a timeout out and runs its destroy notify. -/
def destroyTimeout (s : Replay) (id : Nat) : Replay :=
  { s with timeouts := s.timeouts.remove id }.capTODestroy

/-- `g_source_remove`, which tells whether there was such a timeout. -/
def gSourceRemove (s : Replay) (id : Nat) : Bool × Replay :=
  if s.timeouts.Pending id then (true, s.destroyTimeout id) else (false, s)

/-! ### Packets -/

/-- Hands the packet that was read to `packet_acquired`. -/
def packetAcquired (s : Replay) : Replay :=
  { s with acquired := s.acquired ++ s.pkt.toList }

/-- The milliseconds to wait after a packet, as the conversion of a `double` truncates them. -/
def delayOf (delays : Delays) (diffms : ℚ) : Nat :=
  let msToNext := if diffms < 0 then 0 else diffms.floor.toNat
  if msToNext < delays.minDelay then delays.minDelay
  else if msToNext > delays.maxDelay then delays.maxDelay
  else msToNext

/-- What `get_offline_packet` does with the answer of `pcap_next_ex`. -/
def pcapNextEx (delays : Delays) (s : Replay) (result : PcapResult) : Replay :=
  let number := (delivered s.results).length
  let s : Replay := { s with results := s.results ++ [result] }
  match result with
  | .packet p =>
      let lastReadTime :=
        if s.lastReadTime.tvSec = 0 ∧ s.lastReadTime.tvUsec = 0 then p.ts else s.lastReadTime
      { s with
        pkt := some (p, number)
        msToNext := delayOf delays (substractTimesMs p.ts lastReadTime)
        lastReadTime := p.ts }
  | .endOfFile => { s with captureStatus := .capEof }
  | .error => { s with msToNext := 0 }

/-- The case of `get_offline_packet` for a capture that is stopped. -/
def clearStatics (s : Replay) : Replay :=
  { s with
    pkt := none
    lastReadTime := ⟨0, 0⟩ }

/-- `get_offline_packet`, which always returns FALSE. -/
def getOfflinePacket (delays : Delays) (s : Replay) (result : PcapResult) : Replay :=
  if s.captureStatus = .stop then s.clearStatics else s.packetAcquired.pcapNextEx delays result

/-! ### Control -/

def startCapture (s : Replay) : Replay :=
  if s.captureStatus = .play then s else { s.addTimeout 1 with captureStatus := .play }

def pauseCapture (s : Replay) : Replay :=
  if s.captureStatus ≠ .play then s
  else
    let (removed, s) := s.gSourceRemove s.captureSource
    if removed then { s with captureStatus := .pause } else s

/-- `stop_capture`, which ends the record of the capture. -/
def stopCapture (s : Replay) : Replay :=
  if s.captureStatus = .stop then s
  else
    { { s with captureStatus := .stop }.clearStatics with
      results := []
      acquired := [] }

def forceNextPacket (s : Replay) : Replay :=
  if s.msToNext > 20 then ({ s with msToNext := 0 }.gSourceRemove s.captureSource).2 else s

/-- What may happen to a replay; a timer fires with the answer `pcap_next_ex` gives if it is asked. -/
inductive Event
  | startCapture
  | pauseCapture
  | stopCapture
  | forceNextPacket
  | fire (id : Nat) (result : PcapResult)

/-- One event; only a timer that is pending fires. -/
def step (delays : Delays) (s : Replay) : Event → Option Replay
  | .startCapture => some s.startCapture
  | .pauseCapture => some s.pauseCapture
  | .stopCapture => some s.stopCapture
  | .forceNextPacket => some s.forceNextPacket
  | .fire id result =>
      if s.timeouts.Pending id then some ((s.getOfflinePacket delays result).destroyTimeout id)
      else none

/-- Replays of capture files, one after the other. -/
def machine (delays : Delays) : Machine Replay Event := ⟨initial, step delays⟩

end Replay

end EtherApe
