import PamoRxpBench.Library.Custody
import PamoRxpBench.RegexTest.Stats

/-!
# `regex-test`: the packet loop of a worker

`worker_rx_pkts` of `regex-test.c`, one iteration of its `while (!force_quit)` loop as a
function `iteration` of the worker's state and of what the DPDK, Hyperscan and timestamp
calls of that iteration return (a `Turn`). `none` is `rte_panic`.

The C code never names who owns an mbuf, so the state carries three ghost components next
to the program's variables: the mbufs received so far, the mbufs the regex device holds, and
the log of every hand-over between the driver, the worker, the device, the mbuf pool and the
wire. The log is written where the code makes the call, from the arrays the call is given.

`DpdkContract` is what the calls promise, and `Reachable` the states at the ends of
iterations of runs of any length under that contract.
-/

namespace PamoRxpBench
namespace RegexTest

open Custody

/-- Who holds an mbuf. Which port a transmitted mbuf leaves by makes no difference to its
ownership and is not recorded. -/
inductive Holder
  | nic
  | worker
  | device
  | pool
  | wire
deriving DecidableEq, Repr

/-- The engine settings `main` lets through: it panics when both engines are enabled. -/
inductive Engine
  | none
  | hyperscan
  | regex
deriving DecidableEq, Repr

/-- What the worker reads and writes in a packet: the Ethernet addresses, and `tx_offload`,
which it uses as a timestamp. -/
structure PktData where
  srcAddr : List UInt8
  dstAddr : List UInt8
  txOffload : UInt64
deriving DecidableEq, Repr

/-- `struct rte_regex_ops`, the fields the worker uses. -/
structure RegexOp (M : Type) where
  mbuf : Option M
  userPtr : Option M
  groupId0 : ℕ
  reqFlags : ℕ
  nbMatches : ℕ
deriving DecidableEq, Repr

/-- A zeroed op, as `regexdev_allocate_ops` leaves it. -/
def RegexOp.zero (M : Type) : RegexOp M := ⟨none, none, 0, 0, 0⟩

/-! ## What the calls of one iteration return -/

/-- `hs_scan` on one packet: success, the two timestamps around it, `ctx.match_count`. -/
structure Scan where
  success : Bool
  t1 : UInt64
  t2 : UInt64
  matchCount : ℕ
deriving DecidableEq, Repr

/-- One received packet, with the timestamp the worker will put on it and, for Hyperscan,
the result of scanning it. -/
structure RxPkt (M : Type) where
  mbuf : M
  srcAddr : List UInt8
  dstAddr : List UInt8
  stamp : UInt64
  scan : Scan
deriving DecidableEq, Repr

/-- One completed op, with the timestamp taken when the worker reads it. -/
structure Completion (M : Type) where
  userPtr : M
  nbMatches : ℕ
  tsc : UInt64
deriving DecidableEq, Repr

/-- Everything the outside world returns to one iteration: the received burst, how many ops
were enqueued, the dequeued burst, and how many packets `rte_eth_tx_burst` took. -/
structure Turn (M : Type) where
  loopStartTs : UInt64
  rx : List (RxPkt M)
  rgxEnqd : ℕ
  rgxDqd : List (Completion M)
  nbTx : ℕ
  loopEndTs : UInt64
deriving DecidableEq, Repr

/-- The mbufs of the received burst, in order: `pkts_burst`. -/
def Turn.pktsBurst {M : Type} (t : Turn M) : List M := t.rx.map RxPkt.mbuf

/-- The `user_ptr`s of the dequeued burst, in order. -/
def Turn.returned {M : Type} (t : Turn M) : List M := t.rgxDqd.map Completion.userPtr

/-! ## The worker -/

/-- The state of a worker between two iterations. `received`, `inFlight` and `log` are
ghosts: no branch reads them. -/
structure Worker (args : AppArgs) (M : Type) where
  ops : List (RegexOp M)
  group0Selector : ℕ
  mem : M → PktData
  stats : StatsArray args.rgxStatsHistogramBucketCnt
  hsStats : HsStats
  lcoreStats : LcoreStats
  received : List M
  inFlight : List M
  log : List (Transfer M Holder)

variable {M : Type} [DecidableEq M] {args : AppArgs}

/-- The state before the first iteration. -/
def Worker.init (args : AppArgs) (mem : M → PktData) : Worker args M where
  ops := List.replicate args.portBurstSize (RegexOp.zero M)
  group0Selector := 1
  mem := mem
  stats := StatsArray.init _
  hsStats := ⟨0, 0, 0, 0⟩
  lcoreStats := ⟨0, 0⟩
  received := []
  inFlight := []
  log := []

/-- `forward_or_free_pkts`: transmit what the port takes and free the rest, or free all. -/
def forwardOrFreePkts (args : AppArgs) (pktsBurst : List M) (nbTx : ℕ) :
    List (Transfer M Holder) :=
  if args.forwardingMode > 0 then
    moves .worker .wire (pktsBurst.take nbTx) ++ moves .worker .pool (pktsBurst.drop nbTx)
  else
    moves .worker .pool pktsBurst

/-- `update_cycles_counts`. -/
def updateCyclesCounts (wasted : Bool) (loopStartTs loopEndTs : UInt64) (s : LcoreStats) :
    LcoreStats :=
  if wasted then { s with wastedCycles := s.wastedCycles + (loopEndTs - loopStartTs) }
  else { s with usefulCycles := s.usefulCycles + (loopEndTs - loopStartTs) }

/-- `rte_eth_rx_burst`: the packets are in memory and with the worker. -/
def Worker.receive (w : Worker args M) (t : Turn M) : Worker args M :=
  { w with
    mem := t.rx.foldl
      (fun mem p => Function.update mem p.mbuf ⟨p.srcAddr, p.dstAddr, 0⟩) w.mem
    received := w.received ++ t.pktsBurst
    log := w.log ++ moves .nic .worker t.pktsBurst }

def desiredSrcMac : List UInt8 := [0x6C, 0xB3, 0x11, 0x21, 0xAD, 0xB1]

def desiredDstMac : List UInt8 := [0x00, 0x00, 0x00, 0x00, 0x00, 0x00]

/-- Swap the MAC addresses of a packet that carries the two desired ones. -/
def swapMac (d : PktData) : PktData :=
  if d.srcAddr = desiredSrcMac ∧ d.dstAddr = desiredDstMac then
    { d with srcAddr := d.dstAddr, dstAddr := d.srcAddr }
  else d

/-! ## Hyperscan -/

/-- The Hyperscan block of the packet loop: the statistics after one `hs_scan`. -/
def hsScanPkt (ticksPerUs : UInt64) (s : HsStats) (r : Scan) : Option HsStats :=
  let counted :=
    if r.success then
      if ticksPerUs = 0 then none
      else some { s with
        totalScansCycles := s.totalScansCycles + (r.t2 - r.t1)
        totalScansUs := s.totalScansUs + (r.t2 - r.t1) / ticksPerUs
        totalScans := s.totalScans + 1 }
    else some s
  counted.map fun s =>
    if r.matchCount > 0 then { s with totalMatches := s.totalMatches + UInt64.ofNat r.matchCount }
    else s

/-- The packet loop with Hyperscan. -/
def hsScanBurst (ticksPerUs : UInt64) : HsStats → List (RxPkt M) → Option HsStats
  | s, [] => some s
  | s, p :: ps => (hsScanPkt ticksPerUs s p.scan).bind fun s => hsScanBurst ticksPerUs s ps

/-! ## The regex device -/

/-- The group the next op queries. -/
def opGroupId0 (args : AppArgs) (selector : ℕ) : ℕ :=
  if args.rgxSubsetCnt > 1 then selector % 2 ^ 16 else 1

/-- `group0_selector` after one op. -/
def nextSelector (args : AppArgs) (selector : ℕ) : ℕ :=
  if args.rgxSubsetCnt > 1 then
    -- the groups are numbered from 1 on
    if selector + 1 > args.rgxSubsetCnt then 1 else selector + 1
  else selector

/-- The packet loop with the regex device: `ops[i]` is pointed at `pkts_burst[i]`. The
burst is never longer than the array. -/
def prepareOps (args : AppArgs) :
    List (RegexOp M) → List (RxPkt M) → ℕ → List (RegexOp M) × ℕ
  | op :: ops, p :: ps, selector =>
    let rest := prepareOps args ops ps (nextSelector args selector)
    ({ op with
        mbuf := some p.mbuf
        userPtr := some p.mbuf
        groupId0 := opGroupId0 args selector
        reqFlags := op.reqFlags ||| args.rgxNumOfMatchMode } :: rest.1, rest.2)
  | ops, _, selector => (ops, selector)

/-- The packets after the packet loop: addresses swapped, and stamped for the device. -/
def prepareMem (mem : M → PktData) (rx : List (RxPkt M)) : M → PktData :=
  rx.foldl (fun mem p =>
    Function.update mem p.mbuf { swapMac (mem p.mbuf) with txOffload := p.stamp }) mem

/-- The packets after the packet loop with Hyperscan: addresses swapped. -/
def swapBurst (mem : M → PktData) (rx : List (RxPkt M)) : M → PktData :=
  rx.foldl (fun mem p => Function.update mem p.mbuf (swapMac (mem p.mbuf))) mem

/-- Prepare the burst and enqueue it. The device copies the ops it accepts, a prefix of the
array; what it did not accept is freed. -/
def Worker.rgxEnqueue (w : Worker args M) (t : Turn M) : Worker args M :=
  let prepared := prepareOps args w.ops t.rx w.group0Selector
  let accepted := (prepared.1.take t.rgxEnqd).filterMap RegexOp.userPtr
  { w with
    ops := prepared.1
    group0Selector := prepared.2
    mem := prepareMem w.mem t.rx
    stats := w.stats.writes (enqueueWrites args t.rgxEnqd)
    inFlight := w.inFlight ++ accepted
    log := w.log ++ moves .worker .device accepted
      ++ moves .worker .pool (t.pktsBurst.drop t.rgxEnqd) }

/-- `rte_regexdev_dequeue_burst` fills the first entries of the array it is given: the rest
still holds what the last enqueue left there. -/
def fillOps : List (RegexOp M) → List (Completion M) → List (RegexOp M)
  | op :: ops, c :: cs =>
    { op with userPtr := some c.userPtr, nbMatches := c.nbMatches } :: fillOps ops cs
  | ops, _ => ops

/-- The dequeue loop over `ops[0 .. rgx_dqd)`: the packet of each op, and what is credited
for it. It panics on a missing packet, an unstamped packet and a zero tick rate. -/
def readOps (ticksPerUs : UInt64) (mem : M → PktData) :
    List (RegexOp M) → List (Completion M) → Option (List (M × Dequeued))
  | op :: ops, c :: cs =>
    if ticksPerUs = 0 then none
    else match op.userPtr with
      | none => none
      | some p =>
        -- the stamp of the packet: zero would mean that it never went to the device
        if (mem p).txOffload = 0 then none
        else (readOps ticksPerUs mem ops cs).map fun rest =>
          (p, ⟨UInt64.ofNat op.nbMatches, c.tsc - (mem p).txOffload⟩) :: rest
  | _, _ => some []

/-- Dequeue a burst, account for it and forward or free it. -/
def Worker.rgxDequeue (ticksPerUs : UInt64) (w : Worker args M) (t : Turn M) :
    Option (Worker args M) :=
  if t.rgxDqd.length > 0 then
    let ops := fillOps w.ops t.rgxDqd
    (readOps ticksPerUs w.mem ops t.rgxDqd).map fun pkts =>
      { w with
        ops := ops
        stats := w.stats.writes (dequeueWrites args ticksPerUs (pkts.map Prod.snd))
        inFlight := w.inFlight.diff t.returned
        log := w.log ++ moves .device .worker t.returned
          ++ forwardOrFreePkts args (pkts.map Prod.fst) t.nbTx }
  else some w

/-! ## One iteration -/

/-- The state in which the regex engine reaches its dequeue. -/
def Worker.afterEnqueue (w : Worker args M) (t : Turn M) : Worker args M :=
  if t.rx.length > 0 then (w.receive t).rgxEnqueue t else w.receive t

/-- The body of the loop up to `continue_loop`. -/
def Worker.body (ticksPerUs : UInt64) (engine : Engine) (w : Worker args M) (t : Turn M) :
    Option (Worker args M) :=
  match engine with
  | .none =>
    let w := w.receive t
    some { w with log := w.log ++ forwardOrFreePkts args t.pktsBurst t.nbTx }
  | .hyperscan =>
    let w := w.receive t
    (hsScanBurst ticksPerUs w.hsStats t.rx).map fun hsStats =>
      { w with
        mem := swapBurst w.mem t.rx
        hsStats := hsStats
        log := w.log ++ forwardOrFreePkts args t.pktsBurst t.nbTx }
  | .regex => (w.afterEnqueue t).rgxDequeue ticksPerUs t

/-- Nothing was received and, with the regex device, nothing was dequeued. -/
def loopWasted (engine : Engine) (t : Turn M) : Bool :=
  t.rx.isEmpty && (engine != .regex || t.rgxDqd.isEmpty)

/-- One iteration of `while (!force_quit)`. -/
def Worker.iteration (ticksPerUs : UInt64) (engine : Engine) (w : Worker args M)
    (t : Turn M) : Option (Worker args M) :=
  (w.body ticksPerUs engine t).map fun w =>
    { w with lcoreStats :=
        updateCyclesCounts (loopWasted engine t) t.loopStartTs t.loopEndTs w.lcoreStats }

/-! ## The environment -/

/-- What the DPDK calls promise about the values they return to one iteration. -/
structure DpdkContract (engine : Engine) (w : Worker args M) (t : Turn M) : Prop where
  rx_le : t.rx.length ≤ args.portBurstSize
  rx_distinct : t.pktsBurst.Nodup
  rx_fresh : ∀ m ∈ t.pktsBurst, m ∉ w.received
  enqd_le : t.rgxEnqd ≤ t.rx.length
  dqd_le : t.rgxDqd.length ≤ args.portBurstSize
  /-- The dequeued ops are distinct accepted ones that were not returned yet, in any order. -/
  dqd_inFlight : engine = .regex → t.returned.Subperm (w.afterEnqueue t).inFlight
  tx_le : t.nbTx ≤ if engine = .regex then t.rgxDqd.length else t.rx.length

/-- The states at the ends of iterations, over every run under the contract. -/
inductive Reachable (ticksPerUs : UInt64) (engine : Engine) : Worker args M → Prop
  | init (mem : M → PktData) : Reachable ticksPerUs engine (Worker.init args mem)
  | step {w w' : Worker args M} {t : Turn M} (hw : Reachable ticksPerUs engine w)
      (ht : DpdkContract engine w t) (hstep : w.iteration ticksPerUs engine t = some w') :
      Reachable ticksPerUs engine w'

end RegexTest
end PamoRxpBench
