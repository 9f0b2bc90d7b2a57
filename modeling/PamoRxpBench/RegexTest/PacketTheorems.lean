import PamoRxpBench.Library.Memory
import PamoRxpBench.RegexTest.ShutdownTheorems

/-!
# What a worker leaves in the packets

Over a whole run the worker writes to a packet only while it prepares the burst that brought it:
the addresses are swapped at most once, and the stamp stays until the packet comes back from the
device (`workerRxPkts_delivers`). So the loop panics exactly where it would divide by a tick rate
of zero or reads back a stamp that was zero (`workerRxPkts_panics_iff`), and the round trip times
of the statistics are measured from the packet's own stamp (`workerRxPkts_roundTrips`).
-/

namespace PamoRxpBench
namespace RegexTest

open Custody Runs

variable {M : Type} [DecidableEq M] {args : AppArgs}

/-- What the packet loop makes of a packet that holds `d`. -/
def RxPkt.prepared (engine : Engine) (p : RxPkt M) (d : PktData) : PktData :=
  match engine with
  | .none => d
  | .hyperscan => swapMac d
  | .regex => { swapMac d with txOffload := p.stamp }

/-- What a packet holds once its burst was prepared. -/
def RxPkt.delivered (engine : Engine) (p : RxPkt M) : PktData :=
  p.prepared engine ⟨p.srcAddr, p.dstAddr, 0⟩

/-! ## The memory after one iteration -/

/-- `rte_eth_rx_burst`. -/
theorem receive_mem (w : Worker args M) (t : Turn M) :
    (w.receive t).mem = Memory.rewrite RxPkt.mbuf (fun p _ => ⟨p.srcAddr, p.dstAddr, 0⟩) w.mem
      t.rx := rfl

theorem receive_mem_of_mem (w : Worker args M) {t : Turn M} (hrx : t.pktsBurst.Nodup)
    {p : RxPkt M} (hp : p ∈ t.rx) : (w.receive t).mem p.mbuf = ⟨p.srcAddr, p.dstAddr, 0⟩ := by
  rw [receive_mem]
  exact Memory.rewrite_of_mem RxPkt.mbuf (fun p _ => ⟨p.srcAddr, p.dstAddr, 0⟩) w.mem hrx hp

theorem receive_mem_of_notMem (w : Worker args M) {t : Turn M} {m : M} (hm : m ∉ t.pktsBurst) :
    (w.receive t).mem m = w.mem m := by
  rw [receive_mem]
  exact Memory.rewrite_of_notMem RxPkt.mbuf _ w.mem hm

omit [DecidableEq M] in
theorem mem_pktsBurst {t : Turn M} {p : RxPkt M} (hp : p ∈ t.rx) : p.mbuf ∈ t.pktsBurst :=
  List.mem_map_of_mem hp

/-- The memory when the regex engine reaches its dequeue. -/
theorem afterEnqueue_mem (w : Worker args M) (t : Turn M) :
    (w.afterEnqueue t).mem =
      Memory.rewrite RxPkt.mbuf (RxPkt.prepared .regex) (w.receive t).mem t.rx := by
  unfold Worker.afterEnqueue
  by_cases hrx : t.rx.length > 0
  · rw [if_pos hrx]
    rfl
  · have hnil : t.rx = [] := List.eq_nil_of_length_eq_zero (by omega)
    rw [if_neg hrx, hnil]
    rfl

/-- Dequeuing reads packets and changes none. -/
theorem rgxDequeue_mem {ticksPerUs : UInt64} {w w' : Worker args M} {t : Turn M}
    (h : w.rgxDequeue ticksPerUs t = some w') : w'.mem = w.mem ∧ w'.received = w.received := by
  unfold Worker.rgxDequeue at h
  by_cases hdqd : t.rgxDqd.length > 0
  · rw [if_pos hdqd] at h
    obtain ⟨pkts, _, rfl⟩ := Option.map_eq_some_iff.mp h
    exact ⟨rfl, rfl⟩
  · rw [if_neg hdqd] at h
    rw [← Option.some.inj h]
    exact ⟨rfl, rfl⟩

theorem afterEnqueue_received (w : Worker args M) (t : Turn M) :
    (w.afterEnqueue t).received = w.received ++ t.pktsBurst := by
  unfold Worker.afterEnqueue
  split <;> rfl

/-- The packet loop as one pass over the memory, whichever engine is enabled. -/
theorem iteration_mem {ticksPerUs : UInt64} {engine : Engine} {w w' : Worker args M} {t : Turn M}
    (h : w.iteration ticksPerUs engine t = some w') :
    w'.received = w.received ++ t.pktsBurst ∧
      w'.mem = Memory.rewrite RxPkt.mbuf (RxPkt.prepared engine) (w.receive t).mem t.rx := by
  obtain ⟨v, hv, rfl⟩ := Option.map_eq_some_iff.mp h
  show v.received = _ ∧ v.mem = _
  cases engine with
  | none =>
    rw [← Option.some.inj hv]
    exact ⟨rfl, (Memory.rewrite_id RxPkt.mbuf _ _).symm⟩
  | hyperscan =>
    obtain ⟨hsStats, _, rfl⟩ := Option.map_eq_some_iff.mp hv
    exact ⟨rfl, rfl⟩
  | regex =>
    obtain ⟨hmem, hreceived⟩ := rgxDequeue_mem hv
    rw [hmem, hreceived, afterEnqueue_mem, afterEnqueue_received]
    exact ⟨rfl, rfl⟩

/-! ## The memory over a run -/

/-- What holds after the turns `ts`. -/
structure Delivered (engine : Engine) (ts : List (Turn M)) (w : Worker args M) : Prop where
  inv : Inv w
  received : w.received = ts.flatMap Turn.pktsBurst
  mem : ∀ t ∈ ts, ∀ p ∈ t.rx, w.mem p.mbuf = p.delivered engine

theorem Delivered.init (engine : Engine) (mem : M → PktData) :
    Delivered engine [] (Worker.init args mem) where
  inv := Inv.init mem
  received := rfl
  mem := fun _ ht => absurd ht List.not_mem_nil

theorem Delivered.mem_received {engine : Engine} {ts : List (Turn M)} {w : Worker args M}
    (h : Delivered engine ts w) {t : Turn M} (ht : t ∈ ts) {p : RxPkt M} (hp : p ∈ t.rx) :
    p.mbuf ∈ w.received := by
  rw [h.received]
  exact List.mem_flatMap.mpr ⟨t, ht, mem_pktsBurst hp⟩

/-- A burst is received and prepared. -/
theorem Delivered.extend {engine : Engine} {ts : List (Turn M)} {w v : Worker args M} {t : Turn M}
    (h : Delivered engine ts w) (ht : DpdkContract engine w t) (hinv : Inv v)
    (hreceived : v.received = w.received ++ t.pktsBurst)
    (hmem : v.mem = Memory.rewrite RxPkt.mbuf (RxPkt.prepared engine) (w.receive t).mem t.rx) :
    Delivered engine (ts ++ [t]) v := by
  refine ⟨hinv, ?_, ?_⟩
  · rw [hreceived, h.received, List.flatMap_append, List.flatMap_singleton]
  · intro u hu p hp
    rw [hmem]
    rcases List.mem_append.mp hu with hu | hu
    · -- an mbuf that was received before is not in the new burst
      have hfresh : p.mbuf ∉ t.pktsBurst := fun hm => ht.rx_fresh _ hm (h.mem_received hu hp)
      rw [Memory.rewrite_of_notMem _ _ _ hfresh, receive_mem_of_notMem w hfresh]
      exact h.mem u hu p hp
    · rw [List.mem_singleton.mp hu] at hp
      rw [Memory.rewrite_of_mem _ _ _ ht.rx_distinct hp, receive_mem_of_mem w ht.rx_distinct hp]
      rfl

theorem Delivered.iteration {ticksPerUs : UInt64} {engine : Engine} {ts : List (Turn M)}
    {w w' : Worker args M} {t : Turn M} (h : Delivered engine ts w)
    (ht : DpdkContract engine w t) (hstep : w.iteration ticksPerUs engine t = some w') :
    Delivered engine (ts ++ [t]) w' :=
  h.extend ht (h.inv.iteration ht hstep) (iteration_mem hstep).1 (iteration_mem hstep).2

theorem Delivered.of_run {ticksPerUs : UInt64} {engine : Engine} {mem : M → PktData}
    {ts : List (Turn M)} {w : Worker args M}
    (hts : Meets (Worker.iteration ticksPerUs engine) (DpdkContract engine)
      (Worker.init args mem) ts)
    (h : run (Worker.iteration ticksPerUs engine) (Worker.init args mem) ts = some w) :
    Delivered engine ts w :=
  run_history_of_meets (fun _ _ _ _ hw ht hstep => hw.iteration ht hstep)
    (Delivered.init engine mem) hts h

/-- Two packets go to the device, and the second comes back one turn later. -/
def twoTurns : List (Turn ℕ) :=
  [⟨0, [⟨1, desiredSrcMac, desiredDstMac, 7, ⟨true, 0, 0, 0⟩⟩, ⟨2, [], [], 8, ⟨true, 0, 0, 0⟩⟩],
      2, [], 0, 0⟩,
    ⟨0, [], 0, [⟨2, 3, 20⟩], 1, 0⟩]

/-- The regex engine with forwarding. -/
def twoTurnsArgs : AppArgs := ⟨true, false, true, 1, 4, 1, 64, 1⟩

/-- The worker that takes them. -/
def twoTurnsWorker : Worker twoTurnsArgs ℕ := Worker.init _ fun _ => ⟨[], [], 0⟩

theorem twoTurns_meets :
    Meets (Worker.iteration 1 .regex) (DpdkContract .regex) twoTurnsWorker twoTurns := by
  refine ⟨?_, fun v hv => ⟨?_, fun _ _ => trivial⟩⟩
  · exact ⟨by decide, by decide, by decide, by decide, by decide, fun _ => by decide, by decide⟩
  · rw [← Option.some.inj hv]
    exact ⟨by decide, by decide, by decide, by decide, by decide, fun _ => by decide, by decide⟩

/-- **Packets are rewritten once.** After every run, with every engine, each packet received so far
holds the addresses it came with, swapped exactly if an engine is enabled and they are the desired
pair; and with the regex device also the stamp it was given, whatever was received, enqueued and
dequeued after it. -/
theorem workerRxPkts_delivers {ticksPerUs : UInt64} {engine : Engine} {mem : M → PktData}
    {ts : List (Turn M)} {w : Worker args M}
    (hts : Meets (Worker.iteration ticksPerUs engine) (DpdkContract engine)
      (Worker.init args mem) ts)
    (h : run (Worker.iteration ticksPerUs engine) (Worker.init args mem) ts = some w) :
    ∀ t ∈ ts, ∀ p ∈ t.rx, w.mem p.mbuf = p.delivered engine :=
  (Delivered.of_run hts h).mem

theorem workerRxPkts_delivers_twoTurns :
    ∃ w, run (Worker.iteration 1 .regex) twoTurnsWorker twoTurns = some w ∧
      ∀ t ∈ twoTurns, ∀ p ∈ t.rx, w.mem p.mbuf = p.delivered .regex :=
  ⟨_, rfl, workerRxPkts_delivers twoTurns_meets rfl⟩

/-! ## Panics -/

/-- The division by the tick rate is the only cause of a panic, and only a scan that succeeds gets
to it. -/
theorem hsScanPkt_eq_none_iff (ticksPerUs : UInt64) (s : HsStats) (r : Scan) :
    hsScanPkt ticksPerUs s r = none ↔ ticksPerUs = 0 ∧ r.success = true := by
  unfold hsScanPkt
  rw [Option.map_eq_none_iff]
  by_cases hsuccess : r.success = true
  · rw [if_pos hsuccess]
    by_cases hticks : ticksPerUs = 0
    · rw [if_pos hticks]
      exact ⟨fun _ => ⟨hticks, hsuccess⟩, fun _ => rfl⟩
    · rw [if_neg hticks]
      exact ⟨fun h => absurd h (Option.some_ne_none _), fun h => absurd h.1 hticks⟩
  · rw [if_neg hsuccess]
    exact ⟨fun h => absurd h (Option.some_ne_none _), fun h => absurd h.2 hsuccess⟩

omit [DecidableEq M] in
/-- So it is for a burst. -/
theorem hsScanBurst_eq_none_iff (ticksPerUs : UInt64) (s : HsStats) (rx : List (RxPkt M)) :
    hsScanBurst ticksPerUs s rx = none ↔ ticksPerUs = 0 ∧ ∃ p ∈ rx, p.scan.success = true := by
  induction rx generalizing s with
  | nil =>
    refine ⟨fun h => absurd h (Option.some_ne_none _), fun h => ?_⟩
    obtain ⟨-, p, hp, -⟩ := h
    cases hp
  | cons p ps ih =>
    rw [hsScanBurst, Option.bind_eq_none_iff, List.exists_mem_cons_iff]
    cases hpkt : hsScanPkt ticksPerUs s p.scan with
    | none =>
      obtain ⟨hticks, hsuccess⟩ := (hsScanPkt_eq_none_iff _ _ _).mp hpkt
      exact ⟨fun _ => ⟨hticks, Or.inl hsuccess⟩, fun _ u hu => by cases hu⟩
    | some s' =>
      have hhead : ¬ (ticksPerUs = 0 ∧ p.scan.success = true) := by
        rw [← hsScanPkt_eq_none_iff ticksPerUs s, hpkt]
        exact Option.some_ne_none _
      constructor
      · intro h
        obtain ⟨hticks, hex⟩ := (ih s').mp (h s' rfl)
        exact ⟨hticks, Or.inr hex⟩
      · intro h u hu
        rw [← Option.some.inj hu]
        exact (ih s').mpr ⟨h.1, h.2.resolve_left fun hsuccess => hhead ⟨h.1, hsuccess⟩⟩

omit [DecidableEq M] in
/-- The dequeue loop on the ops that were filled: it panics on a zero tick rate and on a stamp that
is zero, and else credits each op with the stamp of its own packet. -/
theorem readOps_fillOps_cases (ticksPerUs : UInt64) (mem : M → PktData) {ops : List (RegexOp M)}
    {cs : List (Completion M)} (hcs : cs.length ≤ ops.length) :
    (readOps ticksPerUs mem (fillOps ops cs) cs = none ∧
      cs ≠ [] ∧ (ticksPerUs = 0 ∨ ∃ c ∈ cs, (mem c.userPtr).txOffload = 0)) ∨
    (readOps ticksPerUs mem (fillOps ops cs) cs = some (cs.map fun c =>
        (c.userPtr, ⟨UInt64.ofNat c.nbMatches, c.tsc - (mem c.userPtr).txOffload⟩)) ∧
      ¬ (cs ≠ [] ∧ (ticksPerUs = 0 ∨ ∃ c ∈ cs, (mem c.userPtr).txOffload = 0))) := by
  induction cs generalizing ops with
  | nil =>
    refine Or.inr ⟨?_, fun h => h.1 rfl⟩
    cases ops <;> rfl
  | cons c cs ih =>
    match ops with
    | [] => exact absurd hcs (by simp)
    | op :: ops =>
      have hlen : cs.length ≤ ops.length := Nat.le_of_succ_le_succ hcs
      simp only [fillOps, readOps, List.exists_mem_cons_iff]
      by_cases hticks : ticksPerUs = 0
      · rw [if_pos hticks]
        exact Or.inl ⟨rfl, List.cons_ne_nil _ _, Or.inl hticks⟩
      · rw [if_neg hticks]
        by_cases hstamp : (mem c.userPtr).txOffload = 0
        · rw [if_pos hstamp]
          exact Or.inl ⟨rfl, List.cons_ne_nil _ _, Or.inr (Or.inl hstamp)⟩
        · rw [if_neg hstamp]
          rcases ih hlen with ⟨hnone, hne, hrest⟩ | ⟨hsome, hrest⟩
          · rw [hnone]
            exact Or.inl ⟨rfl, List.cons_ne_nil _ _, Or.inr (Or.inr (hrest.resolve_left hticks))⟩
          · rw [hsome]
            refine Or.inr ⟨rfl, fun h => ?_⟩
            obtain ⟨d, hd, hzero⟩ := (h.2.resolve_left hticks).resolve_left hstamp
            exact hrest ⟨List.ne_nil_of_mem hd, Or.inr ⟨d, hd, hzero⟩⟩

/-- After the turns `ts` the calls of the turn `t` make the worker panic. -/
def Panics (ticksPerUs : UInt64) (engine : Engine) (ts : List (Turn M)) (t : Turn M) : Prop :=
  match engine with
  | .none => False
  | .hyperscan => ticksPerUs = 0 ∧ ∃ p ∈ t.rx, p.scan.success = true
  | .regex => t.rgxDqd ≠ [] ∧ (ticksPerUs = 0 ∨
      ∃ u ∈ ts ++ [t], ∃ p ∈ u.rx, p.mbuf ∈ t.returned ∧ p.stamp = 0)

/-- What the device holds was received. -/
theorem Inv.received_of_inFlight {w : Worker args M} (hw : Inv w) {m : M} (hm : m ∈ w.inFlight) :
    m ∈ w.received := by
  obtain ⟨held, _, hnic, hdev, _⟩ := hw.books.replays
  by_contra hnot
  have hheld := (hdev m).mpr hm
  rw [(hnic m).mpr hnot] at hheld
  cases hheld

/-- A packet in the device carries the stamp it was received with. -/
theorem Delivered.stamp_of_inFlight {ts : List (Turn M)} {w : Worker args M}
    (h : Delivered .regex ts w) {m : M} (hm : m ∈ w.inFlight) :
    ∃ t ∈ ts, ∃ p ∈ t.rx, p.mbuf = m ∧ (w.mem m).txOffload = p.stamp := by
  have hreceived := h.inv.received_of_inFlight hm
  rw [h.received] at hreceived
  obtain ⟨t, ht, hburst⟩ := List.mem_flatMap.mp hreceived
  obtain ⟨p, hp, rfl⟩ := List.mem_map.mp hburst
  refine ⟨t, ht, p, hp, rfl, ?_⟩
  rw [h.mem t ht p hp]
  rfl

/-- The state in which the regex engine reaches its dequeue. -/
theorem Delivered.afterEnqueue {ts : List (Turn M)} {w : Worker args M} {t : Turn M}
    (h : Delivered .regex ts w) (ht : DpdkContract .regex w t) :
    Delivered .regex (ts ++ [t]) (w.afterEnqueue t) :=
  h.extend ht (h.inv.afterEnqueue ht) (afterEnqueue_received w t) (afterEnqueue_mem w t)

theorem Delivered.length_le_ops {ts : List (Turn M)} {w : Worker args M} {t : Turn M}
    (h : Delivered .regex ts w) (ht : DpdkContract .regex w t) :
    t.rgxDqd.length ≤ (w.afterEnqueue t).ops.length := by
  rw [(h.inv.afterEnqueue ht).ops_length]
  exact ht.dqd_le

/-- The stamps that the dequeue loop reads. -/
theorem Delivered.exists_zero_iff {ts : List (Turn M)} {w : Worker args M} {t : Turn M}
    (h : Delivered .regex ts w) (ht : DpdkContract .regex w t) :
    (∃ c ∈ t.rgxDqd, ((w.afterEnqueue t).mem c.userPtr).txOffload = 0) ↔
      ∃ u ∈ ts ++ [t], ∃ p ∈ u.rx, p.mbuf ∈ t.returned ∧ p.stamp = 0 := by
  have hdelivered := h.afterEnqueue ht
  constructor
  · intro ⟨c, hc, hzero⟩
    have hreturned : c.userPtr ∈ t.returned := List.mem_map_of_mem hc
    have hflight := (ht.dqd_inFlight rfl).subset hreturned
    obtain ⟨u, hu, p, hp, hmbuf, hstamp⟩ := hdelivered.stamp_of_inFlight hflight
    exact ⟨u, hu, p, hp, hmbuf ▸ hreturned, hstamp ▸ hzero⟩
  · intro ⟨u, hu, p, hp, hreturned, hzero⟩
    obtain ⟨c, hc, hptr⟩ := List.mem_map.mp hreturned
    refine ⟨c, hc, ?_⟩
    rw [hptr, hdelivered.mem u hu p hp]
    exact hzero

/-- An iteration panics exactly when the packets and the scans of the run say so. -/
theorem Delivered.iteration_eq_none_iff {ticksPerUs : UInt64} {engine : Engine}
    {ts : List (Turn M)} {w : Worker args M} {t : Turn M} (h : Delivered engine ts w)
    (ht : DpdkContract engine w t) :
    w.iteration ticksPerUs engine t = none ↔ Panics ticksPerUs engine ts t := by
  unfold Worker.iteration
  rw [Option.map_eq_none_iff]
  cases engine with
  | none => exact ⟨fun hnone => absurd hnone (Option.some_ne_none _), fun hfalse => hfalse.elim⟩
  | hyperscan =>
    show Option.map _ (hsScanBurst ticksPerUs w.hsStats t.rx) = none ↔ _
    rw [Option.map_eq_none_iff, hsScanBurst_eq_none_iff]
    rfl
  | regex =>
    show (w.afterEnqueue t).rgxDequeue ticksPerUs t = none ↔ _
    rw [Panics, ← h.exists_zero_iff ht]
    unfold Worker.rgxDequeue
    by_cases hdqd : t.rgxDqd.length > 0
    · rw [if_pos hdqd, Option.map_eq_none_iff]
      rcases readOps_fillOps_cases ticksPerUs (w.afterEnqueue t).mem (h.length_le_ops ht)
        with ⟨hnone, hpanics⟩ | ⟨hsome, hpanics⟩
      · exact ⟨fun _ => hpanics, fun _ => hnone⟩
      · rw [hsome]
        exact ⟨fun hnone => absurd hnone (Option.some_ne_none _), fun hp => absurd hp hpanics⟩
    · rw [if_neg hdqd]
      have hnil : t.rgxDqd = [] := List.eq_nil_of_length_eq_zero (by omega)
      exact ⟨fun hnone => absurd hnone (Option.some_ne_none _), fun hp => absurd hnil hp.1⟩

/-- **The loop panics exactly here.** For every engine and every sequence of turns under the
contract, the worker panics if and only if in some turn Hyperscan scans a packet, or the device
returns one, while the tick rate is zero, or the device returns a packet whose own stamp was zero:
it never takes a stale op or a packet that came back for one that was not sent. -/
theorem workerRxPkts_panics_iff {ticksPerUs : UInt64} {engine : Engine} {mem : M → PktData}
    {ts : List (Turn M)}
    (hts : Meets (Worker.iteration ticksPerUs engine) (DpdkContract engine)
      (Worker.init args mem) ts) :
    run (Worker.iteration ticksPerUs engine) (Worker.init args mem) ts = none ↔
      ∃ before t after, ts = before ++ t :: after ∧ Panics ticksPerUs engine before t := by
  rw [run_eq_none_iff]
  constructor
  · intro ⟨before, t, after, w, hsplit, hrun, hnone⟩
    rw [hsplit] at hts
    have hdelivered := Delivered.of_run (meets_left hts) hrun
    exact ⟨before, t, after, hsplit,
      (hdelivered.iteration_eq_none_iff (meets_append hts hrun).1).mp hnone⟩
  · intro ⟨before, t, after, hsplit, hpanics⟩
    cases hrun : run (Worker.iteration ticksPerUs engine) (Worker.init args mem) before with
    | none =>
      -- it panicked before this turn
      obtain ⟨first, u, rest, w, hbefore, hw, hnone⟩ := run_eq_none_iff.mp hrun
      refine ⟨first, u, rest ++ t :: after, w, ?_, hw, hnone⟩
      rw [hsplit, hbefore, List.append_assoc, List.cons_append]
    | some w =>
      rw [hsplit] at hts
      have hdelivered := Delivered.of_run (meets_left hts) hrun
      exact ⟨before, t, after, w, hsplit, hrun,
        (hdelivered.iteration_eq_none_iff (meets_append hts hrun).1).mpr hpanics⟩

theorem workerRxPkts_panics_iff_twoTurns :
    run (Worker.iteration 1 .regex) twoTurnsWorker twoTurns = none ↔
      ∃ before t after, twoTurns = before ++ t :: after ∧ Panics 1 .regex before t :=
  workerRxPkts_panics_iff twoTurns_meets

/-! ## Round trip times -/

/-- The stamp of the packet that the turns `ts` brought in the mbuf. -/
def stampOf (ts : List (Turn M)) (m : M) : UInt64 :=
  (((ts.flatMap Turn.rx).find? fun p => p.mbuf = m).map RxPkt.stamp).getD 0

/-- What a completed op is credited with if the packet was stamped with `stamp`. -/
def Completion.measured (stamp : M → UInt64) (c : Completion M) : Dequeued :=
  ⟨UInt64.ofNat c.nbMatches, c.tsc - stamp c.userPtr⟩

/-- The writes of one turn to the statistics. -/
def Turn.writes (args : AppArgs) (ticksPerUs : UInt64) (stamp : M → UInt64) (t : Turn M) :
    List StatWrite :=
  (if t.rx = [] then [] else enqueueWrites args t.rgxEnqd) ++
    if t.rgxDqd = [] then []
    else dequeueWrites args ticksPerUs (t.rgxDqd.map (Completion.measured stamp))

theorem StatsArray.writes_append {n : ℕ} (a : StatsArray n) (xs ys : List StatWrite) :
    a.writes (xs ++ ys) = (a.writes xs).writes ys := List.foldl_append

theorem afterEnqueue_stats (w : Worker args M) (t : Turn M) :
    (w.afterEnqueue t).stats =
      w.stats.writes (if t.rx = [] then [] else enqueueWrites args t.rgxEnqd) := by
  unfold Worker.afterEnqueue
  by_cases hrx : t.rx = []
  · rw [if_pos hrx, hrx]
    rfl
  · rw [if_neg hrx, if_pos (List.length_pos_iff.mpr hrx)]
    rfl

/-- The dequeue credits each op with the stamp of its own packet. -/
theorem Delivered.rgxDequeue_stats {ticksPerUs : UInt64} {ts : List (Turn M)}
    {w w' : Worker args M} {t : Turn M} (h : Delivered .regex ts w) (ht : DpdkContract .regex w t)
    {stamp : M → UInt64} (hstamp : ∀ u ∈ ts ++ [t], ∀ p ∈ u.rx, stamp p.mbuf = p.stamp)
    (hstep : (w.afterEnqueue t).rgxDequeue ticksPerUs t = some w') :
    w'.stats = (w.afterEnqueue t).stats.writes (if t.rgxDqd = [] then []
      else dequeueWrites args ticksPerUs (t.rgxDqd.map (Completion.measured stamp))) := by
  unfold Worker.rgxDequeue at hstep
  by_cases hdqd : t.rgxDqd = []
  · rw [if_neg (by rw [hdqd]; exact Nat.lt_irrefl 0)] at hstep
    rw [if_pos hdqd, ← Option.some.inj hstep]
    rfl
  · rw [if_pos (List.length_pos_iff.mpr hdqd)] at hstep
    obtain ⟨pkts, hpkts, rfl⟩ := Option.map_eq_some_iff.mp hstep
    rcases readOps_fillOps_cases ticksPerUs (w.afterEnqueue t).mem (h.length_le_ops ht)
      with ⟨hnone, -⟩ | ⟨hsome, -⟩
    · rw [hnone] at hpkts
      cases hpkts
    · have hmeasured : pkts.map Prod.snd = t.rgxDqd.map (Completion.measured stamp) := by
        rw [← Option.some.inj (hsome.symm.trans hpkts), List.map_map]
        apply List.map_congr_left
        intro c hc
        have hflight := (ht.dqd_inFlight rfl).subset (List.mem_map_of_mem hc)
        obtain ⟨u, hu, p, hp, hmbuf, hown⟩ := (h.afterEnqueue ht).stamp_of_inFlight hflight
        show Dequeued.mk _ (c.tsc - ((w.afterEnqueue t).mem c.userPtr).txOffload) = _
        rw [hown, ← hstamp u hu p hp, hmbuf]
        rfl
      rw [if_neg hdqd, ← hmeasured]

/-- After every turn the statistics are those of the bursts so far. -/
theorem stats_of_run {ticksPerUs : UInt64} {mem : M → PktData} {ts : List (Turn M)}
    {w : Worker args M}
    (hts : Meets (Worker.iteration ticksPerUs .regex) (DpdkContract .regex)
      (Worker.init args mem) ts)
    (h : run (Worker.iteration ticksPerUs .regex) (Worker.init args mem) ts = some w)
    {stamp : M → UInt64} (hstamp : ∀ t ∈ ts, ∀ p ∈ t.rx, stamp p.mbuf = p.stamp) :
    w.stats = (StatsArray.init _).writes (ts.flatMap (Turn.writes args ticksPerUs stamp)) := by
  have hinv : Delivered .regex ts w ∧ ((∀ t ∈ ts, ∀ p ∈ t.rx, stamp p.mbuf = p.stamp) →
      w.stats = (StatsArray.init _).writes (ts.flatMap (Turn.writes args ticksPerUs stamp))) := by
    refine run_history_of_meets (P := fun ts w => Delivered .regex ts w ∧
      ((∀ t ∈ ts, ∀ p ∈ t.rx, stamp p.mbuf = p.stamp) → w.stats =
        (StatsArray.init _).writes (ts.flatMap (Turn.writes args ticksPerUs stamp)))) ?_
      ⟨Delivered.init .regex mem, fun _ => rfl⟩ hts h
    intro ts v t v' hv ht hstep
    refine ⟨hv.1.iteration ht hstep, fun hall => ?_⟩
    have hbefore := hv.2 fun u hu => hall u (List.mem_append_left _ hu)
    obtain ⟨x, hx, rfl⟩ := Option.map_eq_some_iff.mp hstep
    show x.stats = _
    rw [hv.1.rgxDequeue_stats ht hall hx, afterEnqueue_stats, hbefore, List.flatMap_append,
      List.flatMap_singleton, Turn.writes, StatsArray.writes_append, StatsArray.writes_append]
  exact hinv.2 hstamp

/-- The stamp of a packet is the one that it got when it was received last. -/
theorem Delivered.stampOf_eq {ts : List (Turn M)} {w : Worker args M} (h : Delivered .regex ts w)
    {t : Turn M} (ht : t ∈ ts) {p : RxPkt M} (hp : p ∈ t.rx) : stampOf ts p.mbuf = p.stamp := by
  unfold stampOf
  cases hfind : (ts.flatMap Turn.rx).find? fun q => q.mbuf = p.mbuf with
  | none =>
    have hnot := List.find?_eq_none.mp hfind p (List.mem_flatMap.mpr ⟨t, ht, hp⟩)
    exact absurd (decide_eq_true rfl) hnot
  | some q =>
    obtain ⟨u, hu, hq⟩ := List.mem_flatMap.mp (List.mem_of_find?_eq_some hfind)
    have hmbuf : q.mbuf = p.mbuf := by simpa using List.find?_some hfind
    have hdata : q.delivered .regex = p.delivered .regex := by
      rw [← h.mem u hu q hq, ← h.mem t ht p hp, hmbuf]
    exact congrArg PktData.txOffload hdata

/-- **Round trips are measured from the packet's own stamp.** Whatever order the device returns the
ops in, over how many turns, and whatever is left in the array of ops, the statistics after a run
are those of its bursts, with each completed op credited with its matches and with the cycles since
its own packet was stamped. -/
theorem workerRxPkts_roundTrips {ticksPerUs : UInt64} {mem : M → PktData} {ts : List (Turn M)}
    {w : Worker args M}
    (hts : Meets (Worker.iteration ticksPerUs .regex) (DpdkContract .regex)
      (Worker.init args mem) ts)
    (h : run (Worker.iteration ticksPerUs .regex) (Worker.init args mem) ts = some w) :
    w.stats =
      (StatsArray.init _).writes (ts.flatMap (Turn.writes args ticksPerUs (stampOf ts))) :=
  stats_of_run hts h fun _ ht _ hp => (Delivered.of_run hts h).stampOf_eq ht hp

theorem workerRxPkts_roundTrips_twoTurns :
    ∃ w, run (Worker.iteration 1 .regex) twoTurnsWorker twoTurns = some w ∧
      w.stats = (StatsArray.init _).writes
        (twoTurns.flatMap (Turn.writes twoTurnsArgs 1 (stampOf twoTurns))) :=
  ⟨_, rfl, workerRxPkts_roundTrips twoTurns_meets rfl⟩

end RegexTest
end PamoRxpBench
