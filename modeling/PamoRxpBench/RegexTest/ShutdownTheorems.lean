import Mathlib.Data.List.Count
import PamoRxpBench.RegexTest.WorkerTheorems
import PamoRxpBench.RegexTest.Shutdown

/-!
# The regex queue at shutdown

* `workerRxPkts_drained_iff`: the worker returns with every accepted mbuf released once and none in
  flight exactly when the device has returned as many completions as it accepted ops before the
  first empty burst behind the loop;
* `drain_isSome`: the loop behind `end` does end.

The mbufs in flight are what the device accepted and has not returned, so the counts of the calls
decide whether there are any; the loop does not look at them, and takes an empty burst for the end.
-/

namespace PamoRxpBench
namespace RegexTest

open Custody Runs

variable {M : Type} [DecidableEq M] {args : AppArgs}

/-! ## The loop behind `end` -/

omit [DecidableEq M] in
/-- The packets that are freed are those that the device returned. -/
theorem fillOps_userPtr (ops : List (RegexOp M)) (dqd : List (Completion M))
    (h : dqd.length ≤ ops.length) :
    ((fillOps ops dqd).take dqd.length).filterMap RegexOp.userPtr = dqd.map Completion.userPtr := by
  induction dqd generalizing ops with
  | nil => rfl
  | cons c dqd ih =>
    cases ops with
    | nil => simp at h
    | cons op ops =>
      rw [fillOps, List.length_cons, List.take_succ_cons, List.map_cons]
      exact congrArg _ (ih ops (by simpa using h))

/-- A burst that is drained leaves the counts and the packets in flight in step. -/
theorem Inv.drainBurst {w : Worker args M} (hw : Inv w) {dqd : List (Completion M)}
    (hlen : dqd.length ≤ args.portBurstSize)
    (hsub : (dqd.map Completion.userPtr).Subperm w.inFlight) : Inv (w.drainBurst dqd) := by
  have hfreed := fillOps_userPtr w.ops dqd (by rw [hw.ops_length]; exact hlen)
  have hnd := nodup_of_subperm hw.books.inFlight_nodup hsub
  refine ⟨?_, ?_⟩
  · show Books w.received (w.inFlight.diff (dqd.map Completion.userPtr)) []
      (w.log ++ moves .device .worker (dqd.map Completion.userPtr) ++
        moves .worker .pool (((fillOps w.ops dqd).take dqd.length).filterMap RegexOp.userPtr))
    rw [hfreed]
    apply Books.release _ [] (Or.inl rfl)
    · rw [List.append_nil]
      exact hw.books.dequeue hsub
    · rwa [List.append_nil]
  · show (fillOps w.ops dqd).length = _
    rw [length_fillOps, hw.ops_length]

theorem length_diff_of_subperm {ms inFlight : List M} (h : ms.Subperm inFlight) :
    (inFlight.diff ms).length + ms.length = inFlight.length := by
  have hperm := List.subperm_append_diff_self_of_count_le fun m hm => h.count_le m
  have hlen := hperm.length_eq
  rw [List.length_append] at hlen
  omega

/-- What the loop leaves in flight. -/
theorem Inv.drain {w w' : Worker args M} (hw : Inv w) {bursts : List (List (Completion M))}
    (hcontract : DrainContract w bursts) (h : w.drain bursts = some w') :
    Inv w' ∧ w'.inFlight.length +
      ((bursts.takeWhile fun dqd => 0 < dqd.length).map List.length).sum = w.inFlight.length := by
  induction bursts generalizing w with
  | nil => cases h
  | cons dqd bursts ih =>
    obtain ⟨hlen, hsub, hrest⟩ := hcontract
    rw [Worker.drain] at h
    by_cases hpos : 0 < dqd.length
    · rw [if_pos hpos] at h
      obtain ⟨hinv, hcount⟩ := ih (hw.drainBurst hlen hsub) (hrest hpos) h
      have hdiff := length_diff_of_subperm hsub
      rw [List.length_map] at hdiff
      have hleft : (w.drainBurst dqd).inFlight = w.inFlight.diff (dqd.map Completion.userPtr) := rfl
      rw [hleft] at hcount
      have htake : (dqd :: bursts).takeWhile (fun dqd => 0 < dqd.length) =
          dqd :: bursts.takeWhile (fun dqd => 0 < dqd.length) :=
        List.takeWhile_cons_of_pos (decide_eq_true hpos)
      refine ⟨hinv, ?_⟩
      rw [htake, List.map_cons, List.sum_cons]
      omega
    · have htake : (dqd :: bursts).takeWhile (fun dqd => 0 < dqd.length) = [] :=
        List.takeWhile_cons_of_neg (by simpa using hpos)
      rw [if_neg hpos] at h
      rw [← Option.some.inj h, htake]
      exact ⟨hw, rfl⟩

/-- The loop ends: every burst that is not empty leaves less in flight. -/
theorem drain_isSome {w : Worker args M} {bursts : List (List (Completion M))}
    (hcontract : DrainContract w bursts) (hlen : w.inFlight.length < bursts.length) :
    (w.drain bursts).isSome := by
  induction bursts generalizing w with
  | nil => exact absurd hlen (Nat.not_lt_zero _)
  | cons dqd bursts ih =>
    obtain ⟨-, hsub, hrest⟩ := hcontract
    rw [Worker.drain]
    by_cases hpos : 0 < dqd.length
    · rw [if_pos hpos]
      apply ih (hrest hpos)
      have hdiff := length_diff_of_subperm hsub
      rw [List.length_map] at hdiff
      show (w.inFlight.diff (dqd.map Completion.userPtr)).length < bursts.length
      rw [List.length_cons] at hlen
      omega
    · rw [if_neg hpos]
      rfl

/-! ## The packet loop -/

/-- An enqueue adds what the device accepted. -/
theorem length_afterEnqueue {engine : Engine} {w : Worker args M} {t : Turn M} (hw : Inv w)
    (ht : DpdkContract engine w t) :
    (w.afterEnqueue t).inFlight.length = w.inFlight.length + t.rgxEnqd := by
  have hle := ht.enqd_le
  unfold Worker.afterEnqueue
  split
  · have haccepted : ((prepareOps args w.ops t.rx w.group0Selector).1.take t.rgxEnqd).filterMap
        RegexOp.userPtr = t.pktsBurst.take t.rgxEnqd :=
      prepareOps_userPtr w.ops t.rx _ _ (by rw [hw.ops_length]; exact ht.rx_le) hle
    have hburst : t.pktsBurst.length = t.rx.length := List.length_map _
    show (w.inFlight ++ ((prepareOps args w.ops t.rx w.group0Selector).1.take t.rgxEnqd).filterMap
      RegexOp.userPtr).length = _
    rw [haccepted, List.length_append, List.length_take, hburst]
    omega
  · show w.inFlight.length = _
    omega

/-- One iteration. -/
theorem length_iteration {ticksPerUs : UInt64} {w w' : Worker args M} {t : Turn M} (hw : Inv w)
    (ht : DpdkContract .regex w t) (h : w.iteration ticksPerUs .regex t = some w') :
    w'.inFlight.length + t.rgxDqd.length = w.inFlight.length + t.rgxEnqd := by
  have henqueued := length_afterEnqueue hw ht
  have hdiff := length_diff_of_subperm (ht.dqd_inFlight rfl)
  have hreturned : t.returned.length = t.rgxDqd.length := List.length_map _
  obtain ⟨v, hv, rfl⟩ := Option.map_eq_some_iff.mp h
  have hv : (w.afterEnqueue t).rgxDequeue ticksPerUs t = some v := hv
  unfold Worker.rgxDequeue at hv
  show v.inFlight.length + _ = _
  by_cases hpos : t.rgxDqd.length > 0
  · rw [if_pos hpos] at hv
    obtain ⟨pkts, -, rfl⟩ := Option.map_eq_some_iff.mp hv
    show ((w.afterEnqueue t).inFlight.diff t.returned).length + _ = _
    omega
  · rw [if_neg hpos] at hv
    rw [← Option.some.inj hv]
    omega

/-- A run of the loop. -/
theorem length_run {ticksPerUs : UInt64} {w w' : Worker args M} {ts : List (Turn M)} (hw : Inv w)
    (hts : Meets (Worker.iteration ticksPerUs .regex) (DpdkContract .regex) w ts)
    (h : run (Worker.iteration ticksPerUs .regex) w ts = some w') :
    w'.inFlight.length + (ts.map fun t => t.rgxDqd.length).sum =
      w.inFlight.length + (ts.map Turn.rgxEnqd).sum := by
  induction ts generalizing w with
  | nil =>
    rw [← Option.some.inj h]
    rfl
  | cons t ts ih =>
    obtain ⟨v, hv, hrest⟩ := Option.bind_eq_some_iff.mp h
    have hstep := length_iteration hw hts.1 hv
    have hrun := ih (hw.iteration hts.1 hv) (hts.2 v hv) hrest
    rw [List.map_cons, List.sum_cons, List.map_cons, List.sum_cons]
    omega

theorem Inv.run {ticksPerUs : UInt64} {engine : Engine} {w w' : Worker args M} {ts : List (Turn M)}
    (hw : Inv w) (hts : Meets (Worker.iteration ticksPerUs engine) (DpdkContract engine) w ts)
    (h : run (Worker.iteration ticksPerUs engine) w ts = some w') : Inv w' :=
  run_invariant_of_meets (fun _ _ _ hv ht hstep => hv.iteration ht hstep) hw hts h

/-! ## The end -/

/-- Every mbuf that the device accepted was released once, and none is in flight. -/
def Worker.Drained (w : Worker args M) : Prop :=
  w.inFlight = [] ∧
    ∀ m, 0 < arrivals .device m w.log → timesFreed m w.log + timesSent m w.log = 1

/-- What went to the device was received. -/
theorem Inv.mem_received {w : Worker args M} (hw : Inv w) {m : M}
    (hm : 0 < arrivals .device m w.log) : m ∈ w.received := by
  obtain ⟨held, hr, hnic, -, -⟩ := hw.books.replays
  by_contra hnot
  have hback : arrivals .nic m w.log = 0 := by
    rw [arrivals, List.countP_eq_zero]
    intro t ht hc
    have hallowed := hw.books.allowed t ht
    have htarget : t.target = .nic := (of_decide_eq_true hc).2
    rw [htarget] at hallowed
    cases hsource : t.source <;> rw [hsource] at hallowed <;> cases hallowed
  have hbalance := balance .nic m hr
  rw [if_pos rfl, if_pos ((hnic m).mpr hnot), hback] at hbalance
  have hstay : departures .nic m w.log = 0 := by omega
  have hnone := arrivals_of_departures hr hstay .device
  omega

/-- The counters say that all is drained exactly when nothing is in flight. -/
theorem Inv.drained_iff {w : Worker args M} (hw : Inv w) : w.Drained ↔ w.inFlight = [] := by
  refine ⟨And.left, fun hnil => ⟨hnil, fun m hm => ?_⟩⟩
  cases hw.settled (hw.mem_received hm) with
  | freed hf hs _ => rw [hf, hs]
  | sent hf hs _ => rw [hf, hs]
  | inFlight _ _ hd =>
    rw [hnil] at hd
    cases hd

/-- The queue is drained at shutdown exactly when the first empty burst comes after every
completion. -/
theorem workerRxPkts_drained_iff {ticksPerUs : UInt64} {mem : M → PktData} {r : RxRun M}
    {w : Worker args M} {stats : AppStats args.rgxStatsHistogramBucketCnt}
    (hcontract : RxContract ticksPerUs .regex (Worker.init args mem) r)
    (h : workerRxPkts ticksPerUs .regex (Worker.init args mem) r = some (w, stats)) :
    w.Drained ↔ r.completed = r.accepted := by
  obtain ⟨u, hloop, h⟩ := Option.bind_eq_some_iff.mp h
  obtain ⟨v, hdrain, h⟩ := Option.bind_eq_some_iff.mp h
  have h : (if r.appStats = true then some (v, v.appStats .regex) else none) = some (w, stats) := h
  have hw : v = w := by
    by_cases happ : r.appStats = true
    · rw [if_pos happ] at h
      exact (Prod.mk.inj (Option.some.inj h)).1
    · rw [if_neg happ] at h
      cases h
  have hinv : Inv u := (Inv.init mem).run hcontract.turns hloop
  have hcount := length_run (Inv.init mem) hcontract.turns hloop
  obtain ⟨hend, hleft⟩ := hinv.drain (hcontract.drain u hloop) hdrain
  have hempty : (Worker.init args mem).inFlight.length = 0 := rfl
  rw [← hw, hend.drained_iff, ← List.length_eq_zero_iff, RxRun.completed, RxRun.accepted]
  omega

/-- One packet is accepted, and is not ready at the dequeue of its iteration. -/
def onePacketRun (drain : List (List (Completion ℕ))) : RxRun ℕ where
  pktsBurst := true
  rgxDqdCollector := true
  turns := [⟨0, [⟨1, [], [], 7, ⟨true, 0, 0, 0⟩⟩], 1, [], 0, 0⟩]
  drain := drain
  appStats := true

/-- The packet is ready at the first dequeue behind the loop. -/
theorem workerRxPkts_drained_ready :
    ∃ (w : Worker ⟨true, false, true, 1, 4, 1, 64, 1⟩ ℕ) (stats : AppStats _),
      workerRxPkts 1 .regex (Worker.init _ fun _ => ⟨[], [], 0⟩) (onePacketRun [[⟨1, 0, 9⟩], []]) =
        some (w, stats) ∧
      (w.Drained ↔ (onePacketRun [[⟨1, 0, 9⟩], []]).completed =
        (onePacketRun [[⟨1, 0, 9⟩], []]).accepted) := by
  refine ⟨_, _, rfl, @workerRxPkts_drained_iff ℕ _ _ 1 _ _ _ _
    ⟨⟨?_, fun _ _ => trivial⟩, fun w hw => ?_⟩ rfl⟩
  · exact ⟨by decide, by decide, by decide, by decide, by decide, fun _ => by decide, by decide⟩
  · rw [← Option.some.inj hw]
    exact ⟨by decide, by decide, fun _ => ⟨by decide, by decide, fun h => absurd h (by decide)⟩⟩

/-- The packet is ready one dequeue later: the empty burst before it ends the loop. -/
theorem not_drained_late :
    ¬ ∀ (args : AppArgs) (ticksPerUs : UInt64) (mem : ℕ → PktData) (r : RxRun ℕ)
      (w : Worker args ℕ) (stats : AppStats args.rgxStatsHistogramBucketCnt),
      RxContract ticksPerUs .regex (Worker.init args mem) r →
        workerRxPkts ticksPerUs .regex (Worker.init args mem) r = some (w, stats) → w.Drained := by
  intro hall
  have hdrained := hall ⟨true, false, true, 1, 4, 1, 64, 1⟩ 1 (fun _ => ⟨[], [], 0⟩)
    (onePacketRun [[], [⟨1, 0, 9⟩]]) _ _ ⟨⟨?_, fun _ _ => trivial⟩, fun w hw => ?_⟩ rfl
  · exact absurd hdrained.1 (by decide)
  · exact ⟨by decide, by decide, by decide, by decide, by decide, fun _ => by decide, by decide⟩
  · rw [← Option.some.inj hw]
    exact ⟨by decide, by decide, fun h => absurd h (by decide)⟩

end RegexTest
end PamoRxpBench
