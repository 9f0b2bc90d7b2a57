import PamoRxpBench.RegexTest.Histogram
import PamoRxpBench.RegexTest.WorkerTheorems
import PamoRxpBench.RegexTest.StatsTheorems

/-!
# Packets that the histogram loses

The buckets cover the bursts of up to `bucket_cnt * bucket_size` packets. A larger burst finds no
bucket and its packets are not counted, so the histogram accounts for every packet in every run
exactly when no burst can be larger (`histogramLossless_iff`).
-/

namespace PamoRxpBench
namespace RegexTest

open Custody

variable {M : Type} [DecidableEq M] {args : AppArgs}

/-! ## The search loop -/

theorem bucketLoop_lt {size n : ℕ} (k i : ℕ) (hhi : n ≤ (i + k - 1) * size) (hk : 0 < k) :
    bucketLoop size n k i < i + k := by
  induction k generalizing i with
  | zero => omega
  | succ k ih =>
    rw [bucketLoop]
    by_cases hle : n ≤ i * size
    · rw [if_pos hle]
      omega
    · rw [if_neg hle]
      have hk' : 0 < k := by
        rcases Nat.eq_zero_or_pos k with rfl | hpos
        · exact absurd hhi hle
        · exact hpos
      have := ih (i + 1) (by rwa [show i + 1 + k - 1 = i + (k + 1) - 1 by omega]) hk'
      omega

/-- The loop runs to its end when no bucket is large enough. -/
theorem bucketLoop_of_lt {size n : ℕ} (k i : ℕ) (hlo : ∀ j, j < i + k → j * size < n) :
    bucketLoop size n k i = i + k := by
  induction k generalizing i with
  | zero => rfl
  | succ k ih =>
    have hi : ¬ n ≤ i * size := Nat.not_le.mpr (hlo i (by omega))
    rw [bucketLoop, if_neg hi, ih (i + 1) (fun j hj => hlo j (by omega))]
    omega

theorem le_bucketLoop (size n k i : ℕ) : i ≤ bucketLoop size n k i := by
  induction k generalizing i with
  | zero => exact le_refl i
  | succ k ih =>
    rw [bucketLoop]
    split
    · exact le_refl i
    · exact Nat.le_of_succ_le (ih (i + 1))

/-- The search finds a bucket exactly for the bursts that the buckets cover. -/
theorem statsI_le_iff {n : ℕ} (hcnt : 0 < args.rgxStatsHistogramBucketCnt) :
    statsI args n ≤ args.rgxStatsHistogramBucketCnt ↔
      n ≤ args.rgxStatsHistogramBucketCnt * args.rgxStatsHistogramBucketSize := by
  constructor
  · intro hle
    by_contra hlt
    have hnone : statsI args n = 1 + args.rgxStatsHistogramBucketCnt := by
      apply bucketLoop_of_lt
      intro j hj
      have hmul : j * args.rgxStatsHistogramBucketSize ≤
          args.rgxStatsHistogramBucketCnt * args.rgxStatsHistogramBucketSize :=
        Nat.mul_le_mul_right _ (by omega)
      omega
    omega
  · intro hle
    have hlt : statsI args n < 1 + args.rgxStatsHistogramBucketCnt := by
      apply bucketLoop_lt _ _ _ hcnt
      rwa [Nat.add_sub_cancel_left]
    omega

/-! ## Totals -/

theorem StatsArray.total_init (n : ℕ) (f : StatField) : (StatsArray.init n).total f = 0 := by
  rw [StatsArray.total]
  apply Finset.sum_eq_zero
  intro b _
  exact StatsArray.init_get b.isLt f

/-- A write behind the array adds nothing to the totals. -/
theorem StatsArray.total_write {n : ℕ} (a : StatsArray n) (w : StatWrite) (f : StatField) :
    (a.write w).total f = a.total f + if w.bucket < n ∧ w.field = f then w.amount else 0 := by
  have hget : ∀ b : Fin n, ((a.write w).buckets.get b).get f =
      (a.buckets.get b).get f + if w.bucket = b.val ∧ w.field = f then w.amount else 0 :=
    fun b => a.write_get w b.isLt f
  have hone : ∑ b : Fin n, (if w.bucket = b.val ∧ w.field = f then w.amount else 0) =
      if w.bucket < n ∧ w.field = f then w.amount else 0 := by
    by_cases hlt : w.bucket < n
    · rw [Finset.sum_eq_single ⟨w.bucket, hlt⟩]
      · simp [hlt]
      · intro b _ hb
        have hne : w.bucket ≠ b.val := fun heq => hb (Fin.ext heq.symm)
        simp [hne]
      · exact fun hb => absurd (Finset.mem_univ _) hb
    · rw [Finset.sum_eq_zero]
      · simp [hlt]
      · intro b _
        have hne : w.bucket ≠ b.val := fun heq => hlt (heq ▸ b.isLt)
        simp [hne]
  rw [StatsArray.total, Finset.sum_congr rfl fun b _ => hget b, Finset.sum_add_distrib, hone]
  rfl

/-- What a list of writes adds to the total of `f` in an array of `n` buckets. -/
def landed (n : ℕ) (f : StatField) (ws : List StatWrite) : UInt64 :=
  (ws.map fun w => if w.bucket < n ∧ w.field = f then w.amount else 0).sum

theorem landed_append (n : ℕ) (f : StatField) (xs ys : List StatWrite) :
    landed n f (xs ++ ys) = landed n f xs + landed n f ys := by
  simp only [landed, List.map_append, List.sum_append]

theorem landed_of_ne {n : ℕ} {f : StatField} {ws : List StatWrite}
    (h : ∀ w ∈ ws, w.field ≠ f) : landed n f ws = 0 := by
  apply List.sum_eq_zero
  intro x hx
  obtain ⟨w, hw, rfl⟩ := List.mem_map.mp hx
  rw [if_neg fun hand => h w hw hand.2]

theorem StatsArray.total_writes {n : ℕ} (a : StatsArray n) (ws : List StatWrite) (f : StatField) :
    (a.writes ws).total f = a.total f + landed n f ws := by
  induction ws generalizing a with
  | nil => simp [StatsArray.writes, landed]
  | cons w ws ih =>
    rw [show a.writes (w :: ws) = (a.write w).writes ws from rfl, ih, a.total_write, add_assoc]
    rfl

/-! ## What one burst adds -/

/-- The packets enqueued are counted when the bucket of the burst is in the array. -/
theorem landed_enqueueWrites_enq (args : AppArgs) (n : ℕ) :
    landed args.rgxStatsHistogramBucketCnt .enqBurstPktsCnt (enqueueWrites args n) =
      if statsI args n ≤ args.rgxStatsHistogramBucketCnt then UInt64.ofNat n else 0 := by
  have hpos : 1 ≤ statsI args n := le_bucketLoop _ _ _ 1
  rw [enqueueWrites]
  by_cases hle : statsI args n ≤ args.rgxStatsHistogramBucketCnt
  · have hlt : statsI args n - 1 < args.rgxStatsHistogramBucketCnt := by omega
    simp [landed, hle, hlt]
  · simp [landed, hle]

theorem landed_enqueueWrites_deq (args : AppArgs) (n : ℕ) :
    landed args.rgxStatsHistogramBucketCnt .deqBurstPktCnt (enqueueWrites args n) = 0 := by
  apply landed_of_ne
  intro w hw
  simp only [enqueueWrites] at hw
  split at hw
  · rcases List.mem_pair.mp hw with rfl | rfl <;> simp
  · cases hw

theorem packetWrites_field {ticksPerUs : UInt64} {i : ℕ} {pkts : List Dequeued} {w : StatWrite}
    (hw : w ∈ pkts.flatMap (packetWrites ticksPerUs i)) :
    w.field ≠ .deqBurstPktCnt ∧ w.field ≠ .enqBurstPktsCnt := by
  obtain ⟨p, -, hp⟩ := List.mem_flatMap.mp hw
  simp only [packetWrites, List.mem_cons, List.not_mem_nil, or_false] at hp
  rcases hp with rfl | rfl | rfl <;> simp

/-- And so are the packets dequeued. -/
theorem landed_dequeueWrites_deq (args : AppArgs) (ticksPerUs : UInt64) (pkts : List Dequeued) :
    landed args.rgxStatsHistogramBucketCnt .deqBurstPktCnt (dequeueWrites args ticksPerUs pkts) =
      if statsI args pkts.length ≤ args.rgxStatsHistogramBucketCnt then
        UInt64.ofNat pkts.length else 0 := by
  have hpos : 1 ≤ statsI args pkts.length := le_bucketLoop _ _ _ 1
  simp only [dequeueWrites]
  rw [landed_append, landed_of_ne fun w hw => (packetWrites_field hw).1, add_zero]
  by_cases hle : statsI args pkts.length ≤ args.rgxStatsHistogramBucketCnt
  · have hlt : statsI args pkts.length - 1 < args.rgxStatsHistogramBucketCnt := by omega
    simp [landed, hle, hlt]
  · simp [landed, hle]

theorem landed_dequeueWrites_enq (args : AppArgs) (ticksPerUs : UInt64) (pkts : List Dequeued) :
    landed args.rgxStatsHistogramBucketCnt .enqBurstPktsCnt (dequeueWrites args ticksPerUs pkts)
      = 0 := by
  apply landed_of_ne
  intro w hw
  simp only [dequeueWrites] at hw
  rcases List.mem_append.mp hw with hw | hw
  · split at hw
    · rcases List.mem_pair.mp hw with rfl | rfl <;> simp
    · cases hw
  · exact (packetWrites_field hw).2

/-! ## The log -/

omit [DecidableEq M] in
theorem accepted_append_moves (log : List (Transfer M Holder)) (src dst : Holder) (ms : List M) :
    accepted (log ++ moves src dst ms) =
      accepted log + if dst = .device then ms.length else 0 := by
  rw [accepted, List.countP_append, moves, List.countP_map]
  by_cases hdst : dst = .device
  · simp [hdst, accepted, Function.comp_def]
  · simp [hdst, accepted, Function.comp_def]

omit [DecidableEq M] in
theorem dequeued_append_moves (log : List (Transfer M Holder)) (src dst : Holder) (ms : List M) :
    dequeued (log ++ moves src dst ms) =
      dequeued log + if src = .device then ms.length else 0 := by
  rw [dequeued, List.countP_append, moves, List.countP_map]
  by_cases hsrc : src = .device
  · simp [hsrc, dequeued, Function.comp_def]
  · simp [hsrc, dequeued, Function.comp_def]

omit [DecidableEq M] in
theorem forwardOrFreePkts_device (args : AppArgs) (log : List (Transfer M Holder)) (ms : List M)
    (nbTx : ℕ) :
    accepted (log ++ forwardOrFreePkts args ms nbTx) = accepted log ∧
      dequeued (log ++ forwardOrFreePkts args ms nbTx) = dequeued log := by
  rw [forwardOrFreePkts]
  split
  · simp [← List.append_assoc, accepted_append_moves, dequeued_append_moves]
  · simp [accepted_append_moves, dequeued_append_moves]

/-! ## One iteration -/

/-- The packets of an enqueue: how many went to the device, and what the histogram adds. -/
theorem afterEnqueue_counts {engine : Engine} {w : Worker args M} {t : Turn M} (hw : Inv w)
    (ht : DpdkContract engine w t) :
    accepted (w.afterEnqueue t).log = accepted w.log + t.rgxEnqd ∧
    dequeued (w.afterEnqueue t).log = dequeued w.log ∧
    (w.afterEnqueue t).inFlight.length = w.inFlight.length + t.rgxEnqd ∧
    (w.afterEnqueue t).stats.total .deqBurstPktCnt = w.stats.total .deqBurstPktCnt ∧
    (w.afterEnqueue t).stats.total .enqBurstPktsCnt = w.stats.total .enqBurstPktsCnt +
      if statsI args t.rgxEnqd ≤ args.rgxStatsHistogramBucketCnt then
        UInt64.ofNat t.rgxEnqd else 0 := by
  have henqd := ht.enqd_le
  rw [Worker.afterEnqueue]
  by_cases hrx : t.rx.length > 0
  · have hacc : ((prepareOps args w.ops t.rx w.group0Selector).1.take t.rgxEnqd).filterMap
        RegexOp.userPtr = t.pktsBurst.take t.rgxEnqd :=
      prepareOps_userPtr w.ops t.rx _ _ (by rw [hw.ops_length]; exact ht.rx_le) henqd
    have hlen : (t.pktsBurst.take t.rgxEnqd).length = t.rgxEnqd := by
      rw [List.length_take, Turn.pktsBurst, List.length_map]
      omega
    rw [if_pos hrx]
    refine ⟨?_, ?_, ?_, ?_, ?_⟩
    · simp only [Worker.rgxEnqueue, Worker.receive, hacc, accepted_append_moves, hlen]
      simp
    · simp only [Worker.rgxEnqueue, Worker.receive, dequeued_append_moves]
      simp
    · simp only [Worker.rgxEnqueue, Worker.receive, hacc, List.length_append, hlen]
    · simp only [Worker.rgxEnqueue, Worker.receive, StatsArray.total_writes,
        landed_enqueueWrites_deq, add_zero]
    · simp only [Worker.rgxEnqueue, Worker.receive, StatsArray.total_writes,
        landed_enqueueWrites_enq]
  · -- nothing was received, so nothing is enqueued and the histogram is not touched
    have hzero : t.rgxEnqd = 0 := by omega
    have hnil : t.pktsBurst = [] := by
      rw [Turn.pktsBurst, List.eq_nil_of_length_eq_zero (by omega : t.rx.length = 0)]
      rfl
    rw [if_neg hrx, hzero]
    simp [Worker.receive, hnil, moves]

/-- The packets of a dequeue. -/
theorem rgxDequeue_counts {ticksPerUs : UInt64} {w w' : Worker args M} {t : Turn M} (hw : Inv w)
    (hdqd : t.rgxDqd.length ≤ args.portBurstSize) (hsub : t.returned.Subperm w.inFlight)
    (h : w.rgxDequeue ticksPerUs t = some w') :
    accepted w'.log = accepted w.log ∧
    dequeued w'.log = dequeued w.log + t.rgxDqd.length ∧
    w'.inFlight.length + t.rgxDqd.length = w.inFlight.length ∧
    w'.stats.total .enqBurstPktsCnt = w.stats.total .enqBurstPktsCnt ∧
    (0 < t.rgxDqd.length → w'.stats.total .deqBurstPktCnt = w.stats.total .deqBurstPktCnt +
      if statsI args t.rgxDqd.length ≤ args.rgxStatsHistogramBucketCnt then
        UInt64.ofNat t.rgxDqd.length else 0) ∧
    (t.rgxDqd.length = 0 → w'.stats.total .deqBurstPktCnt = w.stats.total .deqBurstPktCnt) := by
  rw [Worker.rgxDequeue] at h
  by_cases hpos : t.rgxDqd.length > 0
  · rw [if_pos hpos] at h
    obtain ⟨pkts, hpkts, rfl⟩ := Option.map_eq_some_iff.mp h
    -- the packets that are read off the ops are the returned ones
    have hfst : pkts.map Prod.fst = t.returned :=
      readOps_fillOps (by rw [hw.ops_length]; exact hdqd) hpkts
    have hret : t.returned.length = t.rgxDqd.length := List.length_map _
    have hlen : (pkts.map Prod.snd).length = t.rgxDqd.length := by
      rw [List.length_map, ← hret, ← hfst, List.length_map]
    obtain ⟨hacc, hdeq⟩ := forwardOrFreePkts_device args
      (w.log ++ moves .device .worker t.returned) (pkts.map Prod.fst) t.nbTx
    refine ⟨?_, ?_, ?_, ?_, fun _ => ?_, fun hzero => absurd hzero (by omega)⟩
    · show accepted (_ ++ forwardOrFreePkts args _ _) = _
      rw [hacc, accepted_append_moves]
      simp
    · show dequeued (_ ++ forwardOrFreePkts args _ _) = _
      rw [hdeq, dequeued_append_moves, hret]
      simp
    · show (w.inFlight.diff t.returned).length + _ = _
      have hperm := List.subperm_append_diff_self_of_count_le
        (fun m _ => (List.subperm_iff_count.mp hsub) m)
      rw [← hret, ← hperm.length_eq, List.length_append]
      omega
    · simp only [StatsArray.total_writes, landed_dequeueWrites_enq, add_zero]
    · simp only [StatsArray.total_writes, landed_dequeueWrites_deq, hlen]
  · rw [if_neg hpos] at h
    obtain rfl := Option.some.inj h
    have hzero : t.rgxDqd.length = 0 := by omega
    refine ⟨rfl, ?_, ?_, rfl, fun hlt => absurd hlt hpos, fun _ => rfl⟩
    · omega
    · omega

/-! ## Whole runs -/

/-- The buckets cover every burst the calls can return. -/
def AppArgs.Covers (args : AppArgs) : Prop :=
  0 < args.rgxStatsHistogramBucketCnt ∧
    args.maxBurst ≤ args.rgxStatsHistogramBucketCnt * args.rgxStatsHistogramBucketSize

/-- What holds at the end of every iteration when the buckets cover every burst. -/
structure Accounted (w : Worker args M) : Prop where
  inv : Inv w
  enq : w.stats.total .enqBurstPktsCnt = UInt64.ofNat (accepted w.log)
  deq : w.stats.total .deqBurstPktCnt = UInt64.ofNat (dequeued w.log)
  inFlight : w.inFlight.length + dequeued w.log = accepted w.log

theorem Accounted.init (args : AppArgs) (mem : M → PktData) :
    Accounted (Worker.init args mem) where
  inv := Inv.init mem
  enq := StatsArray.total_init _ _
  deq := StatsArray.total_init _ _
  inFlight := rfl

theorem Accounted.counted {w : Worker args M} (h : Accounted w) : w.Counted where
  enq := h.enq
  deq := h.deq
  inFlight := by
    rw [h.enq, h.deq, ← h.inFlight, UInt64.ofNat_add]
    exact UInt64.add_sub_cancel _ _

/-- With the regex device. -/
theorem Accounted.body_regex {ticksPerUs : UInt64} {w w' : Worker args M} {t : Turn M}
    (h : Accounted w) (hcovers : args.Covers) (ht : BurstContract .regex w t)
    (hbody : w.body ticksPerUs .regex t = some w') : Accounted w' := by
  have hinv := h.inv.afterEnqueue ht.toDpdkContract
  have hsub := ht.dqd_inFlight rfl
  obtain ⟨hacc, hdeq, hflight, htotalDeq, htotalEnq⟩ :=
    afterEnqueue_counts h.inv ht.toDpdkContract
  obtain ⟨hacc', hdeq', hflight', htotalEnq', hpos, hzero⟩ :=
    rgxDequeue_counts hinv ht.dqd_le hsub hbody
  have hfound : ∀ n, n ≤ args.maxBurst → statsI args n ≤ args.rgxStatsHistogramBucketCnt :=
    fun n hn => (statsI_le_iff hcovers.1).mpr (hn.trans hcovers.2)
  have hcounted := h.inFlight
  refine ⟨hinv.rgxDequeue ht.dqd_le hsub hbody, ?_, ?_, ?_⟩
  · rw [htotalEnq', htotalEnq, hacc', hacc, if_pos (hfound _ (ht.enqd_le.trans ht.rx_le_maxBurst)),
      h.enq, UInt64.ofNat_add]
  · rw [hdeq', hdeq, UInt64.ofNat_add, ← h.deq, ← htotalDeq]
    rcases Nat.eq_zero_or_pos t.rgxDqd.length with heq | hlt
    · rw [hzero heq, heq]
      exact (add_zero _).symm
    · rw [hpos hlt, if_pos (hfound _ ht.dqd_le_maxBurst)]
  · omega

/-- Without the regex device nothing goes there. -/
theorem Accounted.body_other {ticksPerUs : UInt64} {engine : Engine} {w w' : Worker args M}
    {t : Turn M} (h : Accounted w) (hengine : engine ≠ .regex) (hinv : Inv w')
    (hbody : w.body ticksPerUs engine t = some w') : Accounted w' := by
  have hlog : ∀ v : Worker args M, v.stats = w.stats → v.inFlight = w.inFlight →
      v.log = (w.receive t).log ++ forwardOrFreePkts args t.pktsBurst t.nbTx → Inv v →
      Accounted v := by
    intro v hstats hflight hvlog hvinv
    obtain ⟨hacc, hdeq⟩ := forwardOrFreePkts_device args (w.receive t).log t.pktsBurst t.nbTx
    have hacc' : accepted v.log = accepted w.log := by
      rw [hvlog, hacc, Worker.receive, accepted_append_moves]
      simp
    have hdeq' : dequeued v.log = dequeued w.log := by
      rw [hvlog, hdeq, Worker.receive, dequeued_append_moves]
      simp
    refine ⟨hvinv, ?_, ?_, ?_⟩
    · rw [hstats, hacc', h.enq]
    · rw [hstats, hdeq', h.deq]
    · rw [hflight, hacc', hdeq', h.inFlight]
  cases engine with
  | none =>
    obtain rfl := Option.some.inj hbody
    exact hlog _ rfl rfl rfl hinv
  | hyperscan =>
    obtain ⟨hsStats, -, rfl⟩ := Option.map_eq_some_iff.mp hbody
    exact hlog _ rfl rfl rfl hinv
  | regex => exact absurd rfl hengine

/-- What one iteration counts is what it enqueued and dequeued. -/
theorem Accounted.iteration {ticksPerUs : UInt64} {engine : Engine} {w w' : Worker args M}
    {t : Turn M} (h : Accounted w) (hcovers : engine = .regex → args.Covers)
    (ht : BurstContract engine w t) (hstep : w.iteration ticksPerUs engine t = some w') :
    Accounted w' := by
  have hinv := h.inv.iteration ht.toDpdkContract hstep
  obtain ⟨v, hv, rfl⟩ := Option.map_eq_some_iff.mp hstep
  have hvinv : Inv v := ⟨hinv.books, hinv.ops_length⟩
  have hv' : Accounted v := by
    by_cases hengine : engine = .regex
    · subst hengine
      exact h.body_regex (hcovers rfl) ht hv
    · exact h.body_other hengine hvinv hv
  exact ⟨hinv, hv'.enq, hv'.deq, hv'.inFlight⟩

/-- Every run after a successful `worker_init`. -/
theorem BurstReachable.accounted {ticksPerUs : UInt64} {engine : Engine} {w : Worker args M}
    (hcovers : args.rgxStatsHistogramBucketCnt = 0 ∨ args.Covers)
    (h : BurstReachable ticksPerUs engine w) : Accounted w ∧
      (engine = .regex → args.rgxStatsHistogramBucketCnt ≠ 0) := by
  induction h with
  | init mem hw =>
    rw [workerInit] at hw
    split at hw
    · cases hw
    · rename_i hne
      obtain rfl := Option.some.inj hw
      exact ⟨Accounted.init args mem, fun hengine hcnt => hne ⟨hengine, hcnt⟩⟩
  | step _ ht hstep ih =>
    refine ⟨ih.1.iteration (fun hengine => ?_) ht hstep, ih.2⟩
    exact hcovers.resolve_left (ih.2 hengine)

/-! ## A burst without a bucket -/

/-- A turn that receives `n` packets, all of which the device accepts. -/
def acceptedTurn (n : ℕ) : Turn ℕ where
  loopStartTs := 0
  rx := (List.range n).map fun m => ⟨m, [], [], 1, ⟨true, 0, 0, 0⟩⟩
  rgxEnqd := n
  rgxDqd := []
  nbTx := 0
  loopEndTs := 0

theorem acceptedTurn_pktsBurst (n : ℕ) : (acceptedTurn n).pktsBurst = List.range n := by
  rw [Turn.pktsBurst, acceptedTurn, List.map_map]
  exact List.map_id _

theorem acceptedTurn_contract {n : ℕ} (hn : n ≤ args.maxBurst) (mem : ℕ → PktData) :
    BurstContract .regex (Worker.init args mem) (acceptedTurn n) := by
  have hburst := acceptedTurn_pktsBurst n
  have hlen : (acceptedTurn n).rx.length = n := by simp [acceptedTurn]
  have hle : args.maxBurst ≤ args.portBurstSize := Nat.mod_le _ _
  refine ⟨⟨?_, ?_, ?_, ?_, ?_, ?_, ?_⟩, ?_, ?_⟩
  · omega
  · rw [hburst]
    exact List.nodup_range
  · intro m _ hm
    cases hm
  · exact hlen.ge
  · exact Nat.zero_le _
  · exact fun _ => List.nil_subperm
  · exact Nat.zero_le _
  · omega
  · exact Nat.zero_le _

/-- A burst that the buckets do not cover is not counted. -/
theorem not_counted_of_lt {n : ℕ} (hcnt : 0 < args.rgxStatsHistogramBucketCnt)
    (hn : n ≤ args.maxBurst)
    (hlt : args.rgxStatsHistogramBucketCnt * args.rgxStatsHistogramBucketSize < n) :
    ∃ w : Worker args ℕ, BurstReachable 1 .regex w ∧ ¬ w.Counted := by
  let mem : ℕ → PktData := fun _ => ⟨[], [], 0⟩
  have hcontract := acceptedTurn_contract hn mem
  have hinit : workerInit args .regex mem = some (Worker.init args mem) := by
    rw [workerInit, if_neg fun hand => absurd hand.2 hcnt.ne']
  obtain ⟨hacc, -, -, -, htotal⟩ :=
    afterEnqueue_counts (Inv.init mem) hcontract.toDpdkContract
  have hnone : ¬ statsI args n ≤ args.rgxStatsHistogramBucketCnt := by
    rw [statsI_le_iff hcnt]
    omega
  refine ⟨_, .step (.init mem hinit) hcontract rfl, fun hcounted => ?_⟩
  have henq : ((Worker.init args mem).afterEnqueue (acceptedTurn n)).stats.total .enqBurstPktsCnt =
      UInt64.ofNat (accepted ((Worker.init args mem).afterEnqueue (acceptedTurn n)).log) :=
    hcounted.enq
  have hzero : (Worker.init args mem).stats.total .enqBurstPktsCnt = 0 :=
    StatsArray.total_init _ _
  have haccepted : accepted (Worker.init args mem).log = 0 := rfl
  rw [htotal, hacc, hzero, haccepted, show (acceptedTurn n).rgxEnqd = n from rfl, if_neg hnone,
    zero_add, zero_add] at henq
  -- `n` is below `2 ^ 16`, so it is not zero as a counter either
  have hlt16 : args.maxBurst < 2 ^ 16 := Nat.mod_lt _ (by decide)
  have hnat := congrArg UInt64.toNat henq
  rw [UInt64.toNat_ofNat_of_lt' (by show n < 18446744073709551616; omega)] at hnat
  have : (0 : UInt64).toNat = 0 := rfl
  omega

/-- The histogram accounts for every packet in every run exactly when the bucket size is not zero
and either there is no bucket, so that no worker starts with the device, or the buckets cover
every burst. -/
theorem histogramLossless_iff (args : AppArgs) :
    HistogramLossless args ↔
      args.rgxStatsHistogramBucketSize ≠ 0 ∧
        (args.portBurstSize < args.rgxStatsHistogramBucketSize ∨
          args.portBurstSize % 2 ^ 16 ≤
            args.portBurstSize / args.rgxStatsHistogramBucketSize
              * args.rgxStatsHistogramBucketSize) := by
  constructor
  · intro ⟨hsome, hall⟩
    have hsize : args.rgxStatsHistogramBucketSize ≠ 0 := by
      intro hzero
      rw [argsParseBucketCnt, if_pos hzero] at hsome
      cases hsome
    refine ⟨hsize, ?_⟩
    by_contra hneither
    rw [not_or, not_lt, not_le] at hneither
    have hcnt : 0 < args.rgxStatsHistogramBucketCnt :=
      Nat.div_pos hneither.1 (Nat.pos_of_ne_zero hsize)
    obtain ⟨w, hreach, hnot⟩ := not_counted_of_lt hcnt (le_refl _) hneither.2
    exact hnot (hall 1 .regex w hreach)
  · intro ⟨hsize, hcase⟩
    refine ⟨by rw [argsParseBucketCnt, if_neg hsize]; rfl, fun ticksPerUs engine w hreach => ?_⟩
    refine (hreach.accounted ?_).1.counted
    rcases Nat.eq_zero_or_pos args.rgxStatsHistogramBucketCnt with hzero | hpos
    · left
      exact hzero
    · right
      refine ⟨hpos, hcase.resolve_left fun hlt => ?_⟩
      have hdiv : args.rgxStatsHistogramBucketCnt = 0 := Nat.div_eq_of_lt hlt
      omega

/-- Buckets of five for bursts of up to 64: a burst of more than 60 packets is not counted. -/
theorem not_histogramLossless_bucketsOfFive :
    ¬ HistogramLossless { gAppArgs 0 with rgxStatsHistogramBucketSize := 5 } := by
  intro ⟨_, hall⟩
  have hburst : ∃ w : Worker { gAppArgs 0 with rgxStatsHistogramBucketSize := 5 } ℕ,
      BurstReachable 1 .regex w ∧ ¬ w.Counted :=
    not_counted_of_lt (by decide) (le_refl _) (by decide)
  obtain ⟨w, hreach, hnot⟩ := hburst
  exact hnot (hall 1 .regex w hreach)

end RegexTest
end PamoRxpBench
