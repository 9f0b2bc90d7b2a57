import PamoRxpBench.RegexTest.Worker

/-!
# Packet ownership in the worker

Every mbuf a worker receives is, at the end of every loop iteration, freed once, or handed to
transmit once, or in the regex device, and nothing is released twice or while in the device.

The argument keeps *books*: the log so far replays, and the three ghost lists say who holds
what. Each call of the loop is one bulk hand-over, so there is one lemma for each kind of
call (`Books.receive`, `Books.enqueue`, `Books.dequeue`, `Books.release`); an iteration is a
chain of them that starts and ends with nothing left in the worker's hands.
-/

namespace PamoRxpBench
namespace RegexTest

open Custody

variable {M : Type} [DecidableEq M] {args : AppArgs}

/-! ## The protocol of hand-overs -/

/-- The hand-overs the worker's calls can make. -/
def allowed : Holder → Holder → Bool
  | .nic, .worker => true
  | .worker, .device => true
  | .device, .worker => true
  | .worker, .pool => true
  | .worker, .wire => true
  | _, _ => false

/-- The log so far, with what the worker has in hand in the middle of an iteration. -/
structure Books (received inFlight inHand : List M) (log : List (Transfer M Holder)) : Prop where
  replays : ∃ held, replay (fun _ => Holder.nic) log = some held ∧
    (∀ m, held m = .nic ↔ m ∉ received) ∧
    (∀ m, held m = .device ↔ m ∈ inFlight) ∧
    (∀ m, held m = .worker ↔ m ∈ inHand)
  inFlight_nodup : inFlight.Nodup
  allowed : ∀ t ∈ log, allowed t.source t.target = true

/-- Appending one allowed bulk hand-over to a log that replays. -/
theorem replay_append_moves {held : M → Holder} {log : List (Transfer M Holder)}
    {src dst : Holder} {ms : List M}
    (hlog : replay (fun _ => Holder.nic) log = some held) (hms : ms.Nodup)
    (hsrc : ∀ m ∈ ms, held m = src) :
    replay (fun _ => Holder.nic) (log ++ moves src dst ms)
      = some fun m => if m ∈ ms then dst else held m := by
  rw [replay_append, hlog, Option.bind_some]
  exact replay_moves hms held hsrc

omit [DecidableEq M] in
theorem allowed_append_moves {log : List (Transfer M Holder)} {src dst : Holder} {ms : List M}
    (hlog : ∀ t ∈ log, allowed t.source t.target = true) (h : allowed src dst = true) :
    ∀ t ∈ log ++ moves src dst ms, allowed t.source t.target = true := by
  intro t ht
  rcases List.mem_append.mp ht with ht | ht
  · exact hlog t ht
  · obtain ⟨m, -, rfl⟩ := List.mem_map.mp ht
    exact h

omit [DecidableEq M] in
theorem nodup_of_subperm {ms inFlight : List M} (hnd : inFlight.Nodup)
    (hsub : ms.Subperm inFlight) : ms.Nodup := by
  obtain ⟨l, hperm, hl⟩ := hsub
  exact hperm.nodup_iff.mp (hnd.sublist hl)

theorem Books.init : Books ([] : List M) [] [] [] where
  replays := ⟨_, rfl, by simp, by simp, by simp⟩
  inFlight_nodup := List.nodup_nil
  allowed := by simp

/-- `rte_eth_rx_burst`: fresh mbufs come into the worker's hands. -/
theorem Books.receive {received inFlight ms : List M} {log : List (Transfer M Holder)}
    (b : Books received inFlight [] log) (hms : ms.Nodup) (hfresh : ∀ m ∈ ms, m ∉ received) :
    Books (received ++ ms) inFlight ms (log ++ moves .nic .worker ms) := by
  obtain ⟨held, hr, hnic, hdev, hwrk⟩ := b.replays
  have hsrc : ∀ m ∈ ms, held m = .nic := fun m hm => (hnic m).mpr (hfresh m hm)
  refine ⟨⟨_, replay_append_moves hr hms hsrc, fun m => ?_, fun m => ?_, fun m => ?_⟩,
    b.inFlight_nodup, allowed_append_moves b.allowed rfl⟩
  · rw [moved_source_iff (by decide), hnic, List.mem_append, not_or]
  · rw [moved_other_iff hsrc (by decide), hdev]
  · rw [moved_target_iff, hwrk, or_iff_left List.not_mem_nil]

omit [DecidableEq M] in
/-- What is left in hand when the first of the packets are handed on. -/
theorem mem_append_and_not_mem_iff {ms rest : List M} (hnd : (ms ++ rest).Nodup) (m : M) :
    m ∈ ms ++ rest ∧ m ∉ ms ↔ m ∈ rest := by
  rw [List.mem_append]
  constructor
  · intro h
    exact h.1.resolve_left h.2
  · intro hm
    exact ⟨Or.inr hm, fun hm' => List.disjoint_of_nodup_append hnd hm' hm⟩

/-- `rte_regexdev_enqueue_burst`: a prefix of what the worker has in hand goes to the
device. -/
theorem Books.enqueue (ms rest : List M) {received inFlight : List M}
    {log : List (Transfer M Holder)} (b : Books received inFlight (ms ++ rest) log)
    (hnd : (ms ++ rest).Nodup) :
    Books received (inFlight ++ ms) rest (log ++ moves .worker .device ms) := by
  obtain ⟨held, hr, hnic, hdev, hwrk⟩ := b.replays
  have hms : ms.Nodup := hnd.of_append_left
  have hsrc : ∀ m ∈ ms, held m = .worker := fun m hm =>
    (hwrk m).mpr (List.mem_append_left _ hm)
  have hnew : ∀ m ∈ ms, m ∉ inFlight := by
    intro m hm h
    have hheld := (hdev m).mpr h
    rw [hsrc m hm] at hheld
    cases hheld
  refine ⟨⟨_, replay_append_moves hr hms hsrc, fun m => ?_, fun m => ?_, fun m => ?_⟩, ?_,
    allowed_append_moves b.allowed rfl⟩
  · rw [moved_other_iff hsrc (by decide), hnic]
  · rw [moved_target_iff, hdev, List.mem_append, or_comm]
  · rw [moved_source_iff (by decide), hwrk, mem_append_and_not_mem_iff hnd]
  · exact b.inFlight_nodup.append hms fun m hm hm' => hnew m hm' hm

/-- `rte_regexdev_dequeue_burst`: mbufs come back from the device, in any order. -/
theorem Books.dequeue {received inFlight ms : List M} {log : List (Transfer M Holder)}
    (b : Books received inFlight [] log) (hsub : ms.Subperm inFlight) :
    Books received (inFlight.diff ms) ms (log ++ moves .device .worker ms) := by
  obtain ⟨held, hr, hnic, hdev, hwrk⟩ := b.replays
  have hms : ms.Nodup := nodup_of_subperm b.inFlight_nodup hsub
  have hsrc : ∀ m ∈ ms, held m = .device := fun m hm => (hdev m).mpr (hsub.subset hm)
  refine ⟨⟨_, replay_append_moves hr hms hsrc, fun m => ?_, fun m => ?_, fun m => ?_⟩,
    b.inFlight_nodup.diff, allowed_append_moves b.allowed rfl⟩
  · rw [moved_other_iff hsrc (by decide), hnic]
  · rw [moved_source_iff (by decide), hdev, b.inFlight_nodup.mem_sdiff_iff]
  · rw [moved_target_iff, hwrk, or_iff_left List.not_mem_nil]

/-- Freeing or transmitting a part of what the worker has in hand. -/
theorem Books.release (ms rest : List M) {received inFlight : List M}
    {log : List (Transfer M Holder)} {dst : Holder} (hdst : dst = .pool ∨ dst = .wire)
    (b : Books received inFlight (ms ++ rest) log) (hnd : (ms ++ rest).Nodup) :
    Books received inFlight rest (log ++ moves .worker dst ms) := by
  obtain ⟨held, hr, hnic, hdev, hwrk⟩ := b.replays
  have hsrc : ∀ m ∈ ms, held m = .worker := fun m hm =>
    (hwrk m).mpr (List.mem_append_left _ hm)
  have hallowed : RegexTest.allowed .worker dst = true := by
    rcases hdst with rfl | rfl <;> rfl
  have hout : dst ≠ .nic ∧ dst ≠ .device ∧ dst ≠ .worker := by
    rcases hdst with rfl | rfl <;> decide
  refine ⟨⟨_, replay_append_moves hr hnd.of_append_left hsrc, fun m => ?_, fun m => ?_,
    fun m => ?_⟩, b.inFlight_nodup, allowed_append_moves b.allowed hallowed⟩
  · rw [moved_other_iff hsrc ⟨by decide, hout.1⟩, hnic]
  · rw [moved_other_iff hsrc ⟨by decide, hout.2.1⟩, hdev]
  · rw [moved_source_iff hout.2.2, hwrk, mem_append_and_not_mem_iff hnd]

/-- `forward_or_free_pkts` leaves nothing in the worker's hands, whatever the port takes. -/
theorem Books.forwardOrFree {received inFlight ms : List M} {log : List (Transfer M Holder)}
    (b : Books received inFlight ms log) (hms : ms.Nodup) (nbTx : ℕ) :
    Books received inFlight [] (log ++ forwardOrFreePkts args ms nbTx) := by
  have hsplit : ms.take nbTx ++ ms.drop nbTx = ms := List.take_append_drop _ _
  unfold forwardOrFreePkts
  split
  · have b1 : Books received inFlight (ms.drop nbTx)
        (log ++ moves .worker .wire (ms.take nbTx)) :=
      Books.release _ _ (Or.inr rfl) (by rwa [hsplit]) (by rwa [hsplit])
    have b2 := Books.release (ms.drop nbTx) [] (Or.inl rfl)
      (by rwa [List.append_nil])
      (by rw [List.append_nil]; exact hms.sublist (List.drop_sublist _ _))
    rwa [List.append_assoc] at b2
  · exact Books.release ms [] (Or.inl rfl) (by rwa [List.append_nil])
      (by rwa [List.append_nil])

/-! ## The array of ops -/

omit [DecidableEq M] in
/-- The packet loop points the first ops of the array at the packets of the burst. -/
theorem prepareOps_userPtr (ops : List (RegexOp M)) (rx : List (RxPkt M)) (selector k : ℕ)
    (hrx : rx.length ≤ ops.length) (hk : k ≤ rx.length) :
    ((prepareOps args ops rx selector).1.take k).filterMap RegexOp.userPtr
      = (rx.map RxPkt.mbuf).take k := by
  induction rx generalizing ops selector k with
  | nil =>
    obtain rfl : k = 0 := Nat.le_zero.mp hk
    simp
  | cons p ps ih =>
    cases ops with
    | nil => simp at hrx
    | cons op ops =>
      cases k with
      | zero => simp
      | succ k =>
        simp only [prepareOps, List.take_succ_cons, List.filterMap_cons, List.map_cons]
        rw [ih ops _ k (by simpa using hrx) (by simpa using hk)]

omit [DecidableEq M] in
theorem length_prepareOps (ops : List (RegexOp M)) (rx : List (RxPkt M)) (selector : ℕ) :
    (prepareOps args ops rx selector).1.length = ops.length := by
  induction rx generalizing ops selector with
  | nil => cases ops <;> rfl
  | cons p ps ih =>
    cases ops with
    | nil => rfl
    | cons op ops => simp only [prepareOps, List.length_cons, ih]

omit [DecidableEq M] in
theorem length_fillOps (ops : List (RegexOp M)) (cs : List (Completion M)) :
    (fillOps ops cs).length = ops.length := by
  induction cs generalizing ops with
  | nil => cases ops <;> rfl
  | cons c cs ih =>
    cases ops with
    | nil => rfl
    | cons op ops => simp only [fillOps, List.length_cons, ih]

omit [DecidableEq M] in
/-- The dequeue loop collects exactly the packets the device returned: it never reads an
entry that is left over from the enqueue. -/
theorem readOps_fillOps {ticksPerUs : UInt64} {mem : M → PktData} {ops : List (RegexOp M)}
    {cs : List (Completion M)} {pkts : List (M × Dequeued)} (hcs : cs.length ≤ ops.length)
    (h : readOps ticksPerUs mem (fillOps ops cs) cs = some pkts) :
    pkts.map Prod.fst = cs.map Completion.userPtr := by
  induction cs generalizing ops pkts with
  | nil =>
    have hnil : readOps ticksPerUs mem (fillOps ops []) [] = some [] := by
      cases ops <;> rfl
    obtain rfl : [] = pkts := Option.some.inj (hnil.symm.trans h)
    rfl
  | cons c cs ih =>
    cases ops with
    | nil => simp at hcs
    | cons op ops =>
      simp only [fillOps, readOps] at h
      split at h
      · cases h
      · split at h
        · cases h
        · obtain ⟨rest, hrest, rfl⟩ := Option.map_eq_some_iff.mp h
          simp only [List.map_cons, ih (by simpa using hcs) hrest]

/-! ## One iteration keeps the books -/

/-- What holds at the end of every iteration. -/
structure Inv (w : Worker args M) : Prop where
  books : Books w.received w.inFlight [] w.log
  ops_length : w.ops.length = args.portBurstSize

theorem Inv.init (mem : M → PktData) : Inv (Worker.init args mem) where
  books := Books.init
  ops_length := List.length_replicate

/-- Books after the receive. -/
theorem Inv.receive {engine : Engine} {w : Worker args M} {t : Turn M} (hw : Inv w)
    (ht : DpdkContract engine w t) :
    Books (w.receive t).received (w.receive t).inFlight t.pktsBurst (w.receive t).log :=
  hw.books.receive ht.rx_distinct ht.rx_fresh

/-- The enqueue hands a prefix of the burst to the device and frees the rest. -/
theorem Inv.afterEnqueue {engine : Engine} {w : Worker args M} {t : Turn M} (hw : Inv w)
    (ht : DpdkContract engine w t) : Inv (w.afterEnqueue t) := by
  have b := hw.receive ht
  unfold Worker.afterEnqueue
  split
  · have hacc : ((prepareOps args w.ops t.rx w.group0Selector).1.take t.rgxEnqd).filterMap
        RegexOp.userPtr = t.pktsBurst.take t.rgxEnqd :=
      prepareOps_userPtr w.ops t.rx _ _ (by rw [hw.ops_length]; exact ht.rx_le) ht.enqd_le
    have hsplit : t.pktsBurst.take t.rgxEnqd ++ t.pktsBurst.drop t.rgxEnqd = t.pktsBurst :=
      List.take_append_drop _ _
    have b1 := Books.enqueue (t.pktsBurst.take t.rgxEnqd) (t.pktsBurst.drop t.rgxEnqd)
      (by rwa [hsplit])
      (by rw [hsplit]; exact ht.rx_distinct)
    have b2 := Books.release (t.pktsBurst.drop t.rgxEnqd) [] (Or.inl rfl)
      (by rwa [List.append_nil])
      (by rw [List.append_nil]; exact ht.rx_distinct.sublist (List.drop_sublist _ _))
    refine ⟨?_, ?_⟩
    · simp only [Worker.rgxEnqueue, Worker.receive, hacc]
      exact b2
    · simp only [Worker.rgxEnqueue, Worker.receive, length_prepareOps]
      exact hw.ops_length
  · rename_i hrx
    have hnil : t.rx = [] := List.eq_nil_of_length_eq_zero (by omega)
    have hburst : t.pktsBurst = [] := by rw [Turn.pktsBurst, hnil]; rfl
    exact ⟨by rw [hburst] at b; exact b, hw.ops_length⟩

/-- The dequeue takes packets back from the device and releases every one of them. -/
theorem Inv.rgxDequeue {ticksPerUs : UInt64} {w w' : Worker args M} {t : Turn M} (hw : Inv w)
    (hdqd : t.rgxDqd.length ≤ args.portBurstSize) (hsub : t.returned.Subperm w.inFlight)
    (h : w.rgxDequeue ticksPerUs t = some w') : Inv w' := by
  unfold Worker.rgxDequeue at h
  split at h
  · obtain ⟨pkts, hpkts, rfl⟩ := Option.map_eq_some_iff.mp h
    have hfst : pkts.map Prod.fst = t.returned :=
      readOps_fillOps (by rw [hw.ops_length]; exact hdqd) hpkts
    have b := hw.books.dequeue hsub
    have hnd : t.returned.Nodup := nodup_of_subperm hw.books.inFlight_nodup hsub
    refine ⟨?_, by simpa only [length_fillOps] using hw.ops_length⟩
    simp only [hfst]
    exact b.forwardOrFree hnd t.nbTx
  · obtain rfl := Option.some.inj h
    exact hw

/-- One iteration, whichever engine is enabled. -/
theorem Inv.iteration {ticksPerUs : UInt64} {engine : Engine} {w w' : Worker args M} {t : Turn M}
    (hw : Inv w) (ht : DpdkContract engine w t)
    (h : w.iteration ticksPerUs engine t = some w') : Inv w' := by
  obtain ⟨v, hv, rfl⟩ := Option.map_eq_some_iff.mp h
  suffices hinv : Inv v from ⟨hinv.books, hinv.ops_length⟩
  cases engine with
  | none =>
    obtain rfl := Option.some.inj hv
    exact ⟨(hw.receive ht).forwardOrFree ht.rx_distinct t.nbTx, hw.ops_length⟩
  | hyperscan =>
    obtain ⟨hsStats, -, rfl⟩ := Option.map_eq_some_iff.mp hv
    exact ⟨(hw.receive ht).forwardOrFree ht.rx_distinct t.nbTx, hw.ops_length⟩
  | regex =>
    exact (hw.afterEnqueue ht).rgxDequeue ht.dqd_le (ht.dqd_inFlight rfl) hv

theorem Reachable.inv {ticksPerUs : UInt64} {engine : Engine} {w : Worker args M}
    (h : Reachable ticksPerUs engine w) : Inv w := by
  induction h with
  | init mem => exact Inv.init mem
  | step _ ht hstep ih => exact ih.iteration ht hstep

/-! ## Exactly one of three states -/

/-- How often `m` was freed. -/
def timesFreed (m : M) (log : List (Transfer M Holder)) : ℕ := arrivals .pool m log

/-- How often `m` was handed to transmit. -/
def timesSent (m : M) (log : List (Transfer M Holder)) : ℕ := arrivals .wire m log

/-- `m` went to the device and has not come back. -/
def InDevice (m : M) (log : List (Transfer M Holder)) : Prop :=
  departures .device m log < arrivals .device m log

/-- Freed exactly once, or handed to transmit exactly once, or in flight. -/
inductive Settled (w : Worker args M) (m : M) : Prop
  | freed (hf : timesFreed m w.log = 1) (hs : timesSent m w.log = 0) (hd : m ∉ w.inFlight)
  | sent (hf : timesFreed m w.log = 0) (hs : timesSent m w.log = 1) (hd : m ∉ w.inFlight)
  | inFlight (hf : timesFreed m w.log = 0) (hs : timesSent m w.log = 0)
      (hd : w.inFlight.count m = 1)

/-- No hand-over leaves the pool or the wire. -/
theorem departures_of_allowed {log : List (Transfer M Holder)}
    (hlog : ∀ t ∈ log, allowed t.source t.target = true) {h : Holder}
    (hh : h = .pool ∨ h = .wire) (m : M) : departures h m log = 0 := by
  rw [departures, List.countP_eq_zero]
  intro t ht hc
  have hal := hlog t ht
  obtain ⟨-, hsrc⟩ : t.token = m ∧ t.source = h := by simpa using hc
  rcases hh with rfl | rfl <;> rw [hsrc] at hal <;> cases htar : t.target <;>
    rw [htar] at hal <;> cases hal

/-- What reached the pool or the wire did so once, and is still there. -/
theorem arrivals_of_allowed {held : M → Holder} {log : List (Transfer M Holder)}
    (hlog : ∀ t ∈ log, allowed t.source t.target = true)
    (hr : replay (fun _ => Holder.nic) log = some held) {h : Holder}
    (hh : h = .pool ∨ h = .wire) (m : M) :
    arrivals h m log = if held m = h then 1 else 0 :=
  arrivals_of_sink hr (by rcases hh with rfl | rfl <;> decide) (departures_of_allowed hlog hh m)

/-- Between two iterations every packet that was received is settled. -/
theorem Inv.settled {w : Worker args M} (hw : Inv w) {m : M} (hm : m ∈ w.received) :
    Settled w m := by
  obtain ⟨held, hr, hnic, hdev, hwrk⟩ := hw.books.replays
  have hf : timesFreed m w.log = if held m = .pool then 1 else 0 :=
    arrivals_of_allowed hw.books.allowed hr (Or.inl rfl) m
  have hs : timesSent m w.log = if held m = .wire then 1 else 0 :=
    arrivals_of_allowed hw.books.allowed hr (Or.inr rfl) m
  have hd := hdev m
  cases hheld : held m with
  | nic => exact absurd hm ((hnic m).mp hheld)
  | worker => exact absurd ((hwrk m).mp hheld) List.not_mem_nil
  | device =>
    rw [hheld] at hf hs
    exact .inFlight hf hs (List.count_eq_one_of_mem hw.books.inFlight_nodup (hd.mp hheld))
  | pool =>
    rw [hheld] at hf hs hd
    exact .freed hf hs (by simpa using hd)
  | wire =>
    rw [hheld] at hf hs hd
    exact .sent hf hs (by simpa using hd)

/-- At the moment of a release the mbuf was not released before and is not in the device. -/
theorem Inv.release_once {w : Worker args M} (hw : Inv w) {before after : List (Transfer M Holder)}
    {t : Transfer M Holder} (hlog : w.log = before ++ t :: after)
    (ht : t.target = .pool ∨ t.target = .wire) :
    timesFreed t.token before = 0 ∧ timesSent t.token before = 0 ∧ ¬ InDevice t.token before := by
  obtain ⟨held, hr, -⟩ := hw.books.replays
  have hall := hw.books.allowed
  rw [hlog] at hr hall
  obtain ⟨mid, hmid, hpost⟩ := replay_prefix hr
  have hbefore : ∀ x ∈ before, allowed x.source x.target = true := fun x hx =>
    hall x (List.mem_append_left _ hx)
  -- only the worker releases, and the log replays, so the worker holds the mbuf
  have hsrc : t.source = .worker := by
    have hal := hall t (by simp)
    rcases ht with ht | ht <;> rw [ht] at hal <;> cases hs : t.source <;> rw [hs] at hal <;>
      first | rfl | cases hal
  have hheld : mid t.token = .worker := by
    obtain ⟨next, hnext, -⟩ := Option.bind_eq_some_iff.mp
      (show (t.post mid).bind _ = _ from hpost)
    rw [← hsrc]
    by_contra hne
    rw [Transfer.post, if_neg hne] at hnext
    cases hnext
  refine ⟨?_, ?_, ?_⟩
  · rw [timesFreed, arrivals_of_allowed hbefore hmid (Or.inl rfl), hheld]; rfl
  · rw [timesSent, arrivals_of_allowed hbefore hmid (Or.inr rfl), hheld]; rfl
  · have hb := balance .device t.token hmid
    rw [hheld, if_neg (by decide), if_neg (by decide)] at hb
    rw [InDevice]
    omega

/-- **Packet ownership is conserved.** At the end of every iteration of every run, each mbuf
received so far was freed exactly once, or handed to transmit exactly once, or is in flight
in the device; and no mbuf was ever released twice or while in the device. -/
theorem workerRxPkts_conserves {ticksPerUs : UInt64} {engine : Engine} {w : Worker args M}
    (h : Reachable ticksPerUs engine w) :
    (∀ m ∈ w.received, Settled w m) ∧
    ∀ before t after, w.log = before ++ t :: after → t.target = .pool ∨ t.target = .wire →
      timesFreed t.token before = 0 ∧ timesSent t.token before = 0
        ∧ ¬ InDevice t.token before :=
  ⟨fun _ hm => h.inv.settled hm, fun _ _ _ hlog ht => h.inv.release_once hlog ht⟩

/-- Two turns with the regex device: of three packets two are accepted and one is freed,
then a fourth is accepted and the second comes back first and is transmitted. -/
theorem workerRxPkts_conserves_twoTurns :
    ∃ w : Worker ⟨true, false, true, 1, 4, 1, 64, 1⟩ ℕ,
      w.received = [1, 2, 3, 4] ∧ w.inFlight = [1, 4] ∧ timesFreed 3 w.log = 1
        ∧ timesSent 2 w.log = 1 ∧ ∀ m ∈ w.received, Settled w m := by
  refine ⟨_, rfl, rfl, rfl, rfl, (@workerRxPkts_conserves ℕ _ _ 1 .regex _
    (.step (t := ⟨0, [⟨4, [], [], 7, ⟨true, 0, 0, 0⟩⟩], 1, [⟨2, 0, 9⟩], 1, 0⟩)
      (.step (t := ⟨0, [⟨1, [], [], 7, ⟨true, 0, 0, 0⟩⟩, ⟨2, [], [], 7, ⟨true, 0, 0, 0⟩⟩,
          ⟨3, [], [], 7, ⟨true, 0, 0, 0⟩⟩], 2, [], 0, 0⟩)
        (.init fun _ => ⟨[], [], 0⟩) ?_ rfl) ?_ rfl)).1⟩
  · exact ⟨by decide, by decide, by decide, by decide, by decide, fun _ => by decide, by decide⟩
  · exact ⟨by decide, by decide, by decide, by decide, by decide, fun _ => by decide, by decide⟩

end RegexTest
end PamoRxpBench
