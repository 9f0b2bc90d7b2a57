import PamoRxpBench.Doca.RegexScan

/-!
# What `regex_scan` gives to the device

One job is in flight at a time, so the jobs are the chunks of the data buffer in their order, each
retrieved once (`regexScan_scansAll`). But a match is terminated in the data buffer before the next
chunk is submitted: a match that ends with its chunk overwrites the first byte of the next one
(`regexScan_submitted`), and one that ends with the data is terminated behind the buffer.
-/

namespace PamoRxpBench
namespace Doca

open Chunks

/-! ## The data buffer -/

/-- The data buffer with a zero at each of the places. -/
def clear (buffer : List UInt8) (ends : List ℕ) : List UInt8 :=
  ends.foldl (fun buffer i => buffer.set i 0) buffer

theorem length_clear (buffer : List UInt8) (ends : List ℕ) :
    (clear buffer ends).length = buffer.length := by
  induction ends generalizing buffer with
  | nil => rfl
  | cons i ends ih =>
    show (clear (buffer.set i 0) ends).length = _
    rw [ih, List.length_set]

/-- Zeros are written at the ends of the matches and nowhere else. -/
theorem getElem?_clear (buffer : List UInt8) (ends : List ℕ) (i : ℕ) :
    (clear buffer ends)[i]? = if i ∈ ends then buffer[i]?.map fun _ => 0 else buffer[i]? := by
  induction ends generalizing buffer with
  | nil => rfl
  | cons j ends ih =>
    show (clear (buffer.set j 0) ends)[i]? = _
    rw [ih, List.getElem?_set']
    by_cases hj : j = i
    · subst hj
      rw [if_pos rfl, if_pos List.mem_cons_self]
      split
      · cases buffer[j]? <;> rfl
      · cases buffer[j]? <;> rfl
    · rw [if_neg hj]
      have hmem : i ∈ j :: ends ↔ i ∈ ends := by
        rw [List.mem_cons, or_iff_right (Ne.symm hj)]
      rw [if_congr hmem rfl rfl]

/-- The places behind the matches of an event. -/
def Event.ends (chunkLen : ℕ) (event : Event) : List ℕ :=
  event.results.map (matchEnd chunkLen event.userData)

/-- What a report changes. -/
theorem reportResults_eq (s : ScanState) (event : Event) :
    s.reportResults event = { s with
      dataBuffer := clear s.dataBuffer (event.ends s.chunkLen)
      outOfBounds := s.outOfBounds +
        (event.ends s.chunkLen).countP fun i => s.dataBuffer.length ≤ i } := by
  unfold ScanState.reportResults Event.ends
  generalize event.userData = userData
  induction event.results generalizing s with
  | nil => rfl
  | cons m results ih =>
    rw [List.foldl_cons, ih, List.map_cons, List.countP_cons]
    simp only [ScanState.reportMatch, List.length_set]
    congr 1
    by_cases hlast : matchEnd s.chunkLen userData m < s.dataBuffer.length
    · rw [if_pos hlast, if_neg (by simpa using hlast)]
      omega
    · rw [if_neg hlast, if_pos (by simpa using hlast)]
      omega

/-! ## The jobs -/

/-- The job for chunk `k`. -/
def jobOf (c : ℕ) (data : List UInt8) (k : ℕ) : Job := ⟨k * c, min c (data.length - k * c), k⟩

/-- A match of chunk `k - 1` ends with the chunk. -/
def endsWithChunk (c : ℕ) (completed : List Event) (k : ℕ) : Bool :=
  completed.any fun event =>
    event.userData + 1 = k && event.results.any fun m => m.matchStart + m.length = c

/-- The bytes that the device is given for chunk `k`: the first one is overwritten if a match ended
with the chunk before. -/
def jobData (c : ℕ) (data : List UInt8) (completed : List Event) (k : ℕ) : List UInt8 :=
  if endsWithChunk c completed k then (chunk c k data).set 0 0 else chunk c k data

/-- What holds between the actions of the loop. -/
structure Inv (data : List UInt8) (s : ScanState) : Prop where
  chunkLen_eq : s.chunkLen = initialChunkLen data.length
  length_eq : s.dataBuffer.length = data.length
  remaining_eq : s.remainingBytes = data.length - s.userData * s.chunkLen
  started : ∀ k, k < s.userData → k * s.chunkLen < data.length
  enqueued_eq : s.nbEnqueued = s.userData
  completed_eq : s.completed.map Event.userData = List.range s.nbDequeued
  /-- Either no job is in flight and the buffer is free, or the last job is. -/
  flight : (s.inFlight = [] ∧ s.nbFree = 1 ∧ s.nbDequeued = s.userData) ∨
    ∃ k, s.userData = k + 1 ∧ s.inFlight = [jobOf s.chunkLen data k] ∧ s.nbFree = 0 ∧
      s.nbDequeued = k
  jobs_eq : s.submitted.map Prod.fst = (List.range s.userData).map (jobOf s.chunkLen data)
  overFreed_eq : s.overFreed = 0

/-- What holds of the bytes, if the matches are in their chunks. -/
structure Bytes (data : List UInt8) (s : ScanState) : Prop where
  submitted_eq : s.submitted = (List.range s.userData).map fun k =>
    (jobOf s.chunkLen data k, jobData s.chunkLen data s.completed k)
  /-- The part of the data buffer that was not submitted. -/
  ahead : ∀ i, s.userData * s.chunkLen ≤ i → s.dataBuffer[i]? =
    if i = s.userData * s.chunkLen ∧ endsWithChunk s.chunkLen s.completed s.userData = true then
      data[i]?.map fun _ => 0
    else data[i]?
  outOfBounds_eq : s.outOfBounds =
    (s.completed.flatMap (Event.ends s.chunkLen)).countP fun i => data.length ≤ i
  ends_le : ∀ i ∈ s.completed.flatMap (Event.ends s.chunkLen), i ≤ data.length

theorem initialChunkLen_pos {n : ℕ} (hn : 0 < n) : 0 < initialChunkLen n := by
  unfold initialChunkLen nbChunks
  split <;> omega

theorem le_nbChunks_mul (n : ℕ) : n ≤ nbChunks * initialChunkLen n := by
  unfold initialChunkLen nbChunks
  split <;> omega

theorem Inv.init {data : List UInt8} (hlen : data.length ≤ 2 ^ 31) :
    Inv data (ScanState.init data) where
  chunkLen_eq := rfl
  length_eq := rfl
  remaining_eq := by
    show data.length % 2 ^ 32 = data.length - 0 * _
    omega
  started := fun _ hk => absurd hk (Nat.not_lt_zero _)
  enqueued_eq := rfl
  completed_eq := rfl
  flight := Or.inl ⟨rfl, rfl, rfl⟩
  jobs_eq := rfl
  overFreed_eq := rfl

theorem Bytes.init (data : List UInt8) : Bytes data (ScanState.init data) where
  submitted_eq := rfl
  ahead := fun _ _ => (if_neg (fun h => Bool.noConfusion h.2)).symm
  outOfBounds_eq := rfl
  ends_le := fun _ hi => absurd hi List.not_mem_nil

/-! ## Submitting -/

theorem Inv.chunkLen_pos {data : List UInt8} {s : ScanState} (h : Inv data s)
    (hpos : 0 < data.length) : 0 < s.chunkLen := by
  rw [h.chunkLen_eq]
  exact initialChunkLen_pos hpos

/-- Up to the events so far no match ended with a chunk that was not retrieved. -/
theorem Inv.endsWithChunk_eq_false {data : List UInt8} {s : ScanState} (h : Inv data s) {k : ℕ}
    (hk : s.nbDequeued < k) : endsWithChunk s.chunkLen s.completed k = false := by
  rw [endsWithChunk, List.any_eq_false]
  intro event hevent hand
  have hmem : event.userData ∈ s.completed.map Event.userData := List.mem_map_of_mem hevent
  rw [h.completed_eq, List.mem_range] at hmem
  rw [Bool.and_eq_true, decide_eq_true_eq] at hand
  omega

/-- The next job is the next chunk. -/
theorem Inv.nextJob_eq {data : List UInt8} {s : ScanState} (h : Inv data s)
    (hlen : data.length ≤ 2 ^ 31) (hrem : s.remainingBytes ≠ 0) :
    s.nextJob = jobOf s.chunkLen data s.userData := by
  have hremaining := h.remaining_eq
  have hoffset : s.dataBuffer.length - s.remainingBytes = s.userData * s.chunkLen := by
    rw [h.length_eq]
    omega
  have hint : int32 (s.userData * s.chunkLen) = s.userData * s.chunkLen := by
    have hlt : s.userData * s.chunkLen < 2 ^ 31 := by omega
    have hmod : s.userData * s.chunkLen % 2 ^ 32 = s.userData * s.chunkLen :=
      Nat.mod_eq_of_lt (by omega)
    rw [int32, hmod, if_pos hlt]
    have hcast : ((s.userData * s.chunkLen : ℕ) : ℤ) % 2 ^ 32 = (s.userData * s.chunkLen : ℕ) :=
      Int.emod_eq_of_lt (by omega) (by omega)
    rw [hcast]
    push_cast
    rfl
  have hsize : (if s.chunkLen < s.remainingBytes then s.chunkLen else s.remainingBytes) =
      min s.chunkLen (data.length - s.userData * s.chunkLen) := by
    rw [← hremaining]
    split <;> omega
  rw [ScanState.nextJob, hoffset, hint, hsize]
  rfl

/-- What is left of the data buffer. -/
theorem Bytes.drop_eq {data : List UInt8} {s : ScanState} (h : Bytes data s) :
    s.dataBuffer.drop (s.userData * s.chunkLen) =
      if endsWithChunk s.chunkLen s.completed s.userData = true then
        (data.drop (s.userData * s.chunkLen)).set 0 0
      else data.drop (s.userData * s.chunkLen) := by
  apply List.ext_getElem?
  intro j
  rw [List.getElem?_drop, h.ahead _ (Nat.le_add_right _ _)]
  by_cases hends : endsWithChunk s.chunkLen s.completed s.userData = true
  · rw [if_pos hends, List.getElem?_set', List.getElem?_drop]
    by_cases hj : 0 = j
    · subst hj
      rw [if_pos ⟨rfl, hends⟩, if_pos rfl]
      rfl
    · rw [if_neg hj, if_neg (by omega)]
  · rw [if_neg hends, if_neg fun hand => hends hand.2, List.getElem?_drop]

theorem jobOf_toNat (c : ℕ) (data : List UInt8) (k : ℕ) :
    (jobOf c data k).readOffset.toNat = k * c := by
  show ((k : ℤ) * c).toNat = _
  rw [← Int.natCast_mul, Int.toNat_natCast]

theorem take_jobSize {c : ℕ} {data : List UInt8} {k : ℕ} {l : List UInt8}
    (hl : l.length = data.length - k * c) : l.take (jobOf c data k).jobSize = l.take c := by
  show l.take (min c (data.length - k * c)) = _
  rw [← hl, ← List.take_eq_take_min]

/-- The device is given the data from the start of the chunk on, as it then is. -/
theorem Bytes.jobBytes_eq {data : List UInt8} {s : ScanState} (h : Bytes data s)
    (hlength : s.dataBuffer.length = data.length) :
    s.jobBytes (jobOf s.chunkLen data s.userData) =
      jobData s.chunkLen data s.completed s.userData := by
  rw [ScanState.jobBytes, jobOf_toNat, take_jobSize (by rw [List.length_drop, hlength]),
    h.drop_eq, jobData, chunk]
  split
  · rw [List.take_set]
  · rfl

/-- What `regex_scan_enq_job` does. -/
theorem enqJob_cases {s u : ScanState} {t : Turn} (h : s.enqJob t = some u) :
    u = s ∨ (s.remainingBytes ≠ 0 ∧ s.nbFree ≠ 0 ∧ t.bufByAddr = true ∧ t.submit = .success ∧
      u = { s with
        remainingBytes := s.remainingBytes - s.nextJob.jobSize
        userData := s.userData + 1
        nbFree := s.nbFree - 1
        inFlight := s.inFlight ++ [s.nextJob]
        nbEnqueued := s.nbEnqueued + 1
        submitted := s.submitted ++ [(s.nextJob, s.jobBytes s.nextJob)] }) := by
  unfold ScanState.enqJob at h
  by_cases hfree : s.remainingBytes ≠ 0 ∧ s.nbFree ≠ 0
  · rw [if_pos hfree] at h
    cases hbuf : t.bufByAddr with
    | false =>
      rw [hbuf] at h
      exact Or.inl (Option.some.inj h).symm
    | true =>
      rw [hbuf] at h
      cases hsubmit : t.submit with
      | success =>
        rw [hsubmit] at h
        exact Or.inr ⟨hfree.1, hfree.2, rfl, rfl, (Option.some.inj h).symm⟩
      | noMemory =>
        rw [hsubmit] at h
        exact Or.inl (Option.some.inj h).symm
      | failed =>
        rw [hsubmit] at h
        cases h
  · rw [if_neg hfree] at h
    exact Or.inl (Option.some.inj h).symm

/-- Submitting takes the next chunk and the buffer. -/
theorem Inv.enqJob {data : List UInt8} {s u : ScanState} {t : Turn} (h : Inv data s)
    (hlen : data.length ≤ 2 ^ 31) (hu : s.enqJob t = some u) : Inv data u := by
  rcases enqJob_cases hu with rfl | ⟨hrem, hfree, -, -, rfl⟩
  · exact h
  · have hremaining := h.remaining_eq
    have hdequeued : s.inFlight = [] ∧ s.nbFree = 1 ∧ s.nbDequeued = s.userData := by
      rcases h.flight with hidle | ⟨_, _, _, hbusy, _⟩
      · exact hidle
      · exact absurd hbusy hfree
    have hjob := h.nextJob_eq hlen hrem
    have hsize : (jobOf s.chunkLen data s.userData).jobSize =
        min s.chunkLen (data.length - s.userData * s.chunkLen) := rfl
    refine ⟨h.chunkLen_eq, h.length_eq, ?_, ?_, ?_, h.completed_eq, ?_, ?_, h.overFreed_eq⟩
    · show s.remainingBytes - s.nextJob.jobSize = data.length - (s.userData + 1) * s.chunkLen
      rw [hjob, hsize, Nat.succ_mul]
      omega
    · intro k hk
      show k * s.chunkLen < data.length
      rcases Nat.lt_succ_iff_lt_or_eq.mp hk with hk | rfl
      · exact h.started k hk
      · omega
    · show s.nbEnqueued + 1 = s.userData + 1
      rw [h.enqueued_eq]
    · refine Or.inr ⟨s.userData, rfl, ?_, ?_, hdequeued.2.2⟩
      · show s.inFlight ++ [s.nextJob] = _
        rw [hdequeued.1, hjob]
        rfl
      · show s.nbFree - 1 = 0
        rw [hdequeued.2.1]
    · show (s.submitted ++ [(s.nextJob, s.jobBytes s.nextJob)]).map Prod.fst = _
      rw [List.map_append, h.jobs_eq, List.range_succ, List.map_append, hjob]
      rfl

/-- The chunk that is submitted is cleared where the matches so far end. -/
theorem Bytes.enqJob {data : List UInt8} {s u : ScanState} {t : Turn} (hbytes : Bytes data s)
    (h : Inv data s) (hlen : data.length ≤ 2 ^ 31) (hu : s.enqJob t = some u) : Bytes data u := by
  rcases enqJob_cases hu with rfl | ⟨hrem, hfree, -, -, rfl⟩
  · exact hbytes
  · have hdequeued : s.nbDequeued = s.userData := by
      rcases h.flight with hidle | ⟨_, _, _, hbusy, _⟩
      · exact hidle.2.2
      · exact absurd hbusy hfree
    refine ⟨?_, ?_, hbytes.outOfBounds_eq, hbytes.ends_le⟩
    · show s.submitted ++ [(s.nextJob, s.jobBytes s.nextJob)] = _
      rw [h.nextJob_eq hlen hrem, hbytes.jobBytes_eq h.length_eq, hbytes.submitted_eq,
        List.range_succ, List.map_append]
      rfl
    · intro i hi
      show s.dataBuffer[i]? = if i = (s.userData + 1) * s.chunkLen ∧
        endsWithChunk s.chunkLen s.completed (s.userData + 1) = true then _ else data[i]?
      have hnot := h.endsWithChunk_eq_false (k := s.userData + 1) (by omega)
      have hi : (s.userData + 1) * s.chunkLen ≤ i := hi
      have hremaining := h.remaining_eq
      have hsize0 : 0 < s.chunkLen := h.chunkLen_pos (by omega)
      rw [Nat.succ_mul] at hi
      rw [hnot, if_neg fun hand => Bool.noConfusion hand.2, hbytes.ahead i (by omega),
        if_neg fun hand => by omega]

/-! ## Retrieving -/

/-- What `regex_scan_deq_job` does with an event when the buffer is in use. -/
theorem deqEvent_eq {s : ScanState} (hbusy : s.nbFree = 0) (event : Event) :
    s.deqEvent event = { s with
      dataBuffer := clear s.dataBuffer (event.ends s.chunkLen)
      nbFree := 1
      inFlight := s.inFlight.eraseP fun job => job.userData = event.userData
      nbDequeued := s.nbDequeued + 1
      completed := s.completed ++ [event]
      outOfBounds := s.outOfBounds +
        (event.ends s.chunkLen).countP fun i => s.dataBuffer.length ≤ i } := by
  have hfreed : s.refcountRm = { s with nbFree := 1 } := by
    rw [ScanState.refcountRm, if_pos hbusy]
  rw [ScanState.deqEvent, hfreed, reportResults_eq]

theorem endsWithChunk_append (c : ℕ) (completed : List Event) (event : Event) (k : ℕ) :
    endsWithChunk c (completed ++ [event]) k = (endsWithChunk c completed k ||
      (event.userData + 1 = k && event.results.any fun m => m.matchStart + m.length = c)) := by
  rw [endsWithChunk, List.any_append]
  show (_ || (_ || false)) = _
  rw [Bool.or_false]
  rfl

/-- The places behind the matches of chunk `k` are not behind the first place of the next chunk. -/
theorem mem_ends_iff {c : ℕ} {event : Event} {size : ℕ} (hsize : size ≤ c)
    (hin : ∀ m ∈ event.results, m.matchStart + m.length ≤ size) {i : ℕ}
    (hi : (event.userData + 1) * c ≤ i) :
    i ∈ event.ends c ↔ i = (event.userData + 1) * c ∧
      (event.results.any fun m => m.matchStart + m.length = c) = true := by
  rw [Nat.succ_mul] at hi ⊢
  rw [Event.ends, List.mem_map, List.any_eq_true]
  unfold matchEnd
  rw [Nat.mul_comm c]
  constructor
  · intro ⟨m, hm, hend⟩
    have hle := hin m hm
    exact ⟨by omega, m, hm, decide_eq_true (by omega)⟩
  · intro ⟨hat, m, hm, hend⟩
    have hend := of_decide_eq_true hend
    exact ⟨m, hm, by omega⟩

/-- The event is that of the last job. -/
theorem Inv.event_eq {data : List UInt8} {s : ScanState} {event : Event} (h : Inv data s)
    {job : Job} (hjob : job ∈ s.inFlight) (huser : job.userData = event.userData) :
    s.userData = event.userData + 1 ∧ s.nbFree = 0 ∧ s.nbDequeued = event.userData ∧
      s.inFlight = [jobOf s.chunkLen data event.userData] ∧
      job = jobOf s.chunkLen data event.userData := by
  rcases h.flight with ⟨hidle, -, -⟩ | ⟨k, hk, hflight, hbusy, hdequeued⟩
  · rw [hidle] at hjob
    exact absurd hjob List.not_mem_nil
  · rw [hflight, List.mem_singleton] at hjob
    rw [hjob] at huser
    have huser : k = event.userData := huser
    subst huser
    exact ⟨hk, hbusy, hdequeued, hflight, hjob⟩

/-- An event gives the buffer of its job back. -/
theorem Inv.deqEvent {data : List UInt8} {s : ScanState} {event : Event} (h : Inv data s)
    (hevent : EventContract s event) : Inv data (s.deqEvent event) := by
  obtain ⟨job, hjob, huser⟩ := hevent
  obtain ⟨hlast, hbusy, hdequeued, hflight, -⟩ := h.event_eq hjob huser
  rw [deqEvent_eq hbusy event]
  refine ⟨h.chunkLen_eq, ?_, h.remaining_eq, h.started, h.enqueued_eq, ?_, ?_, h.jobs_eq,
    h.overFreed_eq⟩
  · show (clear s.dataBuffer _).length = _
    rw [length_clear, h.length_eq]
  · show (s.completed ++ [event]).map Event.userData = List.range (s.nbDequeued + 1)
    rw [List.map_append, h.completed_eq, List.range_succ, hdequeued]
    rfl
  · refine Or.inl ⟨?_, rfl, ?_⟩
    · show s.inFlight.eraseP _ = []
      rw [hflight]
      exact List.eraseP_cons_of_pos (decide_eq_true rfl)
    · show s.nbDequeued + 1 = s.userData
      omega

/-- Its matches clear at most one byte, that of the next chunk. -/
theorem Bytes.deqEvent {data : List UInt8} {s : ScanState} {event : Event} (hbytes : Bytes data s)
    (h : Inv data s) (hevent : MatchContract s event) : Bytes data (s.deqEvent event) := by
  obtain ⟨job, hjob, hjobUser, hin⟩ := hevent
  obtain ⟨huser, hbusy, hdequeued, -, rfl⟩ := h.event_eq hjob hjobUser
  have hin : ∀ m ∈ event.results, m.matchStart + m.length ≤
      min s.chunkLen (data.length - event.userData * s.chunkLen) := hin
  have hnot := h.endsWithChunk_eq_false (k := s.userData) (by omega)
  rw [deqEvent_eq hbusy event]
  refine ⟨?_, ?_, ?_, ?_⟩
  · -- what was submitted does not depend on the event
    show s.submitted = (List.range s.userData).map fun k =>
      (jobOf s.chunkLen data k, jobData s.chunkLen data (s.completed ++ [event]) k)
    rw [hbytes.submitted_eq]
    apply List.map_congr_left
    intro k hk
    have hlt : ¬ event.userData + 1 = k := by
      rw [List.mem_range] at hk
      omega
    rw [jobData, jobData, endsWithChunk_append, decide_eq_false hlt, Bool.false_and,
      Bool.or_false]
  · intro i hi
    have hi : s.userData * s.chunkLen ≤ i := hi
    show (clear s.dataBuffer _)[i]? = if i = s.userData * s.chunkLen ∧
      endsWithChunk s.chunkLen (s.completed ++ [event]) s.userData = true then _ else data[i]?
    have hbefore : s.dataBuffer[i]? = data[i]? := by
      rw [hbytes.ahead i hi, hnot, if_neg fun hand => Bool.noConfusion hand.2]
    have hends : endsWithChunk s.chunkLen (s.completed ++ [event]) s.userData =
        event.results.any fun m => m.matchStart + m.length = s.chunkLen := by
      rw [endsWithChunk_append, hnot, Bool.false_or, decide_eq_true huser.symm, Bool.true_and]
    have hmem := mem_ends_iff (i := i) (Nat.min_le_left _ _) hin (huser ▸ hi)
    rw [← huser] at hmem
    rw [getElem?_clear, hbefore, hends]
    exact if_congr hmem rfl rfl
  · show s.outOfBounds + _ = _
    rw [hbytes.outOfBounds_eq, h.length_eq]
    show _ = ((s.completed ++ [event]).flatMap (Event.ends s.chunkLen)).countP _
    rw [List.flatMap_append, List.countP_append, List.flatMap_singleton]
  · show ∀ i ∈ (s.completed ++ [event]).flatMap (Event.ends s.chunkLen), i ≤ data.length
    intro i hi
    rw [List.flatMap_append, List.flatMap_singleton, List.mem_append] at hi
    rcases hi with hi | hi
    · exact hbytes.ends_le i hi
    · obtain ⟨m, hm, rfl⟩ := List.mem_map.mp hi
      have hle := hin m hm
      have hstart := h.started event.userData (by omega)
      unfold matchEnd
      rw [Nat.mul_comm s.chunkLen]
      omega

theorem MatchContract.eventContract {s : ScanState} {event : Event} (h : MatchContract s event) :
    EventContract s event := by
  obtain ⟨job, hjob, huser, -⟩ := h
  exact ⟨job, hjob, huser⟩

/-! ## The main loop -/

/-- What one turn of the loop does. -/
theorem turn_cases {s u : ScanState} {t : Turn} (hu : s.turn t = some u) :
    ∃ v, s.enqJob t = some v ∧ t.again = true ∧ u = t.events.foldl ScanState.deqEvent v := by
  obtain ⟨v, henq, hdeq⟩ := Option.bind_eq_some_iff.mp hu
  unfold ScanState.deqJob at hdeq
  by_cases hagain : t.again = true
  · rw [if_pos hagain] at hdeq
    exact ⟨v, henq, hagain, (Option.some.inj hdeq).symm⟩
  · rw [if_neg hagain] at hdeq
    cases hdeq

/-- What an outcome leaves. -/
def Outcome.state? : Outcome → Option ScanState
  | .success s | .running s => some s
  | .ioFailed => none

section Invariants

variable {promise : ScanState → Event → Prop} {I : ScanState → Prop}

theorem deqEvents_invariant (hdeq : ∀ s event, I s → promise s event → I (s.deqEvent event))
    {s : ScanState} {events : List Event} (h : I s) (hevents : EventsContract promise s events) :
    I (events.foldl ScanState.deqEvent s) := by
  induction events generalizing s with
  | nil => exact h
  | cons event events ih => exact ih (hdeq s event h hevents.1) hevents.2

/-- What both actions of the loop keep holds wherever the loop is. -/
theorem scanLoop_invariant (henq : ∀ s u t, I s → s.enqJob t = some u → I u)
    (hdeq : ∀ s event, I s → promise s event → I (s.deqEvent event)) {s : ScanState}
    {ts : List Turn} (h : I s) (hcontract : ScanContract promise s ts) {u : ScanState}
    (hu : (scanLoop s ts).state? = some u) : I u := by
  induction ts generalizing s with
  | nil => exact Option.some.inj hu ▸ h
  | cons t ts ih =>
    rw [scanLoop] at hu
    cases hturn : s.turn t with
    | none =>
      rw [hturn] at hu
      cases hu
    | some v =>
      obtain ⟨w, hw, -, heq⟩ := turn_cases hturn
      have hv : I v := heq ▸ deqEvents_invariant hdeq (henq s w t h hw) (hcontract.1 w hw)
      rw [hturn] at hu
      dsimp only at hu
      by_cases hgoes : v.goesOn = true
      · rw [if_pos hgoes] at hu
        exact ih hv (hcontract.2 v hturn hgoes) hu
      · rw [if_neg hgoes] at hu
        exact Option.some.inj hu ▸ hv

end Invariants

/-- Behind the end of the loop nothing is left. -/
theorem goesOn_of_success {s u : ScanState} {ts : List Turn} (hu : scanLoop s ts = .success u) :
    u.goesOn = false := by
  induction ts generalizing s with
  | nil => cases hu
  | cons t ts ih =>
    rw [scanLoop] at hu
    cases hturn : s.turn t with
    | none =>
      rw [hturn] at hu
      cases hu
    | some v =>
      rw [hturn] at hu
      dsimp only at hu
      by_cases hgoes : v.goesOn = true
      · rw [if_pos hgoes] at hu
        exact ih hu
      · rw [if_neg hgoes] at hu
        cases hu
        exact Bool.eq_false_iff.mpr hgoes

theorem Inv.scanLoop {data : List UInt8} {s : ScanState} {ts : List Turn} (h : Inv data s)
    (hlen : data.length ≤ 2 ^ 31) (hcontract : ScanContract EventContract s ts) {u : ScanState}
    (hu : (scanLoop s ts).state? = some u) : Inv data u :=
  scanLoop_invariant (fun _ _ _ h hu => h.enqJob hlen hu) (fun _ _ h hevent => h.deqEvent hevent) h
    hcontract hu

theorem Bytes.scanLoop {data : List UInt8} {s : ScanState} {ts : List Turn} (hbytes : Bytes data s)
    (h : Inv data s) (hlen : data.length ≤ 2 ^ 31)
    (hcontract : ScanContract MatchContract s ts) {u : ScanState}
    (hu : (scanLoop s ts).state? = some u) : Inv data u ∧ Bytes data u :=
  scanLoop_invariant (I := fun s => Inv data s ∧ Bytes data s)
    (fun _ _ _ h hu => ⟨h.1.enqJob hlen hu, h.2.enqJob h.1 hlen hu⟩)
    (fun _ _ h hevent => ⟨h.1.deqEvent hevent.eventContract, h.2.deqEvent h.1 hevent⟩) ⟨h, hbytes⟩
    hcontract hu

/-- How many chunks the data has. -/
def chunkCount (data : List UInt8) : ℕ := numChunks (initialChunkLen data.length) data.length

/-- No more jobs are submitted than there are chunks. -/
theorem Inv.userData_le {data : List UInt8} {s : ScanState} (h : Inv data s)
    (hpos : 0 < data.length) : s.userData ≤ chunkCount data := by
  have hc := h.chunkLen_pos hpos
  by_contra hlt
  have hstarted := h.started (chunkCount data) (by omega)
  have hall := length_le_numChunks_mul (n := data.length) hc
  rw [h.chunkLen_eq] at hstarted hall
  rw [chunkCount] at hstarted
  omega

theorem Inv.nbDequeued_le {data : List UInt8} {s : ScanState} (h : Inv data s) :
    s.nbDequeued ≤ s.userData := by
  rcases h.flight with ⟨-, -, hdequeued⟩ | ⟨k, hk, -, -, hdequeued⟩ <;> omega

/-- The loop goes on as long as a chunk was not retrieved. -/
theorem Inv.goesOn_iff {data : List UInt8} {s : ScanState} (h : Inv data s)
    (hpos : 0 < data.length) : s.goesOn = true ↔ s.nbDequeued < chunkCount data := by
  have hc := h.chunkLen_pos hpos
  have hle := h.userData_le hpos
  have hdequeued := h.nbDequeued_le
  have hremaining := h.remaining_eq
  have hlt := lt_numChunks_iff (k := s.userData) (n := data.length) hc
  rw [h.chunkLen_eq] at hlt hremaining
  unfold ScanState.goesOn chunkCount at *
  rw [Bool.or_eq_true, decide_eq_true_eq, decide_eq_true_eq, h.enqueued_eq]
  constructor
  · intro hgoes
    by_cases hmore : s.remainingBytes > 0
    · have := hlt.mpr (by omega)
      omega
    · have := hgoes.resolve_left hmore
      omega
  · intro hless
    by_cases hall : s.userData = numChunks (initialChunkLen data.length) data.length
    · exact Or.inr (by omega)
    · have := hlt.mp (by omega)
      exact Or.inl (by omega)

/-- The set-up of the main loop. -/
theorem regexScan_eq_some {data : List UInt8} {ts : List Turn} {outcome : Outcome}
    (h : regexScan data ts = some outcome) :
    0 < data.length ∧ outcome = scanLoop (.init data) ts := by
  unfold regexScan at h
  by_cases hempty : data.length = 0
  · rw [if_pos hempty] at h
    cases h
  · rw [if_neg hempty] at h
    exact ⟨Nat.pos_of_ne_zero hempty, (Option.some.inj h).symm⟩

/-- A run of the main loop that succeeds scans all the data: the jobs are the chunks in their order,
at most six, which make up the data, and each is retrieved once. Then the device is idle and the one
buffer is free, and never was released twice. -/
theorem regexScan_scansAll {data : List UInt8} {ts : List Turn} {s : ScanState}
    (hlen : data.length ≤ 2 ^ 31) (hcontract : ScanContract EventContract (.init data) ts)
    (h : regexScan data ts = some (.success s)) :
    chunkCount data ≤ nbChunks ∧
      s.submitted.map Prod.fst =
        (List.range (chunkCount data)).map (jobOf (initialChunkLen data.length) data) ∧
      ((s.submitted.map Prod.fst).flatMap fun job =>
        (data.drop job.readOffset.toNat).take job.jobSize) = data ∧
      s.completed.map Event.userData = List.range (chunkCount data) ∧
      s.inFlight = [] ∧ s.nbFree = 1 ∧ s.overFreed = 0 := by
  obtain ⟨hpos, hloop⟩ := regexScan_eq_some h
  have hs : Inv data s := (Inv.init hlen).scanLoop hlen hcontract (by rw [← hloop]; rfl)
  -- the loop has ended, so no chunk is left to be dequeued
  have hover := goesOn_of_success hloop.symm
  have hc : 0 < initialChunkLen data.length := initialChunkLen_pos hpos
  have hgoes := hs.goesOn_iff hpos
  rw [hover] at hgoes
  have hall : chunkCount data ≤ s.nbDequeued :=
    Nat.le_of_not_lt fun hlt => Bool.noConfusion (hgoes.mpr hlt)
  have hdequeued := hs.nbDequeued_le
  have huser := hs.userData_le hpos
  have hjobs : s.submitted.map Prod.fst =
      (List.range (chunkCount data)).map (jobOf (initialChunkLen data.length) data) := by
    rw [hs.jobs_eq, hs.chunkLen_eq, show s.userData = chunkCount data by omega]
  refine ⟨numChunks_le hc (le_nbChunks_mul _), hjobs, ?_, ?_, ?_⟩
  · -- a job covers its chunk
    have hchunk (k : ℕ) :
        (data.drop (jobOf (initialChunkLen data.length) data k).readOffset.toNat).take
        (jobOf (initialChunkLen data.length) data k).jobSize =
          chunk (initialChunkLen data.length) k data := by
      rw [jobOf_toNat, take_jobSize List.length_drop, chunk]
    rw [hjobs, List.flatMap_map]
    simp only [hchunk]
    exact flatMap_chunk hc data
  · rw [hs.completed_eq, show s.nbDequeued = chunkCount data by omega]
  · -- nothing is in flight, since every chunk was dequeued
    rcases hs.flight with ⟨hidle, hfree, -⟩ | ⟨k, hk, -, -, hone⟩
    · exact ⟨hidle, hfree, hs.overFreed_eq⟩
    · omega

theorem scanContract_cons {promise : ScanState → Event → Prop} {s u v : ScanState} {t : Turn}
    {ts : List Turn} (hv : s.enqJob t = some v) (hu : s.turn t = some u)
    (hevents : EventsContract promise v t.events) (h : ScanContract promise u ts) :
    ScanContract promise s (t :: ts) := by
  refine ⟨fun w hw => ?_, fun w hw _ => ?_⟩
  · rw [hv] at hw
    exact Option.some.inj hw ▸ hevents
  · rw [hu] at hw
    exact Option.some.inj hw ▸ h

theorem EventsContract.eventContract {s : ScanState} {events : List Event}
    (h : EventsContract MatchContract s events) : EventsContract EventContract s events := by
  induction events generalizing s with
  | nil => trivial
  | cons event events ih => exact ⟨h.1.eventContract, ih h.2⟩

theorem ScanContract.eventContract {s : ScanState} {ts : List Turn}
    (h : ScanContract MatchContract s ts) : ScanContract EventContract s ts := by
  induction ts generalizing s with
  | nil => trivial
  | cons t ts ih =>
    exact ⟨fun u hu => (h.1 u hu).eventContract, fun u hu hgoes => ih (h.2 u hu hgoes)⟩

/-- Six bytes are three chunks. The match in the first chunk ends with it, and the match in the last
one with the data. -/
def threeTurns : List Turn :=
  [⟨true, .success, [⟨0, [⟨0, 2⟩]⟩], true⟩, ⟨true, .success, [⟨1, []⟩], true⟩,
    ⟨true, .success, [⟨2, [⟨1, 1⟩]⟩], true⟩]

theorem threeTurns_contract : ScanContract MatchContract (.init [1, 2, 3, 4, 5, 6]) threeTurns := by
  refine scanContract_cons rfl rfl ⟨⟨_, List.mem_cons_self, rfl, by decide⟩, trivial⟩ ?_
  refine scanContract_cons rfl rfl ⟨⟨_, List.mem_cons_self, rfl, by decide⟩, trivial⟩ ?_
  exact scanContract_cons rfl rfl ⟨⟨_, List.mem_cons_self, rfl, by decide⟩, trivial⟩ trivial

theorem regexScan_scansAll_threeTurns :
    ∃ s, regexScan [1, 2, 3, 4, 5, 6] threeTurns = some (.success s) ∧
      s.completed.map Event.userData = List.range 3 :=
  ⟨_, rfl, (regexScan_scansAll (by decide) threeTurns_contract.eventContract rfl).2.2.2.1⟩

/-- The device sees a chunk as it is, unless a match has ended right before it. -/
theorem jobData_eq_chunk_iff {c : ℕ} {data : List UInt8} (completed : List Event) {k : ℕ}
    (hc : 0 < c) (hk : k * c < data.length) :
    jobData c data completed k = chunk c k data ↔
      endsWithChunk c completed k = false ∨ data[k * c]? = some 0 := by
  have hfirst : (chunk c k data)[0]? = data[k * c]? := by
    rw [chunk, List.getElem?_take, if_pos hc, List.getElem?_drop, Nat.add_zero]
  rw [← hfirst]
  unfold jobData
  cases hends : endsWithChunk c completed k with
  | false => exact iff_of_true (if_neg Bool.false_ne_true) (Or.inl rfl)
  | true =>
    rw [if_pos rfl]
    cases hchunk : chunk c k data with
    | nil => exact absurd hchunk (chunk_ne_nil hc hk)
    | cons b bytes =>
      show 0 :: bytes = b :: bytes ↔ _ ∨ some b = some 0
      rw [List.cons.injEq, Option.some.injEq]
      constructor
      · intro h
        exact Or.inr h.1.symm
      · intro h
        exact ⟨(h.resolve_left Bool.noConfusion).symm, rfl⟩

/-- Wherever the loop is, the device was given the chunks in their order, but not as they were: the
first byte of a chunk is overwritten when a match ended with the chunk before, and nothing else is.
Each match that ends with the data is terminated behind the buffer. -/
theorem regexScan_submitted {data : List UInt8} {ts : List Turn} {outcome : Outcome}
    {s : ScanState} (hlen : data.length ≤ 2 ^ 31)
    (hcontract : ScanContract MatchContract (.init data) ts)
    (h : regexScan data ts = some outcome) (hs : outcome.state? = some s) :
    (s.submitted = (List.range s.userData).map fun k =>
      (jobOf (initialChunkLen data.length) data k,
        jobData (initialChunkLen data.length) data s.completed k)) ∧
      (∀ k < s.userData, jobData (initialChunkLen data.length) data s.completed k =
        chunk (initialChunkLen data.length) k data ↔
          endsWithChunk (initialChunkLen data.length) s.completed k = false ∨
            data[k * initialChunkLen data.length]? = some 0) ∧
      s.outOfBounds =
        (s.completed.flatMap (Event.ends (initialChunkLen data.length))).count data.length := by
  obtain ⟨hpos, rfl⟩ := regexScan_eq_some h
  obtain ⟨hinv, hbytes⟩ := (Bytes.init data).scanLoop (Inv.init hlen) hlen hcontract hs
  have hc := hinv.chunkLen_pos hpos
  rw [← hinv.chunkLen_eq]
  refine ⟨hbytes.submitted_eq, ?_, ?_⟩
  · intro k hk
    exact jobData_eq_chunk_iff _ hc (hinv.started k hk)
  · rw [hbytes.outOfBounds_eq, List.count]
    apply List.countP_congr
    intro i hi
    have hle := hbytes.ends_le i hi
    rw [decide_eq_true_eq, beq_iff_eq]
    omega

theorem regexScan_submitted_threeTurns :
    ∃ s, regexScan [1, 2, 3, 4, 5, 6] threeTurns = some (.success s) ∧
      s.submitted.map Prod.snd = [[1, 2], [0, 4], [5, 6]] ∧ s.outOfBounds = 1 := by
  have hsubmitted := regexScan_submitted (by decide) threeTurns_contract rfl rfl
  refine ⟨_, rfl, ?_, hsubmitted.2.2⟩
  rw [hsubmitted.1]
  rfl

/-! ## The end of the loop -/

/-- How many turns submit or retrieve a job. -/
def effectiveTurns : ScanState → List Turn → ℕ
  | _, [] => 0
  | s, t :: ts =>
    match s.turn t with
    | none => 0
    | some u =>
      (if s.nbEnqueued + s.nbDequeued < u.nbEnqueued + u.nbDequeued then 1 else 0) +
        if u.goesOn then effectiveTurns u ts else 0

theorem deqEvents_counts (s : ScanState) (events : List Event) :
    (events.foldl ScanState.deqEvent s).nbEnqueued = s.nbEnqueued ∧
      (events.foldl ScanState.deqEvent s).nbDequeued = s.nbDequeued + events.length := by
  induction events generalizing s with
  | nil => exact ⟨rfl, rfl⟩
  | cons event events ih =>
    have hfreed : s.refcountRm.nbEnqueued = s.nbEnqueued ∧
        s.refcountRm.nbDequeued = s.nbDequeued := by
      unfold ScanState.refcountRm
      split <;> exact ⟨rfl, rfl⟩
    have hone : (s.deqEvent event).nbEnqueued = s.nbEnqueued ∧
        (s.deqEvent event).nbDequeued = s.nbDequeued + 1 := by
      rw [ScanState.deqEvent, reportResults_eq]
      exact ⟨hfreed.1, congrArg (· + 1) hfreed.2⟩
    rw [List.foldl_cons, (ih _).1, (ih _).2, hone.1, hone.2, List.length_cons]
    omega

/-- A turn takes back neither a submission nor a retrieval. -/
theorem turn_counts {s u : ScanState} {t : Turn} (hu : s.turn t = some u) :
    s.nbEnqueued + s.nbDequeued ≤ u.nbEnqueued + u.nbDequeued := by
  obtain ⟨v, henq, -, rfl⟩ := turn_cases hu
  rw [(deqEvents_counts v _).1, (deqEvents_counts v _).2]
  rcases enqJob_cases henq with rfl | ⟨-, -, -, -, rfl⟩
  · omega
  · show _ ≤ s.nbEnqueued + 1 + (s.nbDequeued + t.events.length)
    omega

/-- A loop that still runs has submitted or retrieved a job in each of its effective turns. -/
theorem effectiveTurns_le {s u : ScanState} {ts : List Turn} (hu : scanLoop s ts = .running u) :
    s.nbEnqueued + s.nbDequeued + effectiveTurns s ts ≤ u.nbEnqueued + u.nbDequeued := by
  induction ts generalizing s with
  | nil =>
    cases hu
    exact Nat.le_refl _
  | cons t ts ih =>
    unfold scanLoop at hu
    unfold effectiveTurns
    cases hturn : s.turn t with
    | none =>
      rw [hturn] at hu
      cases hu
    | some v =>
      rw [hturn] at hu
      have hcounts := turn_counts hturn
      dsimp only at hu ⊢
      by_cases hgoes : v.goesOn = true
      · rw [if_pos hgoes] at hu ⊢
        have hrest := ih hu
        split <;> omega
      · rw [if_neg hgoes] at hu
        cases hu

/-- A loop that still runs has to go on. -/
theorem goesOn_of_running {s u : ScanState} {ts : List Turn} (hs : s.goesOn = true)
    (hu : scanLoop s ts = .running u) : u.goesOn = true := by
  induction ts generalizing s with
  | nil =>
    cases hu
    exact hs
  | cons t ts ih =>
    unfold scanLoop at hu
    cases hturn : s.turn t with
    | none =>
      rw [hturn] at hu
      cases hu
    | some v =>
      rw [hturn] at hu
      dsimp only at hu
      by_cases hgoes : v.goesOn = true
      · rw [if_pos hgoes] at hu
        exact ih hgoes hu
      · rw [if_neg hgoes] at hu
        cases hu

/-- The loop fails only when DOCA refuses a submission or a retrieval. -/
theorem scanLoop_ne_ioFailed {s : ScanState} {ts : List Turn}
    (hok : ∀ t ∈ ts, t.submit ≠ .failed ∧ t.again = true) : scanLoop s ts ≠ .ioFailed := by
  induction ts generalizing s with
  | nil => exact Outcome.noConfusion
  | cons t ts ih =>
    obtain ⟨hsubmit, hagain⟩ := hok t List.mem_cons_self
    have henq : ∃ v, s.enqJob t = some v := by
      unfold ScanState.enqJob
      split
      · split
        · exact ⟨_, rfl⟩
        · cases hanswer : t.submit with
          | failed => exact absurd hanswer hsubmit
          | noMemory => exact ⟨_, rfl⟩
          | success => exact ⟨_, rfl⟩
      · exact ⟨_, rfl⟩
    obtain ⟨v, hv⟩ := henq
    have hturn : s.turn t = some (t.events.foldl ScanState.deqEvent v) := by
      rw [ScanState.turn, hv, Option.bind_some, ScanState.deqJob, if_pos hagain]
    unfold scanLoop
    rw [hturn]
    dsimp only
    split
    · exact ih fun t ht => hok t (List.mem_cons_of_mem _ ht)
    · exact Outcome.noConfusion

/-- The loop ends: when nothing is refused it succeeds at the latest with the turn that submits or
retrieves a job for the `2 * n`-th time, where `n` is the number of chunks, at most six. -/
theorem regexScan_ends {data : List UInt8} {ts : List Turn} (hpos : 0 < data.length)
    (hlen : data.length ≤ 2 ^ 31) (hcontract : ScanContract EventContract (.init data) ts)
    (hok : ∀ t ∈ ts, t.submit ≠ .failed ∧ t.again = true)
    (henough : 2 * chunkCount data ≤ effectiveTurns (.init data) ts) :
    ∃ s, regexScan data ts = some (.success s) := by
  unfold regexScan
  rw [if_neg (Nat.ne_of_gt hpos)]
  have hinit := Inv.init hlen
  cases hloop : scanLoop (.init data) ts with
  | success s => exact ⟨s, rfl⟩
  | ioFailed => exact absurd hloop (scanLoop_ne_ioFailed hok)
  | running u =>
    have hu : Inv data u := hinit.scanLoop hlen hcontract (by rw [hloop]; rfl)
    have hcount : 0 < chunkCount data := by
      have := initialChunkLen_pos hpos
      exact (lt_numChunks_iff this).mpr (by omega)
    have hgoes := (hu.goesOn_iff hpos).mp
      (goesOn_of_running ((hinit.goesOn_iff hpos).mpr hcount) hloop)
    have hcounted : 0 + 0 + effectiveTurns (.init data) ts ≤ _ := effectiveTurns_le hloop
    have huser := hu.userData_le hpos
    have henqueued := hu.enqueued_eq
    omega

/-- Three chunks, each submitted and retrieved in turns of their own; a buffer cannot be had, the
device is busy, and the queue is full for a turn each. -/
def slowTurns : List Turn :=
  [⟨false, .success, [], true⟩, ⟨true, .success, [], true⟩, ⟨true, .success, [], true⟩,
    ⟨true, .success, [⟨0, []⟩], true⟩, ⟨true, .noMemory, [], true⟩, ⟨true, .success, [], true⟩,
    ⟨true, .success, [⟨1, [⟨0, 1⟩]⟩], true⟩, ⟨true, .success, [], true⟩,
    ⟨true, .success, [⟨2, []⟩], true⟩]

theorem slowTurns_contract : ScanContract EventContract (.init [1, 2, 3, 4, 5, 6]) slowTurns := by
  refine scanContract_cons rfl rfl trivial ?_
  refine scanContract_cons rfl rfl trivial ?_
  refine scanContract_cons rfl rfl trivial ?_
  refine scanContract_cons rfl rfl ⟨⟨_, List.mem_cons_self, rfl⟩, trivial⟩ ?_
  refine scanContract_cons rfl rfl trivial ?_
  refine scanContract_cons rfl rfl trivial ?_
  refine scanContract_cons rfl rfl ⟨⟨_, List.mem_cons_self, rfl⟩, trivial⟩ ?_
  refine scanContract_cons rfl rfl trivial ?_
  exact scanContract_cons rfl rfl ⟨⟨_, List.mem_cons_self, rfl⟩, trivial⟩ trivial

theorem regexScan_ends_slowTurns :
    ∃ s, regexScan [1, 2, 3, 4, 5, 6] slowTurns = some (.success s) :=
  regexScan_ends (by decide) (by decide) slowTurns_contract (by decide) (by decide)

end Doca
end PamoRxpBench
