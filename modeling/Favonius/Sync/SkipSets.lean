import Favonius.Client.Streams
import Favonius.Daemon.Manifest
import Favonius.Lib.Partition

/-!
# Chunks that are not sent

Before the data phase both ends mark the chunks that a resume bitmap or a zero run
covers, the sender as acked and the daemon as received.  The two loops are written
independently; they mark the same chunks, each once.
-/

namespace Favonius.Sync

open ByteCodec FlagBits Partition Client Daemon Transfer List StreamState StreamRecvState

/-- Bits past the end of the bitmap are not set. -/
def covers (bitmap : Bytes) (c : ℕ) : Bool := c / 8 < bitmap.length && bitSet bitmap c

def zeroRunChunks (runs : List (ℕ × ℕ)) : List ℕ := runs.flatMap fun r => List.range' r.1 r.2

/-! ## The sender -/

def ownedBySender (global : ℕ) (s : StreamState) : Bool :=
  s.chunkBase ≤ global && global < s.chunkBase + s.chunkCount

def skipResumedChunk (bitmap : Bytes) (acc : StreamState × ℕ) (localCi : ℕ) : StreamState × ℕ :=
  if covers bitmap (acc.1.toGlobal localCi) then
    let (s, newly) := acc.1.markAcked localCi
    (s, if newly then acc.2 + 1 else acc.2)
  else acc

def skipResumed (bitmap : Bytes) (s : StreamState) : StreamState × ℕ :=
  (List.range s.acked.length).foldl (skipResumedChunk bitmap) (s, 0)

def skipResumeBitmap (streams : List StreamState) : Option Bytes → List StreamState × ℕ
  | none => (streams, 0)
  | some bitmap =>
    let resumed := streams.map (skipResumed bitmap)
    (resumed.map Prod.fst, (resumed.map Prod.snd).sum)

def senderSkips (totalChunks numStreams : ℕ) (bitmap : Option Bytes) (runs : List (ℕ × ℕ)) :
    Option (List StreamState × ℕ × ℕ) := do
  let (streams, resumed) := skipResumeBitmap (buildStreams totalChunks numStreams) bitmap
  let (streams, zeroSkipped) ← updateOwners ownedBySender
    (fun global s => some (s.markAcked (global - s.chunkBase))) (zeroRunChunks runs) streams
  return (streams, resumed, zeroSkipped)

/-! ## The daemon -/

def ownedByDaemon (global : ℕ) (s : StreamRecvState) : Bool :=
  s.chunkBase ≤ global && global < s.chunkBase + s.chunkCount

def setReceived (s : StreamRecvState) (localCi : ℕ) : StreamRecvState :=
  { s with
    received := s.received.set localCi true
    nReceived := s.nReceived + 1
    received_length := s.length_set_received localCi
    contig_received := fun i hi => getD_set_true (s.contig_received i hi) }

def rebuildPrefix (s : StreamRecvState) : StreamRecvState :=
  have hspec := advanceCursor_spec s.received s.contigPrefix
    (by rw [s.received_length]; exact s.contig_le) s.contig_received
  { s with
    contigPrefix := advanceCursor s.received s.contigPrefix
    contig_le := s.received_length ▸ hspec.2.1
    contig_received := hspec.2.2 }

def resumeChunk (bitmap : Bytes) (acc : StreamRecvState × ℕ) (localCi : ℕ) : StreamRecvState × ℕ :=
  if covers bitmap (acc.1.chunkBase + localCi) then (setReceived acc.1 localCi, acc.2 + 1) else acc

def resumeStream (bitmap : Bytes) (s : StreamRecvState) : StreamRecvState × ℕ :=
  let (s, skipped) := (List.range s.received.length).foldl (resumeChunk bitmap) (s, 0)
  (rebuildPrefix s, skipped)

def applyResumeBitmap (streams : List StreamRecvState) (bitmap : Bytes) :
    List StreamRecvState × ℕ :=
  let resumed := streams.map (resumeStream bitmap)
  (resumed.map Prod.fst, (resumed.map Prod.snd).sum)

/-- Mark a chunk that the stream owns; an index outside the flags would panic. -/
def markZeroChunk (global : ℕ) (s : StreamRecvState) : Option (StreamRecvState × Bool) :=
  let localCi := global - s.chunkBase
  if localCi < s.received.length then
    if s.received.getD localCi false then some (s, false) else some (s.markReceived localCi, true)
  else none

def applyZeroRuns (streams : List StreamRecvState) (runs : List (ℕ × ℕ)) :
    Option (List StreamRecvState × ℕ) :=
  updateOwners ownedByDaemon markZeroChunk (zeroRunChunks runs) streams

/-- The daemon's streams when it starts to receive, and how many chunks resume and holes
marked; none is a panic. -/
def daemonSkips (totalChunks numStreams : ℕ) (bitmap : Option Bytes) (runs : List (ℕ × ℕ)) :
    Option (List StreamRecvState × ℕ × ℕ) := do
  let streams := buildRecvStreams totalChunks (max numStreams 1)
  let (streams, skipped) := match bitmap with
    | none => (streams, 0)
    | some bitmap => applyResumeBitmap streams bitmap
  if runs.isEmpty then return (streams, skipped, 0)
  let (streams, marked) ← applyZeroRuns streams runs
  return (streams, skipped, marked)

lemma decide_lt_succ_and (p : ℕ → Bool) (i k : ℕ) :
    (decide (i < k + 1) && p i) = ((decide (i < k) && p i) || (decide (i = k) && p k)) := by
  by_cases hik : i = k
  · simp [hik]
  · have hlt : i < k + 1 ↔ i < k := by omega
    simp [hik, hlt]

/-! ## One stream of the sender -/

variable {li : ℕ} {s : StreamRecvState}

lemma getD_acked_markAcked_of_lt {s : StreamState} (hli : li < s.chunkCount) (i : ℕ) :
    (s.markAcked li).1.acked.getD i false = (s.acked.getD i false || decide (i = li)) := by
  by_cases hnew : s.unacked li = true
  · exact getD_acked_markAcked hnew i
  have hacked : s.acked.getD li false = true := by
    by_contra hfalse
    exact hnew (unacked_iff.mpr ⟨hli, by simpa using hfalse⟩)
  rw [markAcked, dif_neg hnew]
  by_cases hi : i = li
  · rw [hi, hacked, Bool.true_or]
  · simp [hi]

lemma range_markAcked (s : StreamState) (li : ℕ) :
    (s.markAcked li).1.chunkBase = s.chunkBase ∧ (s.markAcked li).1.chunkCount = s.chunkCount := by
  have hframe := sendState_markAcked s li
  exact ⟨congrArg StreamState.SendState.chunkBase hframe,
    congrArg StreamState.SendState.chunkCount hframe⟩

def senderMarking : Marking StreamState where
  base := chunkBase
  count := chunkCount
  flag s i := s.acked.getD i false
  mark global s := s.markAcked (global - s.chunkBase)
  Good _ := True
  base_mark _ s := (range_markAcked s _).1
  count_mark _ s := (range_markAcked s _).2
  flag_mark := by
    intro g s hge hlt i
    rw [getD_acked_markAcked_of_lt (by omega)]
    congr 1
    rw [decide_eq_decide]
    omega
  good_mark _ _ _ _ _ := trivial

lemma foldl_skipResumedChunk (bitmap : Bytes) (s : StreamState) (n k : ℕ)
    (hk : k ≤ s.chunkCount) :
    let t := ((List.range k).foldl (skipResumedChunk bitmap) (s, n)).1
    t.chunkBase = s.chunkBase ∧ t.chunkCount = s.chunkCount ∧
      ∀ i, t.acked.getD i false =
        (s.acked.getD i false || (decide (i < k) && covers bitmap (s.chunkBase + i))) := by
  induction k with
  | zero => exact ⟨rfl, rfl, by simp⟩
  | succ k ih =>
    obtain ⟨hbase, hcount, hacked⟩ := ih (by omega)
    rw [range_succ, foldl_append]
    generalize (List.range k).foldl (skipResumedChunk bitmap) (s, n) = acc
      at hbase hcount hacked
    simp only [foldl_cons, foldl_nil, skipResumedChunk, toGlobal, hbase]
    split
    · rename_i hcovers
      obtain ⟨hbase', hcount'⟩ := range_markAcked acc.1 k
      refine ⟨hbase'.trans hbase, hcount'.trans hcount, ?_⟩
      intro i
      rw [getD_acked_markAcked_of_lt (by omega), hacked,
        decide_lt_succ_and fun i => covers bitmap (s.chunkBase + i), hcovers, Bool.and_true,
        Bool.or_assoc]
    · rename_i hcovers
      refine ⟨hbase, hcount, ?_⟩
      intro i
      rw [hacked, decide_lt_succ_and fun i => covers bitmap (s.chunkBase + i),
        Bool.eq_false_iff.mpr hcovers, Bool.and_false, Bool.or_false]

/-! ## One stream of the daemon -/

/-- What the daemon's counters say: the received flags counted, and the longest received
prefix. -/
def Counted (s : StreamRecvState) : Prop :=
  s.nReceived = s.received.count true ∧ s.received.getD s.contigPrefix false = false

lemma getD_received_set (hli : li < s.chunkCount) (i : ℕ) :
    (s.received.set li true).getD i false = (s.received.getD i false || decide (i = li)) := by
  have hlt : li < s.received.length := by rwa [s.received_length]
  simp only [getD_eq_getElem?_getD, getElem?_set]
  by_cases hi : li = i
  · rw [if_pos hi, if_pos hlt]
    simp [hi]
  · simp [if_neg hi, Ne.symm hi]

def daemonMarking : Marking StreamRecvState where
  base := chunkBase
  count := chunkCount
  flag s i := s.received.getD i false
  mark global s :=
    if s.received.getD (global - s.chunkBase) false then (s, false)
    else (s.markReceived (global - s.chunkBase), true)
  Good := Counted
  base_mark := by
    intro g s
    split <;> rfl
  count_mark := by
    intro g s
    split <;> rfl
  flag_mark := by
    intro g s hge hlt i
    have hlocal : (s.chunkBase + i = g) = (i = g - s.chunkBase) := by
      rw [eq_iff_iff]
      omega
    split
    · rename_i hold
      by_cases hi : i = g - s.chunkBase
      · rw [hi, hold, Bool.true_or]
      · simp [hlocal, hi]
    · simp only [hlocal]
      exact getD_received_set (by omega) i
  good_mark := by
    intro g s hgood hge hlt
    split
    · exact hgood
    rename_i hnew
    constructor
    · dsimp only [markReceived]
      rw [count_set_true (by rw [s.received_length]; omega) (by simpa using hnew), hgood.1]
    · exact getD_advanceCursor _ _

lemma foldl_resumeChunk (bitmap : Bytes) (n : ℕ) (hfresh : ∀ i, s.received.getD i false = false)
    (hcounted : s.nReceived = s.received.count true) (k : ℕ) (hk : k ≤ s.chunkCount) :
    let t := ((List.range k).foldl (resumeChunk bitmap) (s, n)).1
    t.chunkBase = s.chunkBase ∧ t.chunkCount = s.chunkCount ∧
      t.nReceived = t.received.count true ∧
      ∀ i, t.received.getD i false = (decide (i < k) && covers bitmap (s.chunkBase + i)) := by
  induction k with
  | zero => exact ⟨rfl, rfl, hcounted, fun i => by simpa using hfresh i⟩
  | succ k ih =>
    obtain ⟨hbase, hcount, hn, hreceived⟩ := ih (by omega)
    rw [range_succ, foldl_append]
    generalize (List.range k).foldl (resumeChunk bitmap) (s, n) = acc
      at hbase hcount hn hreceived
    simp only [foldl_cons, foldl_nil, resumeChunk, hbase]
    split
    · rename_i hcovers
      refine ⟨hbase, hcount, ?_, ?_⟩
      · have hfalse : acc.1.received.getD k false = false := by
          rw [hreceived]
          simp
        dsimp only [setReceived]
        rw [count_set_true (by rw [acc.1.received_length]; omega) hfalse, hn]
      · intro i
        dsimp only [setReceived]
        rw [getD_received_set (by omega), hreceived,
          decide_lt_succ_and fun i => covers bitmap (s.chunkBase + i), hcovers, Bool.and_true]
    · rename_i hcovers
      refine ⟨hbase, hcount, hn, ?_⟩
      intro i
      rw [hreceived, decide_lt_succ_and fun i => covers bitmap (s.chunkBase + i),
        Bool.eq_false_iff.mpr hcovers, Bool.and_false, Bool.or_false]

/-! ## Both ends -/

/-- The chunk is not sent: a resume bitmap or a zero run covers it. -/
def skipped (bitmap : Option Bytes) (runs : List (ℕ × ℕ)) (c : ℕ) : Bool :=
  bitmap.any (covers · c) || decide (c ∈ zeroRunChunks runs)

lemma eq_map_range {flags : List Bool} {n : ℕ} {p : ℕ → Bool} (hlen : flags.length = n)
    (h : ∀ i, flags.getD i false = (decide (i < n) && p i)) : flags = (List.range n).map p := by
  apply ext_getElem (by simp [hlen])
  intro i hi hi'
  have hget := h i
  rw [getD_eq_getElem?_getD, getElem?_eq_getElem hi, decide_eq_true (hlen ▸ hi)] at hget
  simpa using hget

def resumedSender (bitmap : Option Bytes) (s : StreamState) : StreamState :=
  match bitmap with
  | none => s
  | some bitmap => (skipResumed bitmap s).1

lemma resumedSender_new (bitmap : Option Bytes) (id : UInt32) (base count : ℕ) :
    let s := resumedSender bitmap (.new id base count)
    s.chunkBase = base ∧ s.chunkCount = count ∧
      ∀ i, s.acked.getD i false = (decide (i < count) && bitmap.any (covers · (base + i))) := by
  have hfresh : ∀ i, (new id base count).acked.getD i false = false :=
    getD_replicate_false count
  cases bitmap with
  | none =>
    refine ⟨rfl, rfl, fun i => ?_⟩
    rw [Option.any_none, Bool.and_false]
    exact hfresh i
  | some bitmap =>
    obtain ⟨hbase, hcount, hacked⟩ :=
      foldl_skipResumedChunk bitmap (.new id base count) 0 count le_rfl
    have hlen : (new id base count).acked.length = count :=
      (new id base count).acked_length
    simp only [resumedSender, skipResumed, hlen]
    refine ⟨hbase, hcount, fun i => ?_⟩
    rw [hacked, hfresh, Bool.false_or, Option.any_some]
    rfl

def resumedDaemon (bitmap : Option Bytes) (s : StreamRecvState) : StreamRecvState :=
  match bitmap with
  | none => s
  | some bitmap => (resumeStream bitmap s).1

lemma resumedDaemon_new (bitmap : Option Bytes) (base count : ℕ) :
    let s := resumedDaemon bitmap (.new base count)
    s.chunkBase = base ∧ s.chunkCount = count ∧ Counted s ∧
      ∀ i, s.received.getD i false = (decide (i < count) && bitmap.any (covers · (base + i))) := by
  have hfresh : ∀ i, (StreamRecvState.new base count).received.getD i false = false :=
    getD_replicate_false count
  have hcounted : (StreamRecvState.new base count).nReceived =
      (StreamRecvState.new base count).received.count true := by
    simp [StreamRecvState.new, count_replicate]
  cases bitmap with
  | none =>
    refine ⟨rfl, rfl, ⟨hcounted, hfresh _⟩, fun i => ?_⟩
    rw [Option.any_none, Bool.and_false]
    exact hfresh i
  | some bitmap =>
    obtain ⟨hbase, hcount, hn, hreceived⟩ :=
      foldl_resumeChunk bitmap 0 hfresh hcounted count le_rfl
    have hlen : (StreamRecvState.new base count).received.length = count :=
      (StreamRecvState.new base count).received_length
    simp only [resumedDaemon, resumeStream, hlen]
    exact ⟨hbase, hcount, ⟨hn, getD_advanceCursor _ _⟩, hreceived⟩

/-- One stream of the sender and of the daemon before the data phase: the same chunks, the
same flags, counted once, and the longest received prefix. -/
structure InStep (skip : ℕ → Bool) (s : StreamState) (r : StreamRecvState) : Prop where
  base : s.chunkBase = r.chunkBase
  count : s.chunkCount = r.chunkCount
  acked : s.acked = (List.range s.chunkCount).map fun i => skip (s.chunkBase + i)
  received : r.received = s.acked
  nAcked : s.nAcked = (List.range s.chunkCount).countP fun i => skip (s.chunkBase + i)
  nReceived : r.nReceived = s.nAcked
  below_prefix : ∀ i < r.contigPrefix, r.received.getD i false = true
  at_prefix : r.received.getD r.contigPrefix false = false
  inside : ∀ global, ownedBySender global s = true →
    global - s.chunkBase < s.acked.length ∧ global - r.chunkBase < r.received.length

variable (bitmap : Option Bytes) (runs : List (ℕ × ℕ))

lemma inStep_new (id : UInt32) (base count : ℕ) :
    InStep (skipped bitmap runs)
      ((zeroRunChunks runs).foldl senderMarking.markOwn (resumedSender bitmap (.new id base count)))
      ((zeroRunChunks runs).foldl daemonMarking.markOwn
        (resumedDaemon bitmap (.new base count))) := by
  obtain ⟨hsbase, hscount, hacked⟩ := resumedSender_new bitmap id base count
  obtain ⟨hrbase, hrcount, hcounted, hreceived⟩ := resumedDaemon_new bitmap base count
  generalize resumedSender bitmap (.new id base count) = s₀ at hsbase hscount hacked
  generalize resumedDaemon bitmap (.new base count) = r₀ at hrbase hrcount hcounted hreceived
  set gs := zeroRunChunks runs with hgs
  set s := gs.foldl senderMarking.markOwn s₀
  set r := gs.foldl daemonMarking.markOwn r₀
  have hsrange : s.chunkBase = s₀.chunkBase ∧ s.chunkCount = s₀.chunkCount :=
    senderMarking.range_foldl_markOwn gs s₀
  have hrrange : r.chunkBase = r₀.chunkBase ∧ r.chunkCount = r₀.chunkCount :=
    daemonMarking.range_foldl_markOwn gs r₀
  have hsflag : ∀ i, s.acked.getD i false = (s₀.acked.getD i false ||
      (decide (i < s₀.chunkCount) && decide (s₀.chunkBase + i ∈ gs))) :=
    senderMarking.flag_foldl_markOwn gs s₀
  have hrflag : ∀ i, r.received.getD i false = (r₀.received.getD i false ||
      (decide (i < r₀.chunkCount) && decide (r₀.chunkBase + i ∈ gs))) :=
    daemonMarking.flag_foldl_markOwn gs r₀
  have hgood : Counted r := daemonMarking.good_foldl_markOwn gs hcounted
  have hsbase' := hsrange.1.trans hsbase
  have hscount' := hsrange.2.trans hscount
  have hrbase' := hrrange.1.trans hrbase
  have hrcount' := hrrange.2.trans hrcount
  have hs : s.acked = (List.range count).map fun i => skipped bitmap runs (base + i) := by
    refine eq_map_range (s.acked_length.trans hscount') fun i => ?_
    rw [hsflag, hacked, hscount, hsbase, ← Bool.and_or_distrib_left, skipped, hgs]
  have hr : r.received = (List.range count).map fun i => skipped bitmap runs (base + i) := by
    refine eq_map_range (r.received_length.trans hrcount') fun i => ?_
    rw [hrflag, hreceived, hrcount, hrbase, ← Bool.and_or_distrib_left, skipped, hgs]
  refine ⟨hsbase'.trans hrbase'.symm, hscount'.trans hrcount'.symm, ?_, hr.trans hs.symm, ?_, ?_,
    r.contig_received, hgood.2, ?_⟩
  · rw [hsbase', hscount', hs]
  · rw [s.nAcked_eq, hs, hsbase', hscount', List.count, countP_map]
    simp [Function.comp_def]
  · rw [hgood.1, s.nAcked_eq, hr, hs]
  · intro global hown
    obtain ⟨hge, hlt⟩ : s.chunkBase ≤ global ∧ global < s.chunkBase + s.chunkCount := by
      simpa [ownedBySender] using hown
    rw [s.acked_length, r.received_length]
    omega

lemma disjoint_of_ranges {τ : Type*} {M : Marking τ} {ts : List τ} (totalChunks ns n : ℕ)
    (h : ts.map (fun t => (M.base t, M.count t)) = streamRanges totalChunks ns n 0 0) :
    M.Disjoint ts := by
  have hranges := pairwise_streamRanges totalChunks ns n 0 0
  rw [← h, pairwise_map] at hranges
  exact Marking.disjoint_of_pairwise hranges

variable (totalChunks numStreams : ℕ)

lemma exists_senderSkips :
    ∃ resumed zeroSkipped, senderSkips totalChunks numStreams bitmap runs =
      some ((buildStreams totalChunks numStreams).map fun s =>
        (zeroRunChunks runs).foldl senderMarking.markOwn (resumedSender bitmap s), resumed,
          zeroSkipped) := by
  have hresumed : (skipResumeBitmap (buildStreams totalChunks numStreams) bitmap).1 =
      (buildStreams totalChunks numStreams).map (resumedSender bitmap) := by
    cases bitmap with
    | none => exact (map_id _).symm
    | some bitmap => simp [skipResumeBitmap, resumedSender]
  have hdisjoint : senderMarking.Disjoint
      ((buildStreams totalChunks numStreams).map (resumedSender bitmap)) := by
    refine disjoint_of_ranges totalChunks (max numStreams 1) numStreams ?_
    rw [buildStreams, map_map, map_map]
    have hrange : ∀ r ∈ (streamRanges totalChunks (max numStreams 1) numStreams 0 0).zipIdx,
        ((fun s => (senderMarking.base s, senderMarking.count s)) ∘ resumedSender bitmap ∘
          fun r : (ℕ × ℕ) × ℕ => .new (UInt32.ofNat r.2) r.1.1 r.1.2) r = r.1 := by
      intro r _
      obtain ⟨hbase, hcount, -⟩ := resumedSender_new bitmap (UInt32.ofNat r.2) r.1.1 r.1.2
      exact Prod.ext hbase hcount
    exact (map_congr_left hrange).trans (zipIdx_map_fst _ _)
  obtain ⟨n, hupdate⟩ := senderMarking.updateOwners_eq
    (fun _ _ _ _ => rfl) (zeroRunChunks runs) hdisjoint (fun _ _ => trivial)
  unfold senderSkips
  refine ⟨(skipResumeBitmap (buildStreams totalChunks numStreams) bitmap).2, n, ?_⟩
  have howner : ownedBySender = senderMarking.owns := rfl
  have hmark : (fun global s => some (markAcked s (global - s.chunkBase))) =
      fun global s => some (senderMarking.mark global s) := rfl
  simp only [hresumed, howner, hmark, hupdate, map_map]
  rfl

lemma markZeroChunk_eq (global : ℕ) (s : StreamRecvState) (_ : Counted s)
    (hown : daemonMarking.owns global s = true) :
    markZeroChunk global s = some (daemonMarking.mark global s) := by
  have hrange : s.chunkBase ≤ global ∧ global < s.chunkBase + s.chunkCount :=
    Marking.owns_iff.mp hown
  have hlocal : global - s.chunkBase < s.received.length := by
    rw [s.received_length]
    omega
  unfold markZeroChunk
  simp only [hlocal, if_true, daemonMarking]
  split <;> rfl

lemma exists_daemonSkips :
    ∃ resumed zeroMarked, daemonSkips totalChunks numStreams bitmap runs =
      some ((buildRecvStreams totalChunks (max numStreams 1)).map fun s =>
        (zeroRunChunks runs).foldl daemonMarking.markOwn (resumedDaemon bitmap s), resumed,
          zeroMarked) := by
  set streams := buildRecvStreams totalChunks (max numStreams 1) with hstreams
  have hresumed : (match bitmap with
      | none => (streams, 0)
      | some bitmap => applyResumeBitmap streams bitmap).1 =
        streams.map (resumedDaemon bitmap) := by
    cases bitmap with
    | none => exact (map_id streams).symm
    | some bitmap => simp [resumedDaemon, applyResumeBitmap]
  have hspec : ∀ s ∈ streams.map (resumedDaemon bitmap), Counted s := by
    intro s hs
    obtain ⟨t, ht, rfl⟩ := List.mem_map.mp hs
    obtain ⟨r, -, rfl⟩ := List.mem_map.mp ht
    exact (resumedDaemon_new bitmap r.1 r.2).2.2.1
  have hdisjoint : daemonMarking.Disjoint (streams.map (resumedDaemon bitmap)) := by
    refine disjoint_of_ranges totalChunks (max numStreams 1) (max numStreams 1) ?_
    rw [hstreams, buildRecvStreams, map_map, map_map]
    have hrange : ∀ r ∈ streamRanges totalChunks (max numStreams 1) (max numStreams 1) 0 0,
        ((fun s => (daemonMarking.base s, daemonMarking.count s)) ∘ resumedDaemon bitmap ∘
          fun r : ℕ × ℕ => .new r.1 r.2) r = r := by
      intro r _
      obtain ⟨hbase, hcount, -⟩ := resumedDaemon_new bitmap r.1 r.2
      exact Prod.ext hbase hcount
    exact (map_congr_left hrange).trans (map_id _)
  obtain ⟨n, hupdate⟩ := daemonMarking.updateOwners_eq markZeroChunk_eq (zeroRunChunks runs)
    hdisjoint hspec
  unfold daemonSkips
  simp only [← hstreams]
  generalize (match bitmap with
      | none => (streams, 0)
      | some bitmap => applyResumeBitmap streams bitmap) = resumed at hresumed
  obtain ⟨after, skipped⟩ := resumed
  dsimp only at hresumed
  subst hresumed
  split
  · rename_i hempty
    rw [List.isEmpty_iff.mp hempty]
    exact ⟨skipped, 0, by simp [zeroRunChunks]⟩
  · refine ⟨skipped, n, ?_⟩
    have howner : ownedByDaemon = daemonMarking.owns := rfl
    rw [applyZeroRuns, howner, hupdate, map_map]
    rfl

/-- Whatever the bitmap and the zero runs: neither end reaches outside its streams, and the
sender's acked chunks are, stream by stream, the daemon's received ones. -/
theorem skip_sets_agree (totalChunks numStreams : ℕ) (hstreams : 0 < numStreams)
    (bitmap : Option Bytes) (runs : List (ℕ × ℕ)) :
    ∃ sent recv, senderSkips totalChunks numStreams bitmap runs = some sent ∧
      daemonSkips totalChunks numStreams bitmap runs = some recv ∧
      sent.1.map StreamState.range = streamRanges totalChunks numStreams numStreams 0 0 ∧
      List.Forall₂ (InStep (skipped bitmap runs)) sent.1 recv.1 := by
  obtain ⟨resumed, zeroSkipped, hsent⟩ := exists_senderSkips bitmap runs totalChunks numStreams
  obtain ⟨resumed', zeroMarked, hrecv⟩ := exists_daemonSkips bitmap runs totalChunks numStreams
  have hmax : max numStreams 1 = numStreams := max_eq_left hstreams
  have hzip := zipIdx_map_fst 0 (streamRanges totalChunks numStreams numStreams 0 0)
  refine ⟨_, _, hsent, hrecv, ?_, ?_⟩
  · rw [buildStreams, hmax, map_map, map_map]
    refine (map_congr_left fun r _ => ?_).trans hzip
    obtain ⟨hbase, hcount, -⟩ := resumedSender_new bitmap (UInt32.ofNat r.2) r.1.1 r.1.2
    have hrange := senderMarking.range_foldl_markOwn (zeroRunChunks runs)
      (resumedSender bitmap (.new (UInt32.ofNat r.2) r.1.1 r.1.2))
    exact Prod.ext (hrange.1.trans hbase) (hrange.2.trans hcount)
  · -- both lists are made from the same ranges
    rw [buildStreams, buildRecvStreams, hmax]
    nth_rewrite 2 [← hzip]
    rw [map_map, map_map, map_map, forall₂_map_left_iff,
      forall₂_map_right_iff, forall₂_same]
    intro r _
    exact inStep_new bitmap runs (UInt32.ofNat r.2) r.1.1 r.1.2

theorem skip_sets_agree_overlap :
    ∃ sent recv, senderSkips 10 3 (some [0b101, 0xFF, 0xFF]) [(2, 3)] = some sent ∧
      daemonSkips 10 3 (some [0b101, 0xFF, 0xFF]) [(2, 3)] = some recv ∧
      List.Forall₂ (InStep (skipped (some [0b101, 0xFF, 0xFF]) [(2, 3)])) sent.1 recv.1 := by
  obtain ⟨sent, recv, hsent, hrecv, -, hstep⟩ :=
    skip_sets_agree 10 3 (by decide) (some [0b101, 0xFF, 0xFF]) [(2, 3)]
  exact ⟨sent, recv, hsent, hrecv, hstep⟩

end Favonius.Sync
