import Favonius.Lib.FlagBits
import Favonius.Proto.Packet
import Favonius.Transfer.Geometry

/-!
# Receive streams of the daemon

Per-stream receive state: which chunks are in, the contiguous prefix, the ACK
bitmap built from them and the NACK gap detection.  A stream carries the facts
its own bookkeeping maintains: the flag list has one entry per chunk and every
chunk below the contiguous prefix is received.
-/

namespace Favonius.Daemon

open ByteCodec FlagBits Transfer

structure StreamRecvState where
  chunkBase : ℕ
  chunkCount : ℕ
  received : List Bool
  nReceived : ℕ
  contigPrefix : ℕ
  sinceAck : ℕ
  expectedNextLocal : ℕ
  gapCounter : ℕ
  gapStartLocal : Option ℕ
  /-- Clock reading, in milliseconds, when the current gap was first seen. -/
  gapFirstSeen : Option ℕ
  nackedRanges : List ℕ
  received_length : received.length = chunkCount
  contig_le : contigPrefix ≤ chunkCount
  contig_received : ∀ i < contigPrefix, received.getD i false = true

instance : DecidableEq StreamRecvState := fun s t =>
  decidable_of_iff (s.chunkBase = t.chunkBase ∧ s.chunkCount = t.chunkCount ∧
      s.received = t.received ∧ s.nReceived = t.nReceived ∧ s.contigPrefix = t.contigPrefix ∧
      s.sinceAck = t.sinceAck ∧ s.expectedNextLocal = t.expectedNextLocal ∧
      s.gapCounter = t.gapCounter ∧ s.gapStartLocal = t.gapStartLocal ∧
      s.gapFirstSeen = t.gapFirstSeen ∧ s.nackedRanges = t.nackedRanges)
    (by cases s; cases t; simp)

namespace StreamRecvState

lemma contig_new (chunkCount : ℕ) :
    ∀ i < 0, (List.replicate chunkCount false).getD i false = true := by
  simp

lemma length_set_received (s : StreamRecvState) (localCi : ℕ) :
    (s.received.set localCi true).length = s.chunkCount := by
  rw [List.length_set]
  exact s.received_length

def new (chunkBase chunkCount : ℕ) : StreamRecvState where
  chunkBase := chunkBase
  chunkCount := chunkCount
  received := List.replicate chunkCount false
  nReceived := 0
  contigPrefix := 0
  sinceAck := 0
  expectedNextLocal := 0
  gapCounter := 0
  gapStartLocal := none
  gapFirstSeen := none
  nackedRanges := []
  received_length := by simp
  contig_le := Nat.zero_le _
  contig_received := contig_new chunkCount

/-- Mark a local chunk and advance the contiguous prefix over the run that this
completes. -/
def markReceived (s : StreamRecvState) (localCi : ℕ) : StreamRecvState :=
  let received := s.received.set localCi true
  have hspec := advanceCursor_spec received s.contigPrefix
    (by rw [List.length_set, s.received_length]; exact s.contig_le)
    fun i hi => getD_set_true (s.contig_received i hi)
  { s with
    received := received
    nReceived := s.nReceived + 1
    contigPrefix := advanceCursor received s.contigPrefix
    received_length := s.length_set_received localCi
    contig_le := by
      have hle := hspec.2.1
      rwa [List.length_set, s.received_length] at hle
    contig_received := hspec.2.2 }

def localChunkIndex (s : StreamRecvState) (ci : ℕ) : Option ℕ :=
  if s.chunkBase ≤ ci ∧ ci - s.chunkBase < s.chunkCount then some (ci - s.chunkBase) else none

lemma localChunkIndex_eq_some {s : StreamRecvState} {ci l : ℕ} :
    s.localChunkIndex ci = some l ↔ ci = s.chunkBase + l ∧ l < s.chunkCount := by
  unfold localChunkIndex
  split
  · rw [Option.some.injEq]
    omega
  constructor
  · intro h
    cases h
  · intro h
    omega

end StreamRecvState

def buildRecvStreams (totalChunks numStreams : ℕ) : List StreamRecvState :=
  (streamRanges totalChunks numStreams numStreams 0 0).map fun r => .new r.1 r.2

def maxAckBitmapBytes : ℕ := 1024

/-- The highest contiguous packet number and the bitmap of the chunks after it.
With an empty prefix the number is `chunkBase - 1`, which wraps for stream 0. -/
def buildStreamAckBitmap (s : StreamRecvState) : UInt64 × Bytes :=
  let hcPn := if 0 < s.contigPrefix then UInt64.ofNat (s.chunkBase + s.contigPrefix - 1)
    else UInt64.ofNat s.chunkBase - 1
  let remaining := s.received.drop s.contigPrefix
  let bitmapLen := min ((remaining.length + 7) / 8) maxAckBitmapBytes
  (hcPn, packFlags bitmapLen (remaining.take (maxAckBitmapBytes * 8)))

def gapStep (s : StreamRecvState) (acc : List (ℕ × ℕ) × Option ℕ) (idx : ℕ) :
    List (ℕ × ℕ) × Option ℕ :=
  if idx < s.received.length ∧ s.received.getD idx false = false then
    let g := idx + s.chunkBase
    if s.nackedRanges.contains g = false then
      match acc.2 with
      | none => (acc.1, some g)
      | some _ => acc
    else
      match acc.2 with
      | some first => (acc.1 ++ [(first, g - 1)], none)
      | none => acc
  else
    match acc.2 with
    | some first => (acc.1 ++ [(first, (idx - 1) + s.chunkBase)], none)
    | none => acc

def gapRanges (s : StreamRecvState) (gs ge : ℕ) : List (ℕ × ℕ) :=
  let scan := (List.range' gs (ge - gs)).foldl (gapStep s) ([], none)
  match scan.2 with
  | some first => scan.1 ++ [(first, (ge - 1) + s.chunkBase)]
  | none => scan.1

def recordNacked (nacked : List ℕ) (ranges : List (ℕ × ℕ)) : List ℕ :=
  ranges.foldl (fun acc r =>
    (List.range' r.1 (r.2 + 1 - r.1)).foldl (fun acc pn => acc.insert pn) acc) nacked

/-- A chunk arrived past the expected one: the gap before it is opened or aged. -/
def StreamRecvState.ageGap (s : StreamRecvState) (nowMs : ℕ) : StreamRecvState :=
  match s.gapStartLocal with
  | none => { s with
      gapStartLocal := some s.expectedNextLocal
      gapFirstSeen := some nowMs
      gapCounter := 1 }
  | some _ => { s with gapCounter := s.gapCounter + 1 }

/-- A gap is reported once 32 later chunks came in or 25 ms went by. -/
def StreamRecvState.gapDue (s : StreamRecvState) (nowMs : ℕ) : Bool :=
  32 ≤ s.gapCounter || 25 ≤ (s.gapFirstSeen.elim 0 (nowMs - ·))

def StreamRecvState.closeGap (s : StreamRecvState) (ranges : List (ℕ × ℕ)) : StreamRecvState :=
  { s with
      nackedRanges := recordNacked s.nackedRanges ranges
      gapStartLocal := none
      gapFirstSeen := none
      gapCounter := 0 }

def StreamRecvState.expectAfter (s : StreamRecvState) (localCi : ℕ) : StreamRecvState :=
  { s with
      expectedNextLocal := max s.expectedNextLocal (localCi + 1)
      nackedRanges := if 10000 < s.nackedRanges.length then [] else s.nackedRanges }

/-- Gap bookkeeping after a chunk of the stream arrived in NACK mode, and the
ranges of the NACK to send, if any. -/
def detectGap (s : StreamRecvState) (localCi nowMs : ℕ) : StreamRecvState × List (ℕ × ℕ) :=
  if s.expectedNextLocal < localCi then
    let aged := s.ageGap nowMs
    if aged.gapDue nowMs then
      let ranges := gapRanges aged (aged.gapStartLocal.getD aged.expectedNextLocal) localCi
      ((aged.closeGap ranges).expectAfter localCi, ranges)
    else (aged.expectAfter localCi, [])
  else (s.expectAfter localCi, [])

structure Progress where
  chunkBase : ℕ
  chunkCount : ℕ
  received : List Bool
  nReceived : ℕ
  contigPrefix : ℕ

def Progress.range (p : Progress) : ℕ × ℕ := (p.chunkBase, p.chunkCount)

def StreamRecvState.progress (s : StreamRecvState) : Progress :=
  ⟨s.chunkBase, s.chunkCount, s.received, s.nReceived, s.contigPrefix⟩

lemma progress_ageGap (s : StreamRecvState) (nowMs : ℕ) :
    (s.ageGap nowMs).progress = s.progress := by
  unfold StreamRecvState.ageGap
  cases hgap : s.gapStartLocal <;> rfl

lemma progress_detectGap (s : StreamRecvState) (localCi nowMs : ℕ) :
    (detectGap s localCi nowMs).1.progress = s.progress := by
  unfold detectGap
  split
  · dsimp only
    split
    · exact progress_ageGap s nowMs
    · exact progress_ageGap s nowMs
  · rfl

end Favonius.Daemon
