import Favonius.Daemon.Receiver

/-!
# Manifest checks of the daemon

The geometry a MANIFEST declares is cross-checked before it drives any
allocation.  Only the fields the checks read are kept.
-/

namespace Favonius.Daemon

def maxNumStreams : ℕ := 64

def maxTotalChunks : ℕ := 2 ^ 26

def maxZeroRuns : ℕ := 4096

structure FileManifest where
  fileSize : ℕ
  payloadSize : ℕ
  totalChunks : ℕ
  numStreams : ℕ
  /-- Runs of chunks inside holes of the source, first chunk and count. -/
  zeroRuns : List (ℕ × ℕ)

/-- Runs are ascending, non-empty, non-overlapping and inside the file; the result is
the number of chunks they cover.  Ends are 64-bit. -/
def validateZeroRuns (totalChunks : ℕ) : List (ℕ × ℕ) → ℕ → ℕ → Except String ℕ
  | [], _, covered => .ok covered
  | (first, count) :: runs, nextFree, covered =>
    if 2 ^ 64 ≤ first + count then .error "zero run overflows"
    else if count = 0 then .error s!"empty zero run at chunk {first}"
    else if first < nextFree then
      .error s!"zero run at chunk {first} is out of order or overlaps"
    else if totalChunks < first + count then
      .error s!"zero run [{first},{count}] ends past chunk {totalChunks}"
    else validateZeroRuns totalChunks runs (first + count) (covered + count)

def validateManifest (m : FileManifest) (maxFileSize : Option ℕ) : Except String Unit :=
  let tooLarge := maxFileSize.filter (· < m.fileSize)
  match tooLarge with
  | some maxSize =>
    .error s!"file size {m.fileSize} exceeds limit {maxSize / (1024 * 1024)} MB"
  | none =>
    if m.payloadSize = 0 ∨ maxPacket < m.payloadSize then
      .error s!"invalid payload_size {m.payloadSize}"
    else if maxNumStreams < m.numStreams then
      .error s!"num_streams {m.numStreams} exceeds limit {maxNumStreams}"
    else if maxTotalChunks < m.totalChunks then
      .error s!"total_chunks {m.totalChunks} exceeds limit {maxTotalChunks}"
    else
      let expectedChunks := (m.fileSize + m.payloadSize - 1) / m.payloadSize
      if m.totalChunks ≠ expectedChunks then
        .error (s!"inconsistent manifest: total_chunks {m.totalChunks} != " ++
          s!"ceil(file_size {m.fileSize} / payload_size {m.payloadSize}) = {expectedChunks}")
      else if maxZeroRuns < m.zeroRuns.length then
        .error (s!"invalid zero runs: {m.zeroRuns.length} zero runs " ++
          s!"exceed the limit of {maxZeroRuns}")
      else
        match validateZeroRuns m.totalChunks m.zeroRuns 0 0 with
        | .error e => .error s!"invalid zero runs: {e}"
        | .ok _ => .ok ()

lemma validateManifest_ok {m : FileManifest} {maxFileSize : Option ℕ}
    (h : validateManifest m maxFileSize = .ok ()) :
    0 < m.payloadSize ∧ m.payloadSize ≤ maxPacket ∧ m.numStreams ≤ maxNumStreams ∧
      m.totalChunks ≤ maxTotalChunks ∧
      m.totalChunks = (m.fileSize + m.payloadSize - 1) / m.payloadSize := by
  unfold validateManifest at h
  dsimp only at h
  split at h
  · cases h
  split_ifs at h with hpayload hstreams hchunks hexpected
  · refine ⟨?_, ?_, by omega, by omega, ?_⟩
    · omega
    · omega
    · by_contra hne
      exact hexpected hne

end Favonius.Daemon
