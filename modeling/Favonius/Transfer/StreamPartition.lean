import Favonius.Client.Streams
import Favonius.Daemon.RecvStreams

/-!
# The partition into streams at both ends

The sender and the daemon cut the chunks of a file into streams on their own.  Both cuts have the
same ranges, which are a balanced partition of the chunks, and a chunk number is turned into a local
one by the daemon and back by the sender.
-/

namespace Favonius.Transfer

open Client Daemon StreamState

/-- The ranges, base and count, follow each other, make up the numbers below the total and differ
in size by at most one. -/
structure SplitsInto (totalChunks numStreams : ℕ) (ranges : List (ℕ × ℕ)) : Prop where
  length_eq : ranges.length = numStreams
  ascending : ranges.Pairwise fun a b => a.1 + a.2 ≤ b.1
  covers : ∀ c, c < totalChunks ↔ ∃ r ∈ ranges, r.1 ≤ c ∧ c < r.1 + r.2
  balanced : ∀ r ∈ ranges, ∀ r' ∈ ranges, r.2 ≤ r'.2 + 1

variable {totalChunks : ℕ}

lemma count_of_mem_streamRanges {ns remaining i base : ℕ} {r : ℕ × ℕ}
    (h : r ∈ streamRanges totalChunks ns remaining i base) :
    totalChunks / ns ≤ r.2 ∧ r.2 ≤ totalChunks / ns + 1 := by
  induction remaining generalizing i base with
  | zero => cases h
  | succ remaining ih =>
    rcases List.mem_cons.mp h with rfl | h
    · split <;> omega
    · exact ih h

lemma splitsInto_streamRanges {numStreams : ℕ} (hn : 1 ≤ numStreams) :
    SplitsInto totalChunks numStreams (streamRanges totalChunks numStreams numStreams 0 0) where
  length_eq := length_streamRanges _ _ _ _ _
  ascending := pairwise_streamRanges _ _ _ _ _
  covers c := by
    have hall : rangesEnd totalChunks numStreams numStreams 0 0 = totalChunks := rangesEnd_all hn
    constructor
    · intro hc
      apply exists_mem_streamRanges (Nat.zero_le c)
      rwa [hall]
    · rintro ⟨r, hr, -, hlt⟩
      have hend := (mem_streamRanges_lt hr).2
      rw [hall] at hend
      exact hlt.trans_le hend
  balanced r hr r' hr' := by
    have hhigh := (count_of_mem_streamRanges hr).2
    have hlow := (count_of_mem_streamRanges hr').1
    omega

lemma range_buildStreams {numStreams : ℕ} (hn : 1 ≤ numStreams) :
    (buildStreams totalChunks numStreams).map range =
      streamRanges totalChunks numStreams numStreams 0 0 := by
  rw [buildStreams, max_eq_left hn, List.map_map]
  exact List.zipIdx_map_fst 0 _

lemma range_buildRecvStreams (totalChunks numStreams : ℕ) :
    (buildRecvStreams totalChunks numStreams).map (fun r => (r.chunkBase, r.chunkCount)) =
      streamRanges totalChunks numStreams numStreams 0 0 := by
  rw [buildRecvStreams, List.map_map]
  exact List.map_id _

/-- Both ends cut any number of chunks alike into any positive number of streams, and the daemon's
local index of a chunk is the one that the sender maps back to it. -/
theorem stream_partitions_agree (totalChunks numStreams : ℕ) (hn : 1 ≤ numStreams) :
    (buildStreams totalChunks numStreams).map range =
        (buildRecvStreams totalChunks numStreams).map (fun r => (r.chunkBase, r.chunkCount)) ∧
      SplitsInto totalChunks numStreams
        ((buildStreams totalChunks numStreams).map range) ∧
      ∀ (i : ℕ) (s : StreamState) (r : StreamRecvState),
        (buildStreams totalChunks numStreams)[i]? = some s →
        (buildRecvStreams totalChunks numStreams)[i]? = some r → ∀ c,
          ((∃ l, r.localChunkIndex c = some l) ↔
            s.chunkBase ≤ c ∧ c < s.chunkBase + s.chunkCount) ∧
          ∀ l, r.localChunkIndex c = some l → s.toGlobal l = c := by
  have hsame := (range_buildStreams hn).trans (range_buildRecvStreams totalChunks numStreams).symm
  refine ⟨hsame, ?_, ?_⟩
  · rw [range_buildStreams hn]
    exact splitsInto_streamRanges hn
  intro i s r hs hr c
  have hget := congrArg (fun l => l[i]?) hsame
  simp only [List.getElem?_map, hs, hr, Option.map_some, Option.some.injEq,
    range, Prod.mk.injEq] at hget
  obtain ⟨hbase, hcount⟩ := hget
  simp only [StreamRecvState.localChunkIndex_eq_some, ← hbase, ← hcount]
  refine ⟨⟨?_, ?_⟩, ?_⟩
  · rintro ⟨l, rfl, hl⟩
    omega
  · intro hc
    exact ⟨c - s.chunkBase, by omega, by omega⟩
  · rintro l ⟨rfl, -⟩
    rfl

theorem stream_partitions_agree_ten :
    (buildStreams 10 3).map range = [(0, 4), (4, 3), (7, 3)] ∧
      SplitsInto 10 3 ((buildStreams 10 3).map range) :=
  ⟨by decide, (stream_partitions_agree 10 3 (by decide)).2.1⟩

end Favonius.Transfer
