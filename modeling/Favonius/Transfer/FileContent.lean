import Favonius.Transfer.Acknowledge
import Favonius.Transfer.Placement

/-!
# What the daemon's file holds

As long as every chunk that is placed is the source's chunk of that index, every
chunk received during the transfer holds the source's bytes.
-/

namespace Favonius.Transfer

open ByteCodec Crypto Daemon List StreamRecvState

/-- Chunks received since the start hold the source's bytes. -/
structure FileInv (sess : Session) (init : List Progress) (r : Receiver) : Prop where
  initRanges : init.map Progress.range = sess.ranges
  grows : Grows init (r.streams.map progress)
  mapped : 0 < sess.send.fileData.length → r.mmap.length = sess.send.fileData.length
  content : ∀ (sid : ℕ) p q i, (r.streams.map progress)[sid]? = some p →
    init[sid]? = some q → p.received.getD i false = true → q.received.getD i false = false →
      chunkAt r.mmap sess.send.payloadSize (p.chunkBase + i) =
        chunkAt sess.send.fileData sess.send.payloadSize (p.chunkBase + i)

variable {sess : Session} {init : List Progress} {r r' : Receiver}

lemma FileInv.ranges (h : FileInv sess init r) :
    (r.streams.map progress).map Progress.range = sess.ranges := by
  rw [← h.initRanges, h.grows.map_range]

lemma FileInv.end_le (h : FileInv sess init r) {p : Progress} (hp : p ∈ r.streams.map progress) :
    p.chunkBase + p.chunkCount ≤ sess.send.totalChunks :=
  sess.range_end_le (h.ranges ▸ mem_map_of_mem (f := Progress.range) hp)

lemma getD_received_markReceived {s : StreamRecvState} {l i : ℕ} (hne : i ≠ l) :
    (s.markReceived l).progress.received.getD i false = s.received.getD i false := by
  show (s.received.set l true).getD i false = _
  rw [getD_eq_getElem?_getD, getElem?_set_ne hne.symm, ← getD_eq_getElem?_getD]

lemma FileInv.place (h : FileInv sess init r) {sid l ci : ℕ} {s : StreamRecvState}
    (hs : r.streams[sid]? = some s) (hlocal : s.localChunkIndex ci = some l)
    (hmmap : r'.mmap = writeChunk r.mmap (ci * sess.send.payloadSize)
      (chunkAt sess.send.fileData sess.send.payloadSize ci))
    (hstreams : r'.streams.map progress =
      (r.streams.map progress).set sid (s.markReceived l).progress) :
    FileInv sess init r' := by
  obtain ⟨rfl, hl⟩ := localChunkIndex_eq_some.mp hlocal
  have hsid : (r.streams.map progress)[sid]? = some s.progress := by simp [hs]
  have hend := h.end_le (mem_of_getElem? hsid)
  have hsize : 0 < sess.send.fileData.length := by
    have hstart := sess.lt_totalChunks_iff.mp (show s.chunkBase + l < _ from
      (Nat.add_lt_add_left hl _).trans_le hend)
    omega
  have hlen := h.mapped hsize
  refine ⟨h.initRanges, ?_, ?_, ?_⟩
  · rw [hstreams]
    exact h.grows.trans (Grows.set_markReceived hsid l)
  · intro _
    rw [hmmap, length_writeChunk, hlen]
  intro sid' p q i hp hq hreceived hfresh
  rw [hmmap]
  by_cases heq : p.chunkBase + i = s.chunkBase + l
  · rw [heq]
    exact chunkAt_writeChunk_self hlen
  rw [chunkAt_writeChunk_of_ne (length_chunkAt_le _ _ _) heq]
  rw [hstreams, getElem?_set] at hp
  split_ifs at hp with hsame hlt
  · -- another chunk of the same stream
    subst hsame
    cases hp
    have hne : i ≠ l := fun hil => heq (by rw [hil]; rfl)
    rw [getD_received_markReceived hne] at hreceived
    exact h.content sid s.progress q i hsid hq hreceived hfresh
  · exact h.content sid' p q i hp hq hreceived hfresh

lemma fileInv_start (st : DataStart sess) :
    FileInv sess (st.recvStreams.map progress) st.sys.receiver := by
  refine ⟨st.recvRanges, Grows.refl _, st.mapped, ?_⟩
  intro sid p q i hp hq hreceived hfresh
  obtain rfl : p = q := Option.some.inj (hp.symm.trans hq)
  rw [hreceived] at hfresh
  cases hfresh

lemma FileInv.of_core (h : FileInv sess init r) (hmmap : r'.mmap = r.mmap)
    (hstreams : r'.streams.map progress =
      r.streams.map progress) : FileInv sess init r' := by
  refine ⟨h.initRanges, ?_, ?_, ?_⟩
  · rw [hstreams]
    exact h.grows
  · rw [hmmap]
    exact h.mapped
  · rw [hmmap, hstreams]
    exact h.content

lemma FileInv.step (h : FileInv sess init r) {openFn : OpenFn} {ev : RecvEvent}
    {out : List Bytes} (hstep : r.step sess.prims openFn sess.recv ev = some (r', out))
    (hplaced : ∀ pkt clock nowMs dp s l data, ev = .datagram pkt clock nowMs →
      Placed sess.prims openFn sess.recv r (unmask sess.prims sess.recv r.keyEpoch pkt) dp s l
        data → data = chunkAt sess.send.fileData sess.send.payloadSize dp.chunkIndex.toNat) :
    FileInv sess init r' ∧ Grows (r.streams.map progress)
      (r'.streams.map progress) := by
  cases (Receiver.step_effect hstep).1 with
  | kept _ hmmap hprogress _ | rotated _ _ _ _ _ _ _ hmmap hprogress _ =>
    refine ⟨h.of_core hmmap hprogress, ?_⟩
    rw [hprogress]
    exact Grows.refl _
  | placed pkt clock nowMs dp s l data _ hp hmmap hprogress _ =>
    obtain rfl := hplaced pkt clock nowMs dp s l data rfl hp
    have hget : (r.streams.map progress)[dp.streamId.toNat]? = some s.progress := by
      simp [hp.stream_eq]
    refine ⟨h.place hp.stream_eq hp.chunk_eq hmmap hprogress, ?_⟩
    rw [hprogress]
    exact Grows.set_markReceived hget l

end Favonius.Transfer
