import Favonius.Transfer.Delivery

/-!
# Encrypted placement under attack

An attacker on the path may replay, reorder, drop and alter datagrams.  The
seal covers the 42-byte header, not the 22-byte DATA payload header behind it,
and the daemon places a chunk by the index it finds there.  So a chunk ends up
in its place as long as no ciphertext arrives under another chunk's index.
-/

namespace Favonius.Transfer

open Execution ByteCodec IdealAead Proto Crypto Client Daemon Option

/-- A delivered datagram with the ciphertext of a sent one names the same chunk as that one. -/
def IndexKept (s : Sys) : SysEvent → Prop
  | .recv (.datagram pkt _ _) => ∀ d ∈ s.toDaemon,
      ∀ dp ∈ decodeDataInline pkt, ∀ dp' ∈ decodeDataInline d,
        dp.data = dp'.data → dp.chunkIndex = dp'.chunkIndex
  | _ => True

instance decidableIndexKept (s : Sys) : ∀ ev, Decidable (IndexKept s ev)
  | .send _ => .isTrue trivial
  | .recv (.datagram pkt _ _) => inferInstanceAs (Decidable (∀ d ∈ s.toDaemon,
      ∀ dp ∈ decodeDataInline pkt, ∀ dp' ∈ decodeDataInline d,
        dp.data = dp'.data → dp.chunkIndex = dp'.chunkIndex))
  | .recv (.ackTimer _) => .isTrue trivial
  | .recv .tailGrace => .isTrue trivial
  | .recv .peerInactive => .isTrue trivial
  | .manifestReply _ _ => .isTrue trivial

/-- Received during the data phase, not marked in advance by resume or zero runs. -/
def Sys.ReceivedSince (initial : List StreamRecvState) (s : Sys) (c : ℕ) : Prop :=
  ∃ p ∈ s.receiver.streams.zip initial, p.1.chunkBase ≤ c ∧
    p.1.received.getD (c - p.1.chunkBase) false = true ∧
      p.2.received.getD (c - p.1.chunkBase) false = false

instance (initial : List StreamRecvState) (s : Sys) (c : ℕ) :
    Decidable (s.ReceivedSince initial c) :=
  inferInstanceAs (Decidable (∃ p ∈ s.receiver.streams.zip initial, p.1.chunkBase ≤ c ∧
    p.1.received.getD (c - p.1.chunkBase) false = true ∧
      p.2.received.getD (c - p.1.chunkBase) false = false))

variable {sess : Session} {s s' : Sys}

/-- What opens was sealed for some chunk; with the index kept, for the one it is placed at. -/
theorem WireInv.chunk_of_indexKept (h : WireInv sess s) (hkeys : sess.keys ≠ none) {pkt : Bytes}
    (hkept : ∀ d ∈ s.toDaemon, ∀ dp ∈ decodeDataInline pkt, ∀ dp' ∈ decodeDataInline d,
      dp.data = dp'.data → dp.chunkIndex = dp'.chunkIndex)
    {dp : DataPayloadRef} {t : StreamRecvState} {l : ℕ} {data : Bytes}
    (hplaced : Placed sess.prims (openIn s.log) sess.recv s.receiver
      (unmask sess.prims sess.recv s.receiver.keyEpoch pkt) dp t l data) :
    data = chunkAt sess.send.fileData sess.send.payloadSize dp.chunkIndex.toNat := by
  obtain ⟨ke, hke⟩ := ne_none_iff_exists'.mp fun hnone => hkeys (h.receiverKeys.mp hnone)
  obtain ⟨pt, hopen, hexpand⟩ := bind_eq_some_iff.mp hplaced.opened
  have hdecoded := hplaced.decoded
  rw [hke] at hopen hexpand hdecoded
  obtain ⟨r, hr, -, haad, rfl, hct⟩ := exists_record_of_openChunk hopen
  obtain ⟨keys, pn, ts, sid, index, plain, compressed, hstaged, hsent, rfl⟩ :=
    (h.logged r hr).data_of_aad hdecoded haad
  rw [decodeDataInline_unmask] at hdecoded
  have hindex : dp.chunkIndex = UInt64.ofNat index :=
    hkept _ hsent dp hdecoded _
      (decodeDataInline_sealedData _ _ _ _ _ _ _ _ _ hstaged.length_lt) hct.symm
  rw [hindex, hstaged.toNat_index]
  exact some.inj (hexpand.symm.trans (hstaged.expandChunk_of_aad haad))

lemma fileInv_step_of_indexKept {init : List Progress} (hkeys : sess.keys ≠ none)
    (hwire : WireInv sess s) (hfile : FileInv sess init s.receiver) {ev : SysEvent}
    (hkept : IndexKept s ev) (hstep : step sess s ev = some s') :
    FileInv sess init s'.receiver := by
  cases ev with
  | send ev =>
    obtain ⟨-, -, -, rfl⟩ := of_step_send hstep
    exact hfile
  | recv ev =>
    obtain ⟨receiver, out, hreceiver, rfl⟩ := of_step_recv hstep
    refine (hfile.step hreceiver ?_).1
    rintro pkt clock nowMs dp t l data rfl hplaced
    exact hwire.chunk_of_indexKept hkeys hkept hplaced
  | manifestReply seq timestamp =>
    cases hstep
    exact hfile

/-- In every encrypted transfer in which no ciphertext is delivered under another chunk's
index, whatever else the attacker does, every chunk received holds what the sender
sealed for it: the source's bytes of that chunk. -/
theorem placement_of_index_kept (sess : Session) (hkeys : sess.keys ≠ none) (st : DataStart sess)
    (es : List SysEvent) (s : Sys) (hrun : exec (step sess) st.sys es = some s)
    (hkept : Along (step sess) IndexKept st.sys es) (c : ℕ)
    (hc : s.ReceivedSince st.recvStreams c) :
    chunkAt s.receiver.mmap sess.send.payloadSize c =
      chunkAt sess.send.fileData sess.send.payloadSize c := by
  have hinv : WireInv sess s ∧
      FileInv sess (st.recvStreams.map StreamRecvState.progress) s.receiver := by
    refine hkept.invariant (P := fun t => WireInv sess t ∧ FileInv sess
      (st.recvStreams.map StreamRecvState.progress) t.receiver) ?_
      ⟨wireInv_start st, fileInv_start st⟩ hrun
    rintro t ev u ⟨hwire, hfile⟩ hok hstep
    exact ⟨hwire.step hstep, fileInv_step_of_indexKept hkeys hwire hfile hok hstep⟩
  obtain ⟨⟨t, u⟩, hmem, hle, hreceived, hfresh⟩ := hc
  obtain ⟨sid, hsid⟩ := List.mem_iff_getElem?.mp hmem
  obtain ⟨ht, hu⟩ := List.getElem?_zip_eq_some.mp hsid
  have hchunk := hinv.2.content sid t.progress u.progress (c - t.chunkBase) (by simp [ht])
    (by simp [hu]) hreceived hfresh
  rwa [show t.progress.chunkBase = t.chunkBase from rfl, Nat.add_sub_cancel' hle] at hchunk

def tamperSession : Session where
  prims := nullPrimitives
  send := ⟨7, [1, 2, 3, 4], 2, 1, false, false, 66, 1⟩
  nackEnabled := false
  ackEvery := 16
  maxFileSize := none
  keys := some sampleKeys
  manifestSeq := 1
  receiverSeq := 1
  accepted := by decide +kernel

/-- The datagram that carries what was sealed for chunk 0, under the given index and
timestamp. -/
def alteredChunk (timestamp : UInt64) (index : ℕ) : Bytes :=
  stagedPacket nullPrimitives 7 2 timestamp 0 index
    (dataRecord nullPrimitives sampleKeys 7 2 5 0 [1, 2] false).ciphertext false

/-- The header of chunk 0 is altered, which the seal detects; then it arrives intact. -/
def headerAttack : List SysEvent :=
  [.send (.stage 5 5 0), .recv (.datagram (alteredChunk 6 0) (fun _ => 9) 0),
    .recv (.datagram (alteredChunk 5 0) (fun _ => 9) 0)]

theorem placement_of_index_kept_headerAttack :
    ∃ s, exec (step tamperSession) (start tamperSession) headerAttack = some s ∧
      chunkAt s.receiver.mmap 2 0 = [1, 2] := by
  obtain ⟨s, hs, hreceived⟩ :
      ∃ s, exec (step tamperSession) (start tamperSession) headerAttack = some s ∧
        s.ReceivedSince (DataStart.fresh tamperSession).recvStreams 0 := by
    decide +kernel
  have hkept : Along (step tamperSession) IndexKept (start tamperSession)
      headerAttack := by
    decide +kernel
  exact ⟨s, hs, placement_of_index_kept tamperSession (by decide) (DataStart.fresh tamperSession)
    headerAttack s hs hkept 0 hreceived⟩

/-- The index of chunk 0 is rewritten to 1 on the way. -/
def indexAttack : List SysEvent :=
  [.send (.stage 5 5 0), .recv (.datagram (alteredChunk 5 1) (fun _ => 9) 0)]

/-- The daemon marks chunk 1 received and holds the bytes of chunk 0 there. -/
theorem indexAttack_misplaces_chunk :
    ∃ s, exec (step tamperSession) (start tamperSession) indexAttack = some s ∧
      s.ReceivedSince (DataStart.fresh tamperSession).recvStreams 1 ∧
      chunkAt s.receiver.mmap 2 1 = [1, 2] ∧
      chunkAt tamperSession.send.fileData 2 1 = [3, 4] := by
  decide +kernel

end Favonius.Transfer
