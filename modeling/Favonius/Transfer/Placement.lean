import Favonius.Transfer.System

/-!
# What a placed chunk is

The datagrams and sealed records of the sender as the daemon reads them: which
chunk a DATA datagram names, and that opening and decompressing what was sealed
for a chunk gives the source's bytes of that chunk.
-/

namespace Favonius.Transfer

open ByteCodec IdealAead Proto Crypto Client Daemon List PacketType

lemma eq_of_decodeDataInline {buf : Bytes} {dp : DataPayloadRef}
    (h : decodeDataInline buf = some dp) :
    headerSize + dataPayloadHeaderSize ≤ buf.length ∧ buf.getD 1 0 = 0x20 := by
  unfold decodeDataInline at h
  split at h
  · cases h
  · split at h
    · cases h
    · rename_i hlen htype
      exact ⟨by omega, not_not.mp htype⟩

variable (P : Primitives)

lemma decodeDataInline_unmask (cfg : RecvConfig) (keyEpoch : Option KeyEpoch) (pkt : Bytes) :
    decodeDataInline (unmask P cfg keyEpoch pkt) = decodeDataInline pkt := by
  unfold unmask
  split
  · split
    · by_cases hlen : 42 ≤ pkt.length
      · exact decodeDataInline_protect P.aes128 _ hlen headerSize
      · rw [unprotect, protect, if_pos (by omega)]
    · rfl
  · rfl

lemma decodeDataInline_stagedPacket (connId packetNumber timestamp : UInt64) (streamId : UInt32)
    (chunkIndex : ℕ) {data : Bytes} (compressed : Bool) (hlen : data.length < 65536) :
    decodeDataInline (stagedPacket P connId packetNumber timestamp streamId chunkIndex data
      compressed) = some ⟨streamId, UInt64.ofNat chunkIndex, data⟩ :=
  decodeDataInline_encode rfl hlen

lemma decodeDataInline_sealedData (headerProtect : Bool) (keys : SessionKeys)
    (connId packetNumber timestamp : UInt64) (streamId : UInt32) (chunkIndex : ℕ) {data : Bytes}
    (compressed : Bool) (hlen : data.length + 16 < 65536) :
    decodeDataInline (sealedData P headerProtect keys connId packetNumber timestamp streamId
        chunkIndex data compressed) =
      some ⟨streamId, UInt64.ofNat chunkIndex,
        (dataRecord P keys connId packetNumber timestamp streamId data compressed).ciphertext⟩ := by
  have hct := length_dataRecord_ciphertext P keys connId packetNumber timestamp streamId data
    compressed
  have hstaged := decodeDataInline_stagedPacket P connId packetNumber timestamp streamId chunkIndex
    compressed (hct.trans_lt hlen)
  have hheader := headerSize_le_length_stagedPacket P connId packetNumber timestamp streamId
    chunkIndex (dataRecord P keys connId packetNumber timestamp streamId data compressed).ciphertext
    compressed
  rw [sealedData_eq]
  split
  · rw [decodeDataInline_protect P.aes128 _ hheader, hstaged]
  · exact hstaged

structure StagedFor (sess : Session) (index : ℕ) (data : Bytes) (compressed : Bool) : Prop where
  index_lt : index < sess.send.totalChunks
  compress_eq : compressChunk sess.prims sess.send.compress
    (chunkAt sess.send.fileData sess.send.payloadSize index) = some (data, compressed)

variable {sess : Session} {index : ℕ} {data : Bytes} {compressed : Bool}

section

variable (h : StagedFor sess index data compressed)
include h

lemma StagedFor.toNat_index :
    (UInt64.ofNat index).toNat = index := by
  have hle := sess.totalChunks_le
  have hlt := h.index_lt
  simp only [maxTotalChunks] at hle
  rw [UInt64.toNat_ofNat', Nat.mod_eq_of_lt (by omega)]

lemma StagedFor.length_le :
    data.length ≤ maxPacket := by
  have hchunk := length_chunkAt_le sess.send.fileData sess.send.payloadSize index
  have hpacket := sess.payloadSize_le
  have hcompress := h.compress_eq
  unfold compressChunk at hcompress
  split at hcompress
  · obtain ⟨frame, -, hframe⟩ := Option.map_eq_some_iff.mp hcompress
    split at hframe
    · cases hframe
      omega
    · cases hframe
      omega
  · cases hcompress
    omega

lemma StagedFor.length_lt :
    data.length + 16 < 65536 := by
  have hle := h.length_le
  simp only [maxPacket] at hle
  omega

end

lemma flags_stagedHeader (connId packetNumber timestamp : UInt64) (streamId : UInt32)
    (dataLen : ℕ) (compressed : Bool) :
    (stagedHeader connId packetNumber timestamp streamId dataLen compressed).flags &&&
      PacketFlags.compressed ≠ 0 ↔ compressed = true := by
  cases compressed <;> simp [stagedHeader, compressedFlag] <;> decide

variable {pkt : Bytes}

lemma StagedFor.expandChunk_eq (h : StagedFor sess index data compressed)
    (hiff : (getU16 (pkt.drop 2)).1 &&& PacketFlags.compressed ≠ 0 ↔ compressed = true) :
    expandChunk sess.prims sess.recv pkt data =
      some (chunkAt sess.send.fileData sess.send.payloadSize index) := by
  have hchunk := length_chunkAt_le sess.send.fileData sess.send.payloadSize index
  have hcompress := h.compress_eq
  unfold expandChunk
  simp only [compressChunk] at hcompress
  split at hcompress
  · rename_i henabled
    obtain ⟨frame, hframe, hpair⟩ := Option.map_eq_some_iff.mp hcompress
    split at hpair
    · cases hpair
      rw [if_pos ⟨hiff.mpr rfl, henabled⟩]
      exact sess.prims.zstdDecompress_compress hframe hchunk
    · cases hpair
      rw [if_neg fun h => Bool.false_ne_true (hiff.mp h.1)]
  · cases hcompress
    rw [if_neg fun h => Bool.false_ne_true (hiff.mp h.1)]

inductive SentDatagram (sess : Session) (log : List SealedRecord) : Bytes → Prop where
  | plain (packetNumber timestamp : UInt64) (streamId : UInt32) (index : ℕ) (data : Bytes)
      (compressed : Bool) (hkeys : sess.keys = none)
      (hstaged : StagedFor sess index data compressed) :
      SentDatagram sess log (plainData sess.prims sess.send.connId packetNumber timestamp streamId
        index data compressed)
  | sealed (keys : SessionKeys) (packetNumber timestamp : UInt64) (streamId : UInt32)
      (index : ℕ) (data : Bytes) (compressed : Bool) (hkeys : sess.keys ≠ none)
      (hstaged : StagedFor sess index data compressed)
      (hlog : dataRecord sess.prims keys sess.send.connId packetNumber timestamp streamId data
        compressed ∈ log) :
      SentDatagram sess log (sealedData sess.prims sess.send.headerProtect keys sess.send.connId
        packetNumber timestamp streamId index data compressed)
  | control (d : Bytes) (htype : d.getD 1 0 ≠ 0x20) : SentDatagram sess log d

inductive LoggedRecord (sess : Session) (sent : List Bytes) : SealedRecord → Prop where
  | data (keys : SessionKeys) (packetNumber timestamp : UInt64) (streamId : UInt32)
      (index : ℕ) (data : Bytes) (compressed : Bool)
      (hstaged : StagedFor sess index data compressed)
      (hsent : sealedData sess.prims sess.send.headerProtect keys sess.send.connId
        packetNumber timestamp streamId index data compressed ∈ sent) :
      LoggedRecord sess sent (dataRecord sess.prims keys sess.send.connId packetNumber timestamp
        streamId data compressed)
  | control (keys : SessionKeys) (ptype : PacketType) (seq timestamp : UInt64) (payload : Bytes)
      (htype : ptype ≠ .data) :
      LoggedRecord sess sent (controlRecord sess.prims keys ptype sess.send.connId seq timestamp
        payload)

lemma SentDatagram.mono {log : List SealedRecord} {d : Bytes} (h : SentDatagram sess log d)
    (new : List SealedRecord) : SentDatagram sess (log ++ new) d := by
  cases h with
  | plain pn ts sid index data compressed hkeys hstaged =>
    exact .plain pn ts sid index data compressed hkeys hstaged
  | sealed keys pn ts sid index data compressed hkeys hstaged hlog =>
    exact .sealed keys pn ts sid index data compressed hkeys hstaged
      (mem_append_left _ hlog)
  | control d htype => exact .control d htype

lemma LoggedRecord.mono {sent : List Bytes} {r : SealedRecord} (h : LoggedRecord sess sent r)
    (new : List Bytes) : LoggedRecord sess (sent ++ new) r := by
  cases h with
  | data keys pn ts sid index data compressed hstaged hsent =>
    exact .data keys pn ts sid index data compressed hstaged (mem_append_left _ hsent)
  | control keys ptype seq ts payload htype => exact .control keys ptype seq ts payload htype

/-- The wire and the log agree, and both ends are encrypted or neither is. -/
structure WireInv (sess : Session) (s : Sys) : Prop where
  sent : ∀ d ∈ s.toDaemon, SentDatagram sess s.log d
  logged : ∀ r ∈ s.log, LoggedRecord sess s.toDaemon r
  senderKeys : s.sender.keyEpoch = none ↔ sess.keys = none
  receiverKeys : s.receiver.keyEpoch = none ↔ sess.keys = none
  ranges : ∀ r ∈ s.sender.streams.map StreamState.range, r.1 + r.2 ≤ sess.send.totalChunks

section Control

variable {ptype : PacketType} (htype : ptype ≠ .data) {seq timestamp : UInt64} {payload : Bytes}
  {keys : Option SessionKeys}
include htype

lemma sentDatagram_ctrl {log : List SealedRecord} {d : Bytes}
    (hd : d ∈ (sendCtrlSealed sess.prims ptype sess.send.connId seq timestamp payload
      keys).datagrams) : SentDatagram sess log d := by
  have hbyte : ptype.toByte ≠ 0x20 := fun h => htype (toByte_injective h)
  cases keys with
  | none | some =>
    rw [mem_singleton.mp hd]
    exact .control _ hbyte

lemma loggedRecord_ctrl {sent : List Bytes} {r : SealedRecord}
    (hr : r ∈ (sendCtrlSealed sess.prims ptype sess.send.connId seq timestamp payload
      keys).records) : LoggedRecord sess sent r := by
  rcases keys with _ | keys
  · cases hr
  rw [mem_singleton.mp hr]
  exact .control keys ptype seq timestamp payload htype

end Control

variable {s : Sys} {sender : Sender} {out : Output} {streamId : UInt32}

lemma WireInv.extend (h : WireInv sess s)
    (hsent : ∀ d ∈ out.datagrams, SentDatagram sess (s.log ++ out.records) d)
    (hlogged : ∀ r ∈ out.records, LoggedRecord sess (s.toDaemon ++ out.datagrams) r)
    (hkeys : sender.keyEpoch = none ↔ sess.keys = none)
    (hranges : sender.streams.map StreamState.range = s.sender.streams.map StreamState.range) :
    WireInv sess { s with
      sender
      log := s.log ++ out.records
      toDaemon := s.toDaemon ++ out.datagrams } where
  sent := by
    intro d hd
    rcases mem_append.mp hd with hd | hd
    · exact (h.sent d hd).mono out.records
    · exact hsent d hd
  logged := by
    intro r hr
    rcases mem_append.mp hr with hr | hr
    · exact (h.logged r hr).mono out.datagrams
    · exact hlogged r hr
  senderKeys := hkeys
  receiverKeys := h.receiverKeys
  ranges := by
    dsimp only
    rw [hranges]
    exact h.ranges

lemma WireInv.transmitted (h : WireInv sess s) (hstaged : StagedFor sess index data compressed)
    {batchTs keyUpdateTs : UInt64} {staged : Staged}
    (htransmit : transmit sess.prims sess.send s.sender streamId index data compressed batchTs
      keyUpdateTs = .ok staged) :
    (∀ d ∈ staged.out.datagrams, SentDatagram sess (s.log ++ staged.out.records) d) ∧
      (∀ r ∈ staged.out.records, LoggedRecord sess (s.toDaemon ++ staged.out.datagrams) r) ∧
      (staged.keyEpoch = none ↔ sess.keys = none) := by
  cases hke : s.sender.keyEpoch with
  | none =>
    have hkeys := h.senderKeys.mp hke
    obtain rfl := transmit_plain sess.prims sess.send hke htransmit
    refine ⟨?_, by simp, by simp [hkeys]⟩
    intro d hd
    rw [mem_singleton.mp hd]
    exact .plain _ _ _ _ _ _ hkeys hstaged
  | some ke =>
    have hkeys : sess.keys ≠ none := fun hnone => by
      rw [h.senderKeys.mpr hnone] at hke
      cases hke
    rw [transmit_sealed sess.prims sess.send hke] at htransmit
    obtain rfl := Except.ok.inj htransmit
    split
    · have htype : keyUpdate ≠ .data := by decide
      refine ⟨?_, ?_, by simp [hkeys]⟩
      · intro d hd
        rcases mem_append.mp hd with hd | hd
        · rw [mem_singleton.mp hd]
          exact .sealed _ _ _ _ _ _ _ hkeys hstaged (by simp [Output.append])
        · exact sentDatagram_ctrl htype hd
      · intro r hr
        rcases mem_append.mp hr with hr | hr
        · rw [mem_singleton.mp hr]
          exact .data _ _ _ _ _ _ _ hstaged (by simp [Output.append])
        · exact loggedRecord_ctrl htype hr
    · refine ⟨?_, ?_, by simp [hkeys]⟩
      · intro d hd
        rw [mem_singleton.mp hd]
        exact .sealed _ _ _ _ _ _ _ hkeys hstaged (by simp)
      · intro r hr
        rw [mem_singleton.mp hr]
        exact .data _ _ _ _ _ _ _ hstaged (by simp)

lemma WireInv.send (h : WireInv sess s) {ev : SendEvent}
    (hstep : s.sender.step sess.prims sess.send ev = some (sender, out)) :
    WireInv sess { s with
      sender
      log := s.log ++ out.records
      toDaemon := s.toDaemon ++ out.datagrams } := by
  have hranges := Sender.step_ranges sess.prims sess.send hstep
  cases Sender.step_effect sess.prims sess.send hstep with
  | quiet hkeys hpending hseq =>
    exact h.extend (by simp) (by simp) (by rw [hkeys]; exact h.senderKeys) hranges
  | staged stream localCi data compressed batchTs keyUpdateTs staged hphase hstream hlocal
      hcompress htransmit hkeys hpending hseq =>
      obtain ⟨t, ht, hstate⟩ := List.mem_map.mp hstream
      have hrange : t.range = stream.range :=
        congrArg (fun a : StreamState.AckState => (a.chunkBase, a.chunkCount)) hstate
      have hend : stream.chunkBase + stream.chunkCount ≤ sess.send.totalChunks :=
        h.ranges stream.range (hrange ▸ mem_map_of_mem ht)
      have hindex : stream.toGlobal localCi < sess.send.totalChunks := by
        simp only [StreamState.toGlobal]
        omega
      obtain ⟨hsent, hlogged, hnone⟩ := h.transmitted ⟨hindex, hcompress⟩ htransmit
      exact h.extend hsent hlogged (by rw [hkeys]; exact hnone) hranges
  | resent pku timestamp hpku hleft hkeys hpending hseq =>
    have htype : keyUpdate ≠ .data := by decide
    exact h.extend (fun d hd => sentDatagram_ctrl htype hd)
      (fun r hr => loggedRecord_ctrl htype hr) (by rw [hkeys]; exact h.senderKeys) hranges
  | finished timestamp hphase hphase' hkeys hpending hseq =>
    have htype : finish ≠ .data := by decide
    exact h.extend (fun d hd => sentDatagram_ctrl htype hd)
      (fun r hr => loggedRecord_ctrl htype hr) (by rw [hkeys]; exact h.senderKeys) hranges

lemma WireInv.step {s' : Sys} {ev : SysEvent} (h : WireInv sess s)
    (hstep : step sess s ev = some s') : WireInv sess s' := by
  cases ev with
  | send ev =>
    obtain ⟨sender, out, hsender, rfl⟩ := of_step_send hstep
    exact h.send hsender
  | recv ev =>
    obtain ⟨receiver, out, hreceiver, rfl⟩ := of_step_recv hstep
    refine ⟨h.sent, h.logged, h.senderKeys, ?_, h.ranges⟩
    cases (Receiver.step_effect hreceiver).1 with
    | kept _ _ _ hkeys | placed _ _ _ _ _ _ _ _ _ _ _ hkeys =>
      rw [hkeys]
      exact h.receiverKeys
    | rotated _ _ _ ke _ _ hrotated _ _ hkeys =>
      rw [hkeys, ← h.receiverKeys, hrotated.keys]
      simp
  | manifestReply seq timestamp =>
    cases hstep
    exact ⟨h.sent, h.logged, h.senderKeys, h.receiverKeys, h.ranges⟩

lemma wireInv_start (st : DataStart sess) : WireInv sess st.sys := by
  refine ⟨by simp [DataStart.sys], by simp [DataStart.sys], ?_, ?_, ?_⟩
  · simp [DataStart.sys, Sender.init]
  · simp [DataStart.sys, Receiver.init]
  · intro r hr
    rw [show st.sys.sender.streams.map StreamState.range = sess.ranges from st.sendRanges] at hr
    exact sess.range_end_le hr

lemma exists_record_of_openChunk {log : List SealedRecord} {ke : KeyEpoch} {raw pt : Bytes}
    (h : openChunk (openIn log) (some ke) pkt raw = some pt) :
    ∃ r ∈ log, r.key = ke.keys.dataKey ∧ r.aad = pkt.take headerSize ∧ r.plaintext = pt ∧
      r.ciphertext = raw :=
  ⟨_, exists_sealed_of_openIn (openFn_of_openPacket h), rfl, rfl, rfl, rfl⟩

/-- What was sealed for a chunk expands to the chunk under the header it was sealed with. -/
theorem StagedFor.expandChunk_of_aad (h : StagedFor sess index data compressed) {keys : SessionKeys}
    {packetNumber timestamp : UInt64}
    (haad : (dataRecord sess.prims keys sess.send.connId packetNumber timestamp streamId data
      compressed).aad = pkt.take headerSize) :
    expandChunk sess.prims sess.recv pkt data =
      some (chunkAt sess.send.fileData sess.send.payloadSize index) := by
  rw [dataRecord_aad] at haad
  have hflags : (getU16 (pkt.drop 2)).1 = (stagedHeader sess.send.connId packetNumber timestamp
      streamId (data.length + 16) compressed).flags := by
    rw [← @getU16_flags sess.prims.crc32c _ [], append_nil, haad]
    simp only [getU16, drop_take, take_take]
    rfl
  refine h.expandChunk_eq ?_
  rw [hflags]
  exact flags_stagedHeader _ _ _ _ _ _

/-- The type byte of a DATA datagram keeps it apart from sealed control packets. -/
theorem LoggedRecord.data_of_aad {sent : List Bytes} {r : SealedRecord}
    (h : LoggedRecord sess sent r) {dp : DataPayloadRef} (hdp : decodeDataInline pkt = some dp)
    (haad : r.aad = pkt.take headerSize) :
    ∃ keys packetNumber timestamp streamId index data compressed,
      StagedFor sess index data compressed ∧
      sealedData sess.prims sess.send.headerProtect keys sess.send.connId packetNumber timestamp
        streamId index data compressed ∈ sent ∧
      r = dataRecord sess.prims keys sess.send.connId packetNumber timestamp streamId data
        compressed := by
  cases h with
  | data keys pn ts sid index data compressed hstaged hsent =>
    exact ⟨keys, pn, ts, sid, index, data, compressed, hstaged, hsent, rfl⟩
  | control keys ptype seq ts payload htype =>
    exfalso
    have hbyte : (pkt.take headerSize).getD 1 0 = 0x20 := by
      have hget := (eq_of_decodeDataInline hdp).2
      rwa [getD_eq_getElem?_getD, getElem?_take_of_lt (by decide), ← getD_eq_getElem?_getD]
    rw [← haad] at hbyte
    exact htype (toByte_injective hbyte)

end Favonius.Transfer
