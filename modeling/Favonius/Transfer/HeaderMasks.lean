import Favonius.Transfer.Delivery

/-!
# The samples behind header-protection masks

The mask of a DATA packet is one AES block of the 16 bytes after the 42-byte
header.  Those bytes are the file id and the chunk index of the cleartext DATA
payload header; the ciphertext starts six bytes later.  So a mask is as fresh as
the chunk it travels with, and a retransmit repeats it.
-/

namespace Favonius.Client

open ByteCodec Proto Crypto List Option

variable (P : Primitives) (cfg : SendConfig)

def Sender.chunkToSend (s : Sender) : Option ℕ :=
  (findWork s.streams s.streams.length s.currentStream).bind fun cur =>
    (s.streams[cur]?).bind fun stream => stream.nextChunk.1.map stream.nextChunk.2.toGlobal

variable {batchTs keyUpdateTs : UInt64} {c : ℕ}

lemma Sender.stage_transmits {s s' : Sender} {nowUs : UInt32} {out : Output}
    (h : s.stage P cfg batchTs keyUpdateTs nowUs = some (s', out)) (hc : s.chunkToSend = some c)
    {d : Bytes} (hd : d ∈ out.datagrams) :
    ∃ (stream : StreamState) (localCi : ℕ) (data : Bytes) (compressed : Bool) (staged : Staged),
      stream.ackState ∈ s.streams.map StreamState.ackState ∧ localCi < stream.chunkCount ∧
      c = stream.toGlobal localCi ∧
      transmit P cfg s stream.id c data compressed batchTs keyUpdateTs = .ok staged ∧
      out = staged.out := by
  obtain ⟨-, hfailed | ⟨cur, stream, hwork, hcur, hturn⟩⟩ := Sender.stage_cases P cfg h
  · cases hfailed
    cases hd
  simp only [Sender.chunkToSend, hwork, hcur, bind_some] at hc
  obtain ⟨hstate, hlocal, -⟩ := stream.nextChunk_spec
  rcases hturn with ⟨next, hnext, ⟨⟩⟩ |
    ⟨localCi, next, data, compressed, staged, hnext, -, htransmit, ⟨⟩⟩
  · cases hd
  rw [hnext] at hc hstate hlocal
  cases hc
  dsimp only at hstate
  have hcount : next.chunkCount = stream.chunkCount :=
    congrArg StreamState.AckState.chunkCount hstate
  refine ⟨next, localCi, data, compressed, staged, ?_, ?_, rfl, htransmit, rfl⟩
  · rw [hstate]
    exact mem_map_of_mem (mem_of_getElem? hcur)
  · rw [hcount]
    exact (hlocal localCi rfl).1

lemma head_transmit {s : Sender} {streamId : UInt32} {data : Bytes} {compressed : Bool}
    {staged : Staged}
    (h : transmit P cfg s streamId c data compressed batchTs keyUpdateTs = .ok staged) :
    ∃ (wire : Bytes) (mask : Option (FixedBytes 16)), staged.out.datagrams.head? = some
      (mask.elim (stagedPacket P cfg.connId s.seq batchTs streamId c wire compressed) fun key =>
        protect P.aes128 key (stagedPacket P cfg.connId s.seq batchTs streamId c wire compressed)
          headerSize) := by
  cases hkeys : s.keyEpoch with
  | none =>
    obtain rfl := transmit_plain P cfg hkeys h
    refine ⟨data, none, ?_⟩
    rw [plainData_eq]
    rfl
  | some ke =>
    let record := dataRecord P ke.keys cfg.connId s.seq batchTs streamId data compressed
    refine ⟨record.ciphertext,
      if cfg.headerProtect then some ke.keys.headerProtectionKey else none, ?_⟩
    have hhead : staged.out.datagrams.head? = some (sealedData P cfg.headerProtect ke.keys
        cfg.connId s.seq batchTs streamId c data compressed) := by
      rw [transmit_sealed P cfg hkeys] at h
      obtain rfl := Except.ok.inj h
      split <;> rfl
    rw [hhead, sealedData_eq]
    cases cfg.headerProtect with
    | false => simp only [Bool.false_eq_true, if_false, elim_none, record]
    | true => simp only [if_true, elim_some, record]

end Favonius.Client

namespace Favonius.Transfer

open Execution ByteCodec Proto Crypto Client Daemon List

/-- The bytes after the header of a staged packet start with file id 0 and the chunk index. -/
theorem extractSample_stagedPacket (P : Primitives) (connId packetNumber timestamp : UInt64)
    (streamId : UInt32) (c : ℕ) (wire : Bytes) (compressed : Bool) :
    (extractSample (stagedPacket P connId packetNumber timestamp streamId c wire compressed)
      headerSize).1 = putU64 0 ++ putU64 (UInt64.ofNat c) := by
  have hdrop : (stagedPacket P connId packetNumber timestamp streamId c wire compressed).drop
      headerSize = DataPayload.encode ⟨0, UInt64.ofNat c, 0, wire⟩ := by
    exact drop_left' (by simp)
  have hlen : (putU64 0 ++ putU64 (UInt64.ofNat c)).length = 16 := by simp
  simp only [extractSample, hdrop, DataPayload.encode, append_assoc]
  rw [← append_assoc (putU64 0), take_left' hlen, take_left' hlen]

structure DataSent where
  /-- The key epoch it is sealed in; none in a plaintext transfer. -/
  epoch : Option ℕ
  packetNumber : UInt64
  chunk : ℕ
  datagram : Bytes

def DataSent.sample (p : DataSent) : FixedBytes 16 := extractSample p.datagram headerSize

def dataSent (sess : Session) (s : Sys) : SysEvent → List DataSent
  | .send (.stage batchTs keyUpdateTs nowUs) =>
    match s.sender.chunkToSend, s.sender.stage sess.prims sess.send batchTs keyUpdateTs nowUs with
    | some chunk, some (_, out) => out.datagrams.head?.toList.map fun d =>
        ⟨s.sender.keyEpoch.map KeyEpoch.epoch, s.sender.seq, chunk, d⟩
    | _, _ => []
  | _ => []

variable {sess : Session}

lemma sample_of_dataSent {s : Sys} (hinv : WireInv sess s) {ev : SysEvent} {p : DataSent}
    (hp : p ∈ dataSent sess s ev) :
    p.chunk < 2 ^ 64 ∧ p.sample.1 = putU64 0 ++ putU64 (UInt64.ofNat p.chunk) := by
  unfold dataSent at hp
  split at hp
  · split at hp
    · rename_i chunk s' out hchunk hstage
      obtain ⟨d, hd, rfl⟩ := List.mem_map.mp hp
      have hhead : out.datagrams.head? = some d := by simpa using hd
      obtain ⟨stream, localCi, data, compressed, staged, hstream, hlocal, rfl, htransmit, rfl⟩ :=
        Sender.stage_transmits sess.prims sess.send hstage hchunk (mem_of_mem_head? hhead)
      constructor
      · obtain ⟨t, ht, hstate⟩ := List.mem_map.mp hstream
        have hrange : t.range = stream.range :=
          congrArg (fun a : StreamState.AckState => (a.chunkBase, a.chunkCount)) hstate
        have hend : stream.chunkBase + stream.chunkCount ≤ sess.send.totalChunks :=
          hinv.ranges stream.range (hrange ▸ mem_map_of_mem ht)
        have htotal := sess.totalChunks_le
        simp only [StreamState.toGlobal, maxTotalChunks] at htotal ⊢
        omega
      · obtain ⟨wire, mask, hpacket⟩ := head_transmit sess.prims sess.send htransmit
        rw [hhead] at hpacket
        cases hpacket
        unfold DataSent.sample
        cases mask with
        | none => exact extractSample_stagedPacket ..
        | some key =>
          dsimp only [Option.elim]
          rw [extractSample_protect _ _ (headerSize_le_length_stagedPacket ..)]
          exact extractSample_stagedPacket ..
    · cases hp
  · cases hp

lemma sample_ne_iff {p q : DataSent}
    (hp : p.chunk < 2 ^ 64 ∧ p.sample.1 = putU64 0 ++ putU64 (UInt64.ofNat p.chunk))
    (hq : q.chunk < 2 ^ 64 ∧ q.sample.1 = putU64 0 ++ putU64 (UInt64.ofNat q.chunk)) :
    p.sample ≠ q.sample ↔ p.chunk ≠ q.chunk := by
  apply not_congr
  rw [Subtype.ext_iff, hp.2, hq.2]
  constructor
  · intro h
    have hindex := putU64_injective (append_cancel_left h)
    have hnat := congrArg UInt64.toNat hindex
    rwa [UInt64.toNat_ofNat', UInt64.toNat_ofNat', Nat.mod_eq_of_lt hp.1,
      Nat.mod_eq_of_lt hq.1] at hnat
  · intro h
    rw [h]

def DataSent.Apart (p q : DataSent) : Prop := p.epoch = q.epoch ∧ p.packetNumber ≠ q.packetNumber

instance (p q : DataSent) : Decidable (p.Apart q) := inferInstanceAs (Decidable (_ ∧ _))

/-- In a run of a transfer any two DATA packets of one epoch have different samples, and so
different masks, exactly if no chunk is sent twice within an epoch. -/
theorem masks_fresh_iff (sess : Session)
    (haes : ∀ key, Function.Injective (sess.prims.aes128 key)) (st : DataStart sess)
    (es : List SysEvent) :
    let sent := collect (step sess) (dataSent sess) st.sys es
    (∀ p ∈ sent, ∀ q ∈ sent, p.Apart q →
        p.sample ≠ q.sample ∧
          ∀ key, sess.prims.aes128 key p.sample ≠ sess.prims.aes128 key q.sample) ↔
      ∀ p ∈ sent, ∀ q ∈ sent, p.Apart q → p.chunk ≠ q.chunk := by
  intro sent
  have hsample : ∀ p ∈ sent,
      p.chunk < 2 ^ 64 ∧ p.sample.1 = putU64 0 ++ putU64 (UInt64.ofNat p.chunk) :=
    forall_mem_collect (P := WireInv sess) (fun _ _ _ h hstep => h.step hstep)
      (fun _ _ _ h _ _ hp => sample_of_dataSent h hp) (wireInv_start st) es
  refine forall₂_congr fun p hp => forall₂_congr fun q hq => imp_congr_right fun _ => ?_
  rw [← sample_ne_iff (hsample p hp) (hsample q hq)]
  refine and_iff_left_of_imp fun hne key heq => ?_
  exact hne (haes key heq)

theorem masks_fresh_sampleRun :
    (collect (step sampleSession) (dataSent sampleSession)
      (DataStart.fresh sampleSession).sys sampleRun).length = 2 ∧
    ∀ p ∈ collect (step sampleSession) (dataSent sampleSession)
        (DataStart.fresh sampleSession).sys sampleRun,
      ∀ q ∈ collect (step sampleSession) (dataSent sampleSession)
          (DataStart.fresh sampleSession).sys sampleRun,
        p.Apart q → p.sample ≠ q.sample := by
  refine ⟨by decide +kernel, ?_⟩
  intro p hp q hq hapart
  refine ((masks_fresh_iff sampleSession (fun _ _ _ h => h) (DataStart.fresh sampleSession)
    sampleRun).mpr ?_ p hp q hq hapart).1
  decide +kernel

def retransmitRun : List SysEvent :=
  [.send (.stage 5 5 0), .send (.scan 20000 10000), .send (.stage 6 6 20000)]

/-- The retransmit has another packet number in the same epoch, the same sample, and the
same masked connection id. -/
theorem retransmit_repeats_mask :
    (collect (step sampleSession) (dataSent sampleSession)
        (DataStart.fresh sampleSession).sys retransmitRun).map
      (fun p => (p.epoch, p.packetNumber, p.sample.1, slice p.datagram 6 8)) =
        [(some 0, 2, List.replicate 16 0, [0, 0, 0, 0, 0, 0, 0, 7]),
          (some 0, 3, List.replicate 16 0, [0, 0, 0, 0, 0, 0, 0, 7])] := by
  decide +kernel

end Favonius.Transfer
