import Favonius.Daemon.CheckedStreams
import Favonius.Daemon.Manifest

/-!
# The receive loop with its checks

One step of the loop in which every index, slice and fixed-width operation can stop the
thread.  On a state whose bookkeeping is sound it does what the model's step does.
-/

namespace Favonius.Daemon.Checked

open ByteCodec Machine Proto Crypto List StreamRecvState
open Option (bind_eq_bind bind_some map_some)

/-! ## Replies -/

variable (P : Primitives) (openFn : OpenFn) (cfg : RecvConfig)

def ackBufSize : ℕ := 1152

def sendBuf (size n : ℕ) : Option Unit :=
  (range (List.replicate size (0 : UInt8)) 0 n).map fun _ => ()

/-- An ACK is encoded in place into `ack_buf`, then sent from it. -/
def ackDatagram (sid : ℕ) (s : StreamRecvState) (seq timestamp : UInt64) : Option Bytes := do
  let (hc, bitmap) ← buildStreamAckBitmap s
  let ackBuf := List.replicate ackBufSize (0 : UInt8)
  let payloadLen ← add 64 ackBitmapHeaderSize bitmap.length
  let total ← add 64 headerSize payloadLen
  sendBuf ackBufSize headerSize
  let p ← range ackBuf headerSize ackBuf.length
  let _ ← [(0, 4), (4, 12), (12, 20), (20, 24), (24, 26), (26, 26 + bitmap.length)].foldlM
    (fun _ r => (range p r.1 r.2).map fun _ => ()) ()
  sendBuf ackBufSize total
  return encodeAckBitmapInto P.crc32c cfg.connId seq timestamp (UInt32.ofNat sid)
    (UInt64.ofNat s.chunkBase) hc bitmap

def reply (clock : Clock) (datagram : UInt64 → UInt64 → Option Bytes)
    (a : Receiver × List Bytes) : Option (Receiver × List Bytes) := do
  let d ← datagram a.1.seq (clock a.2.length)
  let seq ← add 64 a.1.seq.toNat 1
  return ({ a.1 with seq := UInt64.ofNat seq }, a.2 ++ [d])

def StreamsFit (streams : List StreamRecvState) : Prop :=
  ∀ s ∈ streams, s.chunkBase + s.chunkCount < 2 ^ 64

lemma sendBuf_eq {size n : ℕ} (h : n ≤ size) : sendBuf size n = some () := by
  rw [sendBuf, range_of_le (Nat.zero_le _) (by rwa [length_replicate])]
  rfl

variable {s : StreamRecvState}

lemma ackDatagram_eq (hend : s.chunkBase + s.chunkCount < 2 ^ 64) (sid : ℕ)
    (seq timestamp : UInt64) :
    ackDatagram P cfg sid s seq timestamp =
      some (Daemon.ackDatagram P cfg sid s seq timestamp) := by
  have hbitmap := length_ackBitmap_le s
  obtain ⟨hc, bitmap, hparts⟩ : ∃ hc bitmap, Daemon.buildStreamAckBitmap s = (hc, bitmap) :=
    ⟨_, _, rfl⟩
  rw [hparts] at hbitmap
  dsimp only at hbitmap
  have hcopies : [(0, 4), (4, 12), (12, 20), (20, 24), (24, 26), (26, 26 + bitmap.length)].foldlM
      (fun _ r => (range (slice (List.replicate ackBufSize (0 : UInt8)) headerSize
        (ackBufSize - headerSize)) r.1 r.2).map fun _ => ()) () = some () := by
    refine foldlM_eq_some (g := fun _ _ => ()) (I := fun _ rs => ∀ r ∈ rs, r.1 ≤ r.2 ∧ r.2 ≤ 1110)
      ?_ _ _ ?_
    · intro _ r rs hrs
      obtain ⟨hle, hstop⟩ := hrs r mem_cons_self
      rw [range_of_le hle (by
        simp only [length_slice, length_replicate, ackBufSize, headerSize]
        omega)]
      exact ⟨rfl, fun q hq => hrs q (mem_cons_of_mem r hq)⟩
    · simp
      omega
  rw [ackDatagram, buildStreamAckBitmap_eq hend, hparts]
  simp only [bind_eq_bind, bind_some]
  rw [add_of_lt (by simp only [ackBitmapHeaderSize]; omega)]
  simp only [bind_some]
  rw [add_of_lt (by simp only [ackBitmapHeaderSize, headerSize]; omega)]
  simp only [bind_some, length_replicate]
  rw [sendBuf_eq (by decide), range_of_le (by decide) (by simp)]
  simp only [bind_some]
  rw [hcopies]
  rw [sendBuf_eq (by simp only [headerSize, ackBitmapHeaderSize, ackBufSize]; omega),
    Daemon.ackDatagram, hparts]
  rfl

variable {clock : Clock} {a : Receiver × List Bytes}

lemma reply_eq {datagram : UInt64 → UInt64 → Option Bytes} {d : UInt64 → UInt64 → Bytes}
    (hd : ∀ seq timestamp, datagram seq timestamp = some (d seq timestamp))
    (hseq : a.1.seq.toNat + 1 < 2 ^ 64) :
    reply clock datagram a = some (Daemon.reply clock d a) := by
  have hnext : UInt64.ofNat (a.1.seq.toNat + 1) = a.1.seq + 1 := by
    apply UInt64.toNat_inj.mp
    rfl
  rw [reply, hd, add_of_lt hseq]
  rfl

def ackAll (clock : Clock) (a : Receiver × List Bytes) : Option (Receiver × List Bytes) :=
  a.1.streams.zipIdx.foldlM (fun a p => reply clock (ackDatagram P cfg p.2 p.1) a) a

def ackTimer (clock : Clock) (r : Receiver) : Option (Receiver × List Bytes) :=
  r.streams.zipIdx.foldlM (fun a p =>
    if 0 < p.1.sinceAck then do
      let a ← reply clock (ackDatagram P cfg p.2 p.1) a
      return (a.1.setSinceAck p.2 0, a.2)
    else some a) (r, [])

lemma foldl_seq_le {ι : Type*} {g : Receiver × List Bytes → ι → Receiver × List Bytes}
    (hg : ∀ a x, (g a x).1.seq.toNat ≤ a.1.seq.toNat + 1) (xs : List ι)
    (a : Receiver × List Bytes) :
    (xs.foldl g a).1.seq.toNat ≤ a.1.seq.toNat + xs.length := by
  induction xs generalizing a with
  | nil => exact le_rfl
  | cons x xs ih =>
    have hx := hg a x
    have hrest := ih (g a x)
    rw [foldl_cons, length_cons]
    omega

lemma foldlM_streams_eq {body : Receiver × List Bytes → StreamRecvState × ℕ →
      Option (Receiver × List Bytes)}
    {g : Receiver × List Bytes → StreamRecvState × ℕ → Receiver × List Bytes}
    {streams : List StreamRecvState} (hfit : StreamsFit streams)
    (hbody : ∀ a p, p.1.chunkBase + p.1.chunkCount < 2 ^ 64 → a.1.seq.toNat + 1 < 2 ^ 64 →
      body a p = some (g a p))
    (hg : ∀ a p, (g a p).1.seq.toNat ≤ a.1.seq.toNat + 1) (a : Receiver × List Bytes)
    (hseq : a.1.seq.toNat + streams.length < 2 ^ 64) :
    streams.zipIdx.foldlM body a = some (streams.zipIdx.foldl g a) := by
  refine foldlM_eq_some (I := fun a ps => a.1.seq.toNat + ps.length < 2 ^ 64 ∧
    ∀ p ∈ ps, p.1.chunkBase + p.1.chunkCount < 2 ^ 64) ?_ _ _ ⟨?_, ?_⟩
  · rintro a p ps ⟨hroom, hps⟩
    rw [length_cons] at hroom
    have hnext := hg a p
    exact ⟨hbody a p (hps p mem_cons_self) (by omega), by omega,
      fun q hq => hps q (mem_cons_of_mem p hq)⟩
  · rwa [length_zipIdx]
  · exact fun p hp => hfit p.1 (fst_mem_of_mem_zipIdx hp)

lemma toNat_seq_timerBody_le (clock : Clock) (a : Receiver × List Bytes)
    (p : StreamRecvState × ℕ) :
    (if 0 < p.1.sinceAck then
      let a := Daemon.reply clock (Daemon.ackDatagram P cfg p.2 p.1) a
      (a.1.setSinceAck p.2 0, a.2)
    else a).1.seq.toNat ≤ a.1.seq.toNat + 1 := by
  split
  · exact toNat_seq_reply_le clock (Daemon.ackDatagram P cfg p.2 p.1) a
  · exact Nat.le_succ _

lemma toNat_seq_ackTimer_le (clock : Clock) (r : Receiver) :
    (Daemon.ackTimer P cfg clock r).1.seq.toNat ≤ r.seq.toNat + r.streams.length := by
  have hle := foldl_seq_le (toNat_seq_timerBody_le P cfg clock)
    r.streams.zipIdx (r, [])
  rwa [length_zipIdx] at hle

variable {P cfg}

lemma ackAll_eq (hfit : StreamsFit a.1.streams)
    (hseq : a.1.seq.toNat + a.1.streams.length < 2 ^ 64) :
    ackAll P cfg clock a = some (Daemon.ackAll P cfg clock a) := by
  refine foldlM_streams_eq (g := fun a p => Daemon.reply clock (Daemon.ackDatagram P cfg p.2 p.1) a)
    hfit ?_ (fun a p => toNat_seq_reply_le clock _ a) a hseq
  intro a p hp hroom
  exact reply_eq (ackDatagram_eq P cfg hp p.2) hroom

variable {r : Receiver}

lemma ackTimer_eq (hfit : StreamsFit r.streams) (hseq : r.seq.toNat + r.streams.length < 2 ^ 64) :
    ackTimer P cfg clock r = some (Daemon.ackTimer P cfg clock r) := by
  refine foldlM_streams_eq hfit ?_ (toNat_seq_timerBody_le P cfg clock) (r, []) hseq
  intro a p hp hroom
  split
  · rw [reply_eq (ackDatagram_eq P cfg hp p.2) hroom]
    rfl
  · rfl

variable (P cfg)

/-! ## DATA -/

def unmask (keyEpoch : Option KeyEpoch) (pkt : Bytes) : Option Bytes :=
  match keyEpoch with
  | some ke =>
    if cfg.headerProtected then unprotect P.aes128 ke.keys.headerProtectionKey pkt headerSize
    else some pkt
  | none => some pkt

lemma unmask_eq (keyEpoch : Option KeyEpoch) (pkt : Bytes) :
    unmask P cfg keyEpoch pkt = some (Daemon.unmask P cfg keyEpoch pkt) := by
  unfold unmask Daemon.unmask
  cases keyEpoch with
  | none => rfl
  | some ke =>
    dsimp only
    split
    · exact unprotect_eq _ _ _
    · rfl

def decryptInPlace (key : FixedBytes 32) (nonce : FixedBytes 12) (aad buffer : Bytes)
    (ciphertextLen : ℕ) : Option (Option (Bytes × ℕ)) :=
  if ciphertextLen < 16 then some none
  else do
    let tagStart ← sub ciphertextLen 16
    let tag ← range buffer tagStart ciphertextLen
    let ciphertext ← range buffer 0 tagStart
    match openFn key nonce aad (ciphertext ++ tag) with
    | none => return none
    | some plaintext => return some (← copyInto buffer 0 tagStart plaintext, tagStart)

def openChunk (keyEpoch : Option KeyEpoch) (pkt raw : Bytes) : Option (Option Bytes) :=
  match keyEpoch with
  | none => some (some raw)
  | some ke => do
      let pktNum ← beAt 8 pkt 18
      let aad ← range pkt 0 headerSize
      let decryptBuf ← copyInto (List.replicate maxPacket 0) 0 raw.length raw
      match ← decryptInPlace openFn ke.keys.dataKey
          (nonceFor ke.keys.dataIv (UInt64.ofNat pktNum)) aad decryptBuf raw.length with
      | none => return none
      | some (decryptBuf, len) => return some (← range decryptBuf 0 len)

def TagLength (openFn : OpenFn) : Prop :=
  ∀ key nonce aad ct pt, openFn key nonce aad ct = some pt → pt.length + 16 = ct.length

variable {openFn} in
lemma decryptInPlace_eq (hopen : TagLength openFn) {key : FixedBytes 32} {nonce : FixedBytes 12}
    {aad raw pad : Bytes} :
    decryptInPlace openFn key nonce aad (raw ++ pad) raw.length =
      some ((openPacket openFn key nonce aad raw).map fun pt =>
        (pt ++ (raw ++ pad).drop pt.length, pt.length)) := by
  unfold decryptInPlace openPacket
  split
  · rfl
  rename_i hlen
  have hle : 16 ≤ raw.length := Nat.not_lt.mp hlen
  have hbuf : raw.length ≤ (raw ++ pad).length := by simp
  have htag : slice (raw ++ pad) (raw.length - 16) (raw.length - (raw.length - 16)) =
      raw.drop (raw.length - 16) := by
    rw [slice_append_left (by omega), slice, take_of_length_le (by rw [length_drop])]
  have hct : slice (raw ++ pad) 0 (raw.length - 16 - 0) = raw.take (raw.length - 16) := by
    rw [slice_append_left (by omega), slice, drop_zero, Nat.sub_zero]
  rw [sub_of_le hle]
  simp only [bind_eq_bind, bind_some]
  rw [range_of_le (by omega) hbuf, range_of_le (Nat.zero_le _) (by omega), htag, hct]
  simp only [bind_some, take_append_drop]
  cases hpt : openFn key nonce aad raw with
  | none => rfl
  | some pt =>
    have hptLen := hopen key nonce aad raw pt hpt
    obtain hlenEq : raw.length - 16 = pt.length := by omega
    dsimp only
    rw [hlenEq, copyInto_of_le (Nat.zero_le _) (by omega) rfl]
    rfl

variable {pkt : Bytes}

variable {keyEpoch : Option KeyEpoch} {mmap : Bytes} {next : StreamRecvState}

variable {openFn} in
lemma openChunk_eq (hopen : TagLength openFn) {raw : Bytes} (hpkt : headerSize ≤ pkt.length)
    (hraw : keyEpoch.isSome → raw.length ≤ maxPacket) :
    openChunk openFn keyEpoch pkt raw = some (Daemon.openChunk openFn keyEpoch pkt raw) := by
  cases keyEpoch with
  | none => rfl
  | some ke =>
    have h42 : 42 ≤ pkt.length := hpkt
    have hcopy : copyInto (List.replicate maxPacket (0 : UInt8)) 0 raw.length raw =
        some (raw ++ (List.replicate maxPacket 0).drop raw.length) :=
      copyInto_of_le (Nat.zero_le _) (by rw [length_replicate]; exact hraw rfl) rfl
    simp only [openChunk, Daemon.openChunk]
    rw [beAt_of_le (by omega), range_of_le (Nat.zero_le _) hpkt]
    simp only [bind_eq_bind, bind_some, hcopy]
    rw [decryptInPlace_eq hopen]
    simp only [bind_some, slice, drop_zero, Nat.sub_zero]
    change _ = some (openPacket openFn ke.keys.dataKey (nonceFor ke.keys.dataIv
      (UInt64.ofNat (beNat ((pkt.drop 18).take 8)))) (pkt.take headerSize) raw)
    cases openPacket openFn ke.keys.dataKey (nonceFor ke.keys.dataIv
        (UInt64.ofNat (beNat ((pkt.drop 18).take 8)))) (pkt.take headerSize) raw with
    | none => rfl
    | some pt =>
      dsimp only [map_some]
      rw [range_of_le (Nat.zero_le _) (by simp), slice, drop_zero, Nat.sub_zero, take_left]
      rfl

def expandChunk (pkt payload : Bytes) : Option (Option Bytes) := do
  let flags ← beAt 2 pkt 2
  return if UInt16.ofNat flags &&& PacketFlags.compressed ≠ 0 ∧ cfg.compressed then
    P.zstdDecompress payload cfg.payloadSize
  else some payload

def writeChunk (mmap : Bytes) (offset : ℕ) (data : Bytes) : Option Bytes :=
  if mmap.length ≤ offset then some mmap
  else do
    let stop := min (saturatingAdd 64 offset data.length) mmap.length
    let n ← sub stop offset
    let src ← range data 0 n
    copyInto mmap offset stop src

lemma expandChunk_eq {payload : Bytes} (hpkt : headerSize ≤ pkt.length) :
    expandChunk P cfg pkt payload = some (Daemon.expandChunk P cfg pkt payload) := by
  have h42 : 42 ≤ pkt.length := hpkt
  rw [expandChunk, beAt_of_le (by omega)]
  rfl

lemma writeChunk_eq (hmap : mmap.length < 2 ^ 64) (offset : ℕ) (data : Bytes) :
    writeChunk mmap offset data = some (Transfer.writeChunk mmap offset data) := by
  unfold writeChunk Transfer.writeChunk
  split
  · rfl
  have hsat : min (saturatingAdd 64 offset data.length) mmap.length =
      min (offset + data.length) mmap.length := by
    rw [saturatingAdd]
    omega
  simp only [hsat]
  rw [sub_of_le (by omega)]
  simp only [bind_eq_bind, bind_some]
  rw [range_of_le (Nat.zero_le _) (by omega)]
  simp only [bind_some, slice, drop_zero, Nat.sub_zero]
  rw [copyInto_of_le (by omega) (by omega) (by rw [length_take]; omega)]

def placeChunk (r : Receiver) (pkt : Bytes) (dp : DataPayloadRef) (stream : StreamRecvState)
    (localCi : ℕ) : Option (Option (Bytes × StreamRecvState)) := do
  if ← index stream.received localCi then return some (r.mmap, stream)
  else
    let offset ← mul 64 dp.chunkIndex.toNat cfg.payloadSize
    match ← openChunk openFn r.keyEpoch pkt dp.data with
    | none => return none
    | some payload =>
      match ← expandChunk P cfg pkt payload with
      | none => return none
      | some data =>
        let mmap ← writeChunk r.mmap offset data
        return some (mmap, ← markReceived stream localCi)

structure StreamSound (cfg : RecvConfig) (s : StreamRecvState) : Prop where
  inside : s.chunkBase + s.chunkCount ≤ cfg.totalChunks
  counted : s.nReceived = s.received.count true
  sinceAck_lt : s.sinceAck < cfg.ackEvery
  gapCounter_lt : s.gapCounter < 32

structure ConfigSound (cfg : RecvConfig) : Prop where
  payloadSize_pos : 0 < cfg.payloadSize
  payloadSize_le : cfg.payloadSize ≤ maxPacket
  totalChunks_le : cfg.totalChunks ≤ maxTotalChunks
  ackEvery_pos : 0 < cfg.ackEvery
  ackEvery_le : cfg.ackEvery ≤ 8192

variable {P openFn cfg}

variable {localCi : ℕ}

lemma nReceived_lt (hcounted : s.nReceived = s.received.count true)
    (hlocal : localCi < s.chunkCount) (hfresh : s.received.getD localCi false = false) :
    s.nReceived < s.chunkCount := by
  have hlen := s.received_length
  have hcount := FlagBits.count_set_true (by omega) hfresh
  have hle := count_le_length (a := true) (l := s.received.set localCi true)
  rw [length_set] at hle
  omega

variable {dp : DataPayloadRef} {stream : StreamRecvState}

lemma placeChunk_eq (hopen : TagLength openFn) (hcfg : ConfigSound cfg)
    (hmap : r.mmap.length < 2 ^ 64) (hpkt : headerSize ≤ pkt.length)
    (hraw : dp.data.length ≤ maxDataLen cfg r.keyEpoch) (hstream : StreamSound cfg stream)
    (hlocal : stream.localChunkIndex dp.chunkIndex.toNat = some localCi) :
    placeChunk P openFn cfg r pkt dp stream localCi =
      some (Daemon.placeChunk P openFn cfg r pkt dp stream localCi) := by
  obtain ⟨hci, hlt⟩ := localChunkIndex_eq_some.mp hlocal
  have hlen := stream.received_length
  have hinside := hstream.inside
  have htotal := hcfg.totalChunks_le
  have hpayload := hcfg.payloadSize_le
  simp only [maxTotalChunks] at htotal
  have hbuf : r.keyEpoch.isSome → dp.data.length ≤ maxPacket := by
    intro hsome
    rw [maxDataLen, if_pos hsome] at hraw
    exact hraw.trans (min_le_right _ _)
  unfold placeChunk Daemon.placeChunk
  rw [index_of_lt (by omega) false]
  simp only [bind_eq_bind, bind_some]
  split
  · rfl
  rename_i hfresh
  have hoffset : dp.chunkIndex.toNat * cfg.payloadSize < 2 ^ 64 := by
    calc dp.chunkIndex.toNat * cfg.payloadSize
        ≤ 2 ^ 26 * 1500 := Nat.mul_le_mul (by omega) hpayload
      _ < 2 ^ 64 := by norm_num
  rw [mul_of_lt hoffset, openChunk_eq hopen hpkt hbuf]
  cases Daemon.openChunk openFn r.keyEpoch pkt dp.data with
  | none => rfl
  | some payload =>
    simp only [expandChunk_eq P cfg hpkt, bind_some]
    cases Daemon.expandChunk P cfg pkt payload with
    | none => rfl
    | some data =>
      dsimp only
      rw [writeChunk_eq hmap, markReceived_eq hlt (by omega)
        (nReceived_lt hstream.counted hlt (by simpa using hfresh))]
      rfl

variable (P openFn cfg)

/-- The header is encoded into a buffer of 256 bytes. -/
def nackDatagram (sid : ℕ) (ranges : List (ℕ × ℕ)) (seq timestamp : UInt64) : Option Bytes := do
  sendBuf 256 headerSize
  return Daemon.nackDatagram P cfg sid ranges seq timestamp

def gapFeedback (stream : StreamRecvState) (localCi nowMs : ℕ) :
    Option (StreamRecvState × List (ℕ × ℕ)) :=
  if cfg.nackEnabled then detectGap stream localCi nowMs else some (stream, [])

def sendNack (clock : Clock) (sid : ℕ) (ranges : List (ℕ × ℕ)) (r : Receiver) :
    Option (Receiver × List Bytes) :=
  if ranges.isEmpty then some (r, []) else reply clock (nackDatagram P cfg sid ranges) (r, [])

def dataFeedback (clock : Clock) (nowMs sid localCi : ℕ) (stream : StreamRecvState)
    (r : Receiver) : Option (Receiver × List Bytes) := do
  let sinceAck ← add 64 stream.sinceAck 1
  let (stream, ranges) ← gapFeedback cfg { stream with sinceAck } localCi nowMs
  let a ← sendNack P cfg clock sid ranges { r with streams := r.streams.set sid stream }
  if cfg.ackEvery ≤ stream.sinceAck then
    let a ← reply clock (ackDatagram P cfg sid stream) a
    return (a.1.setSinceAck sid 0, a.2)
  else return a

variable {cfg} in
lemma gapFeedback_eq (hlocal : localCi < stream.chunkCount)
    (hend : stream.chunkBase + stream.chunkCount < 2 ^ 64) (hgap : stream.gapCounter < 32)
    (nowMs : ℕ) :
    gapFeedback cfg { stream with sinceAck := stream.sinceAck + 1 } localCi nowMs =
      some (gapResult cfg stream localCi nowMs) := by
  unfold gapFeedback gapResult
  split
  · apply detectGap_eq
    · exact hlocal
    · exact hend
    · exact hgap
  · rfl

lemma sendNack_eq (clock : Clock) (sid : ℕ) (ranges : List (ℕ × ℕ)) (r : Receiver)
    (hseq : r.seq.toNat + 1 < 2 ^ 64) :
    sendNack P cfg clock sid ranges r = some (nacked P cfg clock sid ranges r) := by
  unfold sendNack nacked
  split
  · rfl
  · refine reply_eq (fun seq timestamp => ?_) hseq
    rw [nackDatagram, sendBuf_eq (by decide)]
    rfl

variable {sid : ℕ}

lemma dataFeedback_eq (hcfg : ConfigSound cfg) {nowMs : ℕ} (hstream : StreamSound cfg stream)
    (hlocal : localCi < stream.chunkCount) (hseq : r.seq.toNat + 2 < 2 ^ 64) :
    dataFeedback P cfg clock nowMs sid localCi stream r =
      some (Daemon.dataFeedback P cfg clock nowMs sid localCi stream r) := by
  have hinside := hstream.inside
  have htotal := hcfg.totalChunks_le
  have hsince := hstream.sinceAck_lt
  have hevery := hcfg.ackEvery_le
  simp only [maxTotalChunks] at htotal
  obtain ⟨next, ranges, hnext, hprogress⟩ := exists_gapResult cfg stream localCi nowMs
  have hend : next.chunkBase + next.chunkCount < 2 ^ 64 := by
    have hbase : next.chunkBase = stream.chunkBase := congrArg Progress.chunkBase hprogress
    have hcount : next.chunkCount = stream.chunkCount := congrArg Progress.chunkCount hprogress
    omega
  obtain ⟨seq, out, hnacked, hnackSeq, -⟩ :=
    nacked_spec P cfg clock sid ranges { r with streams := r.streams.set sid next }
  dsimp only at hnackSeq
  rw [dataFeedback_of_gap P hnext, dataFeedback, add_of_lt (by omega)]
  simp only [bind_eq_bind, bind_some]
  rw [gapFeedback_eq hlocal (by omega) hstream.gapCounter_lt, hnext]
  simp only [bind_some]
  rw [sendNack_eq P cfg clock sid ranges { r with streams := r.streams.set sid next }
    (Nat.lt_of_succ_lt hseq), hnacked]
  simp only [bind_some]
  split
  · rw [reply_eq (ackDatagram_eq P cfg hend sid) (by dsimp only; omega)]
    rfl
  · rfl

def totalReceived (r : Receiver) : Option ℕ :=
  r.streams.foldlM (fun sum s => add 64 sum s.nReceived) 0

structure ProgressFit (cfg : RecvConfig) (ps : List Progress) : Prop where
  inside : ∀ p ∈ ps, p.chunkBase + p.chunkCount ≤ cfg.totalChunks
  nReceived_le : ∀ p ∈ ps, p.nReceived ≤ p.chunkCount
  sum_le : (ps.map Progress.chunkCount).sum ≤ cfg.totalChunks

variable {cfg} in
lemma ProgressFit.set {ps : List Progress} (h : ProgressFit cfg ps) {p q : Progress}
    (hp : ps[sid]? = some p) (hrange : q.range = p.range) (hq : q.nReceived ≤ q.chunkCount) :
    ProgressFit cfg (ps.set sid q) := by
  have hbase : q.chunkBase = p.chunkBase := congrArg Prod.fst hrange
  have hcount : q.chunkCount = p.chunkCount := congrArg Prod.snd hrange
  have hmem : p ∈ ps := mem_of_getElem? hp
  refine ⟨fun p' hp' => ?_, fun p' hp' => ?_, ?_⟩
  · rcases mem_or_eq_of_mem_set hp' with hold | rfl
    · exact h.inside p' hold
    · rw [hbase, hcount]
      exact h.inside p hmem
  · rcases mem_or_eq_of_mem_set hp' with hold | rfl
    · exact h.nReceived_le p' hold
    · exact hq
  · have hsame : (ps.set sid q).map Progress.chunkCount = ps.map Progress.chunkCount := by
      apply ext_getElem?
      intro i
      rw [getElem?_map, getElem?_map, getElem?_set]
      by_cases hi : sid = i
      · subst hi
        have hlt : sid < ps.length := (List.getElem?_eq_some_iff.mp hp).1
        rw [if_pos rfl, if_pos hlt, hp, map_some, map_some, hcount]
      · rw [if_neg hi]
    rw [hsame]
    exact h.sum_le

variable {cfg} in
lemma ProgressFit.totalReceived_le
    (h : ProgressFit cfg (r.streams.map progress)) :
    r.totalReceived ≤ cfg.totalChunks := by
  have hsum : ∀ ps : List Progress, (∀ p ∈ ps, p.nReceived ≤ p.chunkCount) →
      (ps.map Progress.nReceived).sum ≤ (ps.map Progress.chunkCount).sum :=
    fun ps hps => sum_le_sum hps
  have hle := (hsum _ h.nReceived_le).trans h.sum_le
  rwa [map_map] at hle

lemma totalReceived_eq (h : r.totalReceived < 2 ^ 64) :
    totalReceived r = some r.totalReceived := by
  have hfold : ∀ (streams : List StreamRecvState) (sum : ℕ),
      sum + (streams.map nReceived).sum < 2 ^ 64 →
        streams.foldlM (fun sum s => add 64 sum s.nReceived) sum =
          some (sum + (streams.map nReceived).sum) := by
    intro streams
    induction streams with
    | nil => exact fun sum _ => rfl
    | cons s streams ih =>
      intro sum hsum
      rw [map_cons, sum_cons] at hsum
      rw [foldlM_cons, add_of_lt (by omega)]
      simp only [bind_eq_bind, bind_some]
      rw [ih _ (by omega), map_cons, sum_cons, Nat.add_assoc]
  have hall := hfold r.streams 0 (by rwa [Nat.zero_add])
  rwa [Nat.zero_add] at hall

def completionCheck (clock : Clock) (a : Receiver × List Bytes) :
    Option (Receiver × List Bytes) :=
  if a.1.tailArmed = false then do
    if cfg.totalChunks ≤ (← totalReceived a.1) then
      let a ← ackAll P cfg clock a
      let a ← ackAll P cfg clock a
      let a ← ackAll P cfg clock a
      return ({ a.1 with tailArmed := true }, a.2)
    else return a
  else some a

variable {P cfg}

lemma completionCheck_eq (htotal : cfg.totalChunks ≤ maxTotalChunks)
    (hprogress : ProgressFit cfg (a.1.streams.map
      progress)) (hseq : a.1.seq.toNat + 3 * a.1.streams.length < 2 ^ 64) :
    completionCheck P cfg clock a = some (Daemon.completionCheck P cfg clock a) := by
  have h26 : cfg.totalChunks ≤ 2 ^ 26 := htotal
  have hfit : StreamsFit a.1.streams := by
    intro s hs
    have hinside := hprogress.inside s.progress (mem_map_of_mem hs)
    dsimp only [progress] at hinside
    omega
  have hsum : a.1.totalReceived < 2 ^ 64 := by
    have hle := hprogress.totalReceived_le
    omega
  unfold completionCheck Daemon.completionCheck
  by_cases hdone : a.1.tailArmed = false ∧ cfg.totalChunks ≤ a.1.totalReceived
  · obtain ⟨seq, out, hfirst, hle, -⟩ := ackAll_spec P cfg clock a
    obtain ⟨seq', out', hsecond, hle', -⟩ :=
      ackAll_spec P cfg clock ({ a.1 with seq }, a.2 ++ out)
    dsimp only at hle'
    rw [if_pos hdone.1, totalReceived_eq hsum, if_pos hdone]
    simp only [bind_eq_bind, bind_some]
    rw [if_pos hdone.2, ackAll_eq hfit (by omega), hfirst]
    simp only [bind_some]
    rw [ackAll_eq (a := ({ a.1 with seq }, _)) hfit (by dsimp only; omega), hsecond]
    simp only [bind_some]
    rw [ackAll_eq (a := ({ a.1 with seq := seq' }, _)) hfit (by dsimp only; omega)]
    rfl
  · split
    · rename_i harmed
      rw [totalReceived_eq hsum]
      simp only [bind_eq_bind, bind_some]
      rw [if_neg fun hle => hdone ⟨harmed, hle⟩]
      rfl
    · rfl

variable (P cfg)

def foreign (pkt : Bytes) : Option Bool :=
  if 14 ≤ pkt.length then
    (beAt 8 pkt 6).map fun conn => decide (UInt64.ofNat conn ≠ cfg.connId)
  else some false

def recvData (clock : Clock) (nowMs : ℕ) (pkt : Bytes) (r : Receiver) :
    Option (Receiver × List Bytes) := do
  let pkt ← unmask P cfg r.keyEpoch pkt
  if ← foreign cfg pkt then return (r, [])
  else
    match ← decodeDataInline pkt with
    | none => return (r, [])
    | some dp =>
      if maxDataLen cfg r.keyEpoch < dp.data.length then return (r, [])
      else if dp.streamId.toNat < r.streams.length then
        let stream ← index r.streams dp.streamId.toNat
        match stream.localChunkIndex dp.chunkIndex.toNat with
        | none => return (r, [])
        | some localCi =>
          match ← placeChunk P openFn cfg r pkt dp stream localCi with
          | none => return (r, [])
          | some (mmap, stream) =>
            completionCheck P cfg clock (← dataFeedback P cfg clock nowMs
              dp.streamId.toNat localCi stream { r with mmap })
      else completionCheck P cfg clock (r, [])

lemma foreign_eq (pkt : Bytes) : foreign cfg pkt =
    some (decide (14 ≤ pkt.length ∧ (getU64 (pkt.drop 6)).1 ≠ cfg.connId)) := by
  unfold foreign
  split
  · rename_i hlen
    rw [beAt_of_le (by omega)]
    simp [hlen, getU64]
  · rename_i hlen
    simp [hlen]

variable {P openFn cfg}

structure Ready (cfg : RecvConfig) (r : Receiver) : Prop where
  streams : ∀ s ∈ r.streams, StreamSound cfg s
  progress : ProgressFit cfg (r.streams.map progress)
  mapped : r.mmap.length < 2 ^ 64
  room : r.seq.toNat + 3 * r.streams.length + 2 < 2 ^ 64
  epoch : ∀ ke, r.keyEpoch = some ke → ke.epoch + 1 < 2 ^ 64

lemma StreamSound.nReceived_le (h : StreamSound cfg s) : s.nReceived ≤ s.chunkCount := by
  rw [h.counted, ← s.received_length]
  exact count_le_length

lemma StreamSound.markReceived (h : StreamSound cfg s) (hlocal : localCi < s.chunkCount)
    (hfresh : s.received.getD localCi false = false) :
    StreamSound cfg (s.markReceived localCi) where
  inside := h.inside
  counted := by
    have hcount := FlagBits.count_set_true (by rwa [s.received_length]) hfresh
    dsimp only [StreamRecvState.markReceived]
    rw [hcount, h.counted]
  sinceAck_lt := h.sinceAck_lt
  gapCounter_lt := h.gapCounter_lt

lemma StreamSound.of_placeChunk (h : StreamSound cfg stream)
    (hlocal : stream.localChunkIndex dp.chunkIndex.toNat = some localCi)
    (hplace : Daemon.placeChunk P openFn cfg r pkt dp stream localCi = some (mmap, next)) :
    StreamSound cfg next ∧ next.progress.range = stream.progress.range := by
  obtain ⟨-, hlt⟩ := localChunkIndex_eq_some.mp hlocal
  rcases placeChunk_cases hplace with ⟨-, rfl⟩ | ⟨data, hfresh, -, -, rfl⟩
  · exact ⟨h, rfl⟩
  · exact ⟨h.markReceived hlt hfresh, rfl⟩

lemma placed_eq (hcfg : ConfigSound cfg) (hr : Ready cfg r) (clock : Clock) (nowMs : ℕ) {ci : ℕ}
    (mmap : Bytes) (hget : r.streams[sid]? = some stream)
    (hlocal : stream.localChunkIndex ci = some localCi) (hnext : StreamSound cfg next)
    (hrange : next.progress.range = stream.progress.range) :
    (dataFeedback P cfg clock nowMs sid localCi next { r with mmap }).bind
        (completionCheck P cfg clock) =
      some (Daemon.completionCheck P cfg clock
        (Daemon.dataFeedback P cfg clock nowMs sid localCi next { r with mmap })) := by
  have hroom := hr.room
  obtain ⟨-, hlt⟩ := localChunkIndex_eq_some.mp hlocal
  have hcount : next.chunkCount = stream.chunkCount := congrArg Prod.snd hrange
  rw [dataFeedback_eq P cfg hcfg hnext (by omega) (by dsimp only; omega), bind_some]
  have hturn := feedbackTurn P cfg clock nowMs sid localCi next { r with mmap }
  have hseq := hturn.seq_le
  have hlength := congrArg List.length hturn.progress
  simp only [length_map, length_set] at hlength
  dsimp only at hseq
  apply completionCheck_eq hcfg.totalChunks_le
  · rw [hturn.progress]
    exact hr.progress.set (by rw [getElem?_map, hget]; rfl) hrange hnext.nReceived_le
  · omega

lemma headerSize_le_of_decodeDataInline (h : Proto.decodeDataInline pkt = some dp) :
    headerSize ≤ pkt.length := by
  unfold Proto.decodeDataInline at h
  split at h
  · cases h
  · omega

lemma recvData_eq (hopen : TagLength openFn) (hcfg : ConfigSound cfg) (hr : Ready cfg r)
    (clock : Clock) (nowMs : ℕ) (pkt : Bytes) :
    recvData P openFn cfg clock nowMs pkt r =
      some (Daemon.recvData P openFn cfg clock nowMs pkt r) := by
  have hroom := hr.room
  unfold recvData Daemon.recvData
  rw [unmask_eq]
  simp only [bind_eq_bind, bind_some]
  generalize Daemon.unmask P cfg r.keyEpoch pkt = pkt
  rw [foreign_eq]
  simp only [bind_some, decide_eq_true_eq]
  split
  · rfl
  rw [decodeDataInline_eq]
  simp only [bind_some]
  cases hdp : Proto.decodeDataInline pkt with
  | none => rfl
  | some dp =>
    have hpkt := headerSize_le_of_decodeDataInline hdp
    dsimp only
    split
    · rfl
    rename_i hlen
    split
    · rename_i hsid
      have hget : r.streams[dp.streamId.toNat]? = some r.streams[dp.streamId.toNat] :=
        getElem?_eq_getElem hsid
      have hstream := hr.streams _ (getElem_mem hsid)
      generalize r.streams[dp.streamId.toNat] = stream at hget hstream
      rw [index, hget]
      simp only [bind_some]
      cases hlocal : stream.localChunkIndex dp.chunkIndex.toNat with
      | none => rfl
      | some localCi =>
        dsimp only
        rw [placeChunk_eq hopen hcfg hr.mapped hpkt (Nat.not_lt.mp hlen) hstream hlocal]
        cases hplace : Daemon.placeChunk P openFn cfg r pkt dp stream localCi with
        | none => rfl
        | some placed =>
          obtain ⟨mmap, next⟩ := placed
          obtain ⟨hnext, hrange⟩ := hstream.of_placeChunk hlocal hplace
          exact placed_eq hcfg hr clock nowMs mmap hget hlocal hnext hrange
    · rename_i hsid
      rw [getElem?_eq_none (Nat.not_lt.mp hsid)]
      exact completionCheck_eq hcfg.totalChunks_le hr.progress (by dsimp only; omega)

variable (P openFn cfg)

/-! ## Control packets -/

def applyKeyUpdate (payload : Bytes) (keyEpoch : Option KeyEpoch) :
    Option (Option KeyEpoch) := do
  match ← decodeKeyUpdate payload, keyEpoch with
  | some newEpoch, some ke =>
    let next ← add 64 ke.epoch 1
    if newEpoch = UInt64.ofNat next then
      match ke.rotate P.hkdf with
      | .ok rotated => do
          let _ ← add 64 ke.epoch 1
          return some rotated
      | .error _ => return some ke
    else return some ke
  | _, ke => return ke

lemma applyKeyUpdate_eq (hepoch : ∀ ke, keyEpoch = some ke → ke.epoch + 1 < 2 ^ 64)
    (payload : Bytes) :
    applyKeyUpdate P payload keyEpoch = some (Daemon.applyKeyUpdate P payload keyEpoch) := by
  unfold applyKeyUpdate Daemon.applyKeyUpdate
  rw [decodeKeyUpdate_eq]
  simp only [bind_eq_bind, bind_some]
  cases Crypto.decodeKeyUpdate payload with
  | none => rfl
  | some newEpoch =>
    cases keyEpoch with
    | none => rfl
    | some ke =>
      have hadd := add_of_lt (hepoch ke rfl)
      simp only [hadd, bind_some, shouldRotate, beq_iff_eq]
      split
      · cases ke.rotate P.hkdf <;> rfl
      · rfl

def recvControl (clock : Clock) (pkt : Bytes) (r : Receiver) :
    Option (Receiver × List Bytes) := do
  match ← decodePacket P.crc32c pkt with
  | .error _ => return (r, [])
  | .ok decoded =>
    if decoded.header.connectionId ≠ cfg.connId ∧ decoded.header.packetType ≠ .hello then
      return (r, [])
    else
      match decoded.header.packetType with
      | .finish =>
        let aad ← range pkt 0 headerSize
        match authenticateCtrl openFn r.keyEpoch aad decoded.header.packetNumber
            decoded.payload with
        | none => return (r, [])
        | some _ =>
          let a ← ackAll P cfg clock (r, [])
          sendBuf ackBufSize headerSize
          return ({ a.1 with finishReplied := true, phase := .finished },
            a.2 ++ [encodeCtrlPacketInto P.crc32c .finish cfg.connId a.1.seq
              (clock a.2.length)])
      | .pathProbe =>
        sendBuf ackBufSize headerSize
        return (r, [encodeCtrlPacketInto P.crc32c .pathProbeAck cfg.connId
          decoded.header.packetNumber (clock 0)])
      | .keyUpdate =>
        let aad ← range pkt 0 headerSize
        match authenticateCtrl openFn r.keyEpoch aad decoded.header.packetNumber
            decoded.payload with
        | none => return (r, [])
        | some payload =>
          return ({ r with keyEpoch := ← applyKeyUpdate P payload r.keyEpoch }, [])
      | .hello =>
        sendBuf ackBufSize (headerSize + 1)
        return ({ r with
            pendingHello := some decoded.header.connectionId
            phase := if r.tailArmed then .finished else r.phase },
          [encodeCtrlPacketWithPayloadInto P.crc32c .helloAck decoded.header.connectionId 0
            (clock 0) 1 ++ [plaintextModeByte]])
      | _ => return (r, [])

variable {P openFn cfg}

lemma StreamSound.fits (hcfg : ConfigSound cfg) (h : StreamSound cfg s) :
    s.chunkBase + s.chunkCount < 2 ^ 64 := by
  have htotal := hcfg.totalChunks_le
  have hinside := h.inside
  simp only [maxTotalChunks] at htotal
  omega

lemma length_of_decodePacket {decoded : Packet}
    (h : Proto.decodePacket P.crc32c pkt = .ok decoded) : headerSize ≤ pkt.length := by
  by_contra hshort
  have hheader :
      PacketHeader.decode P.crc32c pkt = .error (.bufferTooShort headerSize pkt.length) :=
    if_pos (Nat.not_le.mp hshort)
  rw [Proto.decodePacket, hheader] at h
  cases h

lemma recvControl_eq (hcfg : ConfigSound cfg) (hr : Ready cfg r) (clock : Clock) (pkt : Bytes) :
    recvControl P openFn cfg clock pkt r = some (Daemon.recvControl P openFn cfg clock pkt r) := by
  have hroom := hr.room
  have hfit : StreamsFit r.streams := fun s hs => (hr.streams s hs).fits hcfg
  unfold recvControl Daemon.recvControl
  rw [decodePacket_eq]
  simp only [bind_eq_bind, bind_some]
  cases hdecoded : Proto.decodePacket P.crc32c pkt with
  | error e => rfl
  | ok decoded =>
    have hpkt := length_of_decodePacket hdecoded
    have haad : range pkt 0 headerSize = some (pkt.take headerSize) := by
      rw [range_of_le (Nat.zero_le _) hpkt, slice, drop_zero, Nat.sub_zero]
    dsimp only
    split
    · rfl
    simp only [haad, bind_some]
    cases decoded.header.packetType with
    | finish =>
      cases authenticateCtrl openFn r.keyEpoch (pkt.take headerSize) _ decoded.payload with
      | none => rfl
      | some _ =>
        dsimp only
        rw [ackAll_eq hfit (by dsimp only; omega)]
        rw [sendBuf_eq (by decide)]
        rfl
    | keyUpdate =>
      cases authenticateCtrl openFn r.keyEpoch (pkt.take headerSize) _ decoded.payload with
      | none => rfl
      | some payload =>
        simp only [applyKeyUpdate_eq P hr.epoch, bind_some]
        rfl
    | pathProbe | hello =>
      dsimp only
      rw [sendBuf_eq (by decide)]
      rfl
    | _ => rfl

variable (P openFn cfg)

def isData (pkt : Bytes) : Option Bool :=
  if 1 < pkt.length then (index pkt 1).map fun b => decide (b = 0x20) else some false

def recvDatagram (clock : Clock) (nowMs : ℕ) (pkt : Bytes) (r : Receiver) :
    Option (Receiver × List Bytes) := do
  if ← isData pkt then recvData P openFn cfg clock nowMs pkt r
  else if 0 < pkt.length then recvControl P openFn cfg clock pkt r
  else return (r, [])

/-- One step of the loop; it is stuck where the model's step is, and where the thread would
panic. -/
def step (r : Receiver) (ev : RecvEvent) : Option (Receiver × List Bytes) :=
  if r.phase ≠ .receiving then none else
  match ev with
  | .datagram pkt clock nowMs => recvDatagram P openFn cfg clock nowMs pkt r
  | .ackTimer clock => ackTimer P cfg clock r
  | .tailGrace => if r.tailArmed then some ({ r with phase := .finished }, []) else none
  | .peerInactive => if r.tailArmed then none else some ({ r with phase := .peerSilent }, [])

variable {P openFn cfg}

/-- On a state that is ready no step panics. -/
theorem step_eq (hopen : TagLength openFn) (hcfg : ConfigSound cfg) (hr : Ready cfg r)
    (ev : RecvEvent) : step P openFn cfg r ev = r.step P openFn cfg ev := by
  unfold step Receiver.step
  split
  · rfl
  cases ev with
  | datagram pkt clock nowMs =>
    have hdata : isData pkt = some (decide (1 < pkt.length ∧ pkt.getD 1 0 = 0x20)) := by
      unfold isData
      split
      · rename_i hlen
        rw [index_of_lt hlen 0]
        simp [hlen]
      · rename_i hlen
        simp [hlen]
    simp only [recvDatagram, Daemon.recvDatagram, hdata, bind_eq_bind, bind_some, decide_eq_true_eq]
    split
    · exact recvData_eq hopen hcfg hr clock nowMs pkt
    · split
      · exact recvControl_eq hcfg hr clock pkt
      · rfl
  | ackTimer clock =>
    have hroom := hr.room
    exact ackTimer_eq (fun s hs => (hr.streams s hs).fits hcfg) (by omega)
  | tailGrace => rfl
  | peerInactive => rfl

end Favonius.Daemon.Checked
