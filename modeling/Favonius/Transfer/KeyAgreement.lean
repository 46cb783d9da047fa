import Favonius.Transfer.Nonces
import Favonius.Transfer.SingleStream

/-!
# Agreement on the key epoch

The daemon follows the sender's ratchet by the KEY_UPDATEs it authenticates.
Whatever the network does to them, only the announcement of the daemon's next
epoch moves it, and that announcement exists only once the sender has reached
that epoch.
-/

namespace Favonius.Transfer

open Execution ByteCodec IdealAead Proto Crypto Client Daemon List Option

namespace Ledger

variable (L : Ledger)

/-- The daemon's keys when the sender has sealed `n` DATA packets. -/
structure Follows (n : ℕ) (kd : KeyEpoch) : Prop where
  epoch_le : kd.epoch ≤ epochAt n
  keys_eq : kd.keys = L.keys kd.epoch
  previous : ∀ keys, kd.previousKeys = some keys → ∃ e, kd.epoch = e + 1 ∧ keys = L.keys e

/-- The ciphertext of a DATA packet that was sealed in epoch `e`. -/
def SealedIn (log : List SealedRecord) (e : ℕ) (plaintext ciphertext : Bytes) : Prop :=
  ∃ m timestamp streamId compressed, epochAt m = e ∧
    L.data m timestamp streamId plaintext compressed ∈ log ∧
    (L.data m timestamp streamId plaintext compressed).ciphertext = ciphertext

/-- The datagram carries the sender's announcement of epoch `e + 1`. -/
def Announces (log : List SealedRecord) (e : ℕ) (pkt : Bytes) : Prop :=
  ∃ decoded m timestamp, decodePacket L.sess.prims.crc32c pkt = .ok decoded ∧
    L.keyUpdate e m timestamp ∈ log ∧
    (L.keyUpdate e m timestamp).aad = pkt.take headerSize ∧
    (L.keyUpdate e m timestamp).ciphertext = decoded.payload

variable {L} {m n : ℕ}

variable {kd : KeyEpoch}

lemma Follows.mono (h : L.Follows m kd) (hmn : m ≤ n) : L.Follows n kd :=
  ⟨h.epoch_le.trans (epochAt_mono hmn), h.keys_eq, h.previous⟩

lemma ofNat_ne_ofNat_succ (e : ℕ) : UInt64.ofNat e ≠ UInt64.ofNat (e + 1) := by
  intro h
  have hnat := congrArg UInt64.toNat h
  rw [UInt64.toNat_ofNat', UInt64.toNat_ofNat'] at hnat
  omega

lemma type_of_aad {pkt : Bytes} {r : SealedRecord} (haad : r.aad = pkt.take headerSize) :
    r.aad.getD 1 0 = pkt.getD 1 0 := by
  rw [haad, getD_eq_getElem?_getD, getElem?_take_of_lt (by decide), ← getD_eq_getElem?_getD]

section Origin

variable {s : Sys} {o : KeyOrigin} (hinv : L.Inv n s)
  (hinitial : L.initial = o.keys L.sess.prims.hkdf)
  (hcf : o.CollisionFree L.sess.prims.hkdf (epochAt n))
include hinv hinitial hcf

lemma sealedIn_of_openChunk (hfollows : L.Follows n kd) {pkt raw pt : Bytes} {dp : DataPayloadRef}
    (hdp : decodeDataInline pkt = some dp)
    (hopen : openChunk (openIn s.log) (some kd) pkt raw = some pt) :
    L.SealedIn s.log kd.epoch pt raw := by
  obtain ⟨r, hr, hkey, haad, hpt, hct⟩ := exists_record_of_openChunk hopen
  have htype : r.aad.getD 1 0 = PacketType.data.toByte :=
    (type_of_aad haad).trans (eq_of_decodeDataInline hdp).2
  cases hinv.issued r hr with
  | data m timestamp streamId chunk compressed hm =>
    obtain rfl : chunk = pt := hpt
    refine ⟨m, timestamp, streamId, compressed, ?_, hr, hct⟩
    rw [hfollows.keys_eq] at hkey
    exact epoch_eq_of_get_eq hinitial hcf (epochAt_mono hm.le) hfollows.epoch_le .data hkey
  | keyUpdate e m timestamp =>
    have hbyte : PacketType.keyUpdate.toByte = PacketType.data.toByte := htype
    exact absurd hbyte (by decide)
  | finish timestamp =>
    have hbyte : PacketType.finish.toByte = PacketType.data.toByte := htype
    exact absurd hbyte (by decide)

/-- Only the announcement of the daemon's next epoch rotates its keys. -/
theorem announces_of_rotated (hfollows : L.Follows n kd) {pkt : Bytes} {decoded : Packet}
    {payload : Bytes}
    (h : Rotated L.sess.prims (openIn s.log) L.sess.recv s.receiver kd pkt decoded payload) :
    L.Announces s.log kd.epoch pkt ∧ kd.epoch + 1 ≤ epochAt n := by
  obtain ⟨keys, hkeys, hopen⟩ := unsealControl_eq_some h.authentic
  have hr := exists_sealed_of_openIn hopen
  have htype : PacketType.tryFrom ((pkt.take headerSize).getD 1 0) = .ok .keyUpdate := by
    rw [← h.type_eq, ← packetType_of_decodePacket h.decoded_eq,
      getD_eq_getElem?_getD, getElem?_take_of_lt (by decide),
      ← getD_eq_getElem?_getD]
  obtain ⟨record, hrecord⟩ : ∃ r : SealedRecord, r = ⟨keys.controlKey,
    nonceFor keys.controlIv decoded.header.packetNumber, pkt.take headerSize, payload,
    decoded.payload⟩ := ⟨_, rfl⟩
  rw [← hrecord] at hr
  have hkey : record.key = keys.controlKey := by rw [hrecord]
  have haad : record.aad = pkt.take headerSize := by rw [hrecord]
  have hpayload : record.plaintext = payload := by rw [hrecord]
  have hct : record.ciphertext = decoded.payload := by rw [hrecord]
  rw [← haad] at htype
  cases hinv.issued record hr with
  | data m timestamp streamId chunk compressed =>
    rw [data_type] at htype
    cases htype
  | keyUpdate e m timestamp hm hreached hlow hhigh =>
    have hnext := h.next
    rw [← hpayload, keyUpdate_plaintext, decodeKeyUpdate_encode, some_inj] at hnext
    have hepoch : e = kd.epoch := by
      rcases hkeys with rfl | hprevious
      · rw [hfollows.keys_eq] at hkey
        exact epoch_eq_of_get_eq hinitial hcf (by omega) hfollows.epoch_le .control hkey
      -- the announcement the daemon followed before names its current epoch
      obtain ⟨d, hd, rfl⟩ := hfollows.previous keys hprevious
      have hle := hfollows.epoch_le
      obtain rfl : e = d := epoch_eq_of_get_eq hinitial hcf (by omega) (by omega) .control hkey
      rw [hd] at hnext
      exact absurd hnext (ofNat_ne_ofNat_succ (e + 1))
    subst hepoch
    exact ⟨⟨decoded, m, timestamp, h.decoded_eq, hr, haad, hct⟩, hreached⟩
  | finish timestamp =>
    have hbyte : PacketType.tryFrom PacketType.finish.toByte = .ok .keyUpdate := htype
    cases hbyte

end Origin

lemma Issued.genuine {r : SealedRecord} (h : L.Issued n r) :
    r.Genuine L.sess.prims.aes256Gcm := by
  cases h <;> exact sealPacket_genuine _ _ _ _ _

variable {s : Sys} {timestamp : UInt64}

lemma unsealControl_of_mem (hinv : L.Inv n s) {keys : SessionKeys} (previous : Option SessionKeys)
    {ptype : PacketType} {connId seq : UInt64} {payload : Bytes}
    (hmem : controlRecord L.sess.prims keys ptype connId seq timestamp payload ∈ s.log) :
    unsealControl (openIn s.log) keys previous seq
        (controlRecord L.sess.prims keys ptype connId seq timestamp payload).aad
        (controlRecord L.sess.prims keys ptype connId seq timestamp payload).ciphertext =
      some payload := by
  have hopen := openIn_of_mem L.sess.prims.aes256Gcm_injective
    (fun r hr => (hinv.issued r hr).genuine) hmem
  have hlen : ¬ (controlRecord L.sess.prims keys ptype connId seq timestamp
      payload).ciphertext.length < 16 := by
    rw [show (controlRecord L.sess.prims keys ptype connId seq timestamp
      payload).ciphertext.length = payload.length + 16 from L.sess.prims.length_aes256Gcm _ _ _ _]
    omega
  have hcurrent : openPacket (openIn s.log) keys.controlKey (nonceFor keys.controlIv seq)
      (controlRecord L.sess.prims keys ptype connId seq timestamp payload).aad
      (controlRecord L.sess.prims keys ptype connId seq timestamp payload).ciphertext =
        some payload := by
    rw [openPacket, if_neg hlen]
    exact hopen
  simp only [unsealControl, toList_some, singleton_append, findSome?_cons, hcurrent]

lemma keyEpoch_recvDatagram (hinv : L.Inv n s) (hkd : s.receiver.keyEpoch = some kd)
    {seq : UInt64}
    (hmem : controlRecord L.sess.prims kd.keys .keyUpdate L.sess.send.connId seq timestamp
      (encodeKeyUpdate (kd.epoch + 1)) ∈ s.log) (clock : Clock) (nowMs : ℕ) :
    (recvDatagram L.sess.prims (openIn s.log) L.sess.recv clock nowMs
        (encodeSealedCtrlPacket L.sess.prims .keyUpdate L.sess.send.connId seq timestamp kd.keys
          (encodeKeyUpdate (kd.epoch + 1))) s.receiver).1.keyEpoch =
      some ⟨kd.epoch + 1, 0, nextKeys L.sess.prims.hkdf kd.keys, some kd.keys⟩ := by
  have hopen := unsealControl_of_mem hinv kd.previousKeys hmem
  obtain ⟨header, hheader⟩ : ∃ h, h = makeHeader .keyUpdate L.sess.send.connId seq timestamp
    ((encodeKeyUpdate (kd.epoch + 1)).length + controlTagLen) := ⟨_, rfl⟩
  obtain ⟨ct, hct⟩ : ∃ ct, ct = (controlRecord L.sess.prims kd.keys .keyUpdate
    L.sess.send.connId seq timestamp (encodeKeyUpdate (kd.epoch + 1))).ciphertext := ⟨_, rfl⟩
  have hpkt : encodeSealedCtrlPacket L.sess.prims .keyUpdate L.sess.send.connId seq timestamp
      kd.keys (encodeKeyUpdate (kd.epoch + 1)) = header.encode L.sess.prims.crc32c ++ ct := by
    rw [hheader, hct]
    rfl
  have hlen : ct.length = 24 := by
    rw [hct]
    exact L.sess.prims.length_aes256Gcm _ _ _ _
  have hdecode : decodePacket L.sess.prims.crc32c (header.encode L.sess.prims.crc32c ++ ct) =
      .ok ⟨header.received L.sess.prims.crc32c, [], ct⟩ := by
    refine decodePacket_encode (by rw [hheader]; rfl) (by rw [hheader]; rfl) ?_
    rw [hlen, hheader]
    rfl
  have htype : header.packetType = .keyUpdate := by rw [hheader]; rfl
  have hconn : header.connectionId = L.sess.send.connId := by rw [hheader]; rfl
  have hnumber : header.packetNumber = seq := by rw [hheader]; rfl
  have haad : (controlRecord L.sess.prims kd.keys .keyUpdate L.sess.send.connId seq timestamp
      (encodeKeyUpdate (kd.epoch + 1))).aad = header.encode L.sess.prims.crc32c := by
    rw [hheader]
    rfl
  rw [← hct, haad] at hopen
  have hdata : ¬(1 < (header.encode L.sess.prims.crc32c ++ ct).length ∧
      (header.encode L.sess.prims.crc32c ++ ct).getD 1 0 = 0x20) := by
    rw [getD_packetType, htype]
    exact fun h => absurd h.2 (by decide)
  have hpos : 0 < (header.encode L.sess.prims.crc32c ++ ct).length := by simp [headerSize]
  have hauth : unsealControl (openIn s.log) kd.keys kd.previousKeys header.packetNumber
      ((header.encode L.sess.prims.crc32c ++ ct).take headerSize) ct =
        some (encodeKeyUpdate (kd.epoch + 1)) := by
    rw [take_headerSize, hnumber]
    exact hopen
  rw [hpkt, recvDatagram, if_neg hdata, if_pos hpos]
  refine (keyEpoch_recvControl L.sess.prims (openIn s.log) L.sess.recv hkd hdecode hconn htype
    hauth).trans ?_
  exact applyKeyUpdate_next L.sess.prims (decodeKeyUpdate_encode _)

lemma Follows.rotate (h : L.Follows n kd) (hle : kd.epoch + 1 ≤ epochAt n) :
    L.Follows n ⟨kd.epoch + 1, 0, nextKeys L.sess.prims.hkdf kd.keys, some kd.keys⟩ where
  epoch_le := hle
  keys_eq := by
    rw [h.keys_eq]
    rfl
  previous := by
    intro keys hkeys
    exact ⟨kd.epoch, rfl, (some.inj hkeys).symm.trans h.keys_eq⟩

lemma keyEpoch_step {o : KeyOrigin} (hinv : L.Inv n s)
    (hinitial : L.initial = o.keys L.sess.prims.hkdf)
    (hcf : o.CollisionFree L.sess.prims.hkdf (epochAt n)) (hkd : s.receiver.keyEpoch = some kd)
    (hfollows : L.Follows n kd) {ev : RecvEvent} {r' : Receiver} {out : List Bytes}
    (hstep : s.receiver.step L.sess.prims (openIn s.log) L.sess.recv ev = some (r', out)) :
    r'.keyEpoch = some kd ∨
      (∃ pkt clock nowMs, ev = .datagram pkt clock nowMs ∧ L.Announces s.log kd.epoch pkt) ∧
        kd.epoch + 1 ≤ epochAt n ∧
        r'.keyEpoch = some ⟨kd.epoch + 1, 0, nextKeys L.sess.prims.hkdf kd.keys, some kd.keys⟩ := by
  cases (Receiver.step_effect hstep).1 with
  | kept _ _ _ hkeys | placed _ _ _ _ _ _ _ _ _ _ _ hkeys => exact .inl (hkeys.trans hkd)
  | rotated pkt clock nowMs ke _ _ hrotated _ _ hkeys =>
    obtain rfl : kd = ke := some.inj (hkd.symm.trans hrotated.keys)
    obtain ⟨hannounces, hle⟩ := announces_of_rotated hinv hinitial hcf hfollows hrotated
    exact .inr ⟨⟨pkt, clock, nowMs, rfl, hannounces⟩, hle, hkeys⟩

lemma exists_step_of_announcement (hinv : L.Inv n s) (hkd : s.receiver.keyEpoch = some kd)
    (hfollows : L.Follows n kd) (hahead : epochAt n = kd.epoch + 1)
    (hphase : s.receiver.phase = .receiving) (hmem : L.keyUpdate kd.epoch m timestamp ∈ s.log)
    (clock : Clock) (nowMs : ℕ) :
    ∃ r' out kd', s.receiver.step L.sess.prims (openIn s.log) L.sess.recv
        (.datagram (encodeSealedCtrlPacket L.sess.prims .keyUpdate L.sess.send.connId (L.number m)
          timestamp kd.keys (encodeKeyUpdate (epochAt n))) clock nowMs) = some (r', out) ∧
      r'.keyEpoch = some kd' ∧ kd'.epoch = epochAt n ∧ kd'.keys = L.keys (epochAt n) := by
  have hmem' : controlRecord L.sess.prims kd.keys .keyUpdate L.sess.send.connId (L.number m)
      timestamp (encodeKeyUpdate (kd.epoch + 1)) ∈ s.log := by
    rw [hfollows.keys_eq]
    exact hmem
  have hnext := keyEpoch_recvDatagram hinv hkd hmem' clock nowMs
  rw [hahead]
  refine ⟨_, _, _, Receiver.step_datagram _ _ _ hphase, hnext, rfl, ?_⟩
  rw [hfollows.keys_eq]
  rfl

lemma exists_follows {sess : Session} {o : KeyOrigin}
    (hkeys : sess.keys = some (o.keys sess.prims.hkdf)) (st : DataStart sess) (es : List SysEvent)
    (hrun : exec (Transfer.step sess) st.sys es = some s) :
    ∃ n, Ledger.Inv ⟨sess, o.keys sess.prims.hkdf, st.seq⟩ n s ∧
      (o.CollisionFree sess.prims.hkdf (epochAt n) → ∃ kd, s.receiver.keyEpoch = some kd ∧
        Ledger.Follows ⟨sess, o.keys sess.prims.hkdf, st.seq⟩ n kd) := by
  induction es using reverseRecOn generalizing s with
  | nil =>
    cases hrun
    refine ⟨0, inv_start hkeys st, fun _ => ⟨.new (o.keys sess.prims.hkdf), ?_, ?_⟩⟩
    · simp only [DataStart.sys, Receiver.init, hkeys]
      rfl
    · exact ⟨le_rfl, rfl, by simp [KeyEpoch.new]⟩
  | append_singleton es ev ih =>
    obtain ⟨t, hes, hstep⟩ := exec_concat_eq_some.mp hrun
    obtain ⟨m, hinv, hfollows⟩ := ih hes
    cases ev with
    | send ev =>
      obtain ⟨sender, out, hsender, rfl⟩ := of_step_send hstep
      obtain ⟨n, hseals, hinv'⟩ := hinv.send hsender
      refine ⟨n, hinv', fun hcf => ?_⟩
      obtain ⟨kd, hkd, hkeys⟩ := hfollows (hcf.mono (epochAt_mono hseals.le))
      exact ⟨kd, hkd, hkeys.mono hseals.le⟩
    | recv ev =>
      obtain ⟨receiver, out, hreceiver, rfl⟩ := of_step_recv hstep
      refine ⟨m, hinv.of_same rfl rfl, fun hcf => ?_⟩
      obtain ⟨kd, hkd, hkeys⟩ := hfollows hcf
      rcases keyEpoch_step hinv rfl hcf hkd hkeys hreceiver with
        hsame | ⟨-, hle, hnext⟩
      · exact ⟨kd, hsame, hkeys⟩
      · exact ⟨_, hnext, hkeys.rotate hle⟩
    | manifestReply seq timestamp =>
      cases hstep
      exact ⟨m, hinv.of_same rfl rfl, hfollows⟩

end Ledger

/-- In every run of an encrypted transfer, whatever the network delivers, the daemon's keys
are those of an epoch the sender has reached, what it opens was sealed in that epoch, only
a genuine announcement of the next epoch moves it, and if the sender is one epoch ahead its
announcement makes the two equal. -/
theorem key_epochs_agree (sess : Session) (o : KeyOrigin)
    (hkeys : sess.keys = some (o.keys sess.prims.hkdf)) (st : DataStart sess)
    (es : List SysEvent) (s : Sys) (hrun : exec (step sess) st.sys es = some s)
    (hcf : ∀ ke, s.sender.keyEpoch = some ke → o.CollisionFree sess.prims.hkdf ke.epoch) :
    let L : Ledger := ⟨sess, o.keys sess.prims.hkdf, st.seq⟩
    ∃ ks kd, s.sender.keyEpoch = some ks ∧ s.receiver.keyEpoch = some kd ∧
      kd.epoch ≤ ks.epoch ∧
      kd.keys = epochKeys sess.prims.hkdf (o.keys sess.prims.hkdf) kd.epoch ∧
      (∀ pkt raw pt dp, decodeDataInline pkt = some dp →
        openChunk (openIn s.log) (some kd) pkt raw = some pt →
        L.SealedIn s.log kd.epoch pt raw) ∧
      (∀ ev r' out, s.receiver.step sess.prims (openIn s.log) sess.recv ev = some (r', out) →
        r'.keyEpoch = some kd ∨
          ∃ pkt clock nowMs, ev = .datagram pkt clock nowMs ∧ L.Announces s.log kd.epoch pkt) ∧
      (ks.epoch = kd.epoch + 1 → s.receiver.phase = .receiving →
        ∀ m timestamp clock nowMs, L.keyUpdate kd.epoch m timestamp ∈ s.log →
          ∃ r' out kd', s.receiver.step sess.prims (openIn s.log) sess.recv
              (.datagram (encodeSealedCtrlPacket sess.prims .keyUpdate sess.send.connId (L.number m)
                timestamp kd.keys (encodeKeyUpdate ks.epoch)) clock nowMs) = some (r', out) ∧
            r'.keyEpoch = some kd' ∧ kd'.epoch = ks.epoch ∧ kd'.keys = ks.keys) := by
  intro L
  obtain ⟨n, hinv, hfollows⟩ := Ledger.exists_follows hkeys st es hrun
  obtain ⟨previous, hks⟩ := hinv.sender.keyEpoch
  have hfree := hcf _ hks
  obtain ⟨kd, hkd, hkd'⟩ := hfollows hfree
  refine ⟨_, kd, hks, hkd, hkd'.epoch_le, hkd'.keys_eq, ?_, ?_, ?_⟩
  · intro pkt raw pt dp hdp hopen
    exact Ledger.sealedIn_of_openChunk hinv rfl hfree hkd' hdp hopen
  · intro ev r' out hstep
    exact (Ledger.keyEpoch_step hinv rfl hfree hkd hkd' hstep).imp_right And.left
  · intro hahead hphase m timestamp clock nowMs hmem
    exact Ledger.exists_step_of_announcement hinv hkd hkd' hahead hphase hmem clock nowMs

/-- The sender has rotated its keys, and the daemon still has the first ones. -/
theorem key_epochs_agree_rotated :
    ∃ es s, exec (step longSession) (start longSession) es = some s ∧
      ∃ ks kd, s.sender.keyEpoch = some ks ∧ s.receiver.keyEpoch = some kd ∧ ks.epoch = 1 ∧
        kd.keys = sampleKeys ∧ kd.epoch ≤ ks.epoch ∧
        kd.keys = epochKeys nullPrimitives.hkdf sampleKeys kd.epoch := by
  obtain ⟨c, s, -, hs, hepoch, -⟩ := exists_longSession_rotation
  obtain ⟨es, hes, -⟩ := hs.reached
  have hcf : ∀ ke, s.sender.keyEpoch = some ke →
      sampleOrigin.CollisionFree nullPrimitives.hkdf ke.epoch := by
    intro ke hke
    cases hepoch.symm.trans hke
    exact sampleOrigin_collisionFree
  obtain ⟨ks, kd, hks, hkd, hle, hkeys, -⟩ := key_epochs_agree longSession sampleOrigin rfl
    (DataStart.fresh longSession) es s hes hcf
  have hfirst := hs.receiver.keys_eq
  rw [hkd] at hfirst
  cases hepoch.symm.trans hks
  exact ⟨es, s, hes, _, kd, hks, hkd, rfl, Option.some.inj hfirst, hle, hkeys⟩

end Favonius.Transfer
