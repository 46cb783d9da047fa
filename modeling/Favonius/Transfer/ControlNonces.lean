import Favonius.Transfer.Nonces
import Favonius.Transfer.SingleStream

/-!
# Nonces of control packets

A KEY_UPDATE is sealed under the outgoing control key with the packet number of
the DATA packet to come.  Its first copy has a number of its own; a later copy
shares its number with the copy before unless DATA was sealed in between, and
then the two differ in their timestamps.
-/

namespace Favonius.Transfer

open Execution ByteCodec Proto Crypto Client List

def recordNumber (r : SealedRecord) : UInt64 := (getU64 (r.aad.drop 18)).1

def recordTimestamp (r : SealedRecord) : UInt64 := (getU64 (r.aad.drop 26)).1

def controlRecords : List SealedRecord → List SealedRecord := recordsOf [.keyUpdate, .finish]

/-- Two seals under one key and packet number are of the same header and plaintext. -/
def NoReuse (r r' : SealedRecord) : Prop :=
  r.key = r'.key → recordNumber r = recordNumber r' → r.aad = r'.aad ∧ r.plaintext = r'.plaintext

instance : Std.Symm NoReuse where
  symm r r' h hkey hnumber := by
    obtain ⟨haad, hplaintext⟩ := h hkey.symm hnumber.symm
    exact ⟨haad.symm, hplaintext.symm⟩

/-- A KEY_UPDATE that was sent again already is sent once more only after DATA, or in the
microsecond of the copy before. -/
def ResendSpaced (s : Sys) : SysEvent → Prop
  | .send (.endPass timestamp) => ∀ pku ∈ s.sender.pendingKeyUpdate,
      0 < pku.resendsLeft → pku.resendsLeft < keyUpdateResends →
        ∀ r ∈ s.log.getLast?, r.aad.getD 1 0 = PacketType.data.toByte ∨
          recordTimestamp r = timestamp
  | _ => True

namespace Ledger

variable (L : Ledger) (e m n : ℕ) (timestamp : UInt64)

lemma keyUpdate_aad : (L.keyUpdate e n timestamp).aad =
    (makeHeader .keyUpdate L.sess.send.connId (L.number n) timestamp
      ((encodeKeyUpdate (e + 1)).length + controlTagLen)).encode L.sess.prims.crc32c ++ [] :=
  (append_nil _).symm

@[simp] lemma recordNumber_keyUpdate :
    recordNumber (L.keyUpdate e n timestamp) = L.number n := by
  rw [recordNumber, keyUpdate_aad, getU64_packetNumber]
  rfl

@[simp] lemma recordTimestamp_keyUpdate :
    recordTimestamp (L.keyUpdate e n timestamp) = timestamp := by
  rw [recordTimestamp, keyUpdate_aad, getU64_timestamp]
  rfl

variable {L e m n}

section Origin

variable {o : KeyOrigin} (hinitial : L.initial = o.keys L.sess.prims.hkdf)
  (hcf : o.CollisionFree L.sess.prims.hkdf (epochAt n)) {d : ℕ}
include hinitial hcf

lemma noReuse_of_lt (hed : e < d) (hd : d ≤ epochAt n) {r : SealedRecord}
    (hr : r.key = (L.keys d).controlKey) : NoReuse (L.keyUpdate e m timestamp) r := by
  intro hkey
  have heq := epoch_eq_of_get_eq hinitial hcf (hed.le.trans hd) hd .control (hkey.trans hr)
  omega

/-- Two KEY_UPDATEs with DATA between them do not meet. -/
theorem noReuse_of_data_between {timestamp' : UInt64} (hmn : m < n) (hd : epochAt n = d + 1)
    (hreached : e + 1 ≤ epochAt n) (hlow : e + 1 ≤ epochAt (m + 1)) :
    NoReuse (L.keyUpdate e m timestamp) (L.keyUpdate d n timestamp') := by
  intro hkey hnumber
  obtain rfl : e = d := epoch_eq_of_get_eq hinitial hcf (by omega) (by omega) .control hkey
  rw [recordNumber_keyUpdate, recordNumber_keyUpdate] at hnumber
  have heq := L.eq_of_number_eq hnumber hmn.le (by
    simp only [epochAt, maxPacketsPerKey] at hd hlow
    omega)
  omega

end Origin

lemma noReuse_keyUpdate_iff {timestamp' : UInt64} :
    NoReuse (L.keyUpdate e n timestamp) (L.keyUpdate e n timestamp') ↔ timestamp = timestamp' := by
  constructor
  · intro h
    have haad := (h (by simp [keyUpdate_key]) (by simp)).1
    rw [← L.recordTimestamp_keyUpdate e n timestamp, recordTimestamp, haad, ← recordTimestamp,
      recordTimestamp_keyUpdate]
  · rintro rfl
    exact fun _ _ => ⟨rfl, rfl⟩

section Records

variable (L n) (log : List SealedRecord) (keyUpdateTs : UInt64) (streamId : UInt32) (chunk : Bytes)
  (compressed : Bool)

lemma controlRecords_data :
    controlRecords (log ++ [L.data n timestamp streamId chunk compressed]) =
      controlRecords log := by
  rw [controlRecords, recordsOf_append]
  simp

lemma controlRecords_rotation :
    controlRecords (log ++ [L.data n timestamp streamId chunk compressed,
      L.keyUpdate e n keyUpdateTs]) = controlRecords log ++ [L.keyUpdate e n keyUpdateTs] := by
  rw [controlRecords, recordsOf_append]
  simp

lemma controlRecords_keyUpdate :
    controlRecords (log ++ [L.keyUpdate e n timestamp]) =
      controlRecords log ++ [L.keyUpdate e n timestamp] := by
  rw [controlRecords, recordsOf_append]
  simp

lemma controlRecords_finish :
    controlRecords (log ++ [L.finish n timestamp]) =
      controlRecords log ++ [L.finish n timestamp] := by
  rw [controlRecords, recordsOf_append]
  simp

end Records

/-- Every control packet so far was sealed before DATA packet `n - 1`. -/
def Fresh (L : Ledger) (n : ℕ) (log : List SealedRecord) : Prop :=
  ∀ r ∈ controlRecords log, ∃ e m timestamp, r = L.keyUpdate e m timestamp ∧ m < n ∧
    e + 1 ≤ epochAt n ∧ e + 1 ≤ epochAt (m + 1)

def LastIsData (log : List SealedRecord) : Prop :=
  ∀ r ∈ log.getLast?, r.aad.getD 1 0 = PacketType.data.toByte

/-- Either DATA was sealed since the last KEY_UPDATE was sent again, or that
KEY_UPDATE is the last record. -/
structure ControlInv (L : Ledger) (n : ℕ) (s : Sys) : Prop where
  ledger : L.Inv n s
  spaced : s.sender.phase = .sending →
    (L.Fresh n s.log ∧ ∀ pku ∈ s.sender.pendingKeyUpdate,
      pku.resendsLeft < keyUpdateResends → LastIsData s.log) ∨
    ∃ e timestamp, epochAt n = e + 1 ∧ s.log.getLast? = some (L.keyUpdate e n timestamp) ∧
      ∀ pku ∈ s.sender.pendingKeyUpdate, pku.resendsLeft < keyUpdateResends

variable {s : Sys}

/-- Until FINISH is sent, the control packets are KEY_UPDATEs for epochs already reached. -/
theorem Inv.exists_keyUpdate (h : L.Inv n s) (hphase : s.sender.phase = .sending) {r : SealedRecord}
    (hr : r ∈ controlRecords s.log) :
    ∃ e m timestamp, r = L.keyUpdate e m timestamp ∧ m ≤ n ∧ e + 1 ≤ epochAt n ∧
      e + 1 ≤ epochAt (m + 1) := by
  obtain ⟨hmem, t, ht, htype⟩ := mem_recordsOf.mp hr
  have hfinish := recordsOf_singleton_of_mem (h.finished hphase) hmem
  cases h.issued r hmem with
  | data =>
    rw [data_type] at htype
    exact absurd (PacketType.toByte_injective htype ▸ ht) (by decide)
  | keyUpdate e m timestamp hm hreached hlow hhigh =>
    exact ⟨e, m, timestamp, rfl, hm, hreached, hlow⟩
  | finish => simp at hfinish

lemma Inv.fresh_succ (h : L.Inv n s) (hphase : s.sender.phase = .sending) :
    L.Fresh (n + 1) s.log := by
  intro r hr
  obtain ⟨e, m, timestamp, hr, hm, hreached, hlow⟩ := h.exists_keyUpdate hphase hr
  exact ⟨e, m, timestamp, hr, Nat.lt_succ_of_le hm,
    hreached.trans (epochAt_mono (Nat.le_succ n)), hlow⟩

section Step

variable {s : Sys} {ev : SendEvent} {sender : Sender} {out : Output}
  (hstep : s.sender.step L.sess.prims L.sess.send ev = some (sender, out))

include hstep in
lemma ControlInv.send (h : L.ControlInv n s) :
    ∃ n', L.Seals n s.sender sender ev n' out.records ∧ L.ControlInv n' { s with
      sender
      log := s.log ++ out.records
      toDaemon := s.toDaemon ++ out.datagrams } := by
  obtain ⟨n', hseals, hinv⟩ := h.ledger.send hstep
  refine ⟨n', hseals, hinv, ?_⟩
  intro hphase
  have hsending := Sender.phase_of_step L.sess.prims L.sess.send hstep hphase
  obtain ⟨datagrams, records⟩ := out
  dsimp only
  cases hseals with
  | nothing hpending hresend =>
    rw [append_nil, hpending]
    exact h.spaced hsending
  | data timestamp streamId chunk compressed hphase hepoch hpending hev =>
    left
    constructor
    · rw [Fresh, controlRecords_data]
      exact h.ledger.fresh_succ hsending
    · intro pku _ _ r hr
      rw [getLast?_concat] at hr
      cases hr
      exact L.data_type n timestamp streamId chunk compressed
  | rotation timestamp keyUpdateTs streamId chunk compressed hphase hepoch hpending hev =>
    left
    constructor
    · intro r hr
      rw [controlRecords_rotation] at hr
      rcases mem_append.mp hr with hr | hr
      · exact h.ledger.fresh_succ hsending r hr
      · rw [mem_singleton.mp hr]
        exact ⟨epochAt n, n, keyUpdateTs, rfl, Nat.lt_succ_self n, hepoch.ge, hepoch.ge⟩
    · intro pku hpku hlt
      rw [hpending] at hpku
      cases hpku
      exact absurd hlt (Nat.lt_irrefl _)
  | resend e pku timestamp hepoch hpku hleft hpending hev =>
    right
    refine ⟨e, timestamp, hepoch, getLast?_concat, ?_⟩
    obtain ⟨_, _, _, _, hle⟩ := h.ledger.sender.pending pku hpku
    intro pku' hpku'
    rw [hpending] at hpku'
    cases hpku'
    exact (Nat.sub_lt hleft Nat.one_pos).trans_le hle
  | finish timestamp _ hphase' =>
    rw [hphase'] at hphase
    cases hphase

lemma resendSpaced_of_ne (h : ∀ timestamp, ev ≠ .endPass timestamp) :
    ResendSpaced s (.send ev) := by
  cases ev with
  | endPass timestamp => exact absurd rfl (h timestamp)
  | _ => trivial

lemma pairwise_concat {l : List SealedRecord} {r : SealedRecord} :
    (l ++ [r]).Pairwise NoReuse ↔ l.Pairwise NoReuse ∧ ∀ r' ∈ l, NoReuse r' r := by
  simp [pairwise_append]

lemma ControlInv.resend_iff (h : L.ControlInv n s) {o : KeyOrigin}
    (hinitial : L.initial = o.keys L.sess.prims.hkdf)
    (hcf : o.CollisionFree L.sess.prims.hkdf (epochAt n))
    (hpairwise : (controlRecords s.log).Pairwise NoReuse) (hphase : s.sender.phase = .sending)
    {pku : PendingKeyUpdate} {timestamp : UInt64} (hepoch : epochAt n = e + 1)
    (hpku : s.sender.pendingKeyUpdate = some pku) (hleft : 0 < pku.resendsLeft) :
    (∀ r ∈ controlRecords s.log, NoReuse r (L.keyUpdate e n timestamp)) ↔
      ResendSpaced s (.send (.endPass timestamp)) := by
  rcases h.spaced hphase with ⟨hfresh, hdata⟩ | ⟨e', last, hepoch', hlast, hsent⟩
  · refine iff_of_true ?_ ?_
    · intro r hr
      obtain ⟨e', m, ts, rfl, hm, hreached, hlow⟩ := hfresh r hr
      exact noReuse_of_data_between ts hinitial hcf hm hepoch hreached hlow
    · intro pku' hpku' _ hlt r hr
      exact .inl (hdata pku' hpku' hlt r hr)
  · obtain rfl : e' = e := by omega
    -- the copy before is the last record, under the same key and number
    have hmem : L.keyUpdate e' n last ∈ controlRecords s.log :=
      mem_recordsOf.mpr ⟨mem_of_getLast? hlast, .keyUpdate, by simp, rfl⟩
    constructor
    · intro hall pku' hpku' _ _ r hr
      rw [hlast] at hr
      cases hr
      right
      rw [recordTimestamp_keyUpdate]
      exact (noReuse_keyUpdate_iff last).mp (hall _ hmem)
    · intro hspaced r hr
      obtain rfl : last = timestamp := by
        rcases hspaced pku hpku hleft (hsent pku hpku) _ hlast with htype | hts
        · have hbyte : PacketType.keyUpdate.toByte = PacketType.data.toByte := htype
          exact absurd hbyte (by decide)
        · rwa [recordTimestamp_keyUpdate] at hts
      exact hpairwise.forall_of_forall (fun _ _ _ _ => ⟨rfl, rfl⟩) hr hmem

/-- A step keeps the control packets apart exactly if its resend is spaced. -/
theorem ControlInv.pairwise_iff (h : L.ControlInv n s) {o : KeyOrigin}
    (hinitial : L.initial = o.keys L.sess.prims.hkdf) {n' : ℕ} {records : List SealedRecord}
    (hseals : L.Seals n s.sender sender ev n' records)
    (hcf : o.CollisionFree L.sess.prims.hkdf (epochAt n')) :
    (controlRecords (s.log ++ records)).Pairwise NoReuse ↔
      (controlRecords s.log).Pairwise NoReuse ∧ ResendSpaced s (.send ev) := by
  cases hseals with
  | nothing hpending hresend =>
    rw [append_nil, iff_self_and]
    intro _
    by_cases hev : ∃ timestamp, ev = .endPass timestamp
    · obtain ⟨timestamp, rfl⟩ := hev
      intro pku hpku hleft
      have hzero := hresend timestamp rfl pku hpku
      omega
    · exact resendSpaced_of_ne (not_exists.mp hev)
  | data timestamp streamId chunk compressed hphase hepoch hpending hev =>
    rw [controlRecords_data]
    simp [resendSpaced_of_ne hev]
  | rotation timestamp keyUpdateTs streamId chunk compressed hphase hepoch hpending hev =>
    rw [controlRecords_rotation, pairwise_concat]
    refine and_congr_right fun _ => iff_of_true ?_ (resendSpaced_of_ne hev)
    intro r hr
    obtain ⟨e, m, ts, rfl, -, hreached, -⟩ := h.ledger.exists_keyUpdate hphase hr
    exact noReuse_of_lt ts hinitial hcf (by omega) (by omega) rfl
  | resend e pku timestamp hepoch hpku hleft hpending hev hphase =>
    subst hev
    rw [controlRecords_keyUpdate, pairwise_concat]
    apply and_congr_right
    intro hpairwise
    exact h.resend_iff hinitial hcf hpairwise hphase hepoch hpku hleft
  | finish timestamp hphase hphase' hpending hev =>
    rw [controlRecords_finish, pairwise_concat]
    refine and_congr_right fun _ => iff_of_true ?_ (resendSpaced_of_ne (by simp [hev]))
    intro r hr
    obtain ⟨e, m, ts, rfl, -, hreached, -⟩ := h.ledger.exists_keyUpdate hphase hr
    exact noReuse_of_lt ts hinitial hcf (by omega) le_rfl rfl

end Step

lemma ControlInv.step {s' : Sys} (h : L.ControlInv n s) {o : KeyOrigin}
    (hinitial : L.initial = o.keys L.sess.prims.hkdf) {ev : SysEvent}
    (hstep : step L.sess s ev = some s') :
    ∃ n', n ≤ n' ∧ L.ControlInv n' s' ∧
      (o.CollisionFree L.sess.prims.hkdf (epochAt n') →
        ((controlRecords s'.log).Pairwise NoReuse ↔
          (controlRecords s.log).Pairwise NoReuse ∧ ResendSpaced s ev)) := by
  cases ev with
  | send ev =>
    obtain ⟨sender, out, hsender, rfl⟩ := of_step_send hstep
    obtain ⟨n', hseals, hinv⟩ := h.send hsender
    exact ⟨n', hseals.le, hinv, h.pairwise_iff hinitial hseals⟩
  | recv ev =>
    obtain ⟨-, -, -, rfl⟩ := of_step_recv hstep
    exact ⟨n, le_rfl, ⟨h.ledger.of_same rfl rfl, h.spaced⟩, fun _ => by simp [ResendSpaced]⟩
  | manifestReply seq timestamp =>
    cases hstep
    exact ⟨n, le_rfl, ⟨h.ledger.of_same rfl rfl, h.spaced⟩, fun _ => by simp [ResendSpaced]⟩

variable {sess : Session}

lemma controlInv_start {keys : SessionKeys} (hkeys : sess.keys = some keys)
    (st : DataStart sess) :
    Ledger.ControlInv ⟨sess, keys, st.seq⟩ 0 st.sys where
  ledger := inv_start hkeys st
  spaced := fun _ => .inl ⟨by simp [Fresh, controlRecords, DataStart.sys], by
    simp [DataStart.sys, Sender.init]⟩

lemma exists_controlInv {o : KeyOrigin} (hkeys : sess.keys = some (o.keys sess.prims.hkdf))
    (st : DataStart sess) (es : List SysEvent)
    (hrun : exec (Transfer.step sess) st.sys es = some s) :
    ∃ n, Ledger.ControlInv ⟨sess, o.keys sess.prims.hkdf, st.seq⟩ n s ∧
      (o.CollisionFree sess.prims.hkdf (epochAt n) →
        ((controlRecords s.log).Pairwise NoReuse ↔
          Along (Transfer.step sess) ResendSpaced st.sys es)) := by
  induction es using reverseRecOn generalizing s with
  | nil =>
    cases hrun
    exact ⟨0, controlInv_start hkeys st, fun _ => by simp [controlRecords, DataStart.sys]⟩
  | append_singleton es ev ih =>
    obtain ⟨t, hes, hstep⟩ := exec_concat_eq_some.mp hrun
    obtain ⟨m, hinv, hiff⟩ := ih hes
    obtain ⟨n, hmn, hinv', hstepIff⟩ := hinv.step rfl hstep
    refine ⟨n, hinv', fun hcf => ?_⟩
    rw [hstepIff hcf, along_concat hes, hiff (hcf.mono (epochAt_mono hmn))]

end Ledger

/-- In a run of an encrypted transfer no control key and packet number seal two different
control packets, exactly if every KEY_UPDATE that was sent again is sent once more only
after DATA. -/
theorem control_nonces_unique_iff (sess : Session) (o : KeyOrigin)
    (hkeys : sess.keys = some (o.keys sess.prims.hkdf)) (st : DataStart sess)
    (es : List SysEvent) (s : Sys) (hrun : exec (step sess) st.sys es = some s)
    (hcf : ∀ ke, s.sender.keyEpoch = some ke → o.CollisionFree sess.prims.hkdf ke.epoch) :
    (controlRecords s.log).Pairwise NoReuse ↔
      Along (step sess) ResendSpaced st.sys es := by
  obtain ⟨n, hinv, hiff⟩ := Ledger.exists_controlInv hkeys st es hrun
  obtain ⟨previous, hke⟩ := hinv.ledger.sender.keyEpoch
  exact hiff (hcf _ hke)

lemma step_endPass {sess : Session} {keys : SessionKeys} {s : Sys} {epoch left : ℕ}
    (hphase : s.sender.phase = .sending)
    (hpending : s.sender.pendingKeyUpdate = some ⟨epoch, left + 1, some keys⟩)
    (timestamp : UInt64) :
    ∃ s', step sess s (.send (.endPass timestamp)) = some s' ∧ s'.sender.phase = .sending ∧
      s'.sender.keyEpoch = s.sender.keyEpoch ∧ s'.sender.seq = s.sender.seq ∧
      s'.sender.pendingKeyUpdate = some ⟨epoch, left, some keys⟩ ∧
      s'.log = s.log ++ [controlRecord sess.prims keys .keyUpdate sess.send.connId s.sender.seq
        timestamp (encodeKeyUpdate epoch)] := by
  have hresend : s.sender.step sess.prims sess.send (.endPass timestamp) =
      some ({ s.sender with pendingKeyUpdate := some ⟨epoch, left, some keys⟩ },
        sendCtrlSealed sess.prims .keyUpdate sess.send.connId s.sender.seq timestamp
          (encodeKeyUpdate epoch) (some keys)) := by
    simp only [Sender.step, hphase, if_true, Sender.resendKeyUpdate, hpending, Nat.succ_pos,
      Nat.add_sub_cancel]
  exact ⟨_, step_send hresend, hphase, rfl, rfl, rfl, rfl⟩

lemma resendSpaced_of_onePass {s : Sys} {ev : SysEvent} (h : OnePass s ev) : ResendSpaced s ev := by
  cases ev with
  | send ev => exact Ledger.resendSpaced_of_ne fun timestamp hev => h.2 timestamp (hev ▸ rfl)
  | _ => trivial

/-- The keys are rotated, and the KEY_UPDATE is sent again after DATA. -/
theorem control_nonces_unique_resent :
    ∃ es s before r, exec (step longSession) (start longSession) es = some s ∧
      s.sender.keyEpoch.map KeyEpoch.epoch = some 1 ∧ s.log = before ++ [r] ∧
      r.plaintext = encodeKeyUpdate 1 ∧ (controlRecords s.log).Pairwise NoReuse := by
  obtain ⟨c, s, -, hs, hepoch, hpending⟩ := exists_longSession_rotation
  obtain ⟨t, ht, -, htEpoch, -, -, htLog⟩ := step_endPass hs.sender.sending hpending 1
  have hfirst : ResendSpaced s (.send (.endPass 1)) := by
    intro pku hpku _ hsent
    cases hpending.symm.trans hpku
    exact absurd hsent (Nat.lt_irrefl _)
  obtain ⟨es, hes, halong⟩ := (hs.reached.lift id id (fun _ _ _ hstep => hstep)
    fun _ _ => resendSpaced_of_onePass).concat (.send (.endPass 1)) hfirst ht
  have hrotated := htEpoch.trans hepoch
  refine ⟨es, t, _, _, hes, by rw [hrotated]; rfl, htLog, rfl, (control_nonces_unique_iff
    longSession sampleOrigin rfl (DataStart.fresh longSession) es t hes ?_).mpr halong⟩
  intro ke hke
  cases hrotated.symm.trans hke
  exact sampleOrigin_collisionFree

/-- The largest file with every chunk sent sixteen times, and two passes between the rotation
and the last ACK. -/
theorem long_transfer_reuses_nonce :
    ∃ es s, exec (step longSession) (start longSession) es = some s ∧
      Along (step longSession) Lossy (start longSession) es ∧
      (∀ ke, s.sender.keyEpoch = some ke →
        sampleOrigin.CollisionFree nullPrimitives.hkdf ke.epoch) ∧
      ¬ (controlRecords s.log).Pairwise NoReuse := by
  obtain ⟨c, s, -, hs, hepoch, hpending⟩ := exists_longSession_rotation
  obtain ⟨t, ht, htPhase, htEpoch, htSeq, htPending, htLog⟩ :=
    step_endPass hs.sender.sending hpending 1
  obtain ⟨u, hu, huPhase, huEpoch, huSeq, huPending, huLog⟩ := step_endPass htPhase htPending 2
  obtain ⟨es, hes, halong⟩ := (hs.lossy.concat (.send (.endPass 1)) trivial ht).concat
    (.send (.endPass 2)) trivial hu
  refine ⟨es, u, hes, halong, ?_, ?_⟩
  · intro ke hke
    rw [huEpoch, htEpoch, hepoch] at hke
    cases hke
    exact sampleOrigin_collisionFree
  · let L : Ledger := ⟨longSession, sampleKeys, s.sender.seq⟩
    have hcopy : ∀ timestamp, controlRecord longSession.prims sampleKeys .keyUpdate
        longSession.send.connId s.sender.seq timestamp (encodeKeyUpdate 1) =
          L.keyUpdate 0 0 timestamp := by
      intro timestamp
      simp [L, Ledger.keyUpdate, Ledger.number, Ledger.keys, epochKeys]
    rw [huLog, htLog, htSeq, hcopy, hcopy, Ledger.controlRecords_keyUpdate,
      Ledger.controlRecords_keyUpdate, Ledger.pairwise_concat]
    intro hpairwise
    have hclash := (Ledger.noReuse_keyUpdate_iff 1).mp (hpairwise.2 (L.keyUpdate 0 0 1) (by simp))
    exact absurd hclash (by decide)

end Favonius.Transfer
