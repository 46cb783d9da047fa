import Favonius.Transfer.Delivery
import Favonius.Transfer.KeyLedger

/-!
# Nonces of sealed packets

The log of sealed records follows the sender's key ledger.  For DATA this makes
every nonce fresh: within an epoch the packet number moves on with each seal, and
different epochs have different keys.  A KEY_UPDATE that is sent again takes the
packet number of the DATA packet to come, so it needs DATA in between.
-/

namespace Favonius.Transfer

open Execution ByteCodec Proto Crypto Client List

def recordsOf (types : List PacketType) (log : List SealedRecord) : List SealedRecord :=
  log.filter fun r => decide (∃ t ∈ types, r.aad.getD 1 0 = t.toByte)

@[simp] lemma recordsOf_nil (types : List PacketType) : recordsOf types [] = [] := rfl

variable {log : List SealedRecord} {r : SealedRecord}

lemma mem_recordsOf {types : List PacketType} :
    r ∈ recordsOf types log ↔ r ∈ log ∧ ∃ t ∈ types, r.aad.getD 1 0 = t.toByte := by
  rw [recordsOf, mem_filter, decide_eq_true_eq]

lemma recordsOf_cons {types : List PacketType} {t : PacketType} (ht : r.aad.getD 1 0 = t.toByte) :
    recordsOf types (r :: log) =
      if t ∈ types then r :: recordsOf types log else recordsOf types log := by
  have hiff : (∃ t' ∈ types, r.aad.getD 1 0 = t'.toByte) ↔ t ∈ types := by
    rw [ht]
    constructor
    · rintro ⟨t', hmem, heq⟩
      exact PacketType.toByte_injective heq ▸ hmem
    · exact fun hmem => ⟨t, hmem, rfl⟩
  simp only [recordsOf, filter_cons, hiff, decide_eq_true_eq]

lemma recordsOf_append (types : List PacketType) (log new : List SealedRecord) :
    recordsOf types (log ++ new) = recordsOf types log ++ recordsOf types new :=
  filter_append ..

namespace Ledger

variable (L : Ledger)

section Types

variable (types : List PacketType) (e n : ℕ) (timestamp : UInt64) (rest : List SealedRecord)
  (streamId : UInt32)

lemma data_type (chunk : Bytes) (compressed : Bool) :
    (L.data n timestamp streamId chunk compressed).aad.getD 1 0 = PacketType.data.toByte := by
  rw [data, dataRecord_aad]
  rfl

@[simp] lemma recordsOf_data (chunk : Bytes) (compressed : Bool) :
    recordsOf types (L.data n timestamp streamId chunk compressed :: rest) =
      if .data ∈ types then L.data n timestamp streamId chunk compressed :: recordsOf types rest
      else recordsOf types rest :=
  recordsOf_cons (L.data_type n timestamp streamId chunk compressed)

@[simp] lemma recordsOf_keyUpdate :
    recordsOf types (L.keyUpdate e n timestamp :: rest) =
      if .keyUpdate ∈ types then L.keyUpdate e n timestamp :: recordsOf types rest
      else recordsOf types rest :=
  recordsOf_cons rfl

@[simp] lemma recordsOf_finish :
    recordsOf types (L.finish n timestamp :: rest) =
      if .finish ∈ types then L.finish n timestamp :: recordsOf types rest
      else recordsOf types rest :=
  recordsOf_cons rfl

end Types

def slot (n : ℕ) : FixedBytes 32 × FixedBytes 12 :=
  ((L.keys (epochAt n)).dataKey, nonceFor (L.keys (epochAt n)).dataIv (L.number n))

inductive Issued (n : ℕ) : SealedRecord → Prop where
  | data (m : ℕ) (timestamp : UInt64) (streamId : UInt32) (chunk : Bytes) (compressed : Bool)
      (hm : m < n) : Issued n (L.data m timestamp streamId chunk compressed)
  | keyUpdate (e m : ℕ) (timestamp : UInt64) (hm : m ≤ n) (hreached : e + 1 ≤ epochAt n)
      (hlow : e + 1 ≤ epochAt (m + 1)) (hhigh : epochAt m ≤ e + 1) :
      Issued n (L.keyUpdate e m timestamp)
  | finish (timestamp : UInt64) : Issued n (L.finish n timestamp)

variable {L} {m n : ℕ}

lemma epochAt_mono (h : m ≤ n) : epochAt m ≤ epochAt n := Nat.div_le_div_right h

lemma lt_of_epochAt_eq (h : epochAt m = epochAt n) : n < m + maxPacketsPerKey := by
  simp only [epochAt, maxPacketsPerKey] at h ⊢
  omega

section Origin

variable {o : KeyOrigin} (hinitial : L.initial = o.keys L.sess.prims.hkdf)
  (hcf : o.CollisionFree L.sess.prims.hkdf (epochAt n))
include hinitial hcf

lemma epoch_eq_of_get_eq {d e : ℕ} (hd : d ≤ epochAt n) (he : e ≤ epochAt n) (x : Secret)
    (heq : (L.keys d).get x = (L.keys e).get x) : d = e := by
  rw [keys, keys, hinitial] at heq
  exact hcf.epoch_eq hd he heq

lemma slot_injOn : Set.InjOn L.slot (Set.Iio n) := by
  have hlt : ∀ i < n, ∀ j < n, i ≤ j → L.slot i = L.slot j → i = j := by
    intro i hi j hj hij h
    obtain ⟨hkey, hnonce⟩ := Prod.mk.inj h
    have hepoch := epoch_eq_of_get_eq hinitial hcf (epochAt_mono hi.le) (epochAt_mono hj.le)
      .data hkey
    rw [hepoch] at hnonce
    have hspan := lt_of_epochAt_eq hepoch
    refine L.eq_of_number_eq (nonceFor_injective _ hnonce) hij ?_
    simp only [maxPacketsPerKey] at hspan
    omega
  intro i hi j hj h
  rcases le_total i j with hij | hji
  · exact hlt i hi j hj hij h
  · exact (hlt j hj i hi hji h.symm).symm

lemma countP_slot_le (key : FixedBytes 32) :
    (List.range n).countP (fun i => decide ((L.slot i).1 = key)) ≤ maxPacketsPerKey := by
  by_cases hexists : ∃ i < n, (L.slot i).1 = key
  · obtain ⟨i, hi, rfl⟩ := hexists
    have hsub : (List.range n).filter (fun j => decide ((L.slot j).1 = (L.slot i).1)) ⊆
        List.range' (epochAt i * maxPacketsPerKey) maxPacketsPerKey := by
      intro j hj
      obtain ⟨hjn, hkey⟩ := mem_filter.mp hj
      rw [mem_range] at hjn
      have hepoch := epoch_eq_of_get_eq hinitial hcf (epochAt_mono hjn.le) (epochAt_mono hi.le)
        .data (of_decide_eq_true hkey)
      rw [← hepoch, mem_range'_1]
      simp only [epochAt, maxPacketsPerKey]
      omega
    rw [countP_eq_length_filter]
    simpa using (subperm_of_subset (nodup_range.filter _) hsub).length_le
  · have hzero : (List.range n).countP (fun i => decide ((L.slot i).1 = key)) = 0 := by
      rw [countP_eq_zero]
      intro i hi hkey
      exact hexists ⟨i, mem_range.mp hi, of_decide_eq_true hkey⟩
    omega

end Origin

variable (L) in
structure Inv (n : ℕ) (s : Sys) : Prop where
  sender : L.At n s.sender
  slots : (recordsOf [.data] s.log).map (fun r => (r.key, r.nonce)) = (List.range n).map L.slot
  issued : ∀ r ∈ s.log, L.Issued n r
  /-- FINISH is only sent on leaving the loop. -/
  finished : s.sender.phase = .sending → recordsOf [.finish] s.log = []

variable {r : SealedRecord} {ev : SendEvent} {s' : Sys} {sess : Session} {keys : SessionKeys}

lemma Issued.of_le (h : L.Issued m r) (hmn : m ≤ n) (hfinish : recordsOf [.finish] [r] = []) :
    L.Issued n r := by
  cases h with
  | data i timestamp streamId chunk compressed hi =>
    exact .data i timestamp streamId chunk compressed (hi.trans_le hmn)
  | keyUpdate e i timestamp hi hreached hlow hhigh =>
    exact .keyUpdate e i timestamp (hi.trans hmn) (hreached.trans (epochAt_mono hmn)) hlow hhigh
  | finish timestamp => simp at hfinish

lemma recordsOf_singleton_of_mem {types : List PacketType} (h : recordsOf types log = [])
    (hr : r ∈ log) : recordsOf types [r] = [] := by
  rw [recordsOf, filter_eq_nil_iff] at h ⊢
  intro r' hr'
  rw [mem_singleton.mp hr']
  exact h r hr

variable {s : Sys}

lemma Inv.send (h : L.Inv n s) {sender : Sender} {out : Output}
    (hstep : s.sender.step L.sess.prims L.sess.send ev = some (sender, out)) :
    ∃ n', L.Seals n s.sender sender ev n' out.records ∧ L.Inv n' { s with
      sender
      log := s.log ++ out.records
      toDaemon := s.toDaemon ++ out.datagrams } := by
  obtain ⟨n', hat, hseals⟩ := h.sender.step hstep
  obtain ⟨datagrams, records⟩ := out
  have hsending := Sender.phase_of_step L.sess.prims L.sess.send hstep
  refine ⟨n', hseals, hat, ?_, ?_, ?_⟩
  · rw [recordsOf_append, map_append, h.slots]
    cases hseals with
    | nothing | resend | finish => simp
    | data | rotation => simp [range_succ]; rfl
  · intro r hr
    rcases mem_append.mp hr with hold | hr
    · have hissued := h.issued r hold
      cases hseals with
      | nothing | resend | finish => exact hissued
      | data _ _ _ _ hphase | rotation _ _ _ _ _ hphase =>
        exact hissued.of_le (Nat.le_succ n) (recordsOf_singleton_of_mem (h.finished hphase) hold)
    · cases hseals with
      | nothing => cases hr
      | data timestamp streamId chunk compressed =>
        rw [mem_singleton.mp hr]
        exact .data n timestamp streamId chunk compressed (Nat.lt_succ_self n)
      | rotation timestamp keyUpdateTs streamId chunk compressed hphase hepoch =>
        rcases mem_pair.mp hr with rfl | rfl
        · exact .data n timestamp streamId chunk compressed (Nat.lt_succ_self n)
        · exact .keyUpdate (epochAt n) n keyUpdateTs (Nat.le_succ n) hepoch.ge hepoch.ge
            (Nat.le_succ _)
      | resend e pku timestamp hepoch =>
        rw [mem_singleton.mp hr]
        exact .keyUpdate e n timestamp le_rfl hepoch.ge
          (hepoch.ge.trans (epochAt_mono (Nat.le_succ n))) hepoch.le
      | finish timestamp =>
        rw [mem_singleton.mp hr]
        exact .finish timestamp
  · intro hphase
    rw [recordsOf_append, h.finished (hsending hphase)]
    cases hseals with
    | nothing => rfl
    | data | rotation | resend => simp
    | finish _ _ hphase' =>
      rw [hphase'] at hphase
      cases hphase

lemma Seals.le {sender sender' : Sender} {n' : ℕ} {records : List SealedRecord}
    (h : L.Seals n sender sender' ev n' records) : n ≤ n' := by
  cases h <;> omega

lemma Inv.of_same (h : L.Inv n s) (hsender : s'.sender = s.sender) (hlog : s'.log = s.log) :
    L.Inv n s' := by
  refine ⟨?_, ?_, ?_, ?_⟩
  · rw [hsender]
    exact h.sender
  · rw [hlog]
    exact h.slots
  · rw [hlog]
    exact h.issued
  · rw [hsender, hlog]
    exact h.finished

lemma Inv.step (h : L.Inv n s) {ev : SysEvent} (hstep : step L.sess s ev = some s') :
    ∃ n', L.Inv n' s' := by
  cases ev with
  | send ev =>
    obtain ⟨sender, out, hsender, rfl⟩ := of_step_send hstep
    obtain ⟨n', -, hinv⟩ := h.send hsender
    exact ⟨n', hinv⟩
  | recv ev =>
    obtain ⟨-, -, -, rfl⟩ := of_step_recv hstep
    exact ⟨n, h.of_same rfl rfl⟩
  | manifestReply seq timestamp =>
    cases hstep
    exact ⟨n, h.of_same rfl rfl⟩

lemma inv_start (hkeys : sess.keys = some keys) (st : DataStart sess) :
    Ledger.Inv ⟨sess, keys, st.seq⟩ 0 st.sys where
  sender := by
    refine ⟨⟨none, ?_⟩, ?_, ?_⟩
    · simp only [DataStart.sys, Sender.init, hkeys]
      rfl
    · exact (UInt64.add_zero st.seq).symm
    · simp [DataStart.sys, Sender.init]
  slots := rfl
  issued := by simp [DataStart.sys]
  finished := fun _ => rfl

lemma exists_inv (hkeys : sess.keys = some keys) (st : DataStart sess) {es : List SysEvent}
    (hrun : exec (Transfer.step sess) st.sys es = some s) :
    ∃ n, Ledger.Inv ⟨sess, keys, st.seq⟩ n s :=
  exec_invariant (P := fun t => ∃ n, Ledger.Inv ⟨sess, keys, st.seq⟩ n t)
    (fun _ _ _ ⟨_, hinv⟩ hstep => hinv.step hstep) ⟨0, inv_start hkeys st⟩ hrun

end Ledger

/-- In every run of an encrypted transfer no key and nonce seal two DATA packets, and no key
seals more than the rotation limit. -/
theorem data_nonces_unique (sess : Session) (o : KeyOrigin)
    (hkeys : sess.keys = some (o.keys sess.prims.hkdf)) (st : DataStart sess)
    (es : List SysEvent) (s : Sys) (hrun : exec (step sess) st.sys es = some s)
    (hcf : ∀ ke, s.sender.keyEpoch = some ke → o.CollisionFree sess.prims.hkdf ke.epoch) :
    (recordsOf [.data] s.log).Pairwise (fun r r' => (r.key, r.nonce) ≠ (r'.key, r'.nonce)) ∧
      ∀ key, (recordsOf [.data] s.log).countP (fun r => decide (r.key = key)) ≤
        maxPacketsPerKey := by
  obtain ⟨n, hinv⟩ := Ledger.exists_inv hkeys st hrun
  obtain ⟨previous, hke⟩ := hinv.sender.keyEpoch
  have hfree := hcf _ hke
  constructor
  · have hnodup : ((recordsOf [.data] s.log).map fun r => (r.key, r.nonce)).Nodup := by
      rw [hinv.slots]
      refine nodup_range.map_on ?_
      intro i hi j hj hij
      exact Ledger.slot_injOn rfl hfree (mem_range.mp hi) (mem_range.mp hj) hij
    exact pairwise_map.mp hnodup
  · intro key
    have hcount := Ledger.countP_slot_le (L := ⟨sess, o.keys sess.prims.hkdf, st.seq⟩) rfl hfree key
    have hslots := congrArg (countP fun p => decide (p.1 = key)) hinv.slots
    rw [countP_map, countP_map] at hslots
    exact hslots.trans_le hcount

/-- The labels of the first two epochs differ within 32 bytes. -/
theorem sampleOrigin_collisionFree : sampleOrigin.CollisionFree nullPrimitives.hkdf 1 := by
  let inputs := [Secret.control, .data, .sync, .rekey, .resume].flatMap fun x =>
    [(sampleOrigin.salt, sampleOrigin.ikm, ascii (sampleOrigin.labels.get x)),
      (ascii "ahp-key-update", sampleKeys.rekeySecret.1, ascii (nextLabels.get x))]
  have hinj : ∀ i ∈ inputs, ∀ j ∈ inputs,
      nullPrimitives.hkdf i.1 i.2.1 i.2.2 32 = nullPrimitives.hkdf j.1 j.2.1 j.2.2 32 → i = j := by
    decide +kernel
  have hmem : sampleOrigin.kdfInputs nullPrimitives.hkdf 1 ⊆ {i | i ∈ inputs} := by
    rintro i (⟨x, rfl⟩ | ⟨e, he, x, rfl⟩)
    · cases x <;> simp [inputs]
    · obtain rfl : e = 0 := by omega
      cases x <;> simp [inputs, epochKeys, sampleKeys]
  exact fun i hi j hj h => hinj i (hmem hi) j (hmem hj) h

lemma exists_sampleRun :
    ∃ s, exec (step sampleSession) (start sampleSession) sampleRun = some s ∧
      (recordsOf [.data] s.log).length = 2 ∧
      ∀ ke, s.sender.keyEpoch = some ke →
        sampleOrigin.CollisionFree nullPrimitives.hkdf ke.epoch := by
  obtain ⟨s, hs, hlength, hepoch⟩ :
      ∃ s, exec (step sampleSession) (start sampleSession) sampleRun = some s ∧
        (recordsOf [.data] s.log).length = 2 ∧ s.sender.keyEpoch.map KeyEpoch.epoch = some 0 := by
    decide +kernel
  refine ⟨s, hs, hlength, ?_⟩
  intro ke hke
  rw [hke] at hepoch
  rw [show ke.epoch = 0 from Option.some.inj hepoch]
  exact sampleOrigin_collisionFree.mono (Nat.zero_le 1)

theorem data_nonces_unique_sampleRun :
    ∃ s, exec (step sampleSession) (start sampleSession) sampleRun = some s ∧
      (recordsOf [.data] s.log).length = 2 ∧
      (recordsOf [.data] s.log).Pairwise (fun r r' => (r.key, r.nonce) ≠ (r'.key, r'.nonce)) := by
  obtain ⟨s, hs, hlength, hcf⟩ := exists_sampleRun
  exact ⟨s, hs, hlength, (data_nonces_unique sampleSession sampleOrigin rfl
    (DataStart.fresh sampleSession) sampleRun s hs hcf).1⟩

end Favonius.Transfer
