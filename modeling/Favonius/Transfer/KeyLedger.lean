import Favonius.Transfer.Placement

/-!
# The sender's key ledger

An encrypting sender is determined, as far as keys and packet numbers go, by how
many DATA packets it has sealed: packet `n` is sealed in epoch
`n / maxPacketsPerKey` under the number `n` places after the first.  Each step
of the send loop seals nothing, the next DATA packet, a KEY_UPDATE or the FINISH.
-/

namespace Favonius.Transfer

open ByteCodec Crypto Client

structure Ledger where
  sess : Session
  initial : SessionKeys
  first : UInt64

namespace Ledger

variable (L : Ledger)

def epochAt (n : ℕ) : ℕ := n / maxPacketsPerKey

def keys (e : ℕ) : SessionKeys := epochKeys L.sess.prims.hkdf L.initial e

def number (n : ℕ) : UInt64 := L.first + UInt64.ofNat n

def data (n : ℕ) (timestamp : UInt64) (streamId : UInt32) (chunk : Bytes) (compressed : Bool) :
    SealedRecord :=
  dataRecord L.sess.prims (L.keys (epochAt n)) L.sess.send.connId (L.number n) timestamp streamId
    chunk compressed

/-- The announcement of epoch `e + 1`, sealed when `n` DATA packets came before. -/
def keyUpdate (e n : ℕ) (timestamp : UInt64) : SealedRecord :=
  controlRecord L.sess.prims (L.keys e) .keyUpdate L.sess.send.connId (L.number n) timestamp
    (encodeKeyUpdate (e + 1))

def finish (n : ℕ) (timestamp : UInt64) : SealedRecord :=
  controlRecord L.sess.prims (L.keys (epochAt n)) .finish L.sess.send.connId (L.number n) timestamp
    []

lemma keyUpdate_key (e n : ℕ) (timestamp : UInt64) :
    (L.keyUpdate e n timestamp).key = (L.keys e).controlKey :=
  rfl

lemma keyUpdate_plaintext (e n : ℕ) (timestamp : UInt64) :
    (L.keyUpdate e n timestamp).plaintext = encodeKeyUpdate (e + 1) :=
  rfl

lemma epochAt_succ_of_rotation {n : ℕ} (h : maxPacketsPerKey ≤ n % maxPacketsPerKey + 1) :
    epochAt (n + 1) = epochAt n + 1 ∧ (n + 1) % maxPacketsPerKey = 0 := by
  simp only [epochAt, maxPacketsPerKey] at h ⊢
  omega

lemma epochAt_succ_of_not_rotation {n : ℕ} (h : ¬ maxPacketsPerKey ≤ n % maxPacketsPerKey + 1) :
    epochAt (n + 1) = epochAt n ∧ (n + 1) % maxPacketsPerKey = n % maxPacketsPerKey + 1 := by
  simp only [epochAt, maxPacketsPerKey] at h ⊢
  omega

lemma number_succ (n : ℕ) : L.number (n + 1) = L.number n + 1 := by
  simp only [number, UInt64.ofNat_add, UInt64.add_assoc]
  rfl

lemma eq_of_number_eq {m n : ℕ} (h : L.number m = L.number n) (hmn : m ≤ n)
    (hlt : n < m + 2 ^ 64) : m = n := by
  have hmod : UInt64.ofNat m = UInt64.ofNat n := (UInt64.add_right_inj L.first).mp h
  have hnat := congrArg UInt64.toNat hmod
  rw [UInt64.toNat_ofNat', UInt64.toNat_ofNat'] at hnat
  omega

/-- The sender after sealing `n` DATA packets. -/
structure At (n : ℕ) (s : Sender) : Prop where
  keyEpoch : ∃ previous, s.keyEpoch =
    some ⟨epochAt n, n % maxPacketsPerKey, L.keys (epochAt n), previous⟩
  seq : s.seq = L.number n
  pending : ∀ pku, s.pendingKeyUpdate = some pku →
    ∃ e, epochAt n = e + 1 ∧ pku.epoch = e + 1 ∧ pku.keys = some (L.keys e) ∧
      pku.resendsLeft ≤ keyUpdateResends

/-- What a step of a sender that has sealed `n` DATA packets seals, and how many it has
sealed afterwards. -/
inductive Seals (n : ℕ) (s s' : Sender) (ev : SendEvent) : ℕ → List SealedRecord → Prop where
  | nothing (hpending : s'.pendingKeyUpdate = s.pendingKeyUpdate)
      (hresend : ∀ timestamp, ev = .endPass timestamp →
        ∀ pku ∈ s.pendingKeyUpdate, pku.resendsLeft = 0) :
      Seals n s s' ev n []
  | data (timestamp : UInt64) (streamId : UInt32) (chunk : Bytes) (compressed : Bool)
      (hphase : s.phase = .sending) (hepoch : epochAt (n + 1) = epochAt n)
      (hpending : s'.pendingKeyUpdate = s.pendingKeyUpdate)
      (hev : ∀ timestamp, ev ≠ .endPass timestamp) :
      Seals n s s' ev (n + 1) [L.data n timestamp streamId chunk compressed]
  | rotation (timestamp keyUpdateTs : UInt64) (streamId : UInt32) (chunk : Bytes)
      (compressed : Bool) (hphase : s.phase = .sending) (hepoch : epochAt (n + 1) = epochAt n + 1)
      (hpending : s'.pendingKeyUpdate =
        some ⟨epochAt n + 1, keyUpdateResends, some (L.keys (epochAt n))⟩)
      (hev : ∀ timestamp, ev ≠ .endPass timestamp) :
      Seals n s s' ev (n + 1) [L.data n timestamp streamId chunk compressed,
        L.keyUpdate (epochAt n) n keyUpdateTs]
  | resend (e : ℕ) (pku : PendingKeyUpdate) (timestamp : UInt64) (hepoch : epochAt n = e + 1)
      (hpku : s.pendingKeyUpdate = some pku) (hleft : 0 < pku.resendsLeft)
      (hpending : s'.pendingKeyUpdate = some { pku with resendsLeft := pku.resendsLeft - 1 })
      (hev : ev = .endPass timestamp) (hphase : s.phase = .sending) :
      Seals n s s' ev n [L.keyUpdate e n timestamp]
  | finish (timestamp : UInt64) (hphase : s.phase = .sending) (hphase' : s'.phase = .finishing)
      (hpending : s'.pendingKeyUpdate = s.pendingKeyUpdate) (hev : ev = .finish timestamp) :
      Seals n s s' ev n [L.finish n timestamp]

variable {L} {n : ℕ} {s s' : Sender}

lemma At.of_same (h : L.At n s) (hkeys : s'.keyEpoch = s.keyEpoch)
    (hseq : s'.seq = s.seq) (hpending : s'.pendingKeyUpdate = s.pendingKeyUpdate) :
    L.At n s' where
  keyEpoch := by
    rw [hkeys]
    exact h.keyEpoch
  seq := hseq.trans h.seq
  pending := by
    rw [hpending]
    exact h.pending

/-- One step of the send loop is one entry of the ledger, or two at a rotation. -/
theorem At.step (h : L.At n s) {ev : SendEvent} {out : Output}
    (hstep : s.step L.sess.prims L.sess.send ev = some (s', out)) :
    ∃ n', L.At n' s' ∧ L.Seals n s s' ev n' out.records := by
  obtain ⟨previous, hke⟩ := h.keyEpoch
  cases Sender.step_effect L.sess.prims L.sess.send hstep with
  | quiet hkeys hpending hseq hresend =>
    exact ⟨n, h.of_same hkeys hseq hpending, .nothing hpending hresend⟩
  | staged stream localCi chunk compressed batchTs keyUpdateTs staged hphase hstream hlocal
      hcompress htransmit hkeys hpending hseq hev =>
      rw [transmit_sealed L.sess.prims L.sess.send hke] at htransmit
      obtain rfl := Except.ok.inj htransmit
      have hseq' : s'.seq = L.number (n + 1) := by rw [hseq, h.seq, number_succ]
      by_cases hrotate : maxPacketsPerKey ≤ n % maxPacketsPerKey + 1
      · obtain ⟨hepoch, hcount⟩ := epochAt_succ_of_rotation hrotate
        rw [if_pos hrotate] at hkeys hpending ⊢
        refine ⟨n + 1, ⟨⟨some (L.keys (epochAt n)), ?_⟩, hseq', ?_⟩, ?_⟩
        · rw [hkeys, hepoch, hcount]
          rfl
        · intro pku hpku
          rw [hpending] at hpku
          cases hpku
          exact ⟨epochAt n, hepoch, rfl, rfl, le_rfl⟩
        · rw [h.seq]
          exact .rotation batchTs keyUpdateTs stream.id chunk compressed hphase hepoch hpending hev
      · obtain ⟨hepoch, hcount⟩ := epochAt_succ_of_not_rotation hrotate
        rw [if_neg hrotate] at hkeys hpending ⊢
        refine ⟨n + 1, ⟨⟨previous, ?_⟩, hseq', ?_⟩, ?_⟩
        · rw [hkeys, hepoch, hcount]
        · rw [hpending, hepoch]
          exact h.pending
        · rw [h.seq]
          exact .data batchTs stream.id chunk compressed hphase hepoch hpending hev
  | resent pku timestamp hpku hleft hkeys hpending hseq hev hphase =>
    obtain ⟨e, hepoch, hpkuEpoch, hpkuKeys, hpkuLeft⟩ := h.pending pku hpku
    refine ⟨n, ⟨?_, hseq.trans h.seq, ?_⟩, ?_⟩
    · rw [hkeys]
      exact h.keyEpoch
    · intro pku' hpku'
      rw [hpending] at hpku'
      cases hpku'
      exact ⟨e, hepoch, hpkuEpoch, hpkuKeys, (Nat.sub_le _ _).trans hpkuLeft⟩
    · rw [hpkuEpoch, hpkuKeys, h.seq]
      exact .resend e pku timestamp hepoch hpku hleft hpending hev hphase
  | finished timestamp hphase hphase' hkeys hpending hseq hev =>
    refine ⟨n, h.of_same hkeys hseq hpending, ?_⟩
    rw [hke, h.seq]
    exact .finish timestamp hphase hphase' hpending hev

end Ledger

end Favonius.Transfer
