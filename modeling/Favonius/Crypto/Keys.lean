import Favonius.Lib.ByteCodec

/-!
# Session keys, nonces and the key schedule

The HKDF key schedules of a full handshake, of a resumed session and of a key
update, and the per-packet nonces.  HKDF-SHA256 is a parameter.  The last part
shows that the epochs of one session have different keys as long as HKDF does
not collide on the inputs the session feeds it.
-/

namespace Favonius.Crypto

open ByteCodec List

def ascii (s : String) : Bytes := s.toList.map fun c => UInt8.ofNat c.toNat

inductive CryptoError where
  | decryptionFailed
  | keyExchangeFailed (message : String)
  | keyDerivationFailed (message : String)
  | signatureInvalid
  deriving DecidableEq, Repr

def CryptoError.toString : CryptoError → String
  | decryptionFailed => "decryption failed: authentication tag mismatch"
  | keyExchangeFailed message => s!"key exchange failed: {message}"
  | keyDerivationFailed message => s!"key derivation failed: {message}"
  | signatureInvalid => "signature verification failed"

structure SessionKeys where
  controlKey : FixedBytes 32
  dataKey : FixedBytes 32
  syncKey : FixedBytes 32
  headerProtectionKey : FixedBytes 16
  rekeySecret : FixedBytes 32
  resumeSecret : FixedBytes 32
  dataIv : FixedBytes 12
  controlIv : FixedBytes 12
  deriving DecidableEq

structure KeyPair where
  privateKey : FixedBytes 32
  publicKey : FixedBytes 32

/-- The all-zero secret that low-order points give is refused. -/
def diffieHellman (x25519 : FixedBytes 32 → FixedBytes 32 → FixedBytes 32)
    (ourPrivate theirPublic : FixedBytes 32) : Except CryptoError (FixedBytes 32) :=
  let shared := x25519 ourPrivate theirPublic
  if shared.1.all (· == 0) then
    .error (.keyExchangeFailed "low-order point produced all-zero shared secret")
  else .ok shared

def xorBytes (xs ys : Bytes) : Bytes := zipWith (· ^^^ ·) xs ys

lemma xorBytes_cancel {xs ys zs : Bytes} (hy : ys.length = xs.length)
    (hz : zs.length = xs.length) (h : xorBytes xs ys = xorBytes xs zs) : ys = zs := by
  induction xs generalizing ys zs with
  | nil =>
    rw [length_eq_zero_iff.mp hy, length_eq_zero_iff.mp hz]
  | cons x xs ih =>
    obtain ⟨y, ys, rfl⟩ := exists_cons_of_length_eq_add_one hy
    obtain ⟨z, zs, rfl⟩ := exists_cons_of_length_eq_add_one hz
    simp only [xorBytes, zipWith_cons_cons, cons.injEq] at h
    rw [(UInt8.xor_right_inj x).mp h.1, ih (by simpa using hy) (by simpa using hz) h.2]

lemma xorBytes_xorBytes {xs ys : Bytes} (h : ys.length = xs.length) :
    xorBytes (xorBytes xs ys) ys = xs := by
  induction xs generalizing ys with
  | nil => rfl
  | cons x xs ih =>
    obtain ⟨y, ys, rfl⟩ := exists_cons_of_length_eq_add_one h
    simp only [xorBytes, zipWith_cons_cons, cons.injEq]
    refine ⟨?_, ih (by simpa using h)⟩
    rw [UInt8.xor_assoc, UInt8.xor_self, UInt8.xor_zero]

/-- The fixed IV with the big-endian sequence number XORed into its last
eight bytes. -/
def nonceFor (iv : FixedBytes 12) (sequenceNumber : UInt64) : FixedBytes 12 :=
  ⟨iv.1.take 4 ++ xorBytes (iv.1.drop 4) (putU64 sequenceNumber), by
    simp [xorBytes, iv.2]⟩

lemma nonceFor_injective (iv : FixedBytes 12) : Function.Injective (nonceFor iv) := by
  intro s t h
  have hiv := iv.2
  have hbytes := append_cancel_left (congrArg Subtype.val h)
  apply putU64_injective
  exact xorBytes_cancel (by simp [hiv]) (by simp [hiv]) hbytes

structure KeyLabels where
  control : String
  data : String
  sync : String
  headerProtect : String
  rekey : String
  resume : String
  dataIv : String
  controlIv : String

def sessionLabels : KeyLabels where
  control := "ahp-control-key"
  data := "ahp-data-key"
  sync := "ahp-sync-key"
  headerProtect := "ahp-header-protect"
  rekey := "ahp-rekey"
  resume := "ahp-resume"
  dataIv := "ahp-data-iv"
  controlIv := "ahp-control-iv"

def nextLabels : KeyLabels where
  control := "ahp-control-key-next"
  data := "ahp-data-key-next"
  sync := "ahp-sync-key-next"
  headerProtect := "ahp-header-protect-next"
  rekey := "ahp-rekey-next"
  resume := "ahp-resume-next"
  dataIv := "ahp-data-iv-next"
  controlIv := "ahp-control-iv-next"

def resumedLabels : KeyLabels where
  control := "ahp-resume-control"
  data := "ahp-resume-data"
  sync := "ahp-resume-sync"
  headerProtect := "ahp-resume-hp"
  rekey := "ahp-resume-rekey"
  resume := "ahp-resume-resume"
  dataIv := "ahp-resume-data-iv"
  controlIv := "ahp-resume-ctrl-iv"

/-- HKDF-SHA256, extract then expand: salt, input key material, info, length. -/
abbrev Hkdf := Bytes → Bytes → Bytes → (len : ℕ) → FixedBytes len

variable (hkdf : Hkdf)

/-- `Hkdf::expand` refuses outputs of more than 255 hash blocks. -/
def expand (salt ikm : Bytes) (info : String) (len : ℕ) :
    Except CryptoError (FixedBytes len) :=
  if 255 * 32 < len then
    .error (.keyDerivationFailed "invalid number of blocks, too large output")
  else .ok (hkdf salt ikm (ascii info) len)

def expandKeys (labels : KeyLabels) (salt ikm : Bytes) : Except CryptoError SessionKeys := do
  let controlKey ← expand hkdf salt ikm labels.control 32
  let dataKey ← expand hkdf salt ikm labels.data 32
  let syncKey ← expand hkdf salt ikm labels.sync 32
  let headerProtectionKey ← expand hkdf salt ikm labels.headerProtect 16
  let rekeySecret ← expand hkdf salt ikm labels.rekey 32
  let resumeSecret ← expand hkdf salt ikm labels.resume 32
  let dataIv ← expand hkdf salt ikm labels.dataIv 12
  let controlIv ← expand hkdf salt ikm labels.controlIv 12
  return ⟨controlKey, dataKey, syncKey, headerProtectionKey, rekeySecret, resumeSecret,
    dataIv, controlIv⟩

def deriveSessionKeys (sharedSecret : FixedBytes 32) (initiatorNonce responderNonce : Bytes) :
    Except CryptoError SessionKeys :=
  expandKeys hkdf sessionLabels (initiatorNonce ++ responderNonce) sharedSecret.1

def deriveResumedKeys (resumeSecret : FixedBytes 32) (clientNonce serverNonce : Bytes) :
    Except CryptoError SessionKeys :=
  expandKeys hkdf resumedLabels (clientNonce ++ serverNonce) resumeSecret.1

def deriveNextKeys (current : SessionKeys) : Except CryptoError SessionKeys :=
  expandKeys hkdf nextLabels (ascii "ahp-key-update") current.rekeySecret.1

/-- The keys a schedule gives; none of its output lengths is refused. -/
def scheduleKeys (labels : KeyLabels) (salt ikm : Bytes) : SessionKeys where
  controlKey := hkdf salt ikm (ascii labels.control) 32
  dataKey := hkdf salt ikm (ascii labels.data) 32
  syncKey := hkdf salt ikm (ascii labels.sync) 32
  headerProtectionKey := hkdf salt ikm (ascii labels.headerProtect) 16
  rekeySecret := hkdf salt ikm (ascii labels.rekey) 32
  resumeSecret := hkdf salt ikm (ascii labels.resume) 32
  dataIv := hkdf salt ikm (ascii labels.dataIv) 12
  controlIv := hkdf salt ikm (ascii labels.controlIv) 12

lemma expandKeys_eq (labels : KeyLabels) (salt ikm : Bytes) :
    expandKeys hkdf labels salt ikm = .ok (scheduleKeys hkdf labels salt ikm) := by
  rfl

def maxPacketsPerKey : ℕ := 2 ^ 30

/-- The epoch counts rotations; the source's `u64` is its low 64 bits, which is
all that the wire and the comparisons see. -/
structure KeyEpoch where
  epoch : ℕ
  packetCount : ℕ
  keys : SessionKeys
  previousKeys : Option SessionKeys
  deriving DecidableEq

namespace KeyEpoch

def new (keys : SessionKeys) : KeyEpoch := ⟨0, 0, keys, none⟩

/-- Record a sealed packet; the flag says that a rotation is due. -/
def onPacketEncrypted (ke : KeyEpoch) : Bool × KeyEpoch :=
  let packetCount := ke.packetCount + 1
  (decide (maxPacketsPerKey ≤ packetCount), { ke with packetCount })

def rotate (ke : KeyEpoch) : Except CryptoError KeyEpoch := do
  let newKeys ← deriveNextKeys hkdf ke.keys
  return ⟨ke.epoch + 1, 0, newKeys, some ke.keys⟩

end KeyEpoch

def encodeKeyUpdate (newEpoch : ℕ) : Bytes := putU64 (UInt64.ofNat newEpoch)

def decodeKeyUpdate (payload : Bytes) : Option UInt64 :=
  if payload.length < 8 then none else some (getU64 payload).1

@[simp] lemma decodeKeyUpdate_encode (newEpoch : ℕ) :
    decodeKeyUpdate (encodeKeyUpdate newEpoch) = some (UInt64.ofNat newEpoch) := by
  have hget := getU64_put (UInt64.ofNat newEpoch) []
  rw [append_nil] at hget
  simp [decodeKeyUpdate, encodeKeyUpdate, hget]

def nextKeys (current : SessionKeys) : SessionKeys :=
  scheduleKeys hkdf nextLabels (ascii "ahp-key-update") current.rekeySecret.1

lemma deriveNextKeys_eq (current : SessionKeys) :
    deriveNextKeys hkdf current = .ok (nextKeys hkdf current) :=
  expandKeys_eq hkdf _ _ _

def epochKeys (initial : SessionKeys) : ℕ → SessionKeys
  | 0 => initial
  | e + 1 => nextKeys hkdf (epochKeys initial e)

inductive Secret where
  | control | data | sync | rekey | resume
  deriving DecidableEq

def KeyLabels.get (labels : KeyLabels) : Secret → String
  | .control => labels.control
  | .data => labels.data
  | .sync => labels.sync
  | .rekey => labels.rekey
  | .resume => labels.resume

def SessionKeys.get (keys : SessionKeys) : Secret → FixedBytes 32
  | .control => keys.controlKey
  | .data => keys.dataKey
  | .sync => keys.syncKey
  | .rekey => keys.rekeySecret
  | .resume => keys.resumeSecret

lemma scheduleKeys_get (labels : KeyLabels) (salt ikm : Bytes) (x : Secret) :
    (scheduleKeys hkdf labels salt ikm).get x = hkdf salt ikm (ascii (labels.get x)) 32 := by
  cases x <;> rfl

inductive KeyOrigin where
  | handshake (sharedSecret : FixedBytes 32) (initiatorNonce responderNonce : Bytes)
  | resumed (resumeSecret : FixedBytes 32) (clientNonce serverNonce : Bytes)

namespace KeyOrigin

def derive : KeyOrigin → Except CryptoError SessionKeys
  | handshake sharedSecret ni nr => deriveSessionKeys hkdf sharedSecret ni nr
  | resumed resumeSecret nc ns => deriveResumedKeys hkdf resumeSecret nc ns

def labels : KeyOrigin → KeyLabels
  | handshake .. => sessionLabels
  | resumed .. => resumedLabels

def salt : KeyOrigin → Bytes
  | handshake _ ni nr => ni ++ nr
  | resumed _ nc ns => nc ++ ns

def ikm : KeyOrigin → Bytes
  | handshake sharedSecret _ _ => sharedSecret.1
  | resumed resumeSecret _ _ => resumeSecret.1

def keys (o : KeyOrigin) : SessionKeys := scheduleKeys hkdf o.labels o.salt o.ikm

lemma derive_eq (o : KeyOrigin) : o.derive hkdf = .ok (o.keys hkdf) := by
  cases o <;> exact expandKeys_eq hkdf _ _ _

lemma label_ne_next (o : KeyOrigin) (x : Secret) :
    ascii (o.labels.get x) ≠ ascii (nextLabels.get x) := by
  have hsession : ascii (sessionLabels.get x) ≠ ascii (nextLabels.get x) := by
    cases x <;> decide
  have hresumed : ascii (resumedLabels.get x) ≠ ascii (nextLabels.get x) := by
    cases x <;> decide
  cases o with
  | handshake => exact hsession
  | resumed => exact hresumed

/-- The HKDF inputs behind the 32-byte keys of the epochs up to `last`. -/
def kdfInputs (o : KeyOrigin) (last : ℕ) : Set (Bytes × Bytes × Bytes) :=
  {i | (∃ x, i = (o.salt, o.ikm, ascii (o.labels.get x))) ∨
    ∃ e < last, ∃ x, i = (ascii "ahp-key-update", (epochKeys hkdf (o.keys hkdf) e).rekeySecret.1,
      ascii (nextLabels.get x))}

def CollisionFree (o : KeyOrigin) (last : ℕ) : Prop :=
  Set.InjOn (fun i : Bytes × Bytes × Bytes => hkdf i.1 i.2.1 i.2.2 32) (o.kdfInputs hkdf last)

variable {hkdf}

variable {o : KeyOrigin}

lemma CollisionFree.mono {m n : ℕ} (h : o.CollisionFree hkdf n) (hmn : m ≤ n) :
    o.CollisionFree hkdf m := by
  refine Set.InjOn.mono ?_ h
  rintro i (hi | ⟨e, he, hi⟩)
  · exact Or.inl hi
  · exact Or.inr ⟨e, he.trans_le hmn, hi⟩

lemma CollisionFree.get_ne {last : ℕ} (h : o.CollisionFree hkdf last) {i j : ℕ} (hij : i < j)
    (hj : j ≤ last) (x : Secret) :
    (epochKeys hkdf (o.keys hkdf) i).get x ≠ (epochKeys hkdf (o.keys hkdf) j).get x := by
  induction i generalizing j x with
  | zero =>
    obtain ⟨j, rfl⟩ := Nat.exists_eq_succ_of_ne_zero (Nat.ne_of_gt hij)
    intro heq
    rw [epochKeys, epochKeys, nextKeys, keys, scheduleKeys_get, scheduleKeys_get] at heq
    have hinputs := h (Or.inl ⟨x, rfl⟩) (Or.inr ⟨j, by omega, x, rfl⟩) heq
    exact o.label_ne_next x (congrArg (fun i => i.2.2) hinputs)
  | succ i ih =>
    obtain ⟨j, rfl⟩ := Nat.exists_eq_succ_of_ne_zero (Nat.ne_zero_of_lt hij)
    intro heq
    rw [epochKeys, epochKeys, nextKeys, nextKeys, scheduleKeys_get, scheduleKeys_get] at heq
    have hinputs := h (Or.inr ⟨i, by omega, x, rfl⟩) (Or.inr ⟨j, by omega, x, rfl⟩) heq
    have hrekey : (epochKeys hkdf (o.keys hkdf) i).rekeySecret.1 =
        (epochKeys hkdf (o.keys hkdf) j).rekeySecret.1 := congrArg (fun i => i.2.1) hinputs
    exact ih (by omega) (by omega) .rekey (Subtype.ext hrekey)

lemma CollisionFree.epoch_eq {last : ℕ} (h : o.CollisionFree hkdf last) {i j : ℕ} (hi : i ≤ last)
    (hj : j ≤ last) {x : Secret}
    (heq : (epochKeys hkdf (o.keys hkdf) i).get x = (epochKeys hkdf (o.keys hkdf) j).get x) :
    i = j := by
  rcases Nat.lt_trichotomy i j with hij | hij | hij
  · exact (h.get_ne hij hj x heq).elim
  · exact hij
  · exact (h.get_ne hij hi x heq.symm).elim

end KeyOrigin

end Favonius.Crypto
