import Favonius.Client.Streams

/-!
# The cache of the applied prefix

A send stream remembers up to where it has applied the contiguous prefix of the receiver, and an ACK
is applied from there on.  The packet number an ACK starts at comes from the wire; as long as it is
not past the remembered place, everything below that place is acked.
-/

namespace Favonius.Client

open Execution ByteCodec Proto

def StreamState.Cached (s : StreamState) : Prop := ∀ i < s.hcApplied, s.acked.getD i false = true

lemma hcApplied_markAcked (s : StreamState) (li : ℕ) :
    (s.markAcked li).1.hcApplied = s.hcApplied := by
  unfold StreamState.markAcked
  split <;> rfl

lemma hcApplied_foldl_ackPn (wireSize : ℕ) (nowUs : UInt32) (pns : List UInt64)
    (p : AckProgress) :
    (pns.foldl (ackPn wireSize nowUs) p).stream.hcApplied = p.stream.hcApplied := by
  refine foldl_frame (fun q : AckProgress => q.stream.hcApplied) ?_ pns p
  intro q pn
  dsimp only [ackPn]
  split
  · exact hcApplied_markAcked q.stream _
  · rfl

lemma hcApplied_applyAck (ack : AckBitmap) (wireSize : ℕ) (nowUs : UInt32) (s : StreamState)
    (inFlight : ℕ) :
    (applyAck ack wireSize nowUs s inFlight).stream.hcApplied =
      match prefixStart ack s with
      | none => s.hcApplied
      | some _ => ack.highestContiguous.toNat - s.chunkBase + 1 := by
  rw [applyAck, hcApplied_foldl_ackPn, applyPrefix]
  cases prefixStart ack s with
  | none => rfl
  | some lo =>
    dsimp only
    rw [chunkBase_foldl_ackPn]

lemma prefixStart_eq_some {ack : AckBitmap} {s : StreamState} {lo : ℕ} :
    prefixStart ack s = some lo ↔
      ack.basePacketNumber ≤ ack.highestContiguous ∧
        ack.highestContiguous.toNat < s.chunkBase + s.chunkCount ∧
        lo = max (max ack.basePacketNumber.toNat s.chunkBase) (s.chunkBase + s.hcApplied) ∧
        lo ≤ ack.highestContiguous.toNat := by
  unfold prefixStart
  dsimp only
  split_ifs with hclamp hle
  · rw [Option.some.injEq]
    constructor
    · rintro rfl
      exact ⟨hclamp.1, hclamp.2, rfl, hle⟩
    · rintro ⟨-, -, rfl, -⟩
      rfl
  · refine iff_of_false nofun ?_
    rintro ⟨-, -, rfl, hlo⟩
    exact hle hlo
  · refine iff_of_false nofun ?_
    rintro ⟨hbase, hend, -⟩
    exact hclamp ⟨hbase, hend⟩

section Ack

variable {ack : AckBitmap} {s : StreamState} (wireSize inFlight : ℕ) (nowUs : UInt32)
  (hend : s.chunkBase + s.chunkCount ≤ 2 ^ 64)

include hend

lemma StreamState.Cached.applyAck (h : s.Cached)
    (hbase : ack.basePacketNumber.toNat ≤ s.chunkBase + s.hcApplied) :
    (applyAck ack wireSize nowUs s inFlight).stream.Cached := by
  intro i hi
  rw [hcApplied_applyAck] at hi
  rw [getD_acked_applyAck ack wireSize nowUs s inFlight hend]
  cases hstart : prefixStart ack s with
  | none =>
    rw [hstart] at hi
    exact .inl (h i hi)
  | some lo =>
    rw [hstart] at hi
    obtain ⟨-, -, hlo, hle⟩ := prefixStart_eq_some.mp hstart
    have hbelow : i < ack.highestContiguous.toNat - s.chunkBase + 1 := hi
    -- below the start of this application the earlier ones reach
    by_cases hearlier : i < s.hcApplied
    · exact .inl (h i hearlier)
    · exact .inr (.inl ⟨lo, rfl, by omega, by omega⟩)

lemma StreamState.Cached.covered (h : s.Cached) (hbase : ack.basePacketNumber.toNat = s.chunkBase)
    {i : ℕ} (hcovers : s.chunkBase + i ≤ ack.highestContiguous.toNat)
    (hhigh : ack.highestContiguous.toNat < s.chunkBase + s.chunkCount) :
    (Client.applyAck ack wireSize nowUs s inFlight).stream.acked.getD i false = true := by
  rw [getD_acked_applyAck ack wireSize nowUs s inFlight hend]
  by_cases hearlier : i < s.hcApplied
  · exact .inl (h i hearlier)
  · refine .inr (.inl ⟨s.chunkBase + s.hcApplied, prefixStart_eq_some.mpr ?_, by omega, hcovers⟩)
    rw [UInt64.le_iff_toNat_le]
    omega

end Ack

def ackStep (wireSize : ℕ) (a : List StreamState × ℕ) (e : Bytes × UInt32) :
    Option (List StreamState × ℕ) :=
  let r := processAckBitmap e.1 a.1 a.2 wireSize e.2
  some (r.1, r.2.1)

/-- The ACK does not start past what its stream has applied. -/
def StartsInPrefix (a : List StreamState × ℕ) (e : Bytes × UInt32) : Prop :=
  ∀ ack s, AckBitmap.decode e.1 = .ok ack → a.1[ack.streamId.toNat]? = some s →
    ack.basePacketNumber.toNat ≤ s.chunkBase + s.hcApplied

def CachedAll (a : List StreamState × ℕ) : Prop :=
  ∀ s ∈ a.1, s.Cached ∧ s.chunkBase + s.chunkCount ≤ 2 ^ 64

lemma CachedAll.step {wireSize : ℕ} {a b : List StreamState × ℕ} {e : Bytes × UInt32}
    (h : CachedAll a) (hbase : StartsInPrefix a e) (hstep : ackStep wireSize a e = some b) :
    CachedAll b := by
  obtain rfl := Option.some.inj hstep
  unfold processAckBitmap
  cases hack : AckBitmap.decode e.1 with
  | error err => exact h
  | ok ack =>
    dsimp only
    cases hs : a.1[ack.streamId.toNat]? with
    | none => exact h
    | some s =>
      obtain ⟨hcached, hend⟩ := h s (List.mem_of_getElem? hs)
      have hrange := sendState_applyAck ack wireSize e.2 s a.2
      have hbase' := congrArg StreamState.SendState.chunkBase hrange
      have hcount' := congrArg StreamState.SendState.chunkCount hrange
      intro t ht
      rcases List.mem_or_eq_of_mem_set ht with hold | rfl
      · exact h t hold
      · refine ⟨hcached.applyAck wireSize a.2 e.2 hend (hbase ack s hack hs), ?_⟩
        exact (congrArg₂ (· + ·) hbase' hcount').trans_le hend

/-- After any sequence of ACKs none of which starts past the applied prefix, everything below that
prefix is acked, and a genuine ACK marks every chunk its own prefix covers. -/
theorem prefix_cache_sound {wireSize inFlight : ℕ} {streams : List StreamState}
    (hstart : ∀ s ∈ streams, s.hcApplied = 0 ∧ s.chunkBase + s.chunkCount ≤ 2 ^ 64)
    {acks : List (Bytes × UInt32)} {a : List StreamState × ℕ}
    (hrun : exec (ackStep wireSize) (streams, inFlight) acks = some a)
    (hbase : Along (ackStep wireSize) StartsInPrefix (streams, inFlight) acks)
    {s : StreamState} (hs : s ∈ a.1) :
    (∀ i < s.hcApplied, s.acked.getD i false = true) ∧
      ∀ (ack : AckBitmap) (nowUs : UInt32) (i : ℕ),
        ack.basePacketNumber.toNat = s.chunkBase →
        ack.highestContiguous.toNat < s.chunkBase + s.chunkCount →
        s.chunkBase + i ≤ ack.highestContiguous.toNat →
        (applyAck ack wireSize nowUs s a.2).stream.acked.getD i false = true := by
  have hfirst : CachedAll (streams, inFlight) := by
    intro t ht
    obtain ⟨hzero, hend⟩ := hstart t ht
    refine ⟨?_, hend⟩
    rw [StreamState.Cached, hzero]
    exact fun i hi => absurd hi (Nat.not_lt_zero i)
  obtain ⟨hcached, hend⟩ := hbase.invariant (fun _ _ _ h hok hstep => h.step hok hstep) hfirst hrun
    s hs
  exact ⟨hcached, fun ack nowUs i hlow hhigh hcovers =>
    hcached.covered wireSize a.2 nowUs hend hlow hcovers hhigh⟩

def prefixAck (base high : UInt64) : AckBitmap := ⟨0, base, high, 0, []⟩

theorem prefix_cache_sound_two :
    ∃ a s, exec (ackStep 100) ([.new 0 0 3], 0) [((prefixAck 0 1).encode, 7)] = some a ∧
      s ∈ a.1 ∧ s.hcApplied = 2 ∧ s.acked.getD 1 false = true := by
  obtain ⟨a, hrun, s, hs, hcache⟩ :
      ∃ a, exec (ackStep 100) ([.new 0 0 3], 0) [((prefixAck 0 1).encode, 7)] = some a ∧
        ∃ s ∈ a.1, s.hcApplied = 2 := by
    decide +kernel
  have hbase : StartsInPrefix ([.new 0 0 3], 0) ((prefixAck 0 1).encode, 7) := by
    intro ack s hack _
    obtain rfl := Except.ok.inj (((prefixAck 0 1).decode_encode (by decide)).symm.trans hack)
    exact Nat.zero_le _
  refine ⟨a, s, hrun, hs, hcache, ?_⟩
  refine (prefix_cache_sound ?_ hrun ⟨hbase, fun _ _ => trivial⟩ hs).1 1 (by omega)
  exact List.forall_mem_singleton.mpr ⟨rfl, by decide⟩

/-- An ACK that starts at the last of three chunks moves the cache past the first two, and a later
ACK of the whole prefix leaves them unacked. -/
theorem prefix_cache_skips :
    ∃ a, exec (ackStep 100) ([.new 0 0 3], 0) [((prefixAck 2 2).encode, 7)] = some a ∧
      ∃ s ∈ a.1, s.hcApplied = 3 ∧ s.acked.getD 0 false = false ∧
        (applyAck (prefixAck 0 2) 100 8 s a.2).stream.acked.getD 0 false = false := by
  decide +kernel

end Favonius.Client
