import Favonius.Daemon.HostileDatagrams
import Favonius.Lib.Spans
import Favonius.Proto.HotPath

/-!
# NACKs and the chunks they silence

A chunk that a stream has recorded as NACKed is not reported again.  It got there with a NACK_RANGE
datagram that names it, and the sender can read that datagram if it fits into its receive buffer:
if there were at most 90 runs of missing chunks to report when the chunk arrived that brought the
report on.
-/

namespace Favonius.Daemon

open Execution ByteCodec Spans Proto Crypto List Option StreamRecvState

/-! ## The ranges of a report -/

def InRanges (ranges : List (ℕ × ℕ)) (pn : ℕ) : Prop :=
  ∃ p ∈ ranges, p.1 ≤ pn ∧ pn ≤ p.2

variable {pn : ℕ}

lemma mem_foldl_insert {nacked pns : List ℕ}
    (h : pn ∈ pns.foldl (fun acc pn => acc.insert pn) nacked) : pn ∈ nacked ∨ pn ∈ pns := by
  induction pns generalizing nacked with
  | nil => exact .inl h
  | cons first pns ih =>
    rcases ih h with hold | hrest
    · rcases mem_insert_iff.mp hold with rfl | hold
      · exact .inr mem_cons_self
      · exact .inl hold
    · exact .inr (mem_cons_of_mem first hrest)

variable {ranges : List (ℕ × ℕ)}

lemma mem_recordNacked {nacked : List ℕ} (h : pn ∈ recordNacked nacked ranges) :
    pn ∈ nacked ∨ InRanges ranges pn := by
  induction ranges generalizing nacked with
  | nil => exact .inl h
  | cons p ranges ih =>
    rcases ih h with hold | ⟨q, hq, hin⟩
    · rcases mem_foldl_insert hold with hold | hnew
      · exact .inl hold
      · rw [mem_range'_1] at hnew
        exact .inr ⟨p, mem_cons_self, by omega, by omega⟩
    · exact .inr ⟨q, mem_cons_of_mem p hq, hin⟩

/-! ## The scan of a window -/

def unreported (s : StreamRecvState) (pn : ℕ) : Bool :=
  decide (pn - s.chunkBase < s.received.length ∧
    s.received.getD (pn - s.chunkBase) false = false) && !s.nackedRanges.contains pn

lemma gapStep_eq (s : StreamRecvState) {acc : Scan} {idx : ℕ} (h : ∀ first ∈ acc.2, 0 < idx) :
    gapStep s acc idx = scanStep (unreported s) acc (idx + s.chunkBase) := by
  obtain ⟨spans, first⟩ := acc
  have hlast : ∀ first' ∈ first, idx - 1 + s.chunkBase = idx + s.chunkBase - 1 := by
    intro first' hfirst
    have hpos := h first' hfirst
    omega
  unfold gapStep scanStep unreported
  rw [Nat.add_sub_cancel]
  dsimp only
  by_cases hmissing : idx < s.received.length ∧ s.received.getD idx false = false
  · rw [if_pos hmissing, decide_eq_true hmissing, Bool.true_and]
    cases s.nackedRanges.contains (idx + s.chunkBase) with
    | false => cases first <;> rfl
    | true => cases first <;> simp [Spans.close]
  · rw [if_neg hmissing, decide_eq_false hmissing, Bool.false_and]
    cases first with
    | none => simp [Spans.close]
    | some first => simp [Spans.close, hlast first rfl]

lemma foldl_gapStep (s : StreamRecvState) (gs n : ℕ) :
    (List.range' gs n).foldl (gapStep s) ([], none) = scan (unreported s) (gs + s.chunkBase) n := by
  induction n with
  | zero => rfl
  | succ n ih =>
    have hpos : ∀ first ∈ (scan (unreported s) (gs + s.chunkBase) n).2, 0 < gs + n := by
      intro first hfirst
      cases n with
      | zero => cases hfirst
      | succ n => omega
    rw [range'_1_concat, foldl_concat, ih, gapStep_eq s hpos, scan_succ, Nat.add_right_comm]

lemma gapRanges_eq (s : StreamRecvState) (gs ge : ℕ) :
    gapRanges s gs ge =
      Spans.close (scan (unreported s) (gs + s.chunkBase) (ge - gs)) (ge + s.chunkBase) := by
  unfold gapRanges
  rw [foldl_gapStep]
  obtain hzero | ⟨n, hn⟩ : ge - gs = 0 ∨ ∃ n, ge = n + 1 := by
    rcases ge with _ | n
    · exact .inl (Nat.zero_sub gs)
    · exact .inr ⟨n, rfl⟩
  · rw [hzero]
    rfl
  · subst hn
    cases hopen : (scan (unreported s) (gs + s.chunkBase) (n + 1 - gs)).2 with
    | none => simp [Spans.close, hopen]
    | some first => simp [Spans.close, hopen, Nat.add_right_comm]

lemma separated_gapRanges (s : StreamRecvState) (gs ge : ℕ) :
    Separated (gapRanges s gs ge) ∧ ∀ pn, Covers (gapRanges s gs ge) pn ↔
      gs + s.chunkBase ≤ pn ∧ pn < ge + s.chunkBase ∧ unreported s pn = true := by
  rw [gapRanges_eq]
  rcases Nat.lt_or_ge ge gs with hempty | hle
  · rw [Nat.sub_eq_zero_of_le hempty.le]
    refine ⟨⟨forall_mem_nil _, .nil⟩, fun pn => ⟨?_, ?_⟩⟩
    · rintro ⟨p, hp, -⟩
      cases hp
    · rintro ⟨hgs, hlt, -⟩
      omega
  · have hend : gs + s.chunkBase + (ge - gs) = ge + s.chunkBase := by omega
    have hscan := scanned_scan (unreported s) (gs + s.chunkBase) (ge - gs)
    rw [hend] at hscan
    exact hscan.close

variable {s : StreamRecvState} {nowMs : ℕ} {stream placed : StreamRecvState} {ev : RecvEvent}

lemma snd_lt_gapRanges {gs ge : ℕ} : ∀ p ∈ gapRanges s gs ge, p.2 < s.chunkBase + ge := by
  intro p hp
  obtain ⟨hseparated, hcovers⟩ := separated_gapRanges s gs ge
  obtain ⟨-, hlt, -⟩ := (hcovers p.2).mp ⟨p, hp, hseparated.nonempty p hp, le_rfl⟩
  omega

/-! ## The trigger -/

/-- The chunk that arrives makes the gap before it due. -/
def Triggers (s : StreamRecvState) (localCi nowMs : ℕ) : Prop :=
  s.expectedNextLocal < localCi ∧ (s.ageGap nowMs).gapDue nowMs = true

instance (s : StreamRecvState) (localCi nowMs : ℕ) : Decidable (Triggers s localCi nowMs) :=
  inferInstanceAs (Decidable (_ ∧ _))

lemma Triggers.congr {t : StreamRecvState} {localCi : ℕ} (h : Triggers s localCi nowMs)
    (hnext : s.expectedNextLocal = t.expectedNextLocal) (hstart : s.gapStartLocal = t.gapStartLocal)
    (hseen : s.gapFirstSeen = t.gapFirstSeen) (hcount : s.gapCounter = t.gapCounter) :
    Triggers t localCi nowMs := by
  refine ⟨hnext ▸ h.1, ?_⟩
  have hdue := h.2
  unfold ageGap at hdue ⊢
  rw [hstart] at hdue
  cases hgap : t.gapStartLocal with
  | none =>
    rw [hgap] at hdue
    exact hdue
  | some first =>
    simp only [hgap, gapDue, hseen, hcount] at hdue ⊢
    exact hdue

def windowStart (s : StreamRecvState) : ℕ := s.gapStartLocal.getD s.expectedNextLocal

/-- Where the runs of missing chunks start that a report on the chunks before `localCi` is
about. -/
def reportStarts (s : StreamRecvState) (localCi : ℕ) : List ℕ :=
  runStarts (unreported s) (windowStart s + s.chunkBase) (localCi + s.chunkBase)

lemma detectGap_ranges {localCi : ℕ} (h : Triggers s localCi nowMs) :
    (detectGap s localCi nowMs).2 = gapRanges s (windowStart s) localCi := by
  have hstart : (s.ageGap nowMs).gapStartLocal.getD (s.ageGap nowMs).expectedNextLocal =
      windowStart s := by
    unfold ageGap windowStart
    cases s.gapStartLocal <;> rfl
  have hscan : gapRanges (s.ageGap nowMs) = gapRanges s := by
    unfold ageGap
    cases s.gapStartLocal <;> rfl
  simp only [detectGap, if_pos h.1, if_pos h.2]
  rw [hstart, hscan]

lemma length_detectGap {localCi : ℕ} (h : Triggers s localCi nowMs) :
    (detectGap s localCi nowMs).2.length = (reportStarts s localCi).length := by
  obtain ⟨hseparated, hcovers⟩ := separated_gapRanges s (windowStart s) localCi
  rw [detectGap_ranges h, reportStarts, ← hseparated.map_fst hcovers, length_map]

lemma detectGap_quiet {localCi : ℕ} (h : ¬Triggers s localCi nowMs) :
    (detectGap s localCi nowMs).2 = [] := by
  by_cases hahead : s.expectedNextLocal < localCi
  · simp only [detectGap, if_pos hahead, if_neg fun hdue => h ⟨hahead, hdue⟩]
  · simp only [detectGap, if_neg hahead]

/-! ## One arrival -/

def StreamRecvState.silenced (s : StreamRecvState) : ℕ × ℕ × List ℕ :=
  (s.chunkBase, s.chunkCount, s.nackedRanges)

lemma silenced_ageGap (s : StreamRecvState) (nowMs : ℕ) :
    (s.ageGap nowMs).silenced = s.silenced := by
  unfold ageGap
  cases s.gapStartLocal <;> rfl

variable {localCi : ℕ}

lemma mem_nackedRanges_expectAfter (h : pn ∈ (s.expectAfter localCi).nackedRanges) :
    pn ∈ s.nackedRanges := by
  dsimp only [expectAfter] at h
  split at h
  · cases h
  · exact h

/-- A chunk that is silenced was so before or is in the report, whose ranges end before the chunk
that came in. -/
theorem detectGap_spec {next : StreamRecvState} (h : detectGap s localCi nowMs = (next, ranges)) :
    (∀ p ∈ ranges, p.2 < s.chunkBase + localCi) ∧
      ∀ pn ∈ next.nackedRanges, pn ∈ s.nackedRanges ∨ InRanges ranges pn := by
  have hsilenced := silenced_ageGap s nowMs
  have hbase : (s.ageGap nowMs).chunkBase = s.chunkBase := congrArg Prod.fst hsilenced
  have hold : (s.ageGap nowMs).nackedRanges = s.nackedRanges := congrArg (·.2.2) hsilenced
  unfold detectGap at h
  split at h
  · dsimp only at h
    split at h
    · obtain ⟨rfl, rfl⟩ := Prod.mk.inj h
      have hends := @snd_lt_gapRanges (s.ageGap nowMs)
        ((s.ageGap nowMs).gapStartLocal.getD (s.ageGap nowMs).expectedNextLocal) localCi
      rw [hbase] at hends
      refine ⟨hends, ?_⟩
      intro pn hpn
      have hmem := mem_recordNacked (mem_nackedRanges_expectAfter hpn)
      rwa [hold] at hmem
    · obtain ⟨rfl, rfl⟩ := Prod.mk.inj h
      refine ⟨forall_mem_nil _, ?_⟩
      intro pn hpn
      have hmem := mem_nackedRanges_expectAfter hpn
      rw [hold] at hmem
      exact .inl hmem
  · obtain ⟨rfl, rfl⟩ := Prod.mk.inj h
    exact ⟨forall_mem_nil _, fun pn hpn => .inl (mem_nackedRanges_expectAfter hpn)⟩

/-! ## The datagram -/

variable (P : Primitives) (openFn : OpenFn) (cfg : RecvConfig)

/-- The ranges of a NACK_RANGE datagram for which the buffer of the sender has room. -/
def maxRanges : ℕ := (maxPacket - (headerSize + nackRangeHeaderSize)) / nackRangeEntrySize

/-- A NACK_RANGE datagram of the stream with the chunk in one of its ranges. -/
def Carries (limit sid pn : ℕ) (d : Bytes) : Prop :=
  ∃ ranges seq timestamp, d = nackDatagram P cfg sid ranges seq timestamp ∧
    ranges.length ≤ maxRanges ∧ (∀ p ∈ ranges, p.2 < limit) ∧ InRanges ranges pn

/-- The sender reads the datagram into its buffer, decodes it as a NACK of the stream and finds the
chunk in it. -/
def ReadAsNack (sid pn : ℕ) (d : Bytes) : Prop :=
  ∃ pkt nack, decodePacket P.crc32c (d.take maxPacket) = .ok pkt ∧
    pkt.header.packetType = .nackRange ∧ NackRange.decode pkt.payload = .ok nack ∧
    nack.streamId.toNat = sid ∧ ∃ p ∈ nack.ranges, p.1.toNat ≤ pn ∧ pn ≤ p.2.toNat

variable {P openFn cfg}

lemma length_nackDatagram (sid : ℕ) (ranges : List (ℕ × ℕ)) (seq timestamp : UInt64) :
    (nackDatagram P cfg sid ranges seq timestamp).length = 48 + 16 * ranges.length := by
  simp only [nackDatagram, encodeCtrlPacketWithPayloadInto, length_append,
    PacketHeader.length_encode, NackRange.length_encode, length_map, headerSize,
    nackRangeHeaderSize, nackRangeEntrySize]
  omega

lemma Carries.readAsNack {limit sid : ℕ} {d : Bytes} (h : Carries P cfg limit sid pn d)
    (hlimit : limit ≤ 2 ^ 64) (hsid : sid < 2 ^ 32) : ReadAsNack P sid pn d := by
  obtain ⟨ranges, seq, timestamp, rfl, hfew, hends, p, hp, hlow, hhigh⟩ := h
  have hmax : maxRanges = 90 := rfl
  have hfit : (nackDatagram P cfg sid ranges seq timestamp).length ≤ maxPacket := by
    rw [length_nackDatagram, maxPacket]
    omega
  let nack : NackRange :=
    ⟨UInt32.ofNat sid, ranges.map fun r => (UInt64.ofNat r.1, UInt64.ofNat r.2)⟩
  have hcount : nack.ranges.length ≤ 90 := by
    rw [length_map]
    omega
  have hencode : nack.encode.length < 2 ^ 32 := by
    rw [NackRange.length_encode, nackRangeHeaderSize, nackRangeEntrySize]
    omega
  have hreference := @isReference_ctrl P.crc32c .nackRange cfg.connId seq timestamp _ hencode
  have hend := hends p hp
  refine ⟨_, nack, (congrArg _ (take_of_length_le hfit)).trans hreference.decoded, rfl,
    NackRange.decode_encode (by omega), ?_, _, mem_map_of_mem hp, ?_, ?_⟩
  · rw [UInt32.toNat_ofNat', Nat.mod_eq_of_lt hsid]
  · rw [UInt64.toNat_ofNat', Nat.mod_eq_of_lt (by omega)]
    exact hlow
  · rw [UInt64.toNat_ofNat', Nat.mod_eq_of_lt (by omega)]
    exact hhigh

/-! ## One step -/

lemma silenced_setSinceAck (r : Receiver) (sid n : ℕ) :
    (r.setSinceAck sid n).streams.map silenced =
      r.streams.map silenced :=
  r.map_setSinceAck silenced (fun _ _ => rfl) sid n

lemma silenced_ackTimer (clock : Clock) (r : Receiver) :
    (ackTimer P cfg clock r).1.streams.map silenced =
      r.streams.map silenced := by
  refine ackTimer_induction P cfg clock r
    (fun a => a.1.streams.map silenced = r.streams.map silenced) rfl fun a p _ ha => ?_
  rw [silenced_setSinceAck]
  exact ha

/-- Every stream of the state after the step has its range of before, and what it silences was
silenced before or is carried by a datagram of the step. -/
def Silences (P : Primitives) (cfg : RecvConfig) (r r' : Receiver) (out : List Bytes) : Prop :=
  ∀ sid s', r'.streams[sid]? = some s' → ∃ s, r.streams[sid]? = some s ∧
    s'.chunkBase = s.chunkBase ∧ s'.chunkCount = s.chunkCount ∧
    ∀ pn ∈ s'.nackedRanges, pn ∈ s.nackedRanges ∨
      ∃ d ∈ out, Carries P cfg (s.chunkBase + s.chunkCount) sid pn d

variable {r r' : Receiver}

lemma exists_silenced
    (h : r'.streams.map silenced = r.streams.map silenced) {sid : ℕ}
    {s' : StreamRecvState} (hs' : r'.streams[sid]? = some s') :
    ∃ s, r.streams[sid]? = some s ∧ s'.chunkBase = s.chunkBase ∧ s'.chunkCount = s.chunkCount ∧
      s'.nackedRanges = s.nackedRanges := by
  have hget := congrArg (fun l => l[sid]?) h
  simp only [getElem?_map, hs', map_some] at hget
  obtain ⟨s, hs, hsame⟩ := map_eq_some_iff.mp hget.symm
  obtain ⟨hbase, hrest⟩ := Prod.mk.inj hsame
  obtain ⟨hcount, hnacked⟩ := Prod.mk.inj hrest
  exact ⟨s, hs, hbase.symm, hcount.symm, hnacked.symm⟩

lemma silences_of_map_eq (out : List Bytes)
    (h : r'.streams.map silenced = r.streams.map silenced) :
    Silences P cfg r r' out := by
  intro sid s' hs'
  obtain ⟨s, hs, hbase, hcount, hnacked⟩ := exists_silenced h hs'
  refine ⟨s, hs, hbase, hcount, ?_⟩
  intro pn hpn
  rw [hnacked] at hpn
  exact .inl hpn

lemma Silences.congr {r'' : Receiver} {out out' : List Bytes} (h : Silences P cfg r r' out)
    (hmap : r''.streams.map silenced = r'.streams.map silenced)
    (hsub : out ⊆ out') : Silences P cfg r r'' out' := by
  intro sid s'' hs''
  obtain ⟨s', hs', hbase', hcount', hnacked'⟩ := exists_silenced hmap hs''
  obtain ⟨s, hs, hbase, hcount, hnacked⟩ := h sid s' hs'
  refine ⟨s, hs, hbase'.trans hbase, hcount'.trans hcount, ?_⟩
  intro pn hpn
  rw [hnacked'] at hpn
  rcases hnacked pn hpn with hold | ⟨d, hd, hcarries⟩
  · exact .inl hold
  · exact .inr ⟨d, hsub hd, hcarries⟩

lemma gapResult_silences {next : StreamRecvState}
    (h : gapResult cfg stream localCi nowMs = (next, ranges)) :
    (∀ p ∈ ranges, p.2 < stream.chunkBase + localCi) ∧
      ∀ pn ∈ next.nackedRanges, pn ∈ stream.nackedRanges ∨ InRanges ranges pn := by
  unfold gapResult at h
  split at h
  · have hspec := detectGap_spec h
    exact hspec
  · obtain ⟨rfl, rfl⟩ := Prod.mk.inj h
    exact ⟨forall_mem_nil _, fun pn hpn => .inl hpn⟩

lemma silences_nacked {r : Receiver} {sid localCi nowMs : ℕ}
    {stream placed next : StreamRecvState} {ranges : List (ℕ × ℕ)}
    (hget : r.streams[sid]? = some stream)
    (hplaced : placed.silenced = stream.silenced) (hlt : localCi < stream.chunkCount)
    (hnext : gapResult cfg placed localCi nowMs = (next, ranges)) (hfew : ranges.length ≤ maxRanges)
    (hprogress : next.progress = placed.progress) (clock : Clock) (mmap : Bytes) :
    Silences P cfg r { r with mmap, streams := r.streams.set sid next }
      (nacked P cfg clock sid ranges { r with mmap, streams := r.streams.set sid next }).2 := by
  obtain ⟨hbase, hrest⟩ := Prod.mk.inj hplaced
  obtain ⟨hcount, hold⟩ := Prod.mk.inj hrest
  obtain ⟨hends, hmem⟩ := gapResult_silences hnext
  intro i s' hs'
  rw [getElem?_set] at hs'
  split_ifs at hs' with heq hbound
  · obtain rfl := some.inj hs'
    subst heq
    refine ⟨stream, hget, (congrArg Progress.chunkBase hprogress).trans hbase,
      (congrArg Progress.chunkCount hprogress).trans hcount, ?_⟩
    intro pn hpn
    rcases hmem pn hpn with hpn | hin
    · rw [hold] at hpn
      exact .inl hpn
    right
    have hsome : ranges.isEmpty = false := by
      obtain ⟨p, hp, -⟩ := hin
      exact isEmpty_eq_false_iff_exists_mem.mpr ⟨p, hp⟩
    rw [nacked, hsome]
    refine ⟨_, mem_singleton_self _, ranges, _, _, rfl, hfew, ?_, hin⟩
    intro p hp
    have hend := hends p hp
    omega
  · exact ⟨s', hs', rfl, rfl, fun pn hpn => .inl hpn⟩

lemma silences_dataFeedback {r : Receiver} {sid localCi nowMs : ℕ}
    (hget : r.streams[sid]? = some stream) (hplaced : placed.silenced = stream.silenced)
    (hlt : localCi < stream.chunkCount)
    (hfew : (gapResult cfg placed localCi nowMs).2.length ≤ maxRanges) (clock : Clock)
    (mmap : Bytes) :
    Silences P cfg r (dataFeedback P cfg clock nowMs sid localCi placed { r with mmap }).1
      (dataFeedback P cfg clock nowMs sid localCi placed { r with mmap }).2 := by
  obtain ⟨next, ranges, hnext, hprogress⟩ := exists_gapResult cfg placed localCi nowMs
  obtain ⟨seq, out, hout, -⟩ :=
    nacked_spec P cfg clock sid ranges { r with mmap, streams := r.streams.set sid next }
  have hnacked := @silences_nacked P cfg r sid localCi nowMs stream placed next ranges hget hplaced
    hlt hnext (by rwa [hnext] at hfew) hprogress clock mmap
  rw [hout] at hnacked
  rw [dataFeedback_of_gap P hnext, hout]
  dsimp only
  split
  · apply hnacked.congr
    · rw [silenced_setSinceAck, reply]
    · exact subset_append_left _ _
  · exact hnacked

section Placed

variable {pkt : Bytes} {dp : DataPayloadRef} {mmap : Bytes}
  (h : placeChunk P openFn cfg r pkt dp stream localCi = some (mmap, placed))
include h

lemma silenced_placeChunk : placed.silenced = stream.silenced := by
  rcases placeChunk_cases h with ⟨-, rfl⟩ | ⟨data, -, -, -, rfl⟩ <;> rfl

/-- The chunk that was placed is not in the window of its own report. -/
theorem length_gapResult_placed
    (hfew : Triggers stream localCi nowMs → (reportStarts stream localCi).length ≤ maxRanges) :
    (gapResult cfg placed localCi nowMs).2.length ≤ maxRanges := by
  rw [gapResult]
  split
  swap
  · exact Nat.zero_le _
  by_cases htrigger : Triggers { placed with sinceAck := placed.sinceAck + 1 } localCi nowMs
  · rw [length_detectGap htrigger]
    rcases placeChunk_cases h with ⟨-, rfl⟩ | ⟨data, -, -, -, rfl⟩
    · exact hfew (htrigger.congr rfl rfl rfl rfl)
    · have hsame : reportStarts (stream.markReceived localCi) localCi =
          reportStarts stream localCi := by
        refine runStarts_congr fun x hlow hhigh => ?_
        change windowStart stream + stream.chunkBase ≤ x at hlow
        change x < localCi + stream.chunkBase at hhigh
        simp only [unreported, markReceived, length_set, getD_eq_getElem?_getD]
        rw [getElem?_set_ne (by omega)]
      exact (congrArg List.length hsame).trans_le (hfew (htrigger.congr rfl rfl rfl rfl))
  · rw [detectGap_quiet htrigger]
    exact Nat.zero_le _

end Placed

variable (P cfg) in
/-- The stream and its chunk that a DATA datagram is about. -/
def addressed (r : Receiver) (pkt : Bytes) : Option (StreamRecvState × ℕ) :=
  (decodeDataInline (unmask P cfg r.keyEpoch pkt)).bind fun dp =>
    r.streams[dp.streamId.toNat]?.bind fun s =>
      (s.localChunkIndex dp.chunkIndex.toNat).map fun localCi => (s, localCi)

lemma silences_recvData (clock : Clock) {nowMs : ℕ} {pkt : Bytes} {r : Receiver}
    (hfew : ∀ x ∈ addressed P cfg r pkt, Triggers x.1 x.2 nowMs →
      (reportStarts x.1 x.2).length ≤ maxRanges) :
    Silences P cfg r (recvData P openFn cfg clock nowMs pkt r).1
      (recvData P openFn cfg clock nowMs pkt r).2 := by
  rcases recvData_cases P openFn cfg clock nowMs pkt r with
    hdrop | hnone | ⟨dp, stream, localCi, mmap, placed, hdp, hget, hlocal, hplace, hfed, -⟩
  · rw [hdrop]
    exact silences_of_map_eq _ rfl
  · rw [hnone]
    apply silences_of_map_eq
    rw [streams_completionCheck]
  · have hfits := hfew (stream, localCi)
      (by rw [addressed, hdp, bind_some, hget, bind_some, hlocal]; rfl)
    have hfeedback := silences_dataFeedback (P := P) hget (silenced_placeChunk hplace)
      (localChunkIndex_eq_some.mp hlocal).2 (length_gapResult_placed hplace hfits) clock mmap
    obtain ⟨seq, out, h, -⟩ := completionCheck_spec P cfg clock
      (dataFeedback P cfg clock nowMs dp.streamId.toNat localCi placed { r with mmap })
    rw [hfed, h]
    exact hfeedback.congr rfl (subset_append_left _ _)

variable (P cfg) in
/-- A report that a datagram makes due has no more runs of missing chunks to tell than the sender
has room for. -/
def ReportFits (r : Receiver) : RecvEvent → Prop
  | .datagram pkt _ nowMs => ∀ x ∈ addressed P cfg r pkt, Triggers x.1 x.2 nowMs →
      (reportStarts x.1 x.2).length ≤ maxRanges
  | _ => True

instance (r : Receiver) (ev : RecvEvent) : Decidable (ReportFits P cfg r ev) :=
  match ev with
  | .datagram pkt _ nowMs => inferInstanceAs (Decidable (∀ x ∈ addressed P cfg r pkt,
      Triggers x.1 x.2 nowMs → (reportStarts x.1 x.2).length ≤ maxRanges))
  | .ackTimer _ | .tailGrace | .peerInactive => .isTrue trivial

lemma silences_step {out : List Bytes} (hfits : ReportFits P cfg r ev)
    (h : r.step P openFn cfg ev = some (r', out)) : Silences P cfg r r' out := by
  cases Receiver.turn_of_step h with
  | data pkt clock nowMs _ => exact silences_recvData clock hfits
  | control pkt clock _ _ =>
    apply silences_of_map_eq
    rw [(controlTurn P openFn cfg clock pkt r).streams]
  | empty | tailGrace | peerInactive => exact silences_of_map_eq _ rfl
  | ackTimer clock => exact silences_of_map_eq _ (silenced_ackTimer clock r)

/-! ## Runs -/

variable (P openFn cfg) in
def sendingStep (a : Receiver × List Bytes) (ev : RecvEvent) : Option (Receiver × List Bytes) :=
  (a.1.step P openFn cfg ev).map fun p => (p.1, a.2 ++ p.2)

/-- Each silenced chunk of a stream was carried by a datagram, and the streams have the ranges they
had at the start. -/
structure Reported (P : Primitives) (cfg : RecvConfig) (start : Receiver)
    (a : Receiver × List Bytes) : Prop where
  carried : ∀ (sid : ℕ) (s : StreamRecvState), a.1.streams[sid]? = some s → ∀ pn ∈ s.nackedRanges,
    ∃ d ∈ a.2, Carries P cfg (s.chunkBase + s.chunkCount) sid pn d
  ranges : ∀ (sid : ℕ) (s : StreamRecvState), a.1.streams[sid]? = some s →
    ∃ s₀, start.streams[sid]? = some s₀ ∧ s.chunkBase = s₀.chunkBase ∧ s.chunkCount = s₀.chunkCount

lemma Reported.step {start : Receiver} {a b : Receiver × List Bytes} (h : Reported P cfg start a)
    (hfits : ReportFits P cfg a.1 ev)
    (hstep : sendingStep P openFn cfg a ev = some b) : Reported P cfg start b := by
  obtain ⟨p, hp, rfl⟩ := map_eq_some_iff.mp hstep
  have hsilences := silences_step hfits hp
  constructor
  · intro sid s' hs' pn hpn
    obtain ⟨s, hs, hbase, hcount, hnacked⟩ := hsilences sid s' hs'
    rw [hbase, hcount]
    rcases hnacked pn hpn with hold | ⟨d, hd, hcarries⟩
    · obtain ⟨d, hd, hcarries⟩ := h.carried sid s hs pn hold
      exact ⟨d, mem_append_left _ hd, hcarries⟩
    · exact ⟨d, mem_append_right _ hd, hcarries⟩
  · intro sid s' hs'
    obtain ⟨s, hs, hbase, hcount, -⟩ := hsilences sid s' hs'
    obtain ⟨s₀, hs₀, hbase₀, hcount₀⟩ := h.ranges sid s hs
    exact ⟨s₀, hs₀, hbase.trans hbase₀, hcount.trans hcount₀⟩

/-- Whatever arrives and in which order: if each chunk that makes a report due finds at most 90 runs
of missing chunks to report, each chunk recorded as NACKed is in a datagram that the sender
decodes. -/
theorem nacked_chunks_readable {start r : Receiver} {events : List RecvEvent} {sent : List Bytes}
    (hids : start.streams.length ≤ 2 ^ 32)
    (hstart : ∀ s ∈ start.streams, s.nackedRanges = [] ∧ s.chunkBase + s.chunkCount ≤ 2 ^ 64)
    (hrun : exec (sendingStep P openFn cfg) (start, []) events = some (r, sent))
    (hfits :
      Along (sendingStep P openFn cfg) (fun a ev => ReportFits P cfg a.1 ev) (start, []) events)
    {sid : ℕ} {s : StreamRecvState}
    (hs : r.streams[sid]? = some s) {pn : ℕ} (hpn : pn ∈ s.nackedRanges) :
    ∃ d ∈ sent, ReadAsNack P sid pn d := by
  have hfirst : Reported P cfg start (start, []) := by
    constructor
    · intro sid s hs pn hpn
      rw [(hstart s (mem_of_getElem? hs)).1] at hpn
      cases hpn
    · intro sid s hs
      exact ⟨s, hs, rfl, rfl⟩
  have hlast := hfits.invariant (fun _ _ _ h hfits hstep => h.step hfits hstep) hfirst hrun
  obtain ⟨d, hd, hcarries⟩ := hlast.carried sid s hs pn hpn
  obtain ⟨s₀, hs₀, hbase, hcount⟩ := hlast.ranges sid s hs
  obtain ⟨hlt, -⟩ := List.getElem?_eq_some_iff.mp hs₀
  refine ⟨d, hd, hcarries.readAsNack ?_ (by omega)⟩
  rw [hbase, hcount]
  exact (hstart s₀ (mem_of_getElem? hs₀)).2

def arrival (chunk nowMs : ℕ) : RecvEvent :=
  .datagram (encodeDataPacketInto nullPrimitives.crc32c 7 0 0 0 0 (UInt64.ofNat chunk) 0 [5])
    (fun _ => 0) nowMs

def gapConfig : RecvConfig := ⟨7, 1, 200, false, true, false, 128⟩

def gapStart : Receiver := .init 0 (List.replicate 200 0) [.new 0 200] none

lemma gapStart_fits : gapStart.streams.length ≤ 2 ^ 32 ∧
    ∀ s ∈ gapStart.streams, s.nackedRanges = [] ∧ s.chunkBase + s.chunkCount ≤ 2 ^ 64 := by
  refine ⟨by decide, ?_⟩
  intro s hs
  obtain rfl := mem_singleton.mp hs
  decide

theorem nacked_chunks_readable_two_gaps :
    ∃ r sent s, exec (sendingStep nullPrimitives dropTag gapConfig) (gapStart, [])
        [arrival 1 0, arrival 3 25] = some (r, sent) ∧
      r.streams[0]? = some s ∧ 2 ∈ s.nackedRanges ∧
      ∃ d ∈ sent, ReadAsNack nullPrimitives 0 2 d := by
  obtain ⟨⟨r, sent⟩, hrun, s, hs, hmem⟩ :
      ∃ a, exec (sendingStep nullPrimitives dropTag gapConfig) (gapStart, [])
        [arrival 1 0, arrival 3 25] = some a ∧
      ∃ s, a.1.streams[0]? = some s ∧ 2 ∈ s.nackedRanges := by
    decide +kernel
  exact ⟨r, sent, s, hrun, hs, hmem,
    nacked_chunks_readable gapStart_fits.1 gapStart_fits.2 hrun (by decide +kernel) hs hmem⟩

/-- Chunk 184 opens a gap, every second chunk before it comes in late, chunk 186 has the gap
reported: 93 ranges. -/
def lateFills : List RecvEvent :=
  [arrival 184 0] ++ (List.range 91).map (fun k => arrival (2 * k + 2) 1) ++ [arrival 186 25]

/-- Chunk 1 is missing and silenced, and nothing that was sent can be read. -/
theorem nacked_chunk_unreadable :
    ∃ r sent s, exec (sendingStep nullPrimitives dropTag gapConfig) (gapStart, [])
        lateFills = some (r, sent) ∧
      r.streams[0]? = some s ∧ 1 ∈ s.nackedRanges ∧ s.received.getD 1 false = false ∧
      ∀ d ∈ sent, ¬ ReadAsNack nullPrimitives 0 1 d := by
  obtain ⟨⟨r, sent⟩, hrun, hnone, s, hs, hnacked, hmissing⟩ :
      ∃ a, exec (sendingStep nullPrimitives dropTag gapConfig) (gapStart, []) lateFills = some a ∧
        (∀ d ∈ a.2, (decodePacket nullPrimitives.crc32c (d.take maxPacket)).toOption = none) ∧
        ∃ s, a.1.streams[0]? = some s ∧ 1 ∈ s.nackedRanges ∧ s.received.getD 1 false = false := by
    decide +kernel
  refine ⟨r, sent, s, hrun, hs, hnacked, hmissing, ?_⟩
  rintro d hd ⟨pkt, nack, hpkt, -⟩
  have hd' := hnone d hd
  rw [hpkt] at hd'
  cases hd'

end Favonius.Daemon
