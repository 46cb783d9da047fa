import Favonius.Client.Bookkeeping
import Favonius.Client.Isolation
import Favonius.Daemon.NackReports

/-!
# A NACK from the gap to the retransmit queue

The daemon scans the window behind a gap and reports the maximal runs of chunks that are missing
and not silenced.  The sender takes the report apart and queues the chunks of it that it still
has to send.
-/

namespace Favonius.Transfer

open Client Daemon Proto Spans List StreamRecvState
open UInt64 (ofNat toNat_ofNat')

/-! ## The ranges of a report -/

/-- A chunk of the window that is missing and not recorded as NACKed. -/
def Reportable (s : StreamRecvState) (gs ge pn : ℕ) : Prop :=
  ∃ l, pn = s.chunkBase + l ∧ gs ≤ l ∧ l < ge ∧ s.received.getD l false = false ∧
    pn ∉ s.nackedRanges

/-- The ranges of a report: the maximal runs of the chunks to report, ascending, with a chunk
between any two of them, inside the stream. -/
structure ExactReport (s : StreamRecvState) (gs ge : ℕ) (ranges : List (ℕ × ℕ)) : Prop where
  runs : ∀ p, p ∈ ranges ↔ MaximalRun (Reportable s gs ge) p
  ascending : ranges.Pairwise fun p q => p.2 + 1 < q.1
  inside : ∀ p ∈ ranges, s.chunkBase ≤ p.1 ∧ p.2 < s.chunkBase + s.chunkCount

variable {ge : ℕ}

lemma gapRanges_spec (s : StreamRecvState) (gs : ℕ) (hge : ge ≤ s.chunkCount) :
    Separated (gapRanges s gs ge) ∧
      ∀ pn, Reportable s gs ge pn ↔ Covers (gapRanges s gs ge) pn := by
  obtain ⟨hseparated, hcovers⟩ := separated_gapRanges s gs ge
  refine ⟨hseparated, fun pn => ?_⟩
  rw [hcovers pn]
  simp only [unreported, Bool.and_eq_true, decide_eq_true_eq, Bool.not_eq_true',
    contains_eq_mem, decide_eq_false_iff_not, s.received_length]
  constructor
  · rintro ⟨l, rfl, hgs, hlt, hmissing, hnew⟩
    rw [Nat.add_sub_cancel_left]
    exact ⟨by omega, by omega, ⟨by omega, hmissing⟩, hnew⟩
  · rintro ⟨hgs, hlt, ⟨-, hmissing⟩, hnew⟩
    exact ⟨pn - s.chunkBase, by omega, by omega, by omega, hmissing, hnew⟩

lemma exactReport_gapRanges (s : StreamRecvState) (gs : ℕ) (hge : ge ≤ s.chunkCount) :
    ExactReport s gs ge (gapRanges s gs ge) := by
  obtain ⟨hseparated, hcovers⟩ := gapRanges_spec s gs hge
  refine ⟨fun p => hseparated.mem_iff_maximalRun hcovers, hseparated.sorted, fun p hp => ?_⟩
  have hnonempty := hseparated.nonempty p hp
  obtain ⟨first, hfirst, -⟩ := (hcovers p.1).mpr ⟨p, hp, le_rfl, hnonempty⟩
  obtain ⟨last, hlast, -, hlt, -⟩ := (hcovers p.2).mpr ⟨p, hp, hnonempty, le_rfl⟩
  omega

/-! ## The report at the sender -/

section Sender

variable {nowUs : UInt32} {s : StreamState}

lemma nackPn_of_due {pn : ℕ} (h : nackIgnored nowUs s pn = false) (lost : List ℕ) :
    ∃ hlt, nackPn nowUs (s, lost) pn =
      (s.pushFront (ofNat pn - ofNat s.chunkBase).toNat hlt, lost ++ [pn]) := by
  simp only [nackIgnored, Bool.or_eq_false_iff, Bool.not_eq_false', bne_eq_false_iff_eq] at h
  obtain ⟨⟨hopen, hflag⟩, hrecent⟩ := h
  refine ⟨(StreamState.unacked_iff.mp hopen).1, ?_⟩
  dsimp only [nackPn]
  rw [dif_pos hopen, if_pos hflag]
  refine if_neg ?_
  rw [Bool.and_eq_false_iff, decide_eq_false_iff_not] at hrecent
  split
  · rename_i hlen
    rw [hrecent.resolve_left (not_not.mpr hlen)]
    exact Bool.false_ne_true
  · exact Bool.false_ne_true

lemma nackIgnored_pushFront {c pn : ℕ} (hlt : c < s.chunkCount)
    (hne : (ofNat pn - ofNat s.chunkBase).toNat ≠ c) :
    nackIgnored nowUs (s.pushFront c hlt) pn = nackIgnored nowUs s pn := by
  dsimp only [nackIgnored, StreamState.unacked, StreamState.pushFront]
  rw [StreamState.getD_flagRetx_of_ne hne]

/-- The chunks that are not ignored go to the front of the queue, each after the one before it. -/
theorem foldl_nackPn {pns : List ℕ} (hnodup : pns.Nodup) (s : StreamState)
    (hin : ∀ pn ∈ pns, s.chunkBase ≤ pn ∧ pn < 2 ^ 64) (lost : List ℕ) :
    let due := pns.filter fun pn => !nackIgnored nowUs s pn
    let swept := pns.foldl (nackPn nowUs) (s, lost)
    swept.2 = lost ++ due ∧
      swept.1.retxQueue = (due.map (· - s.chunkBase)).reverse ++ s.retxQueue := by
  induction pns generalizing s lost with
  | nil => simp
  | cons pn pns ih =>
    obtain ⟨hout, hrest⟩ := nodup_cons.mp hnodup
    obtain ⟨hpn, hlater⟩ := forall_mem_cons.mp hin
    cases hdue : nackIgnored nowUs s pn with
    | true =>
      rw [foldl_cons, nackPn_of_ignored hdue, filter_cons_of_neg (by simp [hdue])]
      exact ih hrest s hlater lost
    | false =>
      obtain ⟨hlt, hstep⟩ := nackPn_of_due hdue lost
      rw [foldl_cons, hstep, filter_cons_of_pos (by simp [hdue])]
      have hlocal := toNat_ofNat_sub_ofNat hpn.1 hpn.2
      have hsame : pns.filter (fun pn' => !nackIgnored nowUs (s.pushFront _ hlt) pn') =
          pns.filter fun pn' => !nackIgnored nowUs s pn' := by
        apply filter_congr
        intro pn' hpn'
        obtain ⟨hlow, hhigh⟩ := hlater pn' hpn'
        have hne : pn' ≠ pn := fun heq => hout (heq ▸ hpn')
        rw [nackIgnored_pushFront]
        rw [toNat_ofNat_sub_ofNat hlow hhigh, hlocal]
        omega
      obtain ⟨hlost, hqueue⟩ := ih hrest (s.pushFront _ hlt) hlater (lost ++ [pn])
      rw [hsame] at hlost hqueue
      refine ⟨by rw [hlost, append_assoc]; rfl, ?_⟩
      rw [hqueue, map_cons, reverse_cons, append_assoc]
      dsimp only [StreamState.pushFront]
      rw [hlocal]
      rfl

lemma foldl_nackRange {base count : ℕ} (hfit : base + count < 2 ^ 64) {ranges : List (ℕ × ℕ)}
    (hin : ∀ p ∈ ranges, base ≤ p.1 ∧ p.1 ≤ p.2 ∧ p.2 < base + count)
    (acc : StreamState × List ℕ) (hbase : acc.1.chunkBase = base)
    (hcount : acc.1.chunkCount = count) :
    (ranges.map fun p => (ofNat p.1, ofNat p.2)).foldl (nackRange nowUs) acc =
      (numbers ranges).foldl (nackPn nowUs) acc := by
  induction ranges generalizing acc with
  | nil => rfl
  | cons p ranges ih =>
    obtain ⟨⟨hlow, hle, hhigh⟩, hrest⟩ := forall_mem_cons.mp hin
    have hfirst : (ofNat p.1).toNat = p.1 := by
      rw [toNat_ofNat', Nat.mod_eq_of_lt (by omega)]
    have hlast : (ofNat p.2).toNat = p.2 := by
      rw [toNat_ofNat', Nat.mod_eq_of_lt (by omega)]
    have hrange : nackRange nowUs acc (ofNat p.1, ofNat p.2) =
        (List.range' p.1 (p.2 + 1 - p.1)).foldl (nackPn nowUs) acc := by
      dsimp only [nackRange]
      rw [hfirst, hlast, hbase, hcount, max_eq_left hlow, min_eq_left (by omega)]
    have hstate := ackState_nackRange nowUs acc (ofNat p.1, ofNat p.2)
    have hnext := ih hrest (nackRange nowUs acc (ofNat p.1, ofNat p.2))
      ((congrArg StreamState.AckState.chunkBase hstate).trans hbase)
      ((congrArg StreamState.AckState.chunkCount hstate).trans hcount)
    rw [map_cons, foldl_cons, hnext, hrange, numbers_cons, foldl_append]

lemma nackIgnored_eq_false_iff (h : s.Booked) {c : ℕ} (hc : c < s.chunkCount)
    (hfit : s.chunkBase + c < 2 ^ 64) : nackIgnored nowUs s (s.chunkBase + c) = false ↔
      s.acked.getD c false = false ∧ c ∉ s.retxQueue ∧ 50000 ≤ nowUs - s.sentUs.getD c 0 := by
  have hlocal : (ofNat (s.chunkBase + c) - ofNat s.chunkBase).toNat = c := by
    rw [toNat_ofNat_sub_ofNat (Nat.le_add_right _ _) hfit, Nat.add_sub_cancel_left]
  have hflag : s.flags.getD c 0 &&& chunkInRetx = 0 ↔ c ∉ s.retxQueue := by
    rw [← h.flagged c]
    exact not_not.symm
  simp only [nackIgnored, hlocal, Bool.or_eq_false_iff, Bool.not_eq_false', bne_eq_false_iff_eq,
    hflag, StreamState.unacked_iff, hc, true_and, Bool.and_eq_false_iff, decide_eq_false_iff_not,
    h.sentUs_length, not_true_eq_false, false_or, UInt32.not_lt, and_assoc]

end Sender

/-! ## From the gap to the queue -/

/-- A state that a stream of some transfer comes to. -/
def Reached (s : StreamState) : Prop :=
  ∃ totalChunks numStreams, ∃ start ∈ buildStreams totalChunks numStreams,
    ∃ ops, s = (start.run ops).1

variable {s : StreamState}

lemma Reached.booked (h : Reached s) : s.Booked := by
  obtain ⟨totalChunks, numStreams, start, hstart, ops, rfl⟩ := h
  have hmoves : Moves True (start, []) (start.run ops) := moves_run start ops fun _ _ _ => trivial
  exact (booked_buildStreams hstart).moves hmoves

/-- The two ends speak of the same chunks, and the numbers of these fit into 64 bits. -/
structure SameStream (recv : StreamRecvState) (s : StreamState) : Prop where
  base : recv.chunkBase = s.chunkBase
  count : recv.chunkCount = s.chunkCount
  fits : s.chunkBase + s.chunkCount < 2 ^ 64

def nackReport (sid : ℕ) (ranges : List (ℕ × ℕ)) : NackRange :=
  ⟨UInt32.ofNat sid, ranges.map fun r => (ofNat r.1, ofNat r.2)⟩

/-- A chunk of the window before `ge` that is reported, unacked, not queued and was sent at least
50 ms ago. -/
structure Due (recv : StreamRecvState) (ge : ℕ) (s : StreamState) (nowUs : UInt32) (c : ℕ) :
    Prop where
  reported : Reportable recv (windowStart recv) ge (recv.chunkBase + c)
  unacked : s.acked.getD c false = false
  notQueued : c ∉ s.retxQueue
  old : 50000 ≤ nowUs - s.sentUs.getD c 0

/-- The report brings the due chunks to the front of the queue, each once. -/
def QueuesDue (recv : StreamRecvState) (ge : ℕ) (s : StreamState) (streams : List StreamState)
    (sid : ℕ) (ranges : List (ℕ × ℕ)) (nowUs : UInt32) : Prop :=
  ∃ (s' : StreamState) (due : List ℕ), processNack (nackReport sid ranges).encode streams nowUs =
      (streams.set sid s', due.map (s.chunkBase + ·)) ∧
    s'.retxQueue = due.reverse ++ s.retxQueue ∧ due.Nodup ∧ ∀ c, c ∈ due ↔ Due recv ge s nowUs c

/-- The report has a 16-bit count: of `n` runs it announces the first `n % 65536`.  The due chunks
are all in these, before the start of the next run. -/
def CountReaches (recv : StreamRecvState) (ge : ℕ) (s : StreamState) (nowUs : UInt32) : Prop :=
  ∀ first ∈ (reportStarts recv ge)[(reportStarts recv ge).length % 65536]?, ∀ c,
    Due recv ge s nowUs c → recv.chunkBase + c < first

/-- The chunks that the sender takes from a report on the window before `ge`, which it reads up to
its count. -/
def queuedNumbers (recv : StreamRecvState) (ge : ℕ) (s : StreamState) (nowUs : UInt32) : List ℕ :=
  let ranges := gapRanges recv (windowStart recv) ge
  (numbers (ranges.take (ranges.length % 65536))).filter fun pn => !nackIgnored nowUs s pn

variable {recv : StreamRecvState} {streams : List StreamState} {sid : ℕ}

section Queued

variable (hsame : SameStream recv s) (hge : ge ≤ recv.chunkCount)
include hsame hge

lemma mem_queuedNumbers (hbooked : s.Booked) {nowUs : UInt32} {pn : ℕ} :
    pn ∈ queuedNumbers recv ge s nowUs ↔ ∃ c, pn = s.chunkBase + c ∧ Due recv ge s nowUs c ∧
      ∀ first ∈ (reportStarts recv ge)[(reportStarts recv ge).length % 65536]?, pn < first := by
  obtain ⟨hseparated, hcovers⟩ := separated_gapRanges recv (windowStart recv) ge
  obtain ⟨-, hreportable⟩ := gapRanges_spec recv (windowStart recv) hge
  have hlength : (gapRanges recv (windowStart recv) ge).length = (reportStarts recv ge).length := by
    rw [reportStarts, ← hseparated.map_fst hcovers, length_map]
  have hbase := hsame.base
  have hcount := hsame.count
  have hfits := hsame.fits
  rw [queuedNumbers, hlength, mem_filter, mem_numbers, hseparated.covers_take hcovers,
    ← hreportable, Bool.not_eq_true']
  constructor
  · rintro ⟨⟨hreported, hbefore⟩, hignored⟩
    obtain ⟨c, rfl, -, hlt, -⟩ := id hreported
    rw [hbase] at hignored
    obtain ⟨hopen, hqueue, hold⟩ :=
      (nackIgnored_eq_false_iff hbooked (by omega) (by omega)).mp hignored
    exact ⟨c, by rw [hbase], ⟨hreported, hopen, hqueue, hold⟩, hbefore⟩
  · rintro ⟨c, rfl, hdue, hbefore⟩
    have hreported := hdue.reported
    obtain ⟨l, hl, -, hlt, -⟩ := id hreported
    rw [hbase] at hreported
    exact ⟨⟨hreported, hbefore⟩, (nackIgnored_eq_false_iff hbooked (by omega) (by omega)).mpr
      ⟨hdue.unacked, hdue.notQueued, hdue.old⟩⟩

lemma processNack_report (hsid : sid < 2 ^ 32) (hget : streams[sid]? = some s) (nowUs : UInt32) :
    ∃ s', processNack (nackReport sid (gapRanges recv (windowStart recv) ge)).encode streams nowUs =
        (streams.set sid s', queuedNumbers recv ge s nowUs) ∧
      s'.retxQueue = ((queuedNumbers recv ge s nowUs).map (· - s.chunkBase)).reverse ++
        s.retxQueue := by
  obtain ⟨hseparated, -⟩ := separated_gapRanges recv (windowStart recv) ge
  obtain ⟨-, -, hinside⟩ := exactReport_gapRanges recv (windowStart recv) hge
  rw [hsame.base, hsame.count] at hinside
  have hfits := hsame.fits
  unfold queuedNumbers
  dsimp only
  generalize gapRanges recv (windowStart recv) ge = ranges at *
  have hsub : ranges.take (ranges.length % 65536) ⊆ ranges := take_subset _ _
  have hranges := @foldl_nackRange nowUs _ _ hfits (ranges.take (ranges.length % 65536))
    (fun p hp => ⟨(hinside p (hsub hp)).1, hseparated.nonempty p (hsub hp),
      (hinside p (hsub hp)).2⟩) (s, []) rfl rfl
  have hnumbers : ∀ pn ∈ numbers (ranges.take (ranges.length % 65536)),
      s.chunkBase ≤ pn ∧ pn < 2 ^ 64 := by
    intro pn hpn
    obtain ⟨p, hp, hfirst, hlast⟩ := mem_numbers.mp hpn
    have hends := hinside p (hsub hp)
    omega
  obtain ⟨hlost, hqueue⟩ := @foldl_nackPn nowUs _ (hseparated.take _).nodup_numbers s hnumbers []
  have hstream : (UInt32.ofNat sid).toNat = sid := by
    rw [UInt32.toNat_ofNat', Nat.mod_eq_of_lt hsid]
  refine ⟨_, ?_, hqueue⟩
  rw [processNack, NackRange.decode_encode_take]
  simp only [nackReport, length_map, hstream, hget, ← map_take, hranges, hlost, nil_append]

end Queued

/-- Whatever gap is reported, the ranges are exact, and the sender queues of the report what is
due, each chunk once, exactly if the count of the report reaches all of it. -/
theorem gap_report_exact_iff {recv : StreamRecvState} {s : StreamState} (hreached : Reached s)
    (hsame : SameStream recv s) {streams : List StreamState} {sid : ℕ} (hsid : sid < 2 ^ 32)
    (hget : streams[sid]? = some s) {localCi nowMs : ℕ} (hlocal : localCi < recv.chunkCount)
    (htrigger : Triggers recv localCi nowMs) (nowUs : UInt32) :
    ExactReport recv (windowStart recv) localCi (detectGap recv localCi nowMs).2 ∧
      (QueuesDue recv localCi s streams sid (detectGap recv localCi nowMs).2 nowUs ↔
        CountReaches recv localCi s nowUs) := by
  rw [detectGap_ranges htrigger]
  refine ⟨exactReport_gapRanges recv _ hlocal.le, ?_⟩
  have hmem := fun pn => @mem_queuedNumbers _ _ recv hsame hlocal.le hreached.booked nowUs pn
  obtain ⟨s', hprocess, hqueue⟩ := processNack_report hsame hlocal.le hsid hget nowUs
  have hglobal : ((queuedNumbers recv localCi s nowUs).map (· - s.chunkBase)).map
      (s.chunkBase + ·) = queuedNumbers recv localCi s nowUs := by
    rw [map_map]
    refine (map_congr_left fun pn hpn => ?_).trans (map_id _)
    obtain ⟨c, rfl, -⟩ := (hmem pn).mp hpn
    dsimp only [id, Function.comp_apply]
    omega
  constructor
  · rintro ⟨s'', due, hprocess', -, -, hdue⟩ first hfirst c hc
    have hsame' := (Prod.mk.inj (hprocess'.symm.trans hprocess)).2
    have hin : s.chunkBase + c ∈ queuedNumbers recv localCi s nowUs := by
      rw [← hsame']
      exact mem_map_of_mem ((hdue c).mpr hc)
    obtain ⟨c', -, -, hbefore⟩ := (hmem _).mp hin
    rw [hsame.base]
    exact hbefore first hfirst
  · intro hreach
    refine ⟨s', _, hprocess.trans (by rw [hglobal]), hqueue, ?_, fun c => ?_⟩
    · have hnodup : (queuedNumbers recv localCi s nowUs).Nodup :=
        ((separated_gapRanges ..).1.take _).nodup_numbers.filter _
      exact Nodup.of_map (s.chunkBase + ·) (by rwa [hglobal])
    · have hiff : c ∈ (queuedNumbers recv localCi s nowUs).map (· - s.chunkBase) ↔
          s.chunkBase + c ∈ queuedNumbers recv localCi s nowUs := by
        nth_rewrite 2 [← hglobal]
        exact (mem_map_of_injective (add_right_injective _)).symm
      rw [hiff, hmem]
      constructor
      · rintro ⟨c', heq, hdue, -⟩
        rwa [Nat.add_left_cancel heq]
      · intro hdue
        refine ⟨c, rfl, hdue, fun first hfirst => ?_⟩
        rw [← hsame.base]
        exact hreach first hfirst c hdue

def sampleGap : StreamRecvState :=
  (detectGap ((new 0 6).markReceived 1) 1 0).1.markReceived 4

def sampleSent : StreamState :=
  ((StreamState.new 0 0 6).run [.stage 10, .stage 20, .stage 30, .stage 40000]).1

theorem gap_report_exact_sample :
    (detectGap sampleGap 4 25).2 = [(0, 0), (2, 3)] ∧
      ExactReport sampleGap 0 4 [(0, 0), (2, 3)] ∧
      QueuesDue sampleGap 4 sampleSent [sampleSent] 0 [(0, 0), (2, 3)] 60000 := by
  have hreached : Reached sampleSent := ⟨6, 1, .new 0 0 6, by decide, _, rfl⟩
  have hranges : (detectGap sampleGap 4 25).2 = [(0, 0), (2, 3)] := by decide +kernel
  have hstarts : reportStarts sampleGap 4 = [0, 2] := by decide +kernel
  obtain ⟨hexact, hqueues⟩ := @gap_report_exact_iff sampleGap sampleSent hreached
    ⟨by decide +kernel, by decide +kernel, by decide +kernel⟩ [sampleSent] 0 (by decide) rfl 4 25
    (by decide +kernel) ⟨by decide +kernel, by decide +kernel⟩ 60000
  rw [hranges] at hexact hqueues
  refine ⟨hranges, hexact, hqueues.mpr fun first hfirst => ?_⟩
  rw [hstarts] at hfirst
  cases hfirst

/-! ## A report with more ranges than its count can say -/

/-- Of `2 * n + 3` chunks the odd ones were there before.  Chunk `2 * n` came at time zero, the
last one comes now. -/
def alternating (n : ℕ) : StreamRecvState where
  chunkBase := 0
  chunkCount := 2 * n + 3
  received := (List.range (2 * n + 3)).map fun l => decide (l % 2 = 1 ∨ 2 * n ≤ l)
  nReceived := n + 3
  contigPrefix := 0
  sinceAck := 2
  expectedNextLocal := 2 * n + 1
  gapCounter := 1
  gapStartLocal := some 0
  gapFirstSeen := some 0
  nackedRanges := []
  received_length := by rw [length_map, length_range]
  contig_le := Nat.zero_le _
  contig_received i hi := absurd hi (Nat.not_lt_zero i)

lemma reportable_alternating {n pn : ℕ} :
    Reportable (alternating n) 0 (2 * n + 2) pn ↔ pn % 2 = 0 ∧ pn < 2 * n := by
  have hreceived : ∀ l < 2 * n + 3, (alternating n).received.getD l false =
      decide (l % 2 = 1 ∨ 2 * n ≤ l) := by
    intro l hl
    rw [getD_eq_getElem?_getD, alternating, getElem?_map, getElem?_range hl]
    rfl
  constructor
  · rintro ⟨l, hl, -, hlt, hmissing, -⟩
    rw [hreceived l (by omega), decide_eq_false_iff_not] at hmissing
    have hbase : (alternating n).chunkBase = 0 := rfl
    omega
  · rintro ⟨heven, hlt⟩
    refine ⟨pn, (Nat.zero_add pn).symm, Nat.zero_le _, by omega, ?_, not_mem_nil⟩
    rw [hreceived pn (by omega), decide_eq_false_iff_not]
    omega

lemma gapRanges_alternating (n : ℕ) :
    gapRanges (alternating n) 0 (2 * n + 2) = (List.range n).map fun k => (2 * k, 2 * k) := by
  obtain ⟨hseparated, hcovers⟩ :=
    gapRanges_spec (alternating n) 0 (Nat.le_succ (2 * n + 2))
  refine hseparated.eq_of_covers ⟨?_, ?_⟩ fun pn => ?_
  · intro p hp
    obtain ⟨k, -, rfl⟩ := List.mem_map.mp hp
    exact le_rfl
  · refine pairwise_map.mpr (pairwise_lt_range.imp ?_)
    intro a b hab
    omega
  · rw [← hcovers pn, reportable_alternating]
    constructor
    · rintro ⟨heven, hlt⟩
      refine ⟨(pn, pn), List.mem_map.mpr ⟨pn / 2, mem_range.mpr (by omega), ?_⟩, le_rfl, le_rfl⟩
      have hhalf : 2 * (pn / 2) = pn := by omega
      rw [hhalf]
    · rintro ⟨p, hp, hfirst, hlast⟩
      obtain ⟨k, hk, rfl⟩ := List.mem_map.mp hp
      rw [mem_range] at hk
      omega

lemma processNack_wrapped (hsid : sid < 2 ^ 32) {ranges : List (ℕ × ℕ)}
    (hwrap : ranges.length % 65536 = 0) (hget : streams[sid]? = some s) (nowUs : UInt32) :
    processNack (nackReport sid ranges).encode streams nowUs = (streams, []) := by
  have hstream : (UInt32.ofNat sid).toNat = sid := by
    rw [UInt32.toNat_ofNat', Nat.mod_eq_of_lt hsid]
  obtain ⟨hlt, rfl⟩ := List.getElem?_eq_some_iff.mp hget
  rw [processNack, NackRange.decode_encode_take]
  simp only [nackReport, length_map, hwrap, take_zero, hstream, hget, foldl_nil, set_getElem_self]

/-- Of 65536 ranges none is read: chunk 0 is reported and due, and is not queued. -/
theorem report_count_wraps :
    ∃ recv s localCi nowMs nowUs, Reached s ∧ SameStream recv s ∧ localCi < recv.chunkCount ∧
      Triggers recv localCi nowMs ∧ (detectGap recv localCi nowMs).2.length = 65536 ∧
      (Reportable recv (windowStart recv) localCi 0 ∧ s.acked.getD 0 false = false ∧
        0 ∉ s.retxQueue ∧ 50000 ≤ nowUs - s.sentUs.getD 0 0) ∧
      processNack (nackReport 0 (detectGap recv localCi nowMs).2).encode [s] nowUs = ([s], []) := by
  obtain ⟨n, hn⟩ : ∃ n, n = 65536 := ⟨_, rfl⟩
  have hstart : StreamState.new 0 0 (2 * n + 3) ∈ buildStreams (2 * n + 3) 1 := by
    simp [buildStreams, streamRanges, Nat.mod_one]
  have htrigger : Triggers (alternating n) (2 * n + 2) 25 := ⟨Nat.lt_succ_self _, by
    simp [alternating, ageGap, gapDue]⟩
  have hranges := detectGap_ranges htrigger
  have hwindow : windowStart (alternating n) = 0 := rfl
  rw [hwindow, gapRanges_alternating] at hranges
  have hlength : (detectGap (alternating n) (2 * n + 2) 25).2.length = 65536 := by
    rw [hranges, length_map, length_range, hn]
  refine ⟨alternating n, .new 0 0 (2 * n + 3), 2 * n + 2, 25, 50000, ⟨_, _, _, hstart, [], rfl⟩,
    ⟨rfl, rfl, ?_⟩, Nat.lt_succ_self _, htrigger, hlength,
    ⟨reportable_alternating.mpr ⟨rfl, by omega⟩, ?_, not_mem_nil, ?_⟩, ?_⟩
  · dsimp only [StreamState.new]
    omega
  · simp [StreamState.new]
  · simp [StreamState.new]
  · exact processNack_wrapped (by decide) (by rw [hlength]) rfl 50000

end Favonius.Transfer
