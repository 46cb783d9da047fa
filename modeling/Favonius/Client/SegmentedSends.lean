import Favonius.Client.GsoSender

/-!
# Segmented sends

`GsoBatchSender` as it is in the source: one buffer with a count of segments and the length of a
short tail.  It behaves as the sender that knows the length of every pending packet, so what leaves
is what was staged.
-/

namespace Favonius.Client

open Execution ByteCodec SlotBuffer List Option

structure GsoBatchSender where
  buf : Bytes
  segmentSize : ℕ
  count : ℕ
  tailLen : Option ℕ
  batchCapacity : ℕ

namespace GsoBatchSender

def new (batchCapacity segmentSize : ℕ) : GsoBatchSender :=
  ⟨List.replicate (batchCapacity * segmentSize) 0, segmentSize, 0, none, batchCapacity⟩

variable (s : GsoBatchSender)

def isFull : Bool := s.batchCapacity ≤ s.count

def totalLen : ℕ :=
  if 1 < s.count then (s.count - 1) * s.segmentSize + s.tailLen.getD s.segmentSize
  else s.tailLen.getD s.segmentSize

/-- The datagrams of a flush whose send succeeds.  The kernel cuts at the segment size, which it is
told in 16 bits; a lone short packet is sent as it is.  `none` is a slice out of bounds. -/
def flush : Option (List Bytes × GsoBatchSender) :=
  if s.count = 0 then some ([], s)
  else if s.totalLen ≤ s.buf.length then
    some
      (if s.count = 1 ∧ s.tailLen.isSome then [s.buf.take s.totalLen]
        else segments (s.segmentSize % 2 ^ 16) s.buf.length (s.buf.take s.totalLen),
      { s with count := 0, tailLen := none })
  else none

def append (packet : Bytes) : Option GsoBatchSender :=
  let offset := s.count * s.segmentSize
  if offset + s.segmentSize ≤ s.buf.length ∧ packet.length ≤ s.segmentSize then
    some { s with
      buf := overwrite s.buf offset packet
      tailLen := if packet.length < s.segmentSize then some packet.length else none
      count := s.count + 1 }
  else none

/-- `none` is a full batch or a slice out of bounds. -/
def stage (packet : Bytes) : Option (List Bytes × GsoBatchSender) :=
  if s.isFull then none
  else if 0 < s.count ∧ (packet.length < s.segmentSize ∨ s.tailLen.isSome) then
    s.flush.bind fun r => (r.2.append packet).map (r.1, ·)
  else (s.append packet).map ([], ·)

def modifyLastPacket (f : InPlace UInt8) : Option GsoBatchSender :=
  if s.count = 0 then some s
  else
    let off := (s.count - 1) * s.segmentSize
    let len := s.tailLen.getD s.segmentSize
    if off + len ≤ s.buf.length then
      some { s with buf := overwrite s.buf off (f.1 (slice s.buf off len)) }
    else none

end GsoBatchSender

namespace SegmentSender

def toGso (g : SegmentSender) : GsoBatchSender :=
  ⟨g.slots.buf, g.slots.size, g.slots.lengths.length, g.tailLen, g.slots.capacity⟩

variable {g : SegmentSender}

lemma tailLen_getD {n : ℕ} (h : g.slots.lengths.getLast? = some n) :
    g.tailLen.getD g.slots.size = n := by
  have hfits := g.slots.fits n (mem_of_getLast? h)
  unfold tailLen
  rw [h, filter_some]
  by_cases hn : n < g.slots.size
  · simp [hn]
  · simpa [hn] using (not_lt.mp hn).antisymm hfits

lemma exists_last (h : g.slots.lengths.length ≠ 0) :
    ∃ n, g.slots.lengths.getLast? = some n ∧
      (g.slots.lengths.length - 1) * g.slots.size + n ≤ g.slots.buf.length := by
  obtain ⟨n, hn⟩ := isSome_iff_exists.mp
    (getLast?_isSome.mpr (length_pos_iff.mp (Nat.pos_of_ne_zero h)))
  have hcount := g.slots.count_le
  exact ⟨n, hn, g.slots.end_le (i := g.slots.lengths.length - 1) (by omega)
    (g.slots.fits n (mem_of_getLast? hn))⟩

lemma flush_toGso (hsize : g.slots.size < 2 ^ 16) :
    g.toGso.flush = some (g.flush, g.cleared.toGso) := by
  unfold GsoBatchSender.flush SegmentSender.flush
  by_cases hempty : g.slots.lengths.length = 0
  · have hnil := length_eq_zero_iff.mp hempty
    simp [toGso, cleared, Slots.clear, tailLen, hnil]
  obtain ⟨n, hn, hend⟩ := exists_last hempty
  have hle : g.toGso.totalLen ≤ g.toGso.buf.length := by
    unfold GsoBatchSender.totalLen toGso
    dsimp only
    rw [tailLen_getD hn]
    split
    · exact hend
    · omega
  have hsmall : g.toGso.segmentSize % 2 ^ 16 = g.slots.size := Nat.mod_eq_of_lt hsize
  have hcount : g.toGso.count ≠ 0 := hempty
  rw [hsmall, if_neg hcount, if_pos hle, if_neg hempty]
  rfl

lemma modifyLastPacket_toGso (f : InPlace UInt8) :
    g.toGso.modifyLastPacket f = some (g.modifyLast f).toGso := by
  unfold GsoBatchSender.modifyLastPacket
  by_cases hempty : g.slots.lengths.length = 0
  · have hmodify : g.slots.modifyLast f = g.slots := by
      unfold Slots.modifyLast
      split
      · rfl
      · rename_i n hn
        simp [length_eq_zero_iff.mp hempty] at hn
    have hcount : g.toGso.count = 0 := hempty
    rw [if_pos hcount]
    simp [toGso, modifyLast, tailLen, hmodify]
  · obtain ⟨n, hn, hend⟩ := exists_last hempty
    obtain ⟨hsize, hlengths⟩ := g.slots.modifyLast_fields f
    have hbuf : (g.slots.modifyLast f).buf = overwrite g.slots.buf
        ((g.slots.lengths.length - 1) * g.slots.size)
          (f.1 (slice g.slots.buf ((g.slots.lengths.length - 1) * g.slots.size) n)) := by
      unfold Slots.modifyLast
      split
      · rename_i hnone
        rw [hn] at hnone
        cases hnone
      · rename_i n' hn'
        obtain rfl := some.inj (hn.symm.trans hn')
        rfl
    have hcapacity : (g.slots.modifyLast f).capacity = g.slots.capacity := by
      unfold Slots.modifyLast
      split <;> rfl
    have hcount : g.toGso.count ≠ 0 := hempty
    rw [if_neg hcount]
    simp only [toGso, modifyLast, tailLen_getD hn, if_pos hend, hbuf, hcapacity, hsize, hlengths]
    simp only [tailLen, hsize, hlengths]

lemma append_toGso {g' : SegmentSender} {p : Bytes} (h : g.slots.push p = some g'.slots) :
    g.toGso.append p = some g'.toGso := by
  obtain ⟨hsize, hlengths, hfits⟩ := Slots.lengths_push h
  unfold Slots.push at h
  split at h
  · rename_i hroom
    have hend := g.slots.end_le hroom.1 le_rfl
    have hslots := some.inj h
    unfold GsoBatchSender.append toGso tailLen
    simp only [if_pos (And.intro hend hfits), ← hslots, getLast?_concat, filter_some,
      length_append, length_singleton, decide_eq_true_eq]
  · cases h

lemma stage_toGso (hsize : g.slots.size < 2 ^ 16) {p : Bytes}
    (hroom : g.toGso.isFull = false) (hfits : p.length ≤ g.slots.size) :
    ∃ sent g', g.stage p = some (sent, g') ∧ g.toGso.stage p = some (sent, g'.toGso) := by
  have hlt : g.slots.lengths.length < g.slots.capacity := not_le.mp (of_decide_eq_false hroom)
  obtain ⟨⟨sent, g'⟩, hstage⟩ := isSome_iff_exists.mp (g.stage_isSome hlt hfits)
  refine ⟨sent, g', hstage, ?_⟩
  unfold stage at hstage
  rw [if_neg (not_le.mpr hlt)] at hstage
  split at hstage
  · cases hstage
  rename_i b hpush
  obtain ⟨hsent, hg'⟩ := Prod.ext_iff.mp (some.inj hstage)
  have hslots : g'.slots = b := congrArg slots hg'.symm
  unfold GsoBatchSender.stage
  rw [hroom, if_neg Bool.false_ne_true]
  by_cases hflush : g.flushesBefore p = true
  · rw [if_pos hflush, ← hslots] at hpush
    have hfirst : 0 < g.toGso.count ∧ (p.length < g.toGso.segmentSize ∨
        g.toGso.tailLen.isSome = true) := of_decide_eq_true hflush
    rw [if_pos hfirst, flush_toGso hsize, bind_some, append_toGso (g := g.cleared) hpush]
    simpa [hflush] using hsent
  · rw [if_neg hflush, ← hslots] at hpush
    have hfirst : ¬(0 < g.toGso.count ∧ (p.length < g.toGso.segmentSize ∨
        g.toGso.tailLen.isSome = true)) := of_decide_eq_false (Bool.not_eq_true _ ▸ hflush)
    rw [if_neg hfirst, append_toGso hpush]
    simpa [hflush] using hsent

end SegmentSender

inductive GsoOp where
  | stage (packet : Bytes) (changes : List (InPlace UInt8))
  | flush

namespace GsoOp

def packets : GsoOp → List Bytes
  | stage packet changes => [changes.foldl (fun p f => f.1 p) packet]
  | flush => []

/-- Packets of at most a segment are staged, while the batch is not full. -/
def Allowed (s : GsoBatchSender × List Bytes) : GsoOp → Prop
  | stage packet _ => s.1.isFull = false ∧ packet.length ≤ s.1.segmentSize
  | flush => True

instance (s : GsoBatchSender × List Bytes) (op : GsoOp) : Decidable (Allowed s op) := by
  cases op <;> unfold Allowed <;> infer_instance

def step (s : GsoBatchSender × List Bytes) : GsoOp → Option (GsoBatchSender × List Bytes)
  | stage packet changes => do
    let (sent, staged) ← s.1.stage packet
    let changed ← changes.foldlM GsoBatchSender.modifyLastPacket staged
    return (changed, s.2 ++ sent)
  | flush => s.1.flush.map fun r => (r.2, s.2 ++ r.1)

end GsoOp

variable {g : SegmentSender}

lemma foldlM_modifyLastPacket (changes : List (InPlace UInt8)) {ps : List Bytes} {p : Bytes}
    (h : g.slots.packets = ps ++ [p]) :
    ∃ g' : SegmentSender, changes.foldlM GsoBatchSender.modifyLastPacket g.toGso = some g'.toGso ∧
      g'.slots.size = g.slots.size ∧
      g'.slots.packets = ps ++ [changes.foldl (fun p f => f.1 p) p] := by
  induction changes generalizing g p with
  | nil => exact ⟨g, rfl, rfl, h⟩
  | cons f changes ih =>
    obtain ⟨g', hrun, hsize, hpackets⟩ :=
      ih (g := g.modifyLast f) (Slots.packets_modifyLast f h)
    refine ⟨g', ?_, hsize.trans (g.slots.modifyLast_fields f).1, hpackets⟩
    rw [foldlM_cons, SegmentSender.modifyLastPacket_toGso]
    exact hrun

lemma exists_step (hsize : g.slots.size < 2 ^ 16) {out : List Bytes} {op : GsoOp}
    (hop : op.Allowed (g.toGso, out)) :
    ∃ (g' : SegmentSender) (out' : List Bytes),
      GsoOp.step (g.toGso, out) op = some (g'.toGso, out') ∧
      g'.slots.size = g.slots.size ∧
      out' ++ g'.slots.packets = out ++ g.slots.packets ++ op.packets := by
  cases op with
  | flush =>
    refine ⟨g.cleared, out ++ g.flush, ?_, rfl, ?_⟩
    · rw [GsoOp.step, SegmentSender.flush_toGso hsize]
      rfl
    · rw [SegmentSender.flush_eq]
      simp [SegmentSender.cleared, GsoOp.packets]
  | stage packet changes =>
    obtain ⟨sent, g₁, hstage, hgso⟩ := SegmentSender.stage_toGso hsize hop.1 hop.2
    obtain ⟨ps, hpackets, hsent⟩ := SegmentSender.pending_stage hstage
    obtain ⟨g₂, hchanges, hsize₂, hpackets₂⟩ := foldlM_modifyLastPacket changes hpackets
    refine ⟨g₂, out ++ sent, ?_, hsize₂.trans (SegmentSender.size_stage hstage), ?_⟩
    · simp only [GsoOp.step, hgso, bind_eq_bind, bind_some, hchanges]
      rfl
    · rw [hpackets₂, ← hsent]
      simp [GsoOp.packets]

lemma exists_exec_ops (hsize : g.slots.size < 2 ^ 16) {out : List Bytes} {ops : List GsoOp}
    (hops : Along GsoOp.step GsoOp.Allowed (g.toGso, out) ops) :
    ∃ (g' : SegmentSender) (out' : List Bytes),
      exec GsoOp.step (g.toGso, out) ops = some (g'.toGso, out') ∧
      g'.slots.size = g.slots.size ∧
      out' ++ g'.slots.packets = out ++ g.slots.packets ++ ops.flatMap GsoOp.packets := by
  induction ops generalizing g out with
  | nil => exact ⟨g, out, rfl, rfl, by simp⟩
  | cons op ops ih =>
    obtain ⟨hop, hrest⟩ := hops
    obtain ⟨g₁, out₁, hstep, hsize₁, hpackets₁⟩ := exists_step hsize hop
    obtain ⟨g₂, out₂, hrun, hsize₂, hpackets₂⟩ := ih (hsize₁ ▸ hsize) (hrest _ hstep)
    refine ⟨g₂, out₂, exec_cons_eq_some.mpr ⟨_, hstep, hrun⟩, hsize₂.trans hsize₁, ?_⟩
    rw [hpackets₂, hpackets₁, flatMap_cons, append_assoc]

def SegmentSender.start (batchCapacity segmentSize : ℕ) (h : 0 < segmentSize) : SegmentSender where
  slots := ⟨segmentSize, batchCapacity, List.replicate (batchCapacity * segmentSize) 0, [],
    length_replicate, Nat.zero_le _, fun _ h => absurd h not_mem_nil⟩
  size_pos := h
  uniform := .inl rfl

/-- Whatever is staged, changed and flushed in between, what has left after a last flush are the
packets as they were changed, in order. -/
theorem segmented_sends_transparent {segmentSize : ℕ} (hpos : 1 ≤ segmentSize)
    (hsize : segmentSize ≤ 65535) (batchCapacity : ℕ) {ops : List GsoOp}
    (hops : Along GsoOp.step GsoOp.Allowed (.new batchCapacity segmentSize, []) ops) :
    ∃ s out, exec GsoOp.step (.new batchCapacity segmentSize, []) ops = some (s, out) ∧
      ∃ last s', s.flush = some (last, s') ∧ out ++ last = ops.flatMap GsoOp.packets := by
  have hstart : (SegmentSender.start batchCapacity segmentSize hpos).toGso =
      .new batchCapacity segmentSize := rfl
  rw [← hstart] at hops ⊢
  obtain ⟨g, out, hrun, hsame, hpackets⟩ := exists_exec_ops (Nat.lt_succ_of_le hsize) hops
  refine ⟨_, out, hrun, g.flush, _, SegmentSender.flush_toGso ?_, ?_⟩
  · rw [hsame]
    exact Nat.lt_succ_of_le hsize
  · rw [SegmentSender.flush_eq, hpackets]
    rfl

lemma length_map_succ (bs : Bytes) : (bs.map (· + 1)).length = bs.length := length_map _

theorem segmented_sends_transparent_three :
    ∃ s out, exec GsoOp.step (.new 2 2, [])
        [.stage [1, 2] [⟨List.map (· + 1), length_map_succ⟩], .stage [3, 4] [], .flush,
          .stage [5] []] = some (s, out) ∧
      ∃ last s', s.flush = some (last, s') ∧ out ++ last = [[2, 3], [3, 4], [5]] :=
  segmented_sends_transparent (by decide) (by decide) 2 (by decide +kernel)

end Favonius.Client
