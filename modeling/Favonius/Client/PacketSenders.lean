import Favonius.Client.Packets
import Favonius.Lib.Execution
import Favonius.Lib.SlotLine
import Mathlib.Data.List.ModifyLast

/-!
# The senders of data packets

A data packet is encoded into a buffer of the sending backend; flag and header protection are
applied to it before it is staged, or to the last staged packet in two steps, or in the slot of
the paced sender before the slot is published.  The buffers are used again and again, with what
earlier packets left in them.
-/

namespace Favonius.Client

open Function Execution ByteCodec SlotBuffer SlotLine Proto Crypto List Option
open HeaderTransforms Slots

variable (P : Primitives)

/-! ## In-place header transforms -/

lemma length_updateCrc (crc32c : Bytes → UInt32) (header : Bytes) :
    (updateCrc crc32c header).length = header.length := by
  unfold updateCrc
  split
  · rfl
  · simp [headerSize] at *
    omega

lemma length_orFlags (flags : UInt16) {pkt : Bytes} (h : headerSize ≤ pkt.length) :
    (orFlags P flags pkt).length = pkt.length := by
  rw [orFlags, length_updateCrc]
  simp [headerSize] at *
  omega

lemma HeaderTransforms.length_apply (t : HeaderTransforms) (pkt : Bytes) :
    (t.apply P pkt).length = pkt.length := by
  have hflags : (if t.flags ≠ 0 ∧ headerSize ≤ pkt.length then orFlags P t.flags pkt
      else pkt).length = pkt.length := by
    split
    · rename_i h
      exact length_orFlags P t.flags h.2
    · rfl
  unfold apply
  generalize (if t.flags ≠ 0 ∧ headerSize ≤ pkt.length then orFlags P t.flags pkt else pkt) =
    flagged at hflags
  cases t.hp with
  | none => exact hflags
  | some key =>
    dsimp only
    split
    · rename_i h
      rw [length_protect P.aes128 key h, hflags]
    · exact hflags

def HeaderTransforms.inPlace (t : HeaderTransforms) : InPlace UInt8 :=
  ⟨t.apply P, t.length_apply P⟩

lemma HeaderTransforms.apply_hp_apply_flags (t : HeaderTransforms) (pkt : Bytes) :
    (⟨t.hp, 0⟩ : HeaderTransforms).apply P ((⟨none, t.flags⟩ : HeaderTransforms).apply P pkt) =
      t.apply P pkt := by
  simp [apply]

/-! ## Batches -/

/-- Linux GSO and Windows USO: the buffer is cut at the segment size when it is sent, so only a
lone packet may be short. -/
structure SegmentSender where
  slots : Slots UInt8
  size_pos : 0 < slots.size
  uniform : slots.lengths = List.replicate slots.lengths.length slots.size ∨
    ∃ n < slots.size, slots.lengths = [n]

namespace SegmentSender

variable (g : SegmentSender)

def tailLen : Option ℕ := g.slots.lengths.getLast?.filter (· < g.slots.size)

def totalLen : ℕ :=
  let count := g.slots.lengths.length
  if 1 < count then (count - 1) * g.slots.size + g.tailLen.getD g.slots.size
  else g.tailLen.getD g.slots.size

def flush : List Bytes :=
  let count := g.slots.lengths.length
  if count = 0 then []
  else if count = 1 ∧ g.tailLen.isSome then [g.slots.buf.take g.totalLen]
  else segments g.slots.size g.slots.buf.length (g.slots.buf.take g.totalLen)

/-- What is pending is sent first when a short packet comes behind others or anything comes
behind a short packet. -/
def flushesBefore (p : Bytes) : Bool :=
  0 < g.slots.lengths.length ∧ (p.length < g.slots.size ∨ g.tailLen.isSome)

variable {g}

lemma tailLen_of_full
    (h : g.slots.lengths = List.replicate g.slots.lengths.length g.slots.size) :
    g.tailLen = none := by
  unfold tailLen
  rw [h, getLast?_replicate]
  split <;> simp

lemma tailLen_of_short {n : ℕ} (hn : n < g.slots.size) (h : g.slots.lengths = [n]) :
    g.tailLen = some n := by
  simp [tailLen, h, hn]

variable {p : Bytes}

lemma uniform_of_push {b : Slots UInt8}
    (h : (if g.flushesBefore p then g.slots.clear else g.slots).push p = some b) :
    0 < b.size ∧ (b.lengths = List.replicate b.lengths.length b.size ∨
      ∃ n < b.size, b.lengths = [n]) := by
  obtain ⟨hsize, hlengths, hfits⟩ := lengths_push h
  have hclear : g.slots.clear.size = g.slots.size := rfl
  rw [apply_ite Slots.size, hclear, ite_self] at hsize hfits
  have hfirst (hone : b.lengths = [p.length]) :
      b.lengths = List.replicate b.lengths.length b.size ∨ ∃ n < b.size, b.lengths = [n] := by
    rcases Nat.lt_or_eq_of_le hfits with hshort | hfull
    · exact .inr ⟨p.length, hsize ▸ hshort, hone⟩
    · left
      rw [hone, hsize, hfull]
      rfl
  refine ⟨hsize ▸ g.size_pos, ?_⟩
  by_cases hflush : g.flushesBefore p
  · rw [if_pos hflush] at hlengths
    exact hfirst hlengths
  · rw [if_neg hflush] at hlengths
    simp only [flushesBefore, decide_eq_true_eq, not_and_or, not_or, not_lt, Nat.le_zero] at hflush
    rcases hflush with hempty | ⟨hfull, htail⟩
    · rw [length_eq_zero_iff.mp hempty] at hlengths
      exact hfirst hlengths
    · left
      have hp : p.length = g.slots.size := le_antisymm hfits hfull
      rcases g.uniform with hall | ⟨n, hn, hone⟩
      · rw [hlengths, hsize, hp, length_append, length_singleton, replicate_succ']
        rw [← hall]
      · rw [tailLen_of_short hn hone] at htail
        exact absurd rfl htail

lemma flush_eq : g.flush = g.slots.packets := by
  unfold flush
  dsimp only
  split
  · rename_i hempty
    simp [packets, length_eq_zero_iff.mp hempty]
  rcases g.uniform with hall | ⟨n, hn, hone⟩
  · have htail := tailLen_of_full hall
    have htotal : g.totalLen = g.slots.lengths.length * g.slots.size := by
      unfold totalLen
      rw [htail, getD_none]
      dsimp only
      split
      · rw [← Nat.add_one_mul, Nat.sub_add_cancel (by omega)]
      · have : g.slots.lengths.length = 1 := by omega
        rw [this, Nat.one_mul]
    have hle : g.slots.lengths.length * g.slots.size ≤ g.slots.buf.length := by
      rw [g.slots.length_buf]
      exact Nat.mul_le_mul_right _ g.slots.count_le
    rw [htail, if_neg (by simp), htotal, segments_take g.size_pos ?_ hle, ← hall]
    · rfl
    · calc g.slots.lengths.length ≤ g.slots.lengths.length * g.slots.size :=
          Nat.le_mul_of_pos_right _ g.size_pos
        _ ≤ g.slots.buf.length := hle
  · have htail := tailLen_of_short hn hone
    have htotal : g.totalLen = n := by
      simp [totalLen, htail, hone]
    rw [if_pos ⟨by rw [hone]; rfl, by rw [htail]; rfl⟩, htotal]
    simp [packets, hone, slice]

variable (g)

/-- `none` when the batch is full or the packet is longer than a segment. -/
def stage (p : Bytes) : Option (List Bytes × SegmentSender) :=
  if g.slots.capacity ≤ g.slots.lengths.length then none
  else
    match h : (if g.flushesBefore p then g.slots.clear else g.slots).push p with
    | none => none
    | some b => some (if g.flushesBefore p then g.flush else [],
        ⟨b, (uniform_of_push h).1, (uniform_of_push h).2⟩)

def modifyLast (f : InPlace UInt8) : SegmentSender where
  slots := g.slots.modifyLast f
  size_pos := (g.slots.modifyLast_fields f).1 ▸ g.size_pos
  uniform := by
    rw [(g.slots.modifyLast_fields f).1, (g.slots.modifyLast_fields f).2]
    exact g.uniform

lemma pending_stage {g g' : SegmentSender} {sent : List Bytes} (h : g.stage p = some (sent, g')) :
    ∃ ps, g'.slots.packets = ps ++ [p] ∧ sent ++ ps = g.slots.packets := by
  unfold stage at h
  split at h
  · cases h
  split at h
  · cases h
  rename_i b hpush
  cases h
  refine ⟨_, packets_push hpush, ?_⟩
  split
  · rw [packets_clear, append_nil, flush_eq]
  · rfl

lemma stage_isSome (hroom : g.slots.lengths.length < g.slots.capacity)
    (hfits : p.length ≤ g.slots.size) : (g.stage p).isSome := by
  have hpush : ((if g.flushesBefore p then g.slots.clear else g.slots).push p).isSome := by
    split
    · have : 0 < g.slots.capacity ∧ p.length ≤ g.slots.size := ⟨by omega, hfits⟩
      simp [push, clear, this]
    · simp [push, hroom, hfits]
  unfold stage
  rw [if_neg (not_le.mpr hroom)]
  split
  · rename_i h
    rw [h] at hpush
    cases hpush
  · rfl

end SegmentSender

/-- The batching backends: GSO and USO cut their buffer into segments, sendmmsg and io_uring have
one slot for each packet, the sendto loop and the parallel sendmsg keep a list of packets, of
which the last one hands its packets to other threads. -/
inductive BatchSender where
  | segmented (g : SegmentSender)
  | slotted (b : Slots UInt8)
  | listed (capacity : ℕ) (packets : List Bytes) (postStageMutation : Bool)

namespace BatchSender

def supportsPostStageMutation : BatchSender → Bool
  | segmented _ | slotted _ => true
  | listed _ _ postStageMutation => postStageMutation

/-- With the packets that leave meanwhile; `none` stands for the panic of a stage that fails. -/
def stage (p : Bytes) : BatchSender → Option (List Bytes × BatchSender)
  | segmented g => (g.stage p).map fun r => (r.1, segmented r.2)
  | slotted b => (b.push p).map fun b' => ([], slotted b')
  | listed capacity packets postStageMutation =>
    if capacity ≤ packets.length then none
    else some ([], listed capacity (packets ++ [p]) postStageMutation)

def modifyLastPacket (f : InPlace UInt8) : BatchSender → BatchSender
  | segmented g => segmented (g.modifyLast f)
  | slotted b => slotted (b.modifyLast f)
  | listed capacity packets true => listed capacity (packets.modifyLast f.1) true
  | listed capacity packets false => listed capacity packets false

def flush : BatchSender → List Bytes
  | segmented g => g.flush
  | slotted b => b.packets
  | listed _ packets _ => packets

def Accepts (n : ℕ) : BatchSender → Prop
  | segmented g => g.slots.lengths.length < g.slots.capacity ∧ n ≤ g.slots.size
  | slotted b => b.lengths.length < b.capacity ∧ n ≤ b.size
  | listed capacity packets _ => packets.length < capacity

/-- `stage_data`, then the flag and the header protection of the last packet. -/
def sendData (t : HeaderTransforms) (pkt : Bytes) (s : BatchSender) :
    Option (List Bytes × BatchSender) :=
  (s.stage (if s.supportsPostStageMutation then pkt else t.apply P pkt)).map fun r =>
    let s' := if t.flags ≠ 0 then
        r.2.modifyLastPacket (inPlace P ⟨none, t.flags⟩)
      else r.2
    match t.hp with
    | some key => (r.1, s'.modifyLastPacket (inPlace P ⟨some key, 0⟩))
    | none => (r.1, s')

variable {s s' : BatchSender} {p : Bytes} {sent ps : List Bytes}

lemma flush_stage (h : s.stage p = some (sent, s')) :
    s'.supportsPostStageMutation = s.supportsPostStageMutation ∧
      ∃ ps, s'.flush = ps ++ [p] ∧ sent ++ ps = s.flush := by
  cases s with
  | segmented g =>
    obtain ⟨⟨sent', g'⟩, hstage, hr⟩ := map_eq_some_iff.mp h
    cases hr
    obtain ⟨ps, hpending, hsent⟩ := SegmentSender.pending_stage hstage
    exact ⟨rfl, ps, SegmentSender.flush_eq.trans hpending, hsent.trans SegmentSender.flush_eq.symm⟩
  | slotted b =>
    obtain ⟨b', hpush, hr⟩ := map_eq_some_iff.mp h
    cases hr
    exact ⟨rfl, b.packets, packets_push hpush, rfl⟩
  | listed capacity packets postStageMutation =>
    simp only [stage] at h
    split at h <;> cases h
    exact ⟨rfl, packets, rfl, rfl⟩

lemma flush_modifyLastPacket (hmut : s.supportsPostStageMutation = true) (f : InPlace UInt8)
    (h : s.flush = ps ++ [p]) : (s.modifyLastPacket f).flush = ps ++ [f.1 p] := by
  cases s with
  | segmented g =>
    have hpackets := SegmentSender.flush_eq.symm.trans h
    exact SegmentSender.flush_eq.trans (packets_modifyLast f hpackets)
  | slotted b => exact packets_modifyLast f h
  | listed capacity packets postStageMutation =>
    cases hmut
    obtain rfl : packets = ps ++ [p] := h
    exact modifyLast_concat f.1 p ps

lemma supports_modifyLastPacket (f : InPlace UInt8) :
    (s.modifyLastPacket f).supportsPostStageMutation = s.supportsPostStageMutation := by
  cases s with
  | segmented | slotted => rfl
  | listed capacity packets postStageMutation => cases postStageMutation <;> rfl

lemma modifyLastPacket_of_not (hmut : s.supportsPostStageMutation = false) (f : InPlace UInt8) :
    s.modifyLastPacket f = s := by
  cases s with
  | segmented | slotted => cases hmut
  | listed capacity packets postStageMutation =>
    cases hmut
    rfl

variable {t : HeaderTransforms} {pkt : Bytes}

lemma flush_sendData (h : s.sendData P t pkt = some (sent, s')) :
    sent ++ s'.flush = s.flush ++ [t.apply P pkt] := by
  obtain ⟨⟨sent', r⟩, hstage, hr⟩ := map_eq_some_iff.mp h
  obtain ⟨hsame, ps, hflush, hsent⟩ := flush_stage hstage
  cases hmut : s.supportsPostStageMutation with
  | false =>
    rw [hmut] at hsame
    rw [hmut, if_neg Bool.false_ne_true] at hflush
    simp only [modifyLastPacket_of_not hsame, ite_self] at hr
    have hpair : (sent', r) = (sent, s') := by
      cases hhp : t.hp <;> simpa only [hhp] using hr
    cases hpair
    rw [hflush, ← append_assoc, hsent]
  | true =>
    rw [hmut] at hsame
    rw [hmut, if_pos rfl] at hflush
    have hflagged : (if t.flags ≠ 0 then
        r.modifyLastPacket (inPlace P ⟨none, t.flags⟩) else r).flush =
          ps ++ [(⟨none, t.flags⟩ : HeaderTransforms).apply P pkt] := by
      split
      · exact flush_modifyLastPacket hsame _ hflush
      · rename_i hzero
        rw [hflush, not_not.mp hzero]
        rfl
    have hsupports : (if t.flags ≠ 0 then
        r.modifyLastPacket (inPlace P ⟨none, t.flags⟩)
          else r).supportsPostStageMutation = true := by
      split
      · rw [supports_modifyLastPacket, hsame]
      · exact hsame
    have htwo := t.apply_hp_apply_flags P pkt
    cases hhp : t.hp with
    | none =>
      simp only [hhp, Prod.mk.injEq] at hr
      obtain ⟨rfl, rfl⟩ := hr
      rw [hhp] at htwo
      rw [hflagged, ← append_assoc, hsent, ← htwo]
      rfl
    | some key =>
      simp only [hhp, Prod.mk.injEq] at hr
      obtain ⟨rfl, rfl⟩ := hr
      rw [flush_modifyLastPacket hsupports _ hflagged, ← append_assoc, hsent, ← htwo, hhp]
      rfl

lemma sendData_isSome (h : s.Accepts pkt.length) : (s.sendData P t pkt).isSome := by
  have hlen : (if s.supportsPostStageMutation then pkt else t.apply P pkt).length = pkt.length := by
    split
    · rfl
    · exact t.length_apply P pkt
  rw [sendData, isSome_map]
  generalize (if s.supportsPostStageMutation then pkt else t.apply P pkt) = p at hlen
  cases s with
  | segmented g =>
    simp only [stage, isSome_map]
    exact g.stage_isSome h.1 (hlen ▸ h.2)
  | slotted b =>
    have hroom : b.lengths.length < b.capacity ∧ p.length ≤ b.size := ⟨h.1, hlen ▸ h.2⟩
    simp [stage, push, hroom]
  | listed capacity packets postStageMutation =>
    rw [stage, if_neg (not_le.mpr h)]
    rfl

end BatchSender

/-! ## The paced sender -/

inductive SlotState where
  | free
  | writing
  | ready
  | sending
  deriving DecidableEq

structure PacedSender where
  slotSize : ℕ
  slotCount : ℕ
  buf : Bytes
  lens : ℕ → ℕ
  states : ℕ → SlotState
  writeHead : ℕ
  claimed : Option ℕ
  queue : List ℕ
  current : Option ℕ
  sent : List Bytes

/-- The sender claims a slot, then writes and publishes the packet; the pacer thread takes a slot
from the queue, then sends from it and frees it.  Any number of steps of the one may lie between
two steps of the other. -/
inductive PacedEvent where
  | claim
  | publish (t : HeaderTransforms) (pkt : Bytes) (queueFull : Bool)
  | take
  | transmit

namespace PacedSender

def step (s : PacedSender) : PacedEvent → Option PacedSender
  | .claim =>
    if s.claimed.isSome then none
    else
      let moved := { s with writeHead := (s.writeHead + 1) % s.slotCount }
      -- a slot the pacer still owns: the packet is dropped
      if s.states s.writeHead ≠ .free then some moved
      else some { moved with
        states := update s.states s.writeHead .writing
        claimed := some s.writeHead }
  | .publish t pkt queueFull =>
    match s.claimed with
    | none => none
    | some slot =>
      if s.slotSize < pkt.length then none
      else some { s with
        buf := overwrite s.buf (slot * s.slotSize) (t.apply P pkt)
        lens := update s.lens slot pkt.length
        states := update s.states slot (if queueFull then .free else .ready)
        claimed := none
        queue := if queueFull then s.queue else s.queue ++ [slot] }
  | .take =>
    match s.current, s.queue with
    | none, slot :: rest =>
      if s.states slot = .ready then
        some { s with
          states := update s.states slot .sending
          queue := rest
          current := some slot }
      else some { s with queue := rest }
    | _, _ => none
  | .transmit =>
    match s.current with
    | none => none
    | some slot => some { s with
        states := update s.states slot .free
        current := none
        sent := s.sent ++ [slice s.buf (slot * s.slotSize) (s.lens slot)] }

def line (s : PacedSender) : List (ℕ × SlotState) :=
  s.current.toList.map (·, .sending) ++ s.queue.map (·, .ready) ++
    s.claimed.toList.map (·, .writing)

/-- Every slot that is queued or being sent has one of the packets `wires`, and so has all that
was sent. -/
structure Inv (wires : Set Bytes) (s : PacedSender) : Prop where
  length_buf : s.buf.length = s.slotCount * s.slotSize
  writeHead_lt : s.writeHead < s.slotCount
  line : Agrees s.slotCount s.states s.line
  filled : ∀ slot ∈ s.current.toList ++ s.queue,
    s.lens slot ≤ s.slotSize ∧ slice s.buf (slot * s.slotSize) (s.lens slot) ∈ wires
  sent : ∀ d ∈ s.sent, d ∈ wires

variable {P} {wires : Set Bytes} {s s' : PacedSender}

section

variable (hs : Inv wires s)
include hs

lemma Inv.publish {wire : Bytes} {slot : ℕ} (hclaimed : s.claimed = some slot)
    (hfits : wire.length ≤ s.slotSize) (hwire : wire ∈ wires) (queueFull : Bool) :
    Inv wires { s with
      buf := overwrite s.buf (slot * s.slotSize) wire
      lens := update s.lens slot wire.length
      states := update s.states slot (if queueFull then .free else .ready)
      claimed := none
      queue := if queueFull then s.queue else s.queue ++ [slot] } := by
  have hline := hs.line
  rw [PacedSender.line, hclaimed] at hline
  obtain ⟨hslot, -⟩ := hline.state (slot, .writing) (by simp)
  have hend := slot_end_le hslot hfits
  have hold : ∀ i ∈ s.current.toList ++ s.queue,
      update s.lens slot wire.length i ≤ s.slotSize ∧
        slice (overwrite s.buf (slot * s.slotSize) wire) (i * s.slotSize)
          (update s.lens slot wire.length i) ∈ wires := by
    intro i hi
    have hne : i ≠ slot := by
      rcases mem_append.mp hi with hi | hi
      · exact hline.ne_of_mem (show (i, .sending) ∈ _ by simp_all)
      · exact hline.ne_of_mem (show (i, .ready) ∈ _ by simp_all)
    obtain ⟨hlen, hmem⟩ := hs.filled i hi
    rw [update_of_ne hne, slice_other hs.length_buf hslot hfits hne hlen]
    exact ⟨hlen, hmem⟩
  refine ⟨(length_overwrite (hs.length_buf ▸ hend)).trans hs.length_buf, hs.writeHead_lt, ?_, ?_,
    hs.sent⟩
  · cases queueFull with
    | true => simpa [PacedSender.line] using hline.release .free
    | false => simpa [PacedSender.line] using hline.replace .ready
  · cases queueFull with
    | true => exact hold
    | false =>
      dsimp only
      rw [if_neg Bool.false_ne_true, ← append_assoc, forall_mem_append, forall_mem_singleton,
        update_self, slice_overwrite_self (hs.length_buf ▸ Nat.mul_le_mul_right _ hslot.le)]
      exact ⟨hold, hfits, hwire⟩

lemma Inv.claim (h : s.step P .claim = some s') : Inv wires s' := by
  have hmoved : Inv wires { s with writeHead := (s.writeHead + 1) % s.slotCount } :=
    { hs with writeHead_lt := Nat.mod_lt _ (Nat.zero_lt_of_lt hs.writeHead_lt) }
  simp only [step] at h
  split at h
  · cases h
  rename_i hnone
  split at h
  · cases h
    exact hmoved
  rename_i hfree
  cases h
  have hclaim := hs.line.claim hs.writeHead_lt ?_ .writing
  · refine { hmoved with line := ?_ }
    simp_all [PacedSender.line]
  · rw [not_not.mp hfree]
    simp [PacedSender.line, or_imp, forall_and]

lemma Inv.take (h : s.step P .take = some s') : Inv wires s' := by
  simp only [step] at h
  split at h
  · rename_i slot rest hcurrent hqueue
    have hline : Agrees s.slotCount s.states ([] ++ (slot, .ready) ::
        (rest.map (·, .ready) ++ s.claimed.toList.map (·, .writing))) := by
      simpa [PacedSender.line, hcurrent, hqueue] using hs.line
    have hfilled := hs.filled
    rw [hcurrent, hqueue] at hfilled
    have hready := (hline.state (slot, .ready) (by simp)).2
    rw [if_pos hready] at h
    cases h
    exact ⟨hs.length_buf, hs.writeHead_lt, hline.replace .sending, hfilled, hs.sent⟩
  · cases h

lemma Inv.transmit (h : s.step P .transmit = some s') : Inv wires s' := by
  simp only [step] at h
  split at h
  · cases h
  rename_i slot hcurrent
  cases h
  have hline : Agrees s.slotCount s.states ([] ++ (slot, .sending) ::
      (s.queue.map (·, .ready) ++ s.claimed.toList.map (·, .writing))) := by
    simpa [PacedSender.line, hcurrent] using hs.line
  have hfilled := hs.filled
  rw [hcurrent] at hfilled
  obtain ⟨hslot, hrest⟩ := forall_mem_cons.mp hfilled
  exact ⟨hs.length_buf, hs.writeHead_lt, hline.release .free, hrest,
    forall_mem_append.mpr ⟨hs.sent, forall_mem_singleton.mpr hslot.2⟩⟩

end

def wireOf (P : Primitives) : PacedEvent → Option Bytes
  | .publish t pkt _ => some (t.apply P pkt)
  | _ => none

lemma inv_step {e : PacedEvent} (hs : Inv wires s) (hwire : ∀ wire ∈ wireOf P e, wire ∈ wires)
    (h : s.step P e = some s') : Inv wires s' := by
  cases e with
  | claim => exact hs.claim h
  | take => exact hs.take h
  | transmit => exact hs.transmit h
  | publish t pkt queueFull =>
    simp only [step] at h
    split at h
    · cases h
    rename_i slot hclaimed
    split at h
    · cases h
    cases h
    have hlen := t.length_apply P pkt
    rw [← hlen]
    apply hs.publish hclaimed
    · omega
    · exact hwire _ rfl

variable {es : List PacedEvent}

lemma inv_exec (hs : Inv wires s) (hwires : ∀ e ∈ es, ∀ wire ∈ wireOf P e, wire ∈ wires)
    (h : exec (step P) s es = some s') : Inv wires s' := by
  induction es generalizing s with
  | nil =>
    cases h
    exact hs
  | cons e es ih =>
    obtain ⟨u, hu, hrest⟩ := exec_cons_eq_some.mp h
    have hstep := inv_step hs (hwires e mem_cons_self) hu
    exact ih hstep (fun e' he' => hwires e' (mem_cons_of_mem e he')) hrest

def init (slotSize slotCount : ℕ) (buf : Bytes) : PacedSender :=
  ⟨slotSize, slotCount, buf, fun _ => 0, fun _ => .free, 0, none, [], none, []⟩

lemma exists_publish_of_mem_sent {slotSize slotCount : ℕ} {buf : Bytes} (hpos : 0 < slotCount)
    (hbuf : buf.length = slotCount * slotSize)
    (h : exec (step P) (init slotSize slotCount buf) es = some s) {d : Bytes} (hd : d ∈ s.sent) :
    ∃ t pkt queueFull, .publish t pkt queueFull ∈ es ∧ d = t.apply P pkt := by
  have hinit : Inv {wire | ∃ e ∈ es, wire ∈ wireOf P e} (init slotSize slotCount buf) := by
    exact ⟨hbuf, hpos, ⟨nodup_nil, nofun⟩, nofun, nofun⟩
  obtain ⟨e, he, hwire⟩ := (inv_exec hinit (fun e he wire hwire => ⟨e, he, hwire⟩) h).sent d hd
  cases e with
  | publish t pkt queueFull =>
    cases hwire
    exact ⟨t, pkt, queueFull, he, rfl⟩
  | claim | take | transmit => cases hwire

end PacedSender

end Favonius.Client
