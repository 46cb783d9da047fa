import Favonius.Client.PacketSenders
import Favonius.Client.ZeroCopy

/-!
# Send errors of the segmentation-offload backend

A batch is sent when the send loop flushes it, and within the staging of a packet that cannot stand
behind the pending ones.  The send call may succeed, find the socket buffer full or fail; what
becomes of a failure depends on who made the call.
-/

namespace Favonius.Client

open Execution ByteCodec SlotBuffer Proto List

inductive SendResult where
  | ok
  /-- EAGAIN: the call is made again after a pause. -/
  | again
  | error (errno : ℕ)
  deriving DecidableEq

inductive SendError where
  | batchFull
  | io (errno : ℕ)
  deriving DecidableEq

/-- The calls of one flush, with the results left for later ones; `none` when it is still waiting
for the socket buffer. -/
def sendCalls : List SendResult → Option (Except ℕ Unit × List SendResult)
  | [] => none
  | .ok :: rest => some (.ok (), rest)
  | .again :: rest => sendCalls rest
  | .error errno :: rest => some (.error errno, rest)

inductive StageResult where
  | staged (sent : List Bytes) (g : SegmentSender) (results : List SendResult)
  | failed (e : SendError) (results : List SendResult)
  | panicked
  | waiting

namespace SegmentSender

variable (g : SegmentSender)

def cleared : SegmentSender := ⟨g.slots.clear, g.size_pos, .inl rfl⟩

/-- `GsoBatchSender::stage`: what is pending is flushed first if the packet cannot stand behind it.
A packet longer than a segment does not fit the slice that it is copied to. -/
def stageWith (packet : Bytes) (results : List SendResult) : StageResult :=
  if g.slots.capacity ≤ g.slots.lengths.length then .failed .batchFull results
  else
    match if g.flushesBefore packet then sendCalls results else some (.ok (), results) with
    | none => .waiting
    | some (.error errno, rest) => .failed (.io errno) rest
    | some (.ok (), rest) =>
      match g.stage packet with
      | none => .panicked
      | some (sent, g') => .staged sent g' rest

end SegmentSender

abbrev DataArgs := ZeroCopyPacket

def DataArgs.wireLen (p : DataArgs) : ℕ := headerSize + (dataPayloadHeaderSize + p.fileData.length)

structure PlatformSender where
  gso : SegmentSender
  scratch : Bytes

/-- Where the send loop is: it goes on, with the datagrams that left and the results of the calls
to come, it has ended with an error or a panic, or it waits in a flush. -/
inductive SendState where
  | running (s : PlatformSender) (sent : List Bytes) (results : List SendResult)
  | failed (e : SendError)
  | panicked
  | waiting

inductive SendOp where
  | stageData (p : DataArgs)
  | modifyLastPacket (f : InPlace UInt8)
  | flush

variable (crc32c : Bytes → UInt32)

namespace PlatformSender

variable (s : PlatformSender)

def isFull : Bool := s.gso.slots.capacity ≤ s.gso.slots.lengths.length

def stageData (p : DataArgs) (sent : List Bytes) (results : List SendResult) : SendState :=
  match encodeDataPacketIntoDst crc32c s.scratch p.connId p.packetNumber p.ts p.streamId p.fileId
      p.chunkIndex p.chunkOffset p.fileData with
  | none => .panicked
  | some (scratch, n) =>
    match s.gso.stageWith (scratch.take n) results with
    | .staged left gso rest => .running ⟨gso, scratch⟩ (sent ++ left) rest
    | .failed _ _ => .panicked
    | .panicked => .panicked
    | .waiting => .waiting

def flush (sent : List Bytes) (results : List SendResult) : SendState :=
  if s.gso.slots.lengths.length = 0 then .running s sent results
  else
    match sendCalls results with
    | none => .waiting
    | some (.error errno, _) => .failed (.io errno)
    | some (.ok (), rest) => .running ⟨s.gso.cleared, s.scratch⟩ (sent ++ s.gso.flush) rest

end PlatformSender

/-- Packets are staged only while the batch is not full, and none is longer than a segment. -/
def sendStep (s : SendState) (op : SendOp) : Option SendState :=
  match s, op with
  | .running s sent results, .stageData p =>
    if s.isFull ∨ s.gso.slots.size < p.wireLen then none
    else some (s.stageData crc32c p sent results)
  | .running s sent results, .modifyLastPacket f =>
    some (.running ⟨s.gso.modifyLast f, s.scratch⟩ sent results)
  | .running s sent results, .flush => some (s.flush sent results)
  | _, _ => none

def sendFails (results : List SendResult) : Bool :=
  match sendCalls results with
  | some (.error _, _) => true
  | _ => false

/-- If the staging of the packet flushes, that flush does not fail. -/
def StageFlushReturns : SendState → SendOp → Prop
  | .running s _ results, .stageData p =>
    0 < s.gso.slots.lengths.length ∧ (p.wireLen < s.gso.slots.size ∨ s.gso.tailLen.isSome) →
      sendFails results = false
  | _, _ => True

instance (s : SendState) (op : SendOp) : Decidable (StageFlushReturns s op) := by
  unfold StageFlushReturns
  split <;> infer_instance

def Clean (results : List SendResult) : Prop := ∀ errno, SendResult.error errno ∉ results

/-- The first error of a send call, and nothing else, ends the transfer, as its error. -/
def Surfaced (results : List SendResult) : SendState → Prop
  | .running s _ rest => s.gso.slots.size ≤ s.scratch.length ∧
      ∃ used, results = used ++ rest ∧ Clean used
  | .failed e => ∃ used errno rest, e = .io errno ∧ results = used ++ .error errno :: rest ∧
      Clean used
  | .waiting => Clean results
  | .panicked => False

lemma clean_nil : Clean [] := fun _ h => absurd h not_mem_nil

lemma Clean.cons {r : SendResult} {results : List SendResult} (h : Clean results)
    (hr : ∀ errno, SendResult.error errno ≠ r) : Clean (r :: results) := by
  intro errno hmem
  rcases mem_cons.mp hmem with heq | hmem
  · exact hr errno heq
  · exact h errno hmem

lemma Clean.append {a b : List SendResult} (ha : Clean a) (hb : Clean b) : Clean (a ++ b) := by
  intro errno h
  rcases mem_append.mp h with h | h
  · exact ha errno h
  · exact hb errno h

lemma sendCalls_spec (results : List SendResult) :
    match sendCalls results with
    | none => Clean results
    | some (.ok (), rest) => ∃ used, results = used ++ rest ∧ Clean used
    | some (.error errno, rest) => ∃ used, results = used ++ .error errno :: rest ∧ Clean used := by
  induction results with
  | nil => exact clean_nil
  | cons r results ih =>
    cases r with
    | ok => exact ⟨[.ok], rfl, clean_nil.cons fun _ h => by cases h⟩
    | error errno => exact ⟨[], rfl, clean_nil⟩
    | again =>
      have hagain : ∀ errno, SendResult.error errno ≠ .again := fun _ h => by cases h
      rw [sendCalls]
      split at ih
      · exact ih.cons hagain
      · obtain ⟨used, hused, hclean⟩ := ih
        exact ⟨.again :: used, congrArg (SendResult.again :: ·) hused, hclean.cons hagain⟩
      · obtain ⟨used, hused, hclean⟩ := ih
        exact ⟨.again :: used, congrArg (SendResult.again :: ·) hused, hclean.cons hagain⟩

section Step

variable {crc32c} {s : PlatformSender} {used results : List SendResult} {sent : List Bytes}

lemma SegmentSender.size_stage {g g' : SegmentSender} {p : Bytes} {left : List Bytes}
    (h : g.stage p = some (left, g')) : g'.slots.size = g.slots.size := by
  unfold SegmentSender.stage at h
  split at h
  · cases h
  split at h
  · cases h
  rename_i b hpush
  cases h
  have hsize := (Slots.lengths_push hpush).1
  split at hsize
  · exact hsize
  · exact hsize

lemma SegmentSender.stageWith_spec {g : SegmentSender} {p : Bytes}
    (hfull : g.slots.lengths.length < g.slots.capacity) (hfits : p.length ≤ g.slots.size)
    (hreturns : g.flushesBefore p = true → sendFails results = false) :
    match g.stageWith p results with
    | .staged _ g' rest =>
      g'.slots.size = g.slots.size ∧ ∃ calls, results = calls ++ rest ∧ Clean calls
    | .failed _ _ => False
    | .panicked => False
    | .waiting => Clean results := by
  obtain ⟨⟨left, g'⟩, hstage⟩ := Option.isSome_iff_exists.mp (g.stage_isSome hfull hfits)
  have hsize := size_stage hstage
  have hspec := sendCalls_spec results
  rw [stageWith, if_neg (Nat.not_le.mpr hfull), hstage]
  cases hflush : g.flushesBefore p with
  | false => exact ⟨hsize, [], rfl, clean_nil⟩
  | true =>
    have hok := hreturns hflush
    unfold sendFails at hok
    cases hcalls : sendCalls results with
    | none =>
      rw [hcalls] at hspec
      exact hspec
    | some r =>
      obtain ⟨outcome, rest⟩ := r
      rw [hcalls] at hspec hok
      cases outcome with
      | error errno => cases hok
      | ok u => exact ⟨hsize, hspec⟩

lemma encode_dataArgs (p : DataArgs) {scratch : Bytes} (hroom : p.wireLen ≤ scratch.length) :
    ∃ pkt, encodeDataPacketIntoDst crc32c scratch p.connId p.packetNumber p.ts p.streamId p.fileId
        p.chunkIndex p.chunkOffset p.fileData = some (pkt ++ scratch.drop p.wireLen, p.wireLen) ∧
      pkt.length = p.wireLen := by
  refine ⟨_, encodeDataPacketIntoDst_eq _ _ _ _ _ _ _ _ hroom, ?_⟩
  rw [encodeDataPacketInto, length_append, PacketHeader.length_encode, DataPayload.length_encode]
  rfl

lemma surfaced_stageData {p : DataArgs} (hroom : s.gso.slots.size ≤ s.scratch.length)
    (hused : Clean used) (hfull : s.isFull = false) (hfits : p.wireLen ≤ s.gso.slots.size)
    (hreturns : StageFlushReturns (.running s sent results) (.stageData p)) :
    Surfaced (used ++ results) (s.stageData crc32c p sent results) := by
  obtain ⟨pkt, hencode, hlength⟩ := @encode_dataArgs crc32c p s.scratch (hfits.trans hroom)
  have hpacket : (pkt ++ s.scratch.drop p.wireLen).take p.wireLen = pkt := take_left' hlength
  have hscratch : (pkt ++ s.scratch.drop p.wireLen).length = s.scratch.length := by
    rw [length_append, length_drop, hlength]
    omega
  have hspec := @SegmentSender.stageWith_spec results s.gso pkt
    (Nat.not_le.mp (of_decide_eq_false hfull)) (hlength.trans_le hfits) (by
      intro hflush
      apply hreturns
      rw [SegmentSender.flushesBefore, decide_eq_true_eq, hlength] at hflush
      exact hflush)
  unfold PlatformSender.stageData
  rw [hencode]
  dsimp only
  rw [hpacket]
  split
  · rename_i left gso rest hstaged
    rw [hstaged] at hspec
    obtain ⟨hsize, calls, hsplit, hclean⟩ := hspec
    refine ⟨?_, used ++ calls, ?_, hused.append hclean⟩
    · rw [hsize, hscratch]
      exact hroom
    · rw [hsplit, append_assoc]
  · rename_i hfailed
    rw [hfailed] at hspec
    exact hspec
  · rename_i hpanicked
    rw [hpanicked] at hspec
    exact hspec
  · rename_i hwaiting
    rw [hwaiting] at hspec
    exact hused.append hspec

lemma surfaced_flush (hroom : s.gso.slots.size ≤ s.scratch.length) (hused : Clean used) :
    Surfaced (used ++ results) (s.flush sent results) := by
  unfold PlatformSender.flush
  split
  · exact ⟨hroom, used, rfl, hused⟩
  have hspec := sendCalls_spec results
  split
  · rename_i hcalls
    rw [hcalls] at hspec
    exact hused.append hspec
  · rename_i errno rest hcalls
    rw [hcalls] at hspec
    obtain ⟨calls, hsplit, hclean⟩ := hspec
    refine ⟨used ++ calls, errno, rest, rfl, ?_, hused.append hclean⟩
    rw [hsplit, append_assoc]
  · rename_i rest hcalls
    rw [hcalls] at hspec
    obtain ⟨calls, hsplit, hclean⟩ := hspec
    refine ⟨hroom, used ++ calls, ?_, hused.append hclean⟩
    rw [hsplit, append_assoc]

lemma surfaced_sendStep {all : List SendResult} {state next : SendState} {op : SendOp}
    (h : Surfaced all state) (hreturns : StageFlushReturns state op)
    (hstep : sendStep crc32c state op = some next) : Surfaced all next := by
  unfold sendStep at hstep
  split at hstep
  · obtain ⟨hroom, used, rfl, hused⟩ := h
    split at hstep
    · cases hstep
    · rename_i hguard
      rw [not_or, Bool.not_eq_true, Nat.not_lt] at hguard
      cases hstep
      exact surfaced_stageData hroom hused hguard.1 hguard.2 hreturns
  · rename_i s sent results f
    obtain ⟨hroom, used, rfl, hused⟩ := h
    cases hstep
    refine ⟨?_, used, rfl, hused⟩
    have hsize := (s.gso.slots.modifyLast_fields f).1
    exact hsize.trans_le hroom
  · obtain ⟨hroom, used, rfl, hused⟩ := h
    cases hstep
    exact surfaced_flush hroom hused
  · cases hstep

/-- A run of staging, changing the last packet and flushing, whatever the send calls return: if no
flush that staging makes by itself fails, nothing panics, and the first send error is the error of
the transfer. -/
theorem staging_survives_send_errors {start : PlatformSender} {results : List SendResult}
    {ops : List SendOp} {state : SendState} (hroom : start.gso.slots.size ≤ start.scratch.length)
    (hreturns : Along (sendStep crc32c) StageFlushReturns (.running start [] results) ops)
    (hrun : exec (sendStep crc32c) (.running start [] results) ops = some state) :
    Surfaced results state := by
  apply hreturns.invariant (fun _ _ _ h hok hstep => surfaced_sendStep h hok hstep) _ hrun
  exact ⟨hroom, [], rfl, clean_nil⟩

end Step

def smallSender : PlatformSender where
  gso := ⟨⟨70, 2, List.replicate (2 * 70) 0, [], length_replicate, Nat.zero_le _,
    forall_mem_nil _⟩, Nat.zero_lt_succ 69, .inl rfl⟩
  scratch := List.replicate 70 0

def smallPacket (n : ℕ) : DataArgs := ⟨7, 0, 0, 0, 0, 0, 0, List.replicate n 5⟩

/-- The flush before the short packet finds the buffer full and then succeeds; the network is
unreachable when the send loop flushes. -/
theorem staging_survives_send_errors_unreachable :
    let ops := [SendOp.stageData (smallPacket 6), .stageData (smallPacket 1), .flush]
    let results := [SendResult.again, .ok, .error 101]
    exec (sendStep fun _ => 0) (.running smallSender [] results) ops =
        some (.failed (.io 101)) ∧ Surfaced results (.failed (.io 101)) := by
  intro ops results
  have hrun : exec (sendStep fun _ => 0) (.running smallSender [] results) ops =
      some (.failed (.io 101)) := rfl
  exact ⟨hrun, staging_survives_send_errors (by decide) (by decide +kernel) hrun⟩

/-- The same error in the flush before the short packet is a panic. -/
theorem staging_panics :
    exec (sendStep fun _ => 0) (.running smallSender [] [.error 101])
      [.stageData (smallPacket 6), .stageData (smallPacket 1)] = some .panicked :=
  rfl

end Favonius.Client
