import Favonius.Lib.BytePipe
import Favonius.Proto.Fallback

/-!
# Sending over TCP

The client announces a file, streams it while hashing, sends the hash and reads the verdict with
one read.  Calls of the operating system may fail at any point; the source may grow or shrink
while it is sent.
-/

namespace Favonius.Client

open ByteCodec BytePipe Proto List Option FallbackHeader Pipe

namespace TcpSender

def copyBuffer : ℕ := 256 * 1024

def replyBuffer : ℕ := 3 + 512

inductive Stage where
  | connecting
  | sending (size : UInt64)
  | verdict (size : UInt64)
  /-- The number of bytes sent, or the error. -/
  | done (result : Except String ℕ)

/-- A write that fails gives the bytes that were still sent and the error. -/
abbrev WriteFailure := Option (ℕ × String)

inductive Event where
  | giveUp (text : String)
  /-- The size of the source is read and the header is sent. -/
  | announce (size : UInt64) (failure : WriteFailure)
  /-- Bytes are read from the source and sent; if that fails, a refusal may be found. -/
  | readSource (data : Bytes) (failure : WriteFailure) (drained : Option ℕ)
  | endOfSource (failure : WriteFailure)
  /-- The only read of the verdict gives `n` bytes. -/
  | reply (n : ℕ)

end TcpSender

open TcpSender

structure TcpClient where
  source : String
  path : String
  read : Bytes
  stage : Stage

structure TcpClient.Conn where
  client : TcpClient
  up : Pipe UInt8
  down : Pipe UInt8

namespace TcpClient

def writeAll (p : Pipe UInt8) (data : Bytes) : WriteFailure → Pipe UInt8 × Option String
  | none => (p.write data, none)
  | some (k, e) => (p.write (data.take k), some e)

namespace Conn

variable (s : Conn)

def finish (result : Except String ℕ) : Conn :=
  { s with client := { s.client with stage := .done result }, up := s.up.close }

def go (stage : Stage) : Conn := { s with client := { s.client with stage } }

def announce (size : UInt64) (failure : WriteFailure) : Conn :=
  match encode ⟨s.client.path, size⟩ with
  | .error e => s.finish (.error e.toString)
  | .ok encoded =>
    match writeAll s.up encoded failure with
    | (up, some e) => { s with up }.finish (.error s!"sending the header: {e}")
    | (up, none) => { s with up }.go (.sending size)

variable (lossy : Bytes → String)

def drainRefusal (drained : Option ℕ) : Option String :=
  (drained.bind s.down.read).bind fun p =>
    match FallbackReply.decode lossy p.1 with
    | some (.refused reason) => some reason
    | _ => none

def sendChunk (data : Bytes) (failure : WriteFailure) (drained : Option ℕ) : Conn :=
  let s := { s with client := { s.client with read := s.client.read ++ data } }
  match writeAll s.up data failure with
  | (up, none) => { s with up }
  | (up, some e) =>
    match s.drainRefusal lossy drained with
    | some reason => { s with up }.finish (.error s!"daemon refused: {reason}")
    | none => { s with up }.finish (.error s!"sending payload: {e}")

variable (blake3 : Bytes → FixedBytes 32)

def endOfSource (size : UInt64) (failure : WriteFailure) : Conn :=
  let sent := s.client.read.length
  if sent ≠ size.toNat then
    s.finish (.error (s!"{s.client.source} changed while being sent: " ++
      s!"announced {size} bytes, read {sent}"))
  else
    match writeAll s.up (blake3 s.client.read).1 failure with
    | (up, some e) => { s with up }.finish (.error s!"sending the hash: {e}")
    | (up, none) => { s with up }.go (.verdict size)

def judge (reply : Bytes) : Except String ℕ :=
  match FallbackReply.decode lossy reply with
  | some .accepted => .ok s.client.read.length
  | some (.refused reason) => .error s!"daemon refused: {reason}"
  | none => .error ("the daemon's reply could not be read, so the transfer is not confirmed. " ++
      "Check the destination before assuming it arrived.")

def step (s : Conn) : Event → Option Conn
  | .giveUp text =>
    match s.client.stage with
    | .done _ => none
    | _ => some (s.finish (.error text))
  | .announce size failure =>
    match s.client.stage with
    | .connecting => some (s.announce size failure)
    | _ => none
  | .readSource data failure drained =>
    match s.client.stage with
    | .sending _ =>
      if 0 < data.length ∧ data.length ≤ copyBuffer then
        some (s.sendChunk lossy data failure drained)
      else none
    | _ => none
  | .endOfSource failure =>
    match s.client.stage with
    | .sending size => some (s.endOfSource blake3 size failure)
    | _ => none
  | .reply n =>
    match s.client.stage with
    | .verdict _ =>
      -- no byte comes only when the daemon has closed
      if n ≤ replyBuffer ∧ (0 < n ∨ s.down.AtEnd) then
        (s.down.read n).map fun p => { s with down := p.2 }.finish (s.judge lossy p.1)
      else none
    | _ => none

/-- The header, then what was read, then its hash once everything announced was read. -/
def Sent (s : Conn) : Prop :=
  match s.client.stage with
  | .connecting => s.up.written = [] ∧ s.client.read = []
  | .sending size => ∃ header, encode ⟨s.client.path, size⟩ = .ok header ∧
      s.up.written = header ++ s.client.read
  | .verdict size => ∃ header, encode ⟨s.client.path, size⟩ = .ok header ∧
      s.up.written = header ++ (s.client.read ++ (blake3 s.client.read).1) ∧
      s.client.read.length = size.toNat
  | .done (.ok _) => ∃ size header, encode ⟨s.client.path, size⟩ = .ok header ∧
      s.up.written = header ++ (s.client.read ++ (blake3 s.client.read).1) ∧
      s.client.read.length = size.toNat
  | .done (.error _) => True

def Headed (s : Conn) : Prop :=
  s.up.written = [] ∨ ∃ size header, encode ⟨s.client.path, size⟩ = .ok header ∧
    (s.up.written <+: header ∨ header <+: s.up.written)

def Judged (s : Conn) : Prop :=
  match s.client.stage with
  | .done (.ok _) => ∃ reply, reply <+: s.down.written ∧
      FallbackReply.decode lossy reply = some .accepted
  | .done (.error _) => True
  | _ => s.down.consumed = []

structure Inv (s : Conn) : Prop where
  sent : s.Sent blake3
  headed : s.Headed
  judged : s.Judged lossy

structure Frame (s s' : Conn) : Prop where
  path : s'.client.path = s.client.path
  consumed : s'.up.consumed = s.up.consumed
  down : s'.down.written = s.down.written
  closed : s'.down.closed = s.down.closed

variable {lossy blake3} {s s' : Conn}

lemma inv_finish_error (h : s.Headed) (text : String) : (s.finish (.error text)).Inv lossy blake3 :=
  ⟨trivial, h, trivial⟩

variable {size : UInt64}

lemma headed_write {header : Bytes} (henc : encode ⟨s.client.path, size⟩ = .ok header)
    (hwritten : header <+: s.up.written) (data : Bytes) :
    ({ s with up := s.up.write data } : Conn).Headed := by
  refine .inr ⟨size, header, henc, .inr ?_⟩
  exact hwritten.trans (prefix_append _ _)

lemma inv_announce (h : s.Inv lossy blake3) (hstage : s.client.stage = .connecting)
    (size : UInt64) (failure : WriteFailure) : (s.announce size failure).Inv lossy blake3 := by
  obtain ⟨hsent, hheaded, hjudged⟩ := h
  rw [Sent, hstage] at hsent
  rw [Judged, hstage] at hjudged
  unfold announce
  cases henc : encode ⟨s.client.path, size⟩ with
  | error e => exact inv_finish_error hheaded _
  | ok header =>
    rcases failure with _ | ⟨k, e⟩
    · have hwritten : (s.up.write header).written = header := by
        rw [written_write, hsent.1, nil_append]
      refine ⟨⟨header, henc, ?_⟩, .inr ⟨size, header, henc, .inr ?_⟩, hjudged⟩
      · dsimp only [writeAll, go]
        rw [hwritten, hsent.2, append_nil]
      · dsimp only [writeAll, go]
        rw [hwritten]
    · apply inv_finish_error
      refine .inr ⟨size, header, henc, .inl ?_⟩
      rw [written_write, hsent.1, nil_append]
      exact take_prefix _ _

lemma inv_sendChunk (h : s.Inv lossy blake3) (hstage : s.client.stage = .sending size)
    (data : Bytes) (failure : WriteFailure) (drained : Option ℕ) :
    (s.sendChunk lossy data failure drained).Inv lossy blake3 := by
  obtain ⟨hsent, -, hjudged⟩ := h
  rw [Sent, hstage] at hsent
  rw [Judged, hstage] at hjudged
  obtain ⟨header, henc, hwritten⟩ := hsent
  have hpre : header <+: s.up.written := hwritten ▸ prefix_append _ _
  unfold sendChunk
  rcases failure with _ | ⟨k, e⟩
  · have hheaded := headed_write henc hpre data
    refine ⟨?_, hheaded, ?_⟩
    · dsimp only [writeAll]
      rw [hstage]
      refine ⟨header, henc, ?_⟩
      rw [written_write, hwritten, append_assoc]
    · dsimp only [writeAll]
      rw [hstage]
      exact hjudged
  · have hheaded := headed_write henc hpre (data.take k)
    dsimp only [writeAll]
    split
    · exact ⟨trivial, hheaded, trivial⟩
    · exact ⟨trivial, hheaded, trivial⟩

lemma inv_endOfSource (h : s.Inv lossy blake3) (hstage : s.client.stage = .sending size)
    (failure : WriteFailure) : (s.endOfSource blake3 size failure).Inv lossy blake3 := by
  obtain ⟨hsent, hheaded, hjudged⟩ := h
  rw [Sent, hstage] at hsent
  rw [Judged, hstage] at hjudged
  obtain ⟨header, henc, hwritten⟩ := hsent
  have hpre : header <+: s.up.written := hwritten ▸ prefix_append _ _
  unfold endOfSource
  dsimp only
  split_ifs with hsize
  · exact inv_finish_error hheaded _
  rcases failure with _ | ⟨k, e⟩
  · refine ⟨⟨header, henc, ?_, not_not.mp hsize⟩, headed_write henc hpre _, hjudged⟩
    dsimp only [writeAll, go]
    rw [written_write, hwritten, append_assoc]
  · exact inv_finish_error (headed_write henc hpre _) _

variable {n : ℕ} {reply : Bytes} {down : Pipe UInt8}

lemma inv_reply (h : s.Inv lossy blake3) (hstage : s.client.stage = .verdict size)
    (hread : s.down.read n = some (reply, down)) :
    (({ s with down } : Conn).finish (s.judge lossy reply)).Inv lossy blake3 := by
  obtain ⟨hsent, hheaded, hjudged⟩ := h
  rw [Sent, hstage] at hsent
  rw [Judged, hstage] at hjudged
  obtain ⟨hwritten, hconsumed, -⟩ := read_eq_some hread
  rw [hjudged, nil_append] at hconsumed
  have hpre : reply <+: down.written := hconsumed ▸ down.consumed_prefix
  unfold judge
  split
  · rename_i hreply
    exact ⟨⟨size, hsent⟩, hheaded, reply, hpre, hreply⟩
  · exact ⟨trivial, hheaded, trivial⟩
  · exact ⟨trivial, hheaded, trivial⟩

lemma step_reply (hstage : s.client.stage = .verdict size)
    (hfits : n ≤ replyBuffer ∧ (0 < n ∨ s.down.AtEnd))
    (hread : s.down.read n = some (reply, down)) :
    s.step lossy blake3 (.reply n) = some ({ s with down }.finish (s.judge lossy reply)) := by
  simp only [step, hstage]
  rw [if_pos hfits, hread]
  rfl

variable {e : Event}

lemma step_cases (hstep : s.step lossy blake3 e = some s') :
    (∃ text, s' = s.finish (.error text)) ∨
    (∃ size failure, s.client.stage = .connecting ∧ s' = s.announce size failure) ∨
    (∃ size data failure drained, s.client.stage = .sending size ∧
      s' = s.sendChunk lossy data failure drained) ∨
    (∃ size failure, s.client.stage = .sending size ∧ s' = s.endOfSource blake3 size failure) ∨
    ∃ size n reply down, s.client.stage = .verdict size ∧ s.down.read n = some (reply, down) ∧
      s' = { s with down }.finish (s.judge lossy reply) := by
  cases e with
  | giveUp text =>
    dsimp only [step] at hstep
    split at hstep
    · cases hstep
    · cases hstep
      exact .inl ⟨text, rfl⟩
  | announce size failure =>
    dsimp only [step] at hstep
    split at hstep
    · rename_i hstage
      cases hstep
      exact .inr (.inl ⟨size, failure, hstage, rfl⟩)
    · cases hstep
  | readSource data failure drained =>
    dsimp only [step] at hstep
    split at hstep
    · rename_i size hstage
      obtain ⟨-, heq⟩ := ite_none_right_eq_some.mp hstep
      cases heq
      exact .inr (.inr (.inl ⟨size, data, failure, drained, hstage, rfl⟩))
    · cases hstep
  | endOfSource failure =>
    dsimp only [step] at hstep
    split at hstep
    · rename_i size hstage
      cases hstep
      exact .inr (.inr (.inr (.inl ⟨size, failure, hstage, rfl⟩)))
    · cases hstep
  | reply n =>
    dsimp only [step] at hstep
    split at hstep
    · rename_i size hstage
      obtain ⟨-, heq⟩ := ite_none_right_eq_some.mp hstep
      obtain ⟨⟨reply, down⟩, hread, rfl⟩ := map_eq_some_iff.mp heq
      exact .inr (.inr (.inr (.inr ⟨size, n, reply, down, hstage, hread, rfl⟩)))
    · cases hstep

lemma inv_step (h : s.Inv lossy blake3) (hstep : s.step lossy blake3 e = some s') :
    s'.Inv lossy blake3 := by
  rcases step_cases hstep with ⟨text, rfl⟩ | ⟨size, failure, hstage, rfl⟩ |
    ⟨size, data, failure, drained, hstage, rfl⟩ | ⟨size, failure, hstage, rfl⟩ |
    ⟨size, n, reply, down, hstage, hread, rfl⟩
  · exact inv_finish_error h.headed text
  · exact inv_announce h hstage size failure
  · exact inv_sendChunk h hstage data failure drained
  · exact inv_endOfSource h hstage failure
  · exact inv_reply h hstage hread

lemma Frame.finish (h : Frame s s') (result : Except String ℕ) : Frame s (s'.finish result) :=
  ⟨h.path, h.consumed, h.down, h.closed⟩

lemma frame_write (s : Conn) (data : Bytes) : Frame s { s with up := s.up.write data } :=
  ⟨rfl, consumed_write _ _, rfl, rfl⟩

lemma frame_announce (s : Conn) (size : UInt64) (failure : WriteFailure) :
    Frame s (s.announce size failure) := by
  unfold announce
  cases encode ⟨s.client.path, size⟩ with
  | error e => exact ⟨rfl, rfl, rfl, rfl⟩
  | ok header =>
    rcases failure with _ | ⟨k, e⟩
    · exact ⟨rfl, consumed_write _ _, rfl, rfl⟩
    · exact (frame_write s _).finish _

lemma frame_sendChunk (s : Conn) (data : Bytes) (failure : WriteFailure) (drained : Option ℕ) :
    Frame s (s.sendChunk lossy data failure drained) := by
  have hread (sent : Bytes) : Frame s { s with
      client := { s.client with read := s.client.read ++ data }, up := s.up.write sent } :=
    ⟨rfl, consumed_write _ _, rfl, rfl⟩
  unfold sendChunk
  rcases failure with _ | ⟨k, e⟩
  · exact hread data
  · dsimp only [writeAll]
    split
    · exact (hread _).finish _
    · exact (hread _).finish _

lemma frame_endOfSource (s : Conn) (size : UInt64) (failure : WriteFailure) :
    Frame s (s.endOfSource blake3 size failure) := by
  unfold endOfSource
  dsimp only
  split_ifs
  · exact ⟨rfl, rfl, rfl, rfl⟩
  · rcases failure with _ | ⟨k, e⟩
    · exact ⟨rfl, consumed_write _ _, rfl, rfl⟩
    · exact (frame_write s _).finish _

lemma frame_step (hstep : s.step lossy blake3 e = some s') : Frame s s' := by
  rcases step_cases hstep with ⟨text, rfl⟩ | ⟨size, failure, -, rfl⟩ |
    ⟨size, data, failure, drained, -, rfl⟩ | ⟨size, failure, -, rfl⟩ |
    ⟨size, n, reply, down, -, hread, rfl⟩
  · exact ⟨rfl, rfl, rfl, rfl⟩
  · exact frame_announce s size failure
  · exact frame_sendChunk s data failure drained
  · exact frame_endOfSource s size failure
  · obtain ⟨hwritten, -, -, hclosed⟩ := read_eq_some hread
    exact ⟨rfl, rfl, hwritten, hclosed⟩

end Conn

end TcpClient

end Favonius.Client
