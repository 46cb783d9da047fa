import Favonius.Client.TcpSender
import Favonius.Daemon.FallbackHandler

/-!
# The verdict of a fallback transfer

One client and the handler of its connection over two reliable streams that are cut into reads
anywhere.  The client reports success only for a file that the daemon renamed onto the
destination, with the bytes the client read.
-/

namespace Favonius.Transfer

open Execution ByteCodec BytePipe FileTable UnixPath Client Proto List
open Daemon.Fallback

structure FallbackSys (D : Type*) where
  client : TcpClient
  handler : Handler D

inductive FallbackEvent where
  | client (e : TcpSender.Event)
  | daemon (e : HandlerEvent)

namespace FallbackSys

section Model

variable {D : Type*} [DecidableEq D]
variable (lossy : Bytes → String) (blake3 : Bytes → FixedBytes 32) (root : Option String)
variable (dir : List Component → D)

def conn (s : FallbackSys D) : TcpClient.Conn := ⟨s.client, s.handler.up, s.handler.down⟩

def withConn (s : FallbackSys D) (c : TcpClient.Conn) : FallbackSys D :=
  ⟨c.client, { s.handler with up := c.up, down := c.down }⟩

def step (s : FallbackSys D) : FallbackEvent → Option (FallbackSys D)
  | .client e => (s.conn.step lossy blake3 e).map s.withConn
  | .daemon e => (s.handler.step blake3 root dir e).map fun handler => { s with handler }

def start (source path : String) (files : Files (Entry D) UInt8) : FallbackSys D where
  client := ⟨source, path, [], .connecting⟩
  handler := ⟨.head [], none, .empty, .empty, files⟩

/-- The destination onto which the daemon renamed the staging file. -/
def renamedOnto (s : FallbackSys D) : Option (List Component) :=
  match s.handler.stage with
  | .replying (.ok dest) | .closed (.ok dest) => some dest
  | _ => none

structure Inv (path : String) (before : Files (Entry D) UInt8) (s : FallbackSys D) : Prop where
  path_eq : s.client.path = path
  client : s.conn.Inv lossy blake3
  stage : s.handler.StageInv blake3 root dir before
  replied : s.handler.Replied

variable {lossy blake3 root dir} {path : String} {before : Files (Entry D) UInt8}
variable {s s' : FallbackSys D}

omit [DecidableEq D] in
lemma inv_start (source path : String) (before : Files (Entry D) UInt8) :
    (start source path before).Inv lossy blake3 root dir path before where
  path_eq := rfl
  client := ⟨⟨rfl, rfl⟩, .inl rfl, rfl⟩
  stage := ⟨rfl, rfl, rfl⟩
  replied := rfl

omit [DecidableEq D] in
lemma inv_client {e : TcpSender.Event} {c : TcpClient.Conn}
    (h : s.Inv lossy blake3 root dir path before) (hstep : s.conn.step lossy blake3 e = some c) :
    (s.withConn c).Inv lossy blake3 root dir path before := by
  obtain ⟨hpath, hconsumed, hdown, hclosed⟩ := TcpClient.Conn.frame_step hstep
  refine ⟨hpath.trans h.path_eq, TcpClient.Conn.inv_step h.client hstep,
    h.stage.with_pipes hconsumed, ?_⟩
  have hreplied := h.replied
  unfold Handler.Replied at hreplied ⊢
  dsimp only [withConn, conn] at hdown hclosed ⊢
  rw [hdown, hclosed]
  exact hreplied

lemma conn_inv_daemon {e : HandlerEvent} {handler : Handler D} (h : s.conn.Inv lossy blake3)
    (hstage : s.handler.StageInv blake3 root dir before)
    (hstep : s.handler.step blake3 root dir e = some handler) :
    ({ s with handler } : FallbackSys D).conn.Inv lossy blake3 := by
  obtain ⟨hsent, hheaded, hjudged⟩ := h
  obtain ⟨hwritten, hdown⟩ : handler.up.written = s.handler.up.written ∧
      handler.down.consumed = s.handler.down.consumed ∧
        s.handler.down.written <+: handler.down.written := by
    rcases Handler.keeps_or_reply hstage hstep with ⟨-, hquiet⟩ | ⟨n, result, -, rfl⟩
    · rw [hquiet.down]
      exact ⟨hquiet.written, rfl, prefix_rfl⟩
    · exact ⟨rfl, (Pipe.consumed_close _).trans (Pipe.consumed_write _ _), prefix_append _ _⟩
  refine ⟨?_, ?_, ?_⟩
  · unfold TcpClient.Conn.Sent at hsent ⊢
    dsimp only [conn] at hsent ⊢
    rw [hwritten]
    exact hsent
  · unfold TcpClient.Conn.Headed at hheaded ⊢
    dsimp only [conn] at hheaded ⊢
    rw [hwritten]
    exact hheaded
  · unfold TcpClient.Conn.Judged at hjudged ⊢
    dsimp only [conn] at hjudged ⊢
    rw [hdown.1]
    cases hstage : s.client.stage with
    | done result =>
      rw [hstage] at hjudged
      cases result with
      | ok n =>
        obtain ⟨reply, hpre, haccepted⟩ := hjudged
        exact ⟨reply, hpre.trans hdown.2, haccepted⟩
      | error e => trivial
    | _ =>
      rw [hstage] at hjudged
      exact hjudged

lemma inv_step {e : FallbackEvent} (h : s.Inv lossy blake3 root dir path before)
    (hstep : s.step lossy blake3 root dir e = some s') :
    s'.Inv lossy blake3 root dir path before := by
  cases e with
  | client e =>
    obtain ⟨c, hc, rfl⟩ := Option.map_eq_some_iff.mp hstep
    exact inv_client h hc
  | daemon e =>
    obtain ⟨handler, hhandler, rfl⟩ := Option.map_eq_some_iff.mp hstep
    exact ⟨h.path_eq, conn_inv_daemon h.client h.stage hhandler,
      Handler.stageInv_step h.stage hhandler, Handler.replied_step h.stage h.replied hhandler⟩

lemma prefix_of_append_prefix {a b c d : Bytes} (h : a ++ b <+: c ++ d)
    (hlen : a.length = c.length) : a = c ∧ b <+: d := by
  obtain ⟨rest, hrest⟩ := h
  rw [append_assoc] at hrest
  obtain ⟨rfl, rfl⟩ := append_inj hrest hlen
  exact ⟨rfl, prefix_append _ _⟩

variable {dest : List Component} {size : UInt64}

/-- What the handler has understood of a header is what the client announced. -/
theorem announced_agrees {consumed rest header payload : Bytes} {announced : UInt64}
    (h : Handler.Announced root consumed dest size rest)
    (henc : FallbackHeader.encode ⟨path, announced⟩ = .ok header)
    (hpre : consumed <+: header ++ payload) :
    destOf root path = .ok dest ∧ size = announced ∧ rest <+: payload := by
  obtain ⟨head, pathBytes, named, rfl, hlen, hdecode, hparts, hdest⟩ := h
  obtain ⟨head', rfl, hlen', hdecode'⟩ := FallbackHeader.encode_eq_ok henc
  rw [append_assoc] at hpre
  obtain ⟨rfl, htail⟩ := prefix_of_append_prefix hpre (hlen.trans hlen'.symm)
  obtain ⟨hpathLen, rfl⟩ : pathBytes.length = (Crypto.utf8 path).length ∧ size = announced := by
    simpa using hdecode.symm.trans hdecode'
  obtain ⟨rfl, hrest⟩ := prefix_of_append_prefix htail hpathLen
  rw [FallbackHeader.fromParts_utf8] at hparts
  cases hparts
  exact ⟨hdest, rfl, hrest⟩

section

variable (h : s.Inv lossy blake3 root dir path before)
include h

omit [DecidableEq D] in
lemma dest_of_announced {rest : Bytes}
    (hannounced : Handler.Announced root s.handler.up.consumed dest size rest) :
    destOf root path = .ok dest := by
  have hconsumed := s.handler.up.consumed_prefix
  rcases h.client.headed with hempty | ⟨announced, header, henc, hheader⟩
  · -- a handler that knows the path has read something
    obtain ⟨head, pathBytes, named, hhead, hlen, -⟩ := hannounced
    rw [show s.handler.up.written = [] from hempty, hhead, prefix_nil,
      append_eq_nil_iff] at hconsumed
    rw [hconsumed.1] at hlen
    cases hlen
  · rw [show s.conn.client.path = path from h.path_eq] at henc
    rcases hheader with hshort | ⟨payload, hpayload⟩
    · have hpre : s.handler.up.consumed <+: header ++ [] := by
        rw [append_nil]
        exact hconsumed.trans hshort
      exact (announced_agrees hannounced henc hpre).1
    · have hpre : s.handler.up.consumed <+: header ++ payload := by
        rw [hpayload]
        exact hconsumed
      exact (announced_agrees hannounced henc hpre).1

omit [DecidableEq D] in
lemma committed_of_ok {n : ℕ} (hok : s.client.stage = .done (.ok n)) :
    ∃ dest, s.renamedOnto = some dest ∧ s.handler.Committed blake3 root dir dest := by
  have hjudged := h.client.judged
  simp only [TcpClient.Conn.Judged, conn, hok] at hjudged
  obtain ⟨reply, hreply, haccepted⟩ := hjudged
  have hreplied := h.replied
  have hstage := h.stage
  unfold Handler.Replied at hreplied
  unfold Handler.StageInv at hstage
  unfold renamedOnto
  cases hs : s.handler.stage with
  | closed result =>
    rw [hs] at hreplied hstage
    have hverdict := FallbackReply.accepted_of_decode (hreply.trans hreplied.1) haccepted
    cases result with
    | ok dest => exact ⟨dest, rfl, hstage⟩
    | error reason => cases hverdict
  | _ =>
    -- nothing was sent yet
    rw [hs] at hreplied
    rw [hreplied, prefix_nil] at hreply
    rw [hreply] at haccepted
    cases haccepted

omit [DecidableEq D] in
lemma renamed_of_ok {n : ℕ} (hok : s.client.stage = .done (.ok n)) :
    ∃ dest, destOf root path = .ok dest ∧ s.renamedOnto = some dest ∧
      ∃ i, s.handler.files.entries (entryOf dir dest) = some i ∧
        s.handler.files.contents i = s.client.read := by
  obtain ⟨dest, hrenamed, -, size, data, hannounced, hsize, i, hentry, hdata⟩ :=
    committed_of_ok h hok
  have hsent := h.client.sent
  simp only [TcpClient.Conn.Sent, conn, hok] at hsent
  obtain ⟨announced, header, henc, hwritten, hlen⟩ := hsent
  rw [h.path_eq] at henc
  have hconsumed := s.handler.up.consumed_prefix
  rw [hwritten] at hconsumed
  obtain ⟨hdest, rfl, hrest⟩ := announced_agrees hannounced henc hconsumed
  obtain ⟨rfl, -⟩ := prefix_of_append_prefix hrest (hsize.trans hlen.symm)
  exact ⟨dest, hdest, hrenamed, i, hentry, hdata⟩

end

/-- The file under a name is the one that was there before. -/
def SameFile (before files : Files (Entry D) UInt8) (p : Entry D) : Prop :=
  files.entries p = before.entries p ∧
    ∀ i, before.entries p = some i → files.contents i = before.contents i

variable (dir) in
/-- The staging name is not another name of the destination file. -/
def NotLinked (files : Files (Entry D) UInt8) (dest : List Component) : Prop :=
  ∀ i, files.entries (entryOf dir (stagingPath dest)) = some i →
    files.entries (entryOf dir dest) ≠ some i

omit [DecidableEq D] in
lemma sameFile_of_onlyStaging {files : Files (Entry D) UInt8} {inode : ℕ}
    (honly : Handler.OnlyStaging before files (entryOf dir (stagingPath dest)) inode)
    (hlinked : NotLinked dir before dest) : SameFile before files (entryOf dir dest) := by
  refine ⟨honly.entries _ (entryOf_stagingPath_ne dir dest).symm, ?_⟩
  intro i hi
  apply honly.contents
  rintro rfl
  rcases honly.inode with hstaging | hnext
  · exact hlinked i hstaging hi
  · exact (before.entries_lt _ _ hi).ne hnext

omit [DecidableEq D] in
lemma sameFile_of_not_renamed (h : s.Inv lossy blake3 root dir path before)
    (hnot : s.renamedOnto = none) (hdest : destOf root path = .ok dest)
    (hlinked : NotLinked dir before dest) : SameFile before s.handler.files (entryOf dir dest) := by
  have huncommitted : ∀ dest', s.handler.stage ≠ .replying (.ok dest') ∧
      s.handler.stage ≠ .closed (.ok dest') := by
    intro dest'
    refine ⟨fun hstage => ?_, fun hstage => ?_⟩
    · rw [renamedOnto, hstage] at hnot
      cases hnot
    · rw [renamedOnto, hstage] at hnot
      cases hnot
  rcases h.stage.only_staging huncommitted with
    hfiles | ⟨dest', size, rest, inode, hannounced, honly⟩
  · rw [hfiles]
    exact ⟨rfl, fun _ _ => rfl⟩
  · obtain rfl : dest = dest' := by
      simpa using hdest.symm.trans (dest_of_announced h hannounced)
    exact sameFile_of_onlyStaging honly hlinked

/-- A client that waits for the verdict of a handler that failed is given an error. -/
theorem waiting_client_fails (h : s.Inv lossy blake3 root dir path before) {reason : String}
    (hclosed : s.handler.stage = .closed (.error reason)) (hwait : s.client.stage = .verdict size) :
    ∃ n t e, s.step lossy blake3 root dir (.client (.reply n)) = some t ∧
      t.client.stage = .done (.error e) := by
  have hreplied := h.replied
  rw [Handler.Replied, hclosed] at hreplied
  obtain ⟨n, hn⟩ : ∃ n, n = min s.handler.down.waiting.length TcpSender.replyBuffer := ⟨_, rfl⟩
  obtain ⟨reply, down, hread⟩ := Pipe.exists_read (hn.trans_le (min_le_left _ _))
  have hfits : n ≤ TcpSender.replyBuffer ∧ (0 < n ∨ s.handler.down.AtEnd) := by
    rw [hn]
    refine ⟨min_le_right _ _, ?_⟩
    rcases Nat.eq_zero_or_pos s.handler.down.waiting.length with hzero | hpos
    · exact .inr ⟨hreplied.2, length_eq_zero_iff.mp hzero⟩
    · exact .inl (lt_min hpos (by decide))
  have hstep : s.step lossy blake3 root dir (.client (.reply n)) = some (s.withConn
      ({ s.conn with down }.finish (s.conn.judge lossy reply))) := by
    rw [step, TcpClient.Conn.step_reply hwait hfits hread]
    rfl
  have hinv := inv_step h hstep
  cases hjudge : s.conn.judge lossy reply with
  | error e =>
    rw [hjudge] at hstep
    exact ⟨n, _, e, hstep, rfl⟩
  | ok k =>
    -- a success would have a rename, and the handler has failed
    rw [hjudge] at hinv
    obtain ⟨dest, hrenamed, -⟩ := committed_of_ok hinv rfl
    simp only [renamedOnto, withConn, hclosed] at hrenamed
    cases hrenamed

/-- The verdict, where the staging name is not another name of the destination file.  A client
returns the number of bytes only when the daemon renamed the staging file onto the destination,
which then holds what the client read.  Without the rename the client returns no success, the
destination is the file it was, and a client that still waits gets an error with its next read,
however much of the refusal has come. -/
theorem fallback_verdict_sound {source : String} {events : List FallbackEvent}
    (hrun : exec (step lossy blake3 root dir) (start source path before) events = some s)
    (hlinked : ∀ dest, destOf root path = .ok dest → NotLinked dir before dest) :
    (∀ n, s.client.stage = .done (.ok n) → ∃ dest, destOf root path = .ok dest ∧
      s.renamedOnto = some dest ∧ ∃ i, s.handler.files.entries (entryOf dir dest) = some i ∧
        s.handler.files.contents i = s.client.read) ∧
    (s.renamedOnto = none → (∀ n, s.client.stage ≠ .done (.ok n)) ∧
      ∀ dest, destOf root path = .ok dest →
        SameFile before s.handler.files (entryOf dir dest)) ∧
    ∀ reason size, s.handler.stage = .closed (.error reason) → s.client.stage = .verdict size →
      ∃ n t e, s.step lossy blake3 root dir (.client (.reply n)) = some t ∧
        t.client.stage = .done (.error e) := by
  have hinv : s.Inv lossy blake3 root dir path before :=
    exec_invariant (fun _ _ _ h hstep => inv_step h hstep)
      (inv_start source path before) hrun
  refine ⟨fun n hok => renamed_of_ok hinv hok, ?_, ?_⟩
  · intro hnot
    refine ⟨?_, fun dest hdest => sameFile_of_not_renamed hinv hnot hdest (hlinked dest hdest)⟩
    intro n hok
    obtain ⟨dest, hrenamed, -⟩ := committed_of_ok hinv hok
    rw [hnot] at hrenamed
    cases hrenamed
  · intro reason size hclosed hwait
    exact waiting_client_fails hinv hclosed hwait

end Model

def noEntries : Files (Entry (List Component)) UInt8 := ⟨fun _ => none, fun _ => [], 0, nofun⟩

def oneByte : List FallbackEvent :=
  [.client (.announce 1 none), .daemon (.read 7), .daemon (.read 13), .daemon (.read 1),
    .daemon .create, .client (.readSource [9] none none), .daemon (.read 1), .daemon (.write 1),
    .client (.endOfSource none), .daemon (.read 30), .daemon (.read 2), .daemon .sync,
    .daemon .rename, .daemon (.reply 1), .client (.reply 1)]

def sentLength (s : FallbackSys (List Component)) : Option ℕ :=
  match s.client.stage with
  | .done (.ok n) => some n
  | _ => none

lemma stage_of_sentLength {s : FallbackSys (List Component)} {n : ℕ}
    (h : s.sentLength = some n) : s.client.stage = .done (.ok n) := by
  unfold sentLength at h
  split at h
  · rename_i hstage
    rw [hstage, Option.some.inj h]
  · cases h

theorem fallback_verdict_one_byte :
    ∃ s, exec (step (fun _ => "") sampleBlake3 none id) (start "f" "x" noEntries)
        oneByte = some s ∧ s.client.stage = .done (.ok 1) ∧
      ∃ dest, destOf none "x" = .ok dest ∧ s.renamedOnto = some dest ∧
        ∃ i, s.handler.files.entries (entryOf id dest) = some i ∧
          s.handler.files.contents i = s.client.read := by
  have hsent : (exec (step (fun _ => "") sampleBlake3 none id)
      (start "f" "x" noEntries) oneByte).bind sentLength = some 1 := by
    decide +kernel
  obtain ⟨s, hrun, hlen⟩ := Option.bind_eq_some_iff.mp hsent
  have hstage := stage_of_sentLength hlen
  refine ⟨s, hrun, hstage, (fallback_verdict_sound hrun ?_).1 1 hstage⟩
  intro dest _ i hi
  cases hi

/-- The staging name is a hard link to the destination file. -/
def linkedPart : Files (Entry (List Component)) UInt8 where
  entries p :=
    if p = entryOf id (components ['x']) ∨ p = entryOf id (stagingPath (components ['x'])) then
      some 0
    else none
  contents _ := [7]
  next := 1
  entries_lt p i h := by
    obtain ⟨-, rfl⟩ := guard_eq_some h
    exact Nat.zero_lt_one

/-- The client announces one byte and goes away. -/
def announceOnly : List FallbackEvent :=
  [.client (.announce 1 none), .daemon (.read 20), .daemon (.read 1), .daemon .create,
    .client (.giveUp "sending payload"), .daemon .eof, .daemon (.remove true), .daemon (.reply 0)]

/-- Creating the staging file empties the destination. -/
theorem failed_fallback_empties_linked_destination :
    ∃ s dest, exec (step (fun _ => "") sampleBlake3 none id) (start "f" "x" linkedPart)
        announceOnly = some s ∧ s.renamedOnto = none ∧ destOf none "x" = .ok dest ∧
      ¬ SameFile linkedPart s.handler.files (entryOf id dest) := by
  obtain ⟨s, hrun, hnot, hempty⟩ :
      ∃ s, exec (step (fun _ => "") sampleBlake3 none id) (start "f" "x" linkedPart)
        announceOnly = some s ∧ s.renamedOnto = none ∧ s.handler.files.contents 0 = [] := by
    decide +kernel
  refine ⟨s, components ['x'], hrun, hnot, rfl, ?_⟩
  rintro ⟨-, hsame⟩
  have hcontents := hsame 0 (by decide +kernel)
  rw [hempty] at hcontents
  cases hcontents

end FallbackSys

end Favonius.Transfer
