import Favonius.Daemon.TcpFallback
import Favonius.Lib.BytePipe
import Favonius.Proto.Fallback

/-!
# The handler of a fallback connection

Everything the daemon does for one connection, from the first byte of the header to the reply:
the payload goes through the connection of the previous module.  The stream may be cut into
reads anywhere.
-/

namespace Favonius.Daemon.Fallback

open Execution ByteCodec BytePipe FileTable UnixPath Crypto Proto List Option FallbackHeader
open Proto.Fallback

/-- A directory and a name in it, or the directory itself. -/
abbrev Entry (D : Type*) := D × Option Name

def parentPath (path : List Component) : List Component :=
  if (fileName path).isSome then path.dropLast else path

/-- `dir` says to which directory a path leads. -/
def entryOf {D : Type*} (dir : List Component → D) (path : List Component) : Entry D :=
  (dir (parentPath path), fileName path)

lemma entryOf_stagingPath_ne {D : Type*} (dir : List Component → D) (dest : List Component) :
    entryOf dir (stagingPath dest) ≠ entryOf dir dest := by
  have hname : fileName (stagingPath dest) = some (partName (fileName dest)) := by
    rw [stagingPath, withFileName, fileName, getLast?_concat]
  intro h
  have hsame := (Prod.ext_iff.mp h).2
  simp only [entryOf, hname] at hsame
  rcases hdest : fileName dest with _ | name
  · rw [hdest] at hsame
    cases hsame
  rw [hdest] at hsame
  have hlen := congrArg (fun n : Name => n.chars.length) (some.inj hsame)
  simp [partName, partSuffix] at hlen

inductive HandlerStage (L : Type*) where
  | head (got : Bytes)
  | path (pathLen : ℕ) (size : UInt64) (got : Bytes)
  | creating (dest : List Component) (size : UInt64)
  /-- The bytes of the trailing hash so far; the reason for which the file will be refused. -/
  | receiving (dest : List Component) (c : Conn L) (claimed : Bytes) (reason : String)
  | replying (result : Except String (List Component))
  | closed (result : Except String (List Component))

structure Handler (D : Type*) where
  stage : HandlerStage (Entry D)
  /-- A file that was given up may still be written to. -/
  leftover : Option (Conn (Entry D))
  up : Pipe UInt8
  down : Pipe UInt8
  files : Files (Entry D) UInt8

inductive HandlerEvent where
  | read (n : ℕ)
  | eof
  | giveUp (text : String)
  | create
  | write (n : ℕ)
  /-- Whether the staging file could be removed; the result is ignored. -/
  | remove (ok : Bool)
  | sync
  | rename
  /-- How much of the reply is sent before the stream is closed. -/
  | reply (n : ℕ)

def replyOf : Except String (List Component) → FallbackReply
  | .ok _ => .accepted
  | .error reason => .refused reason

namespace Handler

section Model

variable {D : Type*} [DecidableEq D]
variable (blake3 : Bytes → FixedBytes 32) (root : Option String) (dir : List Component → D)
variable (s : Handler D)

def refuse (reason : String) : Handler D := { s with stage := .replying (.error reason) }

def readHead (got : Bytes) : Handler D :=
  if got.length < headerLen then { s with stage := .head got }
  else
    match decodeHead got with
    | .error e => s.refuse e.toString
    | .ok (pathLen, size) => { s with stage := .path pathLen size [] }

def readPath (pathLen : ℕ) (size : UInt64) (got : Bytes) : Handler D :=
  if got.length < pathLen then { s with stage := .path pathLen size got }
  else
    match fromParts got size with
    | .error e => s.refuse e.toString
    | .ok header =>
      match destOf root header.path with
      | .error e => s.refuse e
      | .ok dest => { s with stage := .creating dest size }

/-- An action of the connection; `claimed` and `reason` are kept beside it. -/
def acting (dest : List Component) (c : Conn (Entry D)) (claimed : Bytes) (reason : String)
    (a : Action) : Option (Handler D) :=
  (act blake3 s.files c a).map fun p =>
    { s with files := p.1, stage := .receiving dest p.2 claimed reason }

def mismatch (c : Conn (Entry D)) (claimed : Bytes) : String :=
  s!"hash mismatch: sender said {hexEncode claimed}, {c.size} bytes received " ++
    s!"hash to {hexEncode (blake3 c.hashed).1}"

def readHash (dest : List Component) (c : Conn (Entry D)) (claimed : Bytes) (reason : String) :
    Option (Handler D) :=
  if h : claimed.length = 32 then
    s.acting blake3 dest c claimed (mismatch blake3 c claimed) (.hash (some ⟨claimed, h⟩))
  else some { s with stage := .receiving dest c claimed reason }

def noHash (dest : List Component) (c : Conn (Entry D)) (claimed : Bytes) (e : String) :
    Option (Handler D) :=
  s.acting blake3 dest c claimed s!"payload arrived but its hash did not: {e}" (.hash none)

/-- The connection is closed with an error; what it still has to write stays. -/
def dropping (c : Conn (Entry D)) (reason : String) (a : Action) : Option (Handler D) :=
  (act blake3 s.files c a).map fun p =>
    { s with files := p.1, leftover := some p.2, stage := .replying (.error reason) }

def read (data : Bytes) : Option (Handler D) :=
  match s.stage with
  | .head got =>
    if got.length + data.length ≤ headerLen then some (s.readHead (got ++ data)) else none
  | .path pathLen size got =>
    if got.length + data.length ≤ pathLen then some (s.readPath root pathLen size (got ++ data))
    else none
  | .receiving dest c claimed reason =>
    if c.phase ≠ .copying then none
    else if c.hashed.length < c.size then s.acting blake3 dest c claimed reason (.read data)
    else if claimed.length + data.length ≤ 32 then
      s.readHash blake3 dest c (claimed ++ data) reason
    else none
  | _ => none

def eof : Option (Handler D) :=
  match s.stage with
  | .head _ => some (s.refuse "short read: early eof")
  | .path _ _ _ => some (s.refuse "short read: early eof")
  | .receiving dest c claimed _ =>
    if c.phase ≠ .copying then none
    else if c.hashed.length < c.size then
      s.acting blake3 dest c claimed
        s!"connection closed with {c.size - c.hashed.length} of {c.size} bytes still to come"
        .disconnect
    else s.noHash blake3 dest c claimed "short read: early eof"
  | _ => none

def giveUp (text : String) : Option (Handler D) :=
  match s.stage with
  | .head _ | .path _ _ _ | .creating _ _ => some (s.refuse text)
  | .receiving dest c claimed _ =>
    match c.phase with
    | .copying =>
      if c.hashed.length < c.size then s.dropping blake3 c text .giveUp
      else s.noHash blake3 dest c claimed text
    | .verified | .synced => s.dropping blake3 c text .giveUp
    | .failing | .closed => none
  | _ => none

def create : Option (Handler D) :=
  match s.stage with
  | .creating dest size =>
    let staging := entryOf dir (stagingPath dest)
    let created := s.files.create staging
    let c : Conn (Entry D) :=
      ⟨entryOf dir dest, staging, created.2, 0, size.toNat, [], [], .copying⟩
    some { s with files := created.1, stage := .receiving dest c [] "" }
  | _ => none

def write (n : ℕ) : Option (Handler D) :=
  match s.stage with
  | .receiving dest c claimed reason => s.acting blake3 dest c claimed reason (.write n)
  | _ =>
    s.leftover.bind fun c => (act blake3 s.files c (.write n)).map fun p =>
      { s with files := p.1, leftover := some p.2 }

/-- A rename onto a directory fails. -/
def rename : Option (Handler D) :=
  match s.stage with
  | .receiving dest c _ _ =>
    if c.phase = .synced ∧ (fileName dest).isSome then
      (s.files.rename c.staging c.dest).map fun files =>
        { s with files, stage := .replying (.ok dest) }
    else none
  | _ => none

def step (s : Handler D) : HandlerEvent → Option (Handler D)
  | .read n =>
    if 0 < n then (s.up.read n).bind fun p => { s with up := p.2 }.read blake3 root p.1 else none
  | .eof => if s.up.AtEnd then s.eof blake3 else none
  | .giveUp text => s.giveUp blake3 text
  | .create => s.create dir
  | .write n => s.write blake3 n
  | .remove ok =>
    match s.stage with
    | .receiving _ c _ reason =>
      if c.phase = .failing then
        s.dropping blake3 c reason (if ok then .remove else .giveUp)
      else none
    | _ => none
  | .sync =>
    match s.stage with
    | .receiving dest c claimed reason => s.acting blake3 dest c claimed reason .sync
    | _ => none
  | .rename => s.rename
  | .reply n =>
    match s.stage with
    | .replying result =>
      some { s with
        down := (s.down.write ((replyOf result).encode.take n)).close
        stage := .closed result }
    | _ => none

/-! ## Where the handler stands -/

/-- The head and the path have come and name `dest`; `rest` came after them. -/
def Announced (consumed : Bytes) (dest : List Component) (size : UInt64) (rest : Bytes) : Prop :=
  ∃ head pathBytes path, consumed = head ++ (pathBytes ++ rest) ∧ head.length = headerLen ∧
    decodeHead head = .ok (pathBytes.length, size) ∧
    fromParts pathBytes size = .ok ⟨path, size⟩ ∧ destOf root path = .ok dest

/-- Of the files that were there before, only the staging file can be another. -/
structure OnlyStaging {L : Type*} (before files : Files L UInt8) (staging : L) (inode : ℕ) :
    Prop where
  entries : ∀ p, p ≠ staging → files.entries p = before.entries p
  contents : ∀ i, i ≠ inode → files.contents i = before.contents i
  inode : before.entries staging = some inode ∨ inode = before.next

structure Receiving (before : Files (Entry D) UInt8) (s : Handler D) (dest : List Component)
    (c : Conn (Entry D)) (claimed : Bytes) : Prop where
  announced : ∃ size : UInt64, c.size = size.toNat ∧
    Announced root s.up.consumed dest size (c.hashed ++ claimed)
  dest_eq : c.dest = entryOf dir dest
  staging_eq : c.staging = entryOf dir (stagingPath dest)
  live : c.phase ≠ .closed
  unclaimed : c.phase = .copying → c.hashed.length < c.size → claimed = []
  checked : c.phase = .verified ∨ c.phase = .synced →
    c.hashed.length = c.size ∧ claimed = (blake3 c.hashed).1
  staged : Staged s.files c
  only : OnlyStaging before s.files c.staging c.inode
  no_leftover : s.leftover = none

def Untouched (before : Files (Entry D) UInt8) (s : Handler D) : Prop :=
  s.files = before ∧ s.leftover = none ∨
    ∃ dest size rest inode, Announced root s.up.consumed dest size rest ∧
      OnlyStaging before s.files (entryOf dir (stagingPath dest)) inode ∧
      ∀ c ∈ s.leftover, c.inode = inode

def Committed (s : Handler D) (dest : List Component) : Prop :=
  s.leftover = none ∧ ∃ size data, Announced root s.up.consumed dest size
      (data ++ (blake3 data).1) ∧ data.length = size.toNat ∧
    ∃ i, s.files.entries (entryOf dir dest) = some i ∧ s.files.contents i = data

def StageInv (before : Files (Entry D) UInt8) (s : Handler D) : Prop :=
  match s.stage with
  | .head got => s.up.consumed = got ∧ s.files = before ∧ s.leftover = none
  | .path pathLen size got => (∃ head, s.up.consumed = head ++ got ∧ head.length = headerLen ∧
      decodeHead head = .ok (pathLen, size)) ∧ s.files = before ∧ s.leftover = none
  | .creating dest size =>
    Announced root s.up.consumed dest size [] ∧ s.files = before ∧ s.leftover = none
  | .receiving dest c claimed _ => Receiving blake3 root dir before s dest c claimed
  | .replying (.ok dest) | .closed (.ok dest) => Committed blake3 root dir s dest
  | .replying (.error _) | .closed (.error _) => Untouched root dir before s

def Replied (s : Handler D) : Prop :=
  match s.stage with
  | .closed result => s.down.written <+: (replyOf result).encode ∧ s.down.closed = true
  | _ => s.down.written = []

variable {blake3 root dir} {before : Files (Entry D) UInt8} {s s' : Handler D}

def closedWith : HandlerStage (Entry D) → Option (Except String (List Component))
  | .closed result => some result
  | _ => none

structure Quiet (s s' : Handler D) : Prop where
  down : s'.down = s.down
  stage : closedWith s'.stage = closedWith s.stage
  written : s'.up.written = s.up.written

omit [DecidableEq D] in
lemma Quiet.replied (h : Quiet s s') (hs : s.Replied) : s'.Replied := by
  obtain ⟨stage, leftover, up, down, files⟩ := s
  obtain ⟨stage', leftover', up', down', files'⟩ := s'
  obtain ⟨rfl, hstage, -⟩ := h
  unfold Replied at hs ⊢
  cases stage <;> cases stage' <;> simp_all [closedWith]

variable (blake3 root dir before) in
/-- A step that sends nothing. -/
structure Keeps (s s' : Handler D) : Prop where
  stage : s'.StageInv blake3 root dir before
  quiet : Quiet s s'

variable {up : Pipe UInt8}

omit [DecidableEq D] in
lemma keeps_readHead {got : Bytes} (hopen : closedWith s.stage = none)
    (hup : up.consumed = got ∧ up.written = s.up.written) (hlen : got.length ≤ headerLen)
    (hkept : s.files = before ∧ s.leftover = none) :
    Keeps blake3 root dir before s (({ s with up } : Handler D).readHead got) := by
  unfold readHead
  split_ifs with hshort
  · exact ⟨⟨hup.1, hkept⟩, rfl, hopen.symm, hup.2⟩
  cases hdecode : decodeHead got with
  | error e => exact ⟨.inl hkept, rfl, hopen.symm, hup.2⟩
  | ok fields =>
    refine ⟨⟨⟨got, ?_, by omega, hdecode⟩, hkept⟩, rfl, hopen.symm, hup.2⟩
    rw [append_nil]
    exact hup.1

variable {size : UInt64}

lemma fromParts_size {pathBytes : Bytes} {header : FallbackHeader}
    (h : fromParts pathBytes size = .ok header) : header.size = size := by
  unfold fromParts at h
  split at h
  · cases h
  · cases h
    rfl

omit [DecidableEq D] in
lemma keeps_readPath {head got : Bytes} {pathLen : ℕ} (hopen : closedWith s.stage = none)
    (hup : up.consumed = head ++ got ∧ up.written = s.up.written) (hhead : head.length = headerLen)
    (hdecode : decodeHead head = .ok (pathLen, size)) (hlen : got.length ≤ pathLen)
    (hkept : s.files = before ∧ s.leftover = none) :
    Keeps blake3 root dir before s
      (({ s with up } : Handler D).readPath root pathLen size got) := by
  unfold readPath
  split_ifs with hshort
  · exact ⟨⟨⟨head, hup.1, hhead, hdecode⟩, hkept⟩, rfl, hopen.symm, hup.2⟩
  obtain rfl : got.length = pathLen := by omega
  cases hparts : fromParts got size with
  | error e => exact ⟨.inl hkept, rfl, hopen.symm, hup.2⟩
  | ok header =>
    have hsize := fromParts_size hparts
    cases hdest : destOf root header.path with
    | error e =>
      simp only [hdest]
      exact ⟨.inl hkept, rfl, hopen.symm, hup.2⟩
    | ok dest =>
      simp only [hdest]
      refine ⟨⟨⟨head, got, header.path, ?_, hhead, hdecode, ?_, hdest⟩, hkept⟩, rfl,
        hopen.symm, hup.2⟩
      · rw [append_nil]
        exact hup.1
      · rw [hparts, ← hsize]

omit [DecidableEq D] in
lemma StageInv.with_pipes (h : s.StageInv blake3 root dir before) {down : Pipe UInt8}
    (hconsumed : up.consumed = s.up.consumed) :
    ({ s with up, down } : Handler D).StageInv blake3 root dir before := by
  obtain ⟨stage, leftover, up₀, down₀, files⟩ := s
  unfold StageInv Committed Untouched at h ⊢
  rw [hconsumed]
  cases stage with
  | receiving dest c claimed reason =>
    refine { h with announced := ?_ }
    rw [hconsumed]
    exact h.announced
  | replying result | closed result =>
    cases result with
    | ok | error => exact h
  | _ => exact h

omit [DecidableEq D] in
lemma StageInv.only_staging (h : s.StageInv blake3 root dir before)
    (hnot : ∀ dest, s.stage ≠ .replying (.ok dest) ∧ s.stage ≠ .closed (.ok dest)) :
    s.files = before ∨ ∃ dest size rest inode, Announced root s.up.consumed dest size rest ∧
      OnlyStaging before s.files (entryOf dir (stagingPath dest)) inode := by
  have hrefused : Untouched root dir before s → s.files = before ∨ ∃ dest size rest inode,
      Announced root s.up.consumed dest size rest ∧
        OnlyStaging before s.files (entryOf dir (stagingPath dest)) inode := by
    rintro (⟨hfiles, -⟩ | ⟨dest, size, rest, inode, hannounced, honly, -⟩)
    · exact .inl hfiles
    · exact .inr ⟨dest, size, rest, inode, hannounced, honly⟩
  unfold StageInv at h
  cases hs : s.stage with
  | head | path | creating =>
    rw [hs] at h
    exact .inl h.2.1
  | receiving dest c claimed reason =>
    rw [hs] at h
    obtain ⟨size, -, hannounced⟩ := h.announced
    exact .inr ⟨dest, size, _, c.inode, hannounced, h.staging_eq ▸ h.only⟩
  | replying result =>
    rw [hs] at h
    cases result with
    | ok dest => exact absurd hs (hnot dest).1
    | error reason => exact hrefused h
  | closed result =>
    rw [hs] at h
    cases result with
    | ok dest => exact absurd hs (hnot dest).2
    | error reason => exact hrefused h

/-! ## The payload and its hash -/

lemma Announced.append {consumed rest : Bytes} {dest : List Component}
    (h : Announced root consumed dest size rest) (data : Bytes) :
    Announced root (consumed ++ data) dest size (rest ++ data) := by
  obtain ⟨head, pathBytes, path, rfl, hrest⟩ := h
  refine ⟨head, pathBytes, path, ?_, hrest⟩
  simp only [append_assoc]

variable {dest : List Component} {c c' : Conn (Entry D)} {claimed : Bytes} {a : Action}
variable {files' : Files (Entry D) UInt8}

lemma act_fixed (h : act blake3 s.files c a = some (files', c')) :
    c'.staging = c.staging ∧ c'.dest = c.dest ∧ c'.size = c.size := by
  cases a with
  | giveUp =>
    cases h
    exact ⟨rfl, rfl, rfl⟩
  | _ =>
    obtain ⟨-, ⟨⟩⟩ := guard_eq_some h
    exact ⟨rfl, rfl, rfl⟩

lemma OnlyStaging.of_act (h : OnlyStaging before s.files c.staging c.inode)
    (hact : act blake3 s.files c a = some (files', c')) (ha : a ≠ .rename) :
    OnlyStaging before files' c.staging c.inode := by
  have hframe := act_frame hact
  refine ⟨?_, ?_, h.inode⟩
  · intro p hp
    rcases hframe.entries p with heq | ⟨-, hstaging | ⟨hrename, -⟩⟩
    · exact heq.trans (h.entries p hp)
    · exact absurd hstaging hp
    · exact absurd hrename ha
  · intro i hi
    rcases hframe.contents i with heq | ⟨-, hinode⟩
    · exact heq.trans (h.contents i hi)
    · exact absurd hinode hi

variable {data : Bytes}

lemma Receiving.of_act (h : Receiving blake3 root dir before s dest c claimed)
    (hact : act blake3 s.files c a = some (files', c')) (ha : a ≠ .rename)
    (hlive : c'.phase ≠ .closed) {claimed' : Bytes} (hup : up.consumed = s.up.consumed ++ data)
    (hread : c'.hashed ++ claimed' = c.hashed ++ claimed ++ data)
    (hunclaimed : c'.phase = .copying → c'.hashed.length < c'.size → claimed' = [])
    (hchecked : c'.phase = .verified ∨ c'.phase = .synced →
      c'.hashed.length = c'.size ∧ claimed' = (blake3 c'.hashed).1)
    (stage : HandlerStage (Entry D)) :
    Receiving blake3 root dir before { s with up, files := files', stage } dest c' claimed' := by
  obtain ⟨hstaging, hdest, hsize⟩ := act_fixed hact
  obtain ⟨size, hc, hannounced⟩ := h.announced
  have hinode := (act_frame hact).inode
  refine ⟨⟨size, hsize.trans hc, ?_⟩, hdest.trans h.dest_eq, hstaging.trans h.staging_eq, hlive,
    hunclaimed, hchecked, act_staged hact hlive h.staged, ?_, h.no_leftover⟩
  · rw [hup, hread]
    exact hannounced.append data
  · rw [hstaging, hinode]
    exact h.only.of_act hact ha

lemma Receiving.untouched (h : Receiving blake3 root dir before s dest c claimed)
    (hact : act blake3 s.files c a = some (files', c')) (ha : a ≠ .rename)
    (stage : HandlerStage (Entry D)) :
    Untouched root dir before { s with files := files', leftover := some c', stage } := by
  obtain ⟨size, -, hannounced⟩ := h.announced
  refine .inr ⟨dest, size, _, c.inode, hannounced, ?_, ?_⟩
  · rw [← h.staging_eq]
    exact h.only.of_act hact ha
  · intro d hd
    cases hd
    exact (act_frame hact).inode

variable {reason : String}

section

variable (h : Receiving blake3 root dir before s dest c claimed)
variable (hopen : closedWith s.stage = none)
include h hopen

lemma keeps_dropping (ha : a ≠ .rename) (hdrop : s.dropping blake3 c reason a = some s') :
    Keeps blake3 root dir before s s' := by
  obtain ⟨⟨files', c'⟩, hact, rfl⟩ := map_eq_some_iff.mp hdrop
  exact ⟨h.untouched hact ha _, rfl, hopen.symm, rfl⟩

variable (hup : up.consumed = s.up.consumed ++ data ∧ up.written = s.up.written)

include hup in
lemma keeps_readPayload (hphase : c.phase = .copying) (hshort : c.hashed.length < c.size)
    (hacting : ({ s with up } : Handler D).acting blake3 dest c claimed reason (.read data) =
      some s') : Keeps blake3 root dir before s s' := by
  obtain ⟨⟨files', c'⟩, hact, rfl⟩ := map_eq_some_iff.mp hacting
  have hnil := h.unclaimed hphase hshort
  subst hnil
  obtain ⟨hread, ⟨⟩⟩ := guard_eq_some hact
  refine ⟨h.of_act hact (by simp) (by simp [hphase]) hup.1 (by simp) (fun _ _ => rfl) ?_ _, rfl,
    hopen.symm, hup.2⟩
  rw [hphase]
  rintro (hv | hv)
  · cases hv
  · cases hv

include hup in
lemma keeps_hash {claimed' : Bytes} (hclaimed : claimed' = claimed ++ data)
    {given : Option (FixedBytes 32)} (hgiven : ∀ g ∈ given, g.1 = claimed')
    (hacting : ({ s with up } : Handler D).acting blake3 dest c claimed' reason (.hash given) =
      some s') : Keeps blake3 root dir before s s' := by
  obtain ⟨⟨files', c'⟩, hact, rfl⟩ := map_eq_some_iff.mp hacting
  obtain ⟨⟨hphase, hlen⟩, ⟨⟩⟩ := guard_eq_some hact
  refine ⟨h.of_act hact (by simp) ?_ hup.1 (by simp [hclaimed]) ?_ ?_ _, rfl, hopen.symm, hup.2⟩
  · split <;> simp
  · split <;> simp
  intro hv
  refine ⟨hlen, ?_⟩
  split at hv
  · rename_i hequal
    exact (hgiven _ hequal).symm
  · simp at hv

include hup in
lemma keeps_readHash (hfull : ¬c.hashed.length < c.size) (hphase : c.phase = .copying)
    (hread : ({ s with up } : Handler D).readHash blake3 dest c (claimed ++ data) reason =
      some s') : Keeps blake3 root dir before s s' := by
  unfold readHash at hread
  split at hread
  · apply keeps_hash h hopen hup rfl _ hread
    rintro g ⟨⟩
    rfl
  · cases hread
    obtain ⟨size, hc, hannounced⟩ := h.announced
    refine ⟨{ h with announced := ⟨size, hc, ?_⟩, unclaimed := ?_, checked := ?_ }, rfl, hopen.symm,
      hup.2⟩
    · rw [hup.1, ← append_assoc]
      exact hannounced.append data
    · exact fun _ hshort => absurd hshort hfull
    · rw [hphase]
      rintro (hv | hv)
      · cases hv
      · cases hv

lemma keeps_noHash {e : String} (hno : s.noHash blake3 dest c claimed e = some s') :
    Keeps blake3 root dir before s s' := by
  apply keeps_hash h hopen ⟨(append_nil _).symm, rfl⟩ (append_nil claimed).symm _ hno
  rintro g ⟨⟩

lemma keeps_acting (ha : a = .disconnect ∨ a = .sync ∨ ∃ n, a = .write n)
    (hacting : s.acting blake3 dest c claimed reason a = some s') :
    Keeps blake3 root dir before s s' := by
  obtain ⟨⟨files', c'⟩, hact, rfl⟩ := map_eq_some_iff.mp hacting
  refine ⟨?_, rfl, hopen.symm, rfl⟩
  have hnil := (append_nil s.up.consumed).symm
  rcases ha with rfl | rfl | ⟨n, rfl⟩
  · obtain ⟨-, ⟨⟩⟩ := guard_eq_some hact
    exact h.of_act hact (by simp) (by simp) hnil (by simp) (by simp) (by simp) _
  · obtain ⟨⟨hphase, -⟩, ⟨⟩⟩ := guard_eq_some hact
    have hchecked := h.checked (.inl hphase)
    exact h.of_act hact (by simp) (by simp) hnil (by simp) (by simp) (fun _ => hchecked) _
  · obtain ⟨-, ⟨⟩⟩ := guard_eq_some hact
    exact h.of_act hact (by simp) h.live hnil (by simp) h.unclaimed h.checked _

end

/-! ## The other steps -/

lemma keeps_create (h : s.StageInv blake3 root dir before) (hcreate : s.create dir = some s') :
    Keeps blake3 root dir before s s' := by
  unfold create at hcreate
  split at hcreate
  · rename_i dest size hstage
    cases hcreate
    rw [StageInv, hstage] at h
    obtain ⟨hannounced, rfl, hleft⟩ := h
    refine ⟨⟨⟨size, rfl, hannounced⟩, rfl, rfl, by simp, fun _ _ => rfl, by simp, ?_, ?_, hleft⟩,
      rfl, by rw [hstage]; rfl, rfl⟩
    · refine ⟨s.files.create_entries _, ?_, ?_, by simp⟩
      · rw [s.files.create_contents, append_nil]
      · rw [s.files.create_contents, length_nil]
    · exact ⟨fun p hp => s.files.create_entries_of_ne hp,
        fun i hi => s.files.create_contents_of_ne hi, s.files.create_inode _⟩
  · cases hcreate

variable {n : ℕ}

lemma Untouched.write (h : Untouched root dir before s) (hc : s.leftover = some c)
    (hact : act blake3 s.files c (.write n) = some (files', c')) :
    Untouched root dir before { s with files := files', leftover := some c' } := by
  rcases h with ⟨-, hnone⟩ | ⟨dest, size, rest, inode, hannounced, honly, hleft⟩
  · rw [hc] at hnone
    cases hnone
  have hinode := hleft c hc
  obtain ⟨-, ⟨⟩⟩ := guard_eq_some hact
  refine .inr ⟨dest, size, rest, inode, hannounced, ⟨honly.entries, ?_, honly.inode⟩, ?_⟩
  · intro i hi
    rw [← honly.contents i hi]
    exact Function.update_of_ne (hinode ▸ hi) _ _
  · rintro d ⟨⟩
    exact hinode

section

variable (h : s.StageInv blake3 root dir before)
include h

lemma keeps_write
    (hwrite : s.write blake3 n = some s') : Keeps blake3 root dir before s s' := by
  have hlate : Untouched root dir before s →
      (s.leftover.bind fun c => (act blake3 s.files c (.write n)).map fun p =>
        ({ s with files := p.1, leftover := some p.2 } : Handler D)) = some s' →
      Untouched root dir before s' ∧ s'.stage = s.stage ∧ Quiet s s' := by
    intro huntouched hbind
    obtain ⟨c, hc, hmap⟩ := bind_eq_some_iff.mp hbind
    obtain ⟨⟨files', c'⟩, hact, rfl⟩ := map_eq_some_iff.mp hmap
    exact ⟨huntouched.write hc hact, rfl, rfl, rfl, rfl⟩
  obtain ⟨stage, leftover, up, down, files⟩ := s
  cases stage with
  | receiving dest c claimed reason =>
    exact keeps_acting h rfl (.inr (.inr ⟨n, rfl⟩)) hwrite
  | head | path | creating =>
    obtain ⟨-, -, rfl⟩ := h
    cases hwrite
  | replying result | closed result =>
    cases result with
    | ok dest =>
      obtain ⟨rfl, -⟩ := h
      cases hwrite
    | error reason =>
      obtain ⟨hs', hstage, hquiet⟩ := hlate h hwrite
      refine ⟨?_, hquiet⟩
      rw [StageInv, hstage]
      exact hs'

lemma keeps_rename (hrename : s.rename = some s') :
    Keeps blake3 root dir before s s' := by
  unfold rename at hrename
  split at hrename
  · rename_i dest c claimed reason hstage
    rw [StageInv, hstage] at h
    obtain ⟨⟨hphase, -⟩, hmap⟩ := ite_none_right_eq_some.mp hrename
    obtain ⟨files', hfiles, rfl⟩ := map_eq_some_iff.mp hmap
    obtain ⟨size, hsize, hannounced⟩ := h.announced
    obtain ⟨hlen, rfl⟩ := h.checked (.inr hphase)
    have hfilled := h.staged.filled
    rw [h.staged.flushed hphase, append_nil] at hfilled
    refine ⟨⟨h.no_leftover, size, c.hashed, hannounced, hlen.trans hsize, c.inode, ?_, ?_⟩,
      rfl, by rw [hstage]; rfl, rfl⟩
    · rw [← h.dest_eq]
      exact (s.files.rename_entries hfiles).trans h.staged.named
    · exact (congrFun (s.files.rename_eq_some hfiles).1 c.inode).trans hfilled
  · cases hrename

lemma keeps_read (hup : s.up.read n = some (data, up))
    (hread : ({ s with up } : Handler D).read blake3 root data = some s') :
    Keeps blake3 root dir before s s' := by
  obtain ⟨hwritten, hconsumed, -⟩ := Pipe.read_eq_some hup
  obtain ⟨stage, leftover, up₀, down, files⟩ := s
  cases stage with
  | head got =>
    obtain ⟨hgot, hkept⟩ := h
    obtain ⟨hlen, rfl⟩ := guard_eq_some hread
    refine keeps_readHead rfl ⟨?_, hwritten⟩ ?_ hkept
    · exact hconsumed.trans (congrArg (· ++ data) hgot)
    · rw [length_append]
      exact hlen
  | path pathLen size got =>
    obtain ⟨⟨head, hgot, hhead, hdecode⟩, hkept⟩ := h
    obtain ⟨hlen, rfl⟩ := guard_eq_some hread
    refine keeps_readPath rfl ⟨?_, hwritten⟩ hhead hdecode ?_ hkept
    · exact hconsumed.trans ((congrArg (· ++ data) hgot).trans (append_assoc _ _ _))
    · rw [length_append]
      exact hlen
  | receiving dest c claimed reason =>
    unfold Handler.read at hread
    dsimp only at hread
    split_ifs at hread with hphase hshort hlen
    · exact keeps_readPayload h rfl ⟨hconsumed, hwritten⟩ (not_not.mp hphase) hshort hread
    · exact keeps_readHash h rfl ⟨hconsumed, hwritten⟩ hshort (not_not.mp hphase) hread
  | creating | replying | closed => cases hread

lemma keeps_eof (heof : s.eof blake3 = some s') :
    Keeps blake3 root dir before s s' := by
  obtain ⟨stage, leftover, up, down, files⟩ := s
  cases stage with
  | head | path =>
    cases heof
    exact ⟨.inl h.2, rfl, rfl, rfl⟩
  | receiving dest c claimed reason =>
    unfold eof at heof
    dsimp only at heof
    split_ifs at heof with hphase hshort
    · exact keeps_acting h rfl (.inl rfl) heof
    · exact keeps_noHash h rfl heof
  | creating | replying | closed => cases heof

lemma keeps_giveUp {text : String}
    (hgive : s.giveUp blake3 text = some s') : Keeps blake3 root dir before s s' := by
  obtain ⟨stage, leftover, up, down, files⟩ := s
  cases stage with
  | head | path | creating =>
    cases hgive
    exact ⟨.inl h.2, rfl, rfl, rfl⟩
  | receiving dest c claimed reason =>
    unfold giveUp at hgive
    dsimp only at hgive
    split at hgive
    · split_ifs at hgive
      · exact keeps_dropping h rfl (by simp) hgive
      · exact keeps_noHash h rfl hgive
    · exact keeps_dropping h rfl (by simp) hgive
    · exact keeps_dropping h rfl (by simp) hgive
    · cases hgive
    · cases hgive
  | replying | closed => cases hgive

end

variable {e : HandlerEvent}

/-- A handler sends its reply, or nothing. -/
theorem keeps_or_reply (h : s.StageInv blake3 root dir before)
    (hstep : s.step blake3 root dir e = some s') :
    Keeps blake3 root dir before s s' ∨ ∃ n result, s.stage = .replying result ∧ s' = { s with
      down := (s.down.write ((replyOf result).encode.take n)).close, stage := .closed result } := by
  cases e with
  | read n =>
    obtain ⟨-, hbind⟩ := ite_none_right_eq_some.mp hstep
    obtain ⟨⟨data, up⟩, hup, hread⟩ := bind_eq_some_iff.mp hbind
    exact .inl (keeps_read h hup hread)
  | eof =>
    obtain ⟨-, heof⟩ := ite_none_right_eq_some.mp hstep
    exact .inl (keeps_eof h heof)
  | giveUp text => exact .inl (keeps_giveUp h hstep)
  | create => exact .inl (keeps_create h hstep)
  | write n => exact .inl (keeps_write h hstep)
  | remove ok =>
    obtain ⟨stage, leftover, up, down, files⟩ := s
    cases stage with
    | receiving dest c claimed reason =>
      obtain ⟨-, hdrop⟩ := ite_none_right_eq_some.mp hstep
      exact .inl (keeps_dropping h rfl (by split <;> simp) hdrop)
    | _ => cases hstep
  | sync =>
    obtain ⟨stage, leftover, up, down, files⟩ := s
    cases stage with
    | receiving dest c claimed reason =>
      exact .inl (keeps_acting h rfl (.inr (.inl rfl)) hstep)
    | _ => cases hstep
  | rename => exact .inl (keeps_rename h hstep)
  | reply n =>
    obtain ⟨stage, leftover, up, down, files⟩ := s
    cases stage with
    | replying result =>
      cases hstep
      exact .inr ⟨n, result, rfl, rfl⟩
    | _ => cases hstep

lemma stageInv_step (h : s.StageInv blake3 root dir before)
    (hstep : s.step blake3 root dir e = some s') : s'.StageInv blake3 root dir before := by
  rcases keeps_or_reply h hstep with hkeeps | ⟨n, result, hstage, rfl⟩
  · exact hkeeps.stage
  · rw [StageInv, hstage] at h
    cases result with
    | ok | error => exact h

lemma replied_step (h : s.StageInv blake3 root dir before) (hreplied : s.Replied)
    (hstep : s.step blake3 root dir e = some s') : s'.Replied := by
  rcases keeps_or_reply h hstep with hkeeps | ⟨n, result, hstage, rfl⟩
  · exact hkeeps.quiet.replied hreplied
  rw [Replied, hstage] at hreplied
  refine ⟨?_, rfl⟩
  rw [Pipe.written_close, Pipe.written_write, hreplied, nil_append]
  exact take_prefix _ _

end Model

end Handler

end Favonius.Daemon.Fallback
