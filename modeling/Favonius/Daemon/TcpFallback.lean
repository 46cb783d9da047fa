import Favonius.Daemon.Confinement
import Favonius.Lib.FileTable
import Favonius.Lib.Holdings

/-!
# Receiving over TCP

Each fallback connection streams its payload into a staging file next to the destination,
hashes it on the way and renames the staging file once the hash is right.  The staging name
depends on the destination only, so connections meet in the directory they share.

Connections are numbered in the order in which their staging files are created.  The bytes a
connection has handed to its file may still be on their way to the disk, also after the
handler returned without a flush.
-/

namespace Favonius.Daemon.Fallback

open Execution ByteCodec FileTable Holdings UnixPath List Option

def copyBuffer : ℕ := 256 * 1024

/-! ## Paths -/

def fileName (path : List Component) : Option Name :=
  match path.getLast? with
  | some (.normal name) => some name
  | _ => none

def withFileName (path : List Component) (name : Name) : List Component :=
  (if (fileName path).isSome then path.dropLast else path) ++ [.normal name]

def partSuffix : List Char := ['.', 'p', 'a', 'r', 't']

def partName (name : Option Name) : Name where
  chars := (name.elim [] Name.chars) ++ partSuffix
  isName := by
    have hlen : 5 ≤ ((name.elim [] Name.chars) ++ partSuffix).length := by simp [partSuffix]
    refine ⟨?_, ?_, ?_, ?_⟩
    · rintro h
      simp [h] at hlen
    · rintro h
      simp [h] at hlen
    · rintro h
      simp [h] at hlen
    · cases name with
      | none => decide
      | some name => simpa [partSuffix] using name.isName.2.2.2

def stagingPath (dest : List Component) : List Component :=
  withFileName dest (partName (fileName dest))

def destOf (root : Option String) (path : String) : Except String (List Component) :=
  match root with
  | none => .ok (components path.toList)
  | some root => (confineDestPath root path).map LexicalPath.components

/-! ## Connections -/

inductive Phase where
  | copying
  | verified
  | synced
  /-- An error was found after which the staging file is removed. -/
  | failing
  | closed
  deriving DecidableEq

structure Conn (L : Type*) where
  dest : L
  staging : L
  inode : ℕ
  pos : ℕ
  size : ℕ
  hashed : Bytes
  pending : Bytes
  phase : Phase

def Conn.Holds {L : Type*} (c : Conn L) : Prop := c.phase ≠ .closed ∨ c.pending ≠ []

instance {L : Type*} (c : Conn L) : Decidable c.Holds := inferInstanceAs (Decidable (_ ∨ _))

inductive Action where
  | read (data : Bytes)
  | write (n : ℕ)
  /-- The peer closes before all of the payload has come. -/
  | disconnect
  /-- The trailing hash; none if it does not come. -/
  | hash (claimed : Option (FixedBytes 32))
  | remove
  | sync
  | rename
  /-- A timeout or a failed file operation; the staging file stays. -/
  | giveUp

inductive Event where
  | accept (path : String) (size : ℕ)
  | act (k : ℕ) (action : Action)

structure Sys (L : Type*) where
  files : Files L UInt8
  conns : List (Conn L)

def start {L : Type*} (files : Files L UInt8) : Sys L := ⟨files, []⟩

section Model

variable {L : Type*} [DecidableEq L]
variable (blake3 : Bytes → FixedBytes 32) (root : Option String)
-- the directory entry that a path leads to
variable (entry : List Component → L)

def act (files : Files L UInt8) (c : Conn L) : Action → Option (Files L UInt8 × Conn L)
  | .read data =>
    if c.phase = .copying ∧ 0 < data.length ∧ data.length ≤ copyBuffer ∧
        c.hashed.length + data.length ≤ c.size then
      some (files, { c with hashed := c.hashed ++ data, pending := c.pending ++ data })
    else none
  | .write n =>
    if 0 < n ∧ c.pending ≠ [] then
      some (files.write 0 c.inode c.pos (c.pending.take n),
        { c with pos := c.pos + (c.pending.take n).length, pending := c.pending.drop n })
    else none
  | .disconnect =>
    if c.phase = .copying ∧ c.hashed.length < c.size then
      some (files, { c with phase := .failing })
    else none
  | .hash claimed =>
    if c.phase = .copying ∧ c.hashed.length = c.size then
      some (files, { c with
        phase := if claimed = some (blake3 c.hashed) then .verified else .failing })
    else none
  | .remove =>
    if c.phase = .failing then some (files.remove c.staging, { c with phase := .closed })
    else none
  | .sync =>
    if c.phase = .verified ∧ c.pending = [] then some (files, { c with phase := .synced })
    else none
  | .rename =>
    if c.phase = .synced then
      some ((files.rename c.staging c.dest).getD files, { c with phase := .closed })
    else none
  | .giveUp => some (files, { c with phase := .closed })

def accept (s : Sys L) (dest : List Component) (size : ℕ) : Sys L :=
  let staging := entry (stagingPath dest)
  let created := s.files.create staging
  ⟨created.1, s.conns ++ [⟨entry dest, staging, created.2, 0, size, [], [], .copying⟩]⟩

def step (s : Sys L) : Event → Option (Sys L)
  | .accept path size =>
    match destOf root path with
    | .error _ => some s
    | .ok dest => some (accept entry s dest size)
  | .act k action =>
    s.conns[k]?.bind fun c => (act blake3 s.files c action).map fun p =>
      ⟨p.1, s.conns.set k p.2⟩

/-- A file that gets its destination's name: what its connection checked and what it holds. -/
structure Commit where
  checked : Bytes
  held : Bytes
  deriving DecidableEq

def committed (s : Sys L) : Event → List Commit
  | .act k .rename =>
    (s.conns[k]?.bind fun c => (s.files.entries c.staging).map fun i =>
      Commit.mk c.hashed (s.files.contents i)).toList
  | _ => []

/-- No staging file is created over one that a connection still writes to, and none is
replaced by a rename. -/
def Undisturbed (s : Sys L) : Event → Prop
  | .accept path _ =>
    match destOf root path with
    | .error _ => True
    | .ok dest =>
      ∀ c ∈ s.conns, c.Holds → s.files.entries (entry (stagingPath dest)) ≠ some c.inode
  | .act k .rename =>
    ∀ c ∈ s.conns[k]?, ∀ d ∈ s.conns.eraseIdx k, d.phase ≠ .closed → d.staging ≠ c.dest
  | _ => True

instance (s : Sys L) : ∀ e, Decidable (Undisturbed root entry s e)
  | .accept path _ =>
    match h : destOf root path with
    | .error _ => .isTrue (by simp only [Undisturbed, h])
    | .ok dest => decidable_of_iff
        (∀ c ∈ s.conns, c.Holds → s.files.entries (entry (stagingPath dest)) ≠ some c.inode)
        (by simp only [Undisturbed, h])
  | .act k .rename => inferInstanceAs (Decidable
      (∀ c ∈ s.conns[k]?, ∀ d ∈ s.conns.eraseIdx k, d.phase ≠ .closed → d.staging ≠ c.dest))
  | .act _ (.read _) | .act _ (.write _) | .act _ .disconnect | .act _ (.hash _) | .act _ .remove
  | .act _ .sync | .act _ .giveUp => .isTrue trivial

/-! ## What one connection does -/

/-- The staging file is the connection's own: under its name, and with the hashed bytes once
everything is written. -/
structure Staged (files : Files L UInt8) (c : Conn L) : Prop where
  named : files.entries c.staging = some c.inode
  filled : files.contents c.inode ++ c.pending = c.hashed
  at_end : c.pos = (files.contents c.inode).length
  flushed : c.phase = .synced → c.pending = []

/-- An action reaches the connection's own inode, and names only while it is not closed. -/
structure Frame (files files' : Files L UInt8) (c c' : Conn L) (a : Action) : Prop where
  inode : c'.inode = c.inode
  holds : c'.Holds → c.Holds
  live : c'.phase ≠ .closed → c.phase ≠ .closed
  next : files'.next = files.next
  contents : ∀ i, files'.contents i = files.contents i ∨ c.Holds ∧ i = c.inode
  entries : ∀ p, files'.entries p = files.entries p ∨
    c.phase ≠ .closed ∧ (p = c.staging ∨ a = .rename ∧ p = c.dest)

variable {blake3} {files files' : Files L UInt8} {c c' : Conn L} {a : Action}

omit [DecidableEq L] in
lemma Frame.of_same_files (hlive : c.phase ≠ .closed) (hinode : c'.inode = c.inode) :
    Frame files files c c' a :=
  ⟨hinode, fun _ => .inl hlive, fun _ => hlive, rfl, fun _ => .inl rfl, fun _ => .inl rfl⟩

omit [DecidableEq L] in
lemma Staged.of_eq (h : Staged files c)
    (hentries : files'.entries c.staging = files.entries c.staging)
    (hcontents : files'.contents c.inode = files.contents c.inode) : Staged files' c where
  named := hentries.trans h.named
  filled := (congrArg (· ++ c.pending) hcontents).trans h.filled
  at_end := h.at_end.trans (congrArg List.length hcontents).symm
  flushed := h.flushed

lemma act_frame (h : act blake3 files c a = some (files', c')) : Frame files files' c c' a := by
  cases a with
  | read | disconnect | hash | sync =>
    obtain ⟨⟨hphase, -⟩, ⟨⟩⟩ := guard_eq_some h
    exact Frame.of_same_files (by simp [hphase]) rfl
  | write n =>
    obtain ⟨⟨-, hpending⟩, ⟨⟩⟩ := guard_eq_some h
    refine ⟨rfl, fun _ => .inr hpending, id, rfl, ?_, fun _ => .inl rfl⟩
    intro i
    by_cases hi : i = c.inode
    · exact .inr ⟨.inr hpending, hi⟩
    · exact .inl (Function.update_of_ne hi _ _)
  | remove =>
    obtain ⟨hphase, ⟨⟩⟩ := guard_eq_some h
    have hlive : c.phase ≠ .closed := by simp [hphase]
    refine ⟨rfl, fun _ => .inl hlive, fun _ => hlive, rfl, fun _ => .inl rfl, ?_⟩
    intro p
    by_cases hp : p = c.staging
    · exact .inr ⟨hlive, .inl hp⟩
    · exact .inl (Function.update_of_ne hp _ _)
  | rename =>
    obtain ⟨hphase, ⟨⟩⟩ := guard_eq_some h
    have hlive : c.phase ≠ .closed := by simp [hphase]
    cases hrename : files.rename c.staging c.dest with
    | none => exact Frame.of_same_files hlive rfl
    | some renamed =>
      obtain ⟨hcontents, hnext, hentries⟩ := files.rename_eq_some hrename
      refine ⟨rfl, fun _ => .inl hlive, fun _ => hlive, hnext, ?_, ?_⟩
      · exact fun i => .inl (congrFun hcontents i)
      intro p
      by_cases hstaging : p = c.staging
      · exact .inr ⟨hlive, .inl hstaging⟩
      · by_cases hdest : p = c.dest
        · exact .inr ⟨hlive, .inr ⟨rfl, hdest⟩⟩
        · exact .inl (hentries p hstaging hdest)
  | giveUp =>
    cases h
    exact ⟨rfl, fun hc => .inr (hc.resolve_left (not_not.mpr rfl)),
      fun hc => absurd rfl hc, rfl, fun _ => .inl rfl, fun _ => .inl rfl⟩

lemma act_staged (h : act blake3 files c a = some (files', c')) (hlive : c'.phase ≠ .closed)
    (hc : Staged files c) : Staged files' c' := by
  cases a with
  | read data =>
    obtain ⟨⟨hphase, -⟩, ⟨⟩⟩ := guard_eq_some h
    refine ⟨hc.named, ?_, hc.at_end, fun hsynced => ?_⟩
    · rw [← append_assoc, hc.filled]
    · rw [hphase] at hsynced
      cases hsynced
  | write n =>
    obtain ⟨-, ⟨⟩⟩ := guard_eq_some h
    -- the position is at the end, so the bytes are appended
    have hwrite : (files.write 0 c.inode c.pos (c.pending.take n)).contents c.inode =
        files.contents c.inode ++ c.pending.take n := by
      rw [Files.write_contents, hc.at_end, writeAt_length]
    refine ⟨hc.named, ?_, ?_, fun hsynced => ?_⟩
    · rw [hwrite, append_assoc, take_append_drop, hc.filled]
    · rw [hwrite, length_append, hc.at_end]
    · rw [hc.flushed hsynced, drop_nil]
  | disconnect =>
    obtain ⟨-, ⟨⟩⟩ := guard_eq_some h
    exact ⟨hc.named, hc.filled, hc.at_end, nofun⟩
  | hash claimed =>
    obtain ⟨-, ⟨⟩⟩ := guard_eq_some h
    refine ⟨hc.named, hc.filled, hc.at_end, fun hsynced => ?_⟩
    split at hsynced <;> cases hsynced
  | sync =>
    obtain ⟨⟨-, hpending⟩, ⟨⟩⟩ := guard_eq_some h
    exact ⟨hc.named, hc.filled, hc.at_end, fun _ => hpending⟩
  | remove | rename =>
    obtain ⟨-, ⟨⟩⟩ := guard_eq_some h
    exact absurd rfl hlive
  | giveUp =>
    cases h
    exact absurd rfl hlive

/-! ## Connections side by side -/

structure Inv (s : Sys L) : Prop where
  staged : ∀ (k : ℕ) (c : Conn L), s.conns[k]? = some c → c.phase ≠ .closed → Staged s.files c
  apart : ∀ (j k : ℕ) (c d : Conn L), s.conns[j]? = some c → s.conns[k]? = some d → j ≠ k →
    c.Holds → d.Holds → c.inode ≠ d.inode
  known : ∀ (k : ℕ) (c : Conn L), s.conns[k]? = some c → c.inode < s.files.next

omit [DecidableEq L] in
lemma inv_start (files : Files L UInt8) : Inv (start files) := by
  refine ⟨?_, ?_, ?_⟩ <;> simp [start]

variable {s : Sys L}

lemma inv_accept {entry : List Component → L} (hs : Inv s) (dest : List Component) (size : ℕ)
    (hfree : ∀ c ∈ s.conns, c.Holds → s.files.entries (entry (stagingPath dest)) ≠ some c.inode) :
    Inv (accept entry s dest size) := by
  set staging := entry (stagingPath dest) with hstaging
  set created := s.files.create staging with hcreated
  -- the new inode is not the one of any connection that still writes
  have hother : ∀ (k : ℕ) (c : Conn L), s.conns[k]? = some c → c.Holds → c.inode ≠ created.2 := by
    intro k c hc hholds heq
    rcases s.files.create_inode staging with hnamed | hnew
    · exact hfree c (mem_of_getElem? hc) hholds (by rw [hnamed, ← hcreated, heq])
    · have hlt := hs.known k c hc
      rw [heq, hcreated, hnew] at hlt
      exact lt_irrefl _ hlt
  have hold : ∀ (k : ℕ) (c : Conn L), (accept entry s dest size).conns[k]? = some c →
      s.conns[k]? = some c ∨ k = s.conns.length ∧
        c = ⟨entry dest, staging, created.2, 0, size, [], [], .copying⟩ := by
    intro k c hc
    exact getElem?_concat_cases hc
  refine ⟨?_, ?_, ?_⟩
  · intro k c hc hlive
    rcases hold k c hc with hc | ⟨-, rfl⟩
    · have hstaged := hs.staged k c hc hlive
      have hentry : c.staging ≠ staging := by
        intro heq
        exact hfree c (mem_of_getElem? hc) (.inl hlive) (heq ▸ hstaged.named)
      exact hstaged.of_eq (s.files.create_entries_of_ne hentry)
        (s.files.create_contents_of_ne (hother k c hc (.inl hlive)))
    · have hempty : created.1.contents created.2 = [] := s.files.create_contents staging
      refine ⟨s.files.create_entries staging, ?_, ?_, nofun⟩
      · exact congrArg (· ++ []) hempty
      · exact (congrArg List.length hempty).symm
  · intro j k c d hc hd hjk hcholds hdholds
    rcases hold j c hc with hc | ⟨rfl, rfl⟩
    · rcases hold k d hd with hd | ⟨rfl, rfl⟩
      · exact hs.apart j k c d hc hd hjk hcholds hdholds
      · exact hother j c hc hcholds
    · rcases hold k d hd with hd | ⟨rfl, rfl⟩
      · exact (hother k d hd hdholds).symm
      · exact absurd rfl hjk
  · intro k c hc
    rcases hold k c hc with hc | ⟨-, rfl⟩
    · exact (hs.known k c hc).trans_le (s.files.create_next_le staging)
    · exact s.files.create_inode_lt staging

lemma inv_act (hs : Inv s) {k : ℕ} (hc : s.conns[k]? = some c)
    (hact : act blake3 s.files c a = some (files', c'))
    (hdest : a = .rename → ∀ d ∈ s.conns.eraseIdx k, d.phase ≠ .closed → d.staging ≠ c.dest) :
    Inv ⟨files', s.conns.set k c'⟩ := by
  have hframe := act_frame hact
  refine ⟨?_, ?_, ?_⟩
  · intro j d hd hlive
    rcases getElem?_set_cases hd with ⟨-, rfl⟩ | ⟨hj, hd⟩
    · exact act_staged hact hlive (hs.staged k c hc (hframe.live hlive))
    have hstaged := hs.staged j d hd hlive
    -- the file and the name of another connection are out of reach
    have hcontents : files'.contents d.inode = s.files.contents d.inode :=
      (hframe.contents d.inode).resolve_right fun h =>
        hs.apart j k d c hd hc hj (.inl hlive) h.1 h.2
    have hentries : files'.entries d.staging = s.files.entries d.staging := by
      rcases hframe.entries d.staging with heq | ⟨hclive, hname | ⟨hrename, hname⟩⟩
      · exact heq
      · have hsame : d.inode = c.inode := by
          have hc' := (hs.staged k c hc hclive).named
          rw [← hname, hstaged.named] at hc'
          exact some.inj hc'
        exact absurd hsame (hs.apart j k d c hd hc hj (.inl hlive) (.inl hclive))
      · have hmem : d ∈ s.conns.eraseIdx k :=
          mem_eraseIdx_iff_getElem?.mpr ⟨j, hj, hd⟩
        exact absurd hname (hdest hrename d hmem hlive)
    exact hstaged.of_eq hentries hcontents
  · intro i j d e hd he hij hdholds heholds
    rcases getElem?_set_cases hd with ⟨rfl, rfl⟩ | ⟨-, hd'⟩
    · rcases getElem?_set_cases he with ⟨rfl, rfl⟩ | ⟨-, he'⟩
      · exact absurd rfl hij
      · rw [hframe.inode]
        exact hs.apart i j c e hc he' hij (hframe.holds hdholds) heholds
    · rcases getElem?_set_cases he with ⟨rfl, rfl⟩ | ⟨-, he'⟩
      · rw [hframe.inode]
        exact hs.apart i j d c hd' hc hij hdholds (hframe.holds heholds)
      · exact hs.apart i j d e hd' he' hij hdholds heholds
  · intro j d hd
    have hnext : files'.next = s.files.next := hframe.next
    rcases getElem?_set_cases hd with ⟨-, rfl⟩ | ⟨-, hd⟩
    · rw [hframe.inode]
      exact (hs.known k c hc).trans_eq hnext.symm
    · exact (hs.known j d hd).trans_eq hnext.symm

lemma inv_step {root : Option String} {entry : List Component → L} {t : Sys L} {e : Event}
    (hs : Inv s) (hok : Undisturbed root entry s e) (hstep : step blake3 root entry s e = some t) :
    Inv t := by
  cases e with
  | accept path size =>
    cases hdest : destOf root path with
    | error e =>
      simp only [step, hdest] at hstep
      cases hstep
      exact hs
    | ok dest =>
      simp only [step, hdest] at hstep
      simp only [Undisturbed, hdest] at hok
      cases hstep
      exact inv_accept hs dest size hok
  | act k a =>
    obtain ⟨c, hc, hacted⟩ := bind_eq_some_iff.mp hstep
    obtain ⟨⟨files', c'⟩, hact, rfl⟩ := map_eq_some_iff.mp hacted
    refine inv_act hs hc hact ?_
    rintro rfl
    exact hok c hc

lemma commit_of_inv {root : Option String} {entry : List Component → L} {t : Sys L} {e : Event}
    (hs : Inv s) (hstep : step blake3 root entry s e = some t) :
    ∀ x ∈ committed s e, x.held = x.checked := by
  intro x hx
  unfold committed at hx
  split at hx
  · rename_i k
    obtain ⟨c, hc, hx⟩ := bind_eq_some_iff.mp (mem_toList.mp hx)
    obtain ⟨i, hi, rfl⟩ := map_eq_some_iff.mp hx
    obtain ⟨d, hd, hacted⟩ := bind_eq_some_iff.mp hstep
    obtain ⟨p, hact, -⟩ := map_eq_some_iff.mp hacted
    obtain rfl : c = d := some.inj (hc.symm.trans hd)
    have hsynced := (ite_none_right_eq_some.mp hact).1
    have hstaged := hs.staged k c hc (by simp [hsynced])
    obtain rfl : i = c.inode := some.inj (hi.symm.trans hstaged.named)
    have hfilled := hstaged.filled
    rwa [hstaged.flushed hsynced, append_nil] at hfilled
  · cases hx

end Model

/-- Whatever the destinations, the payloads and the order of events: if no staging file is
created over one in use or replaced while in use, every file that a connection renames holds
exactly the bytes the connection has checked. -/
theorem fallback_commits_checked_bytes {L : Type*} [DecidableEq L]
    (blake3 : Bytes → FixedBytes 32) (root : Option String) (entry : List Component → L)
    (files : Files L UInt8) (es : List Event)
    (hundisturbed :
      Along (step blake3 root entry) (Undisturbed root entry) (start files) es) :
    ∀ x ∈ collect (step blake3 root entry) committed (start files) es,
      x.held = x.checked :=
  hundisturbed.forall_mem_collect (P := Inv) (fun _ _ _ hs hok hstep => inv_step hs hok hstep)
    (fun _ _ _ hs hstep => commit_of_inv hs hstep) (inv_start files)

def sampleBlake3 (data : Bytes) : FixedBytes 32 := .pad 32 data

def noFiles : Files (List Component) UInt8 := ⟨fun _ => none, fun _ => [], 0, nofun⟩

def twoWriters (first second : String) : List Event :=
  [.accept first 1, .accept second 1, .act 0 (.read [1]), .act 0 (.write 1), .act 1 (.read [2]),
    .act 1 (.write 1), .act 0 (.hash (some (sampleBlake3 [1]))), .act 0 .sync, .act 0 .rename]

theorem fallback_commits_two_destinations :
    let commits := collect (step sampleBlake3 (some "/srv") id) committed (start noFiles)
      (twoWriters "x" "y")
    commits.length = 1 ∧ ∀ x ∈ commits, x.held = x.checked :=
  ⟨by decide +kernel, fallback_commits_checked_bytes sampleBlake3 (some "/srv") id noFiles
    (twoWriters "x" "y") (by decide +kernel)⟩

/-- The second connection writes into the file that the first one renames. -/
theorem equal_destinations_mix :
    collect (step sampleBlake3 (some "/srv") id) committed (start noFiles)
      (twoWriters "x" "x") = [⟨[1], [2]⟩] := by
  decide +kernel

end Favonius.Daemon.Fallback
