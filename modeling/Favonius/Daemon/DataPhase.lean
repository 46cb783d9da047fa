import Favonius.Daemon.Completion
import Favonius.Daemon.ManifestIntake
import Favonius.Daemon.MerkleCache

/-!
# From the data phase to the end of the handler

The handler gives the mapping to a receive thread, waits for it, answers the FINISH, issues a
ticket and finalises the file.  It is dropped where it waits when its slot's time is up; the
thread then goes on alone.  What is tracked here is the cache file next to the destination,
which a failed transfer should not leave behind.
-/

namespace Favonius.Daemon

open Execution ByteCodec Proto Crypto Sync Option

structure FinalManifest extends Manifest where
  /-- Hex digits of the whole-file hash. -/
  fileHash : Option String

structure CacheIo where
  /-- The file, if there is one, can be removed. -/
  removed : Bool
  /-- None if the file cannot be created, else how much of it is written. -/
  written : Option ℕ
  mtime : Option (ℕ × ℕ)

def writeMerkleCache (blake3 : Bytes → FixedBytes 32) (io : CacheIo) (tree : MerkleTree)
    (data : Bytes) (cache : Option Bytes) : Option (Option Bytes) :=
  (contentFingerprint blake3 data).map fun fp =>
    match io.written with
    | none => cache
    | some n => some ((encodeMerkleCache tree data.length io.mtime fp).take n)

def removeMerkleCache (io : CacheIo) (cache : Option Bytes) : Option Bytes :=
  if io.removed then none else cache

inductive FinalError where
  | incomplete (nReceived totalChunks : ℕ)
  | mismatch (expected actual : String)
  deriving DecidableEq

def FinalError.text : FinalError → String
  | .incomplete nReceived totalChunks =>
    s!"incomplete transfer: received {nReceived} of {totalChunks} chunks"
  | .mismatch expected actual =>
    s!"integrity check failed: BLAKE3 mismatch (expected {expected}, got {actual})"

def finalizeTransfer (blake3 : Bytes → FixedBytes 32) (io : CacheIo) (m : FinalManifest)
    (data : Bytes) (nReceived : ℕ) (cache : Option Bytes) :
    Option (Except FinalError Unit × Option Bytes) :=
  let actual := hexEncode (blake3 data).1
  if nReceived < m.totalChunks then
    some (.error (.incomplete nReceived m.totalChunks), removeMerkleCache io cache)
  else
    match m.fileHash.filter (· ≠ actual) with
    | some expected => some (.error (.mismatch expected actual), removeMerkleCache io cache)
    | none =>
      if m.resumeMode = "merkle" then
        (Checked.buildFileMerkle blake3 data m.payloadSize).bind fun tree =>
          (writeMerkleCache blake3 io tree data cache).map fun cache => (.ok (), cache)
      else some (.ok (), cache)

inductive RecvError where
  | peerSilent
  /-- A thread, a socket or the decompressor. -/
  | io (text : String)
  deriving DecidableEq

def peerInactivityTimeout : ℕ := 15

def RecvError.text : RecvError → String
  | .peerSilent => s!"peer silent for {peerInactivityTimeout}s mid-transfer (dead peer?), aborting"
  | .io text => text

inductive RecvThread where
  | running (r : Receiver)
  | returned (r : Receiver)
  /-- The loop was left with an error; the mapping stays as it is. -/
  | failed (r : Receiver) (e : RecvError)
  | panicked (r : Receiver)

def RecvThread.receiver : RecvThread → Receiver
  | .running r | .returned r | .failed r _ | .panicked r => r

def RecvThread.ofReceiver (r : Receiver) : RecvThread :=
  match r.phase with
  | .receiving => .running r
  | .finished => .returned r
  | .peerSilent => .failed r .peerSilent

section Model

variable (P : Primitives) (openFn : OpenFn) (cfg : RecvConfig)

/-- A turn of the loop, in which an access or a sum may panic. -/
def RecvThread.recv (ev : RecvEvent) : RecvThread → Option RecvThread
  | .running r =>
    (r.step P openFn cfg ev).map fun next =>
      if (Checked.step P openFn cfg r ev).isSome then .ofReceiver next.1 else .panicked r
  | _ => none

inductive TransferError where
  | spawn
  | join
  | threadPanicked
  | recv (e : RecvError)
  | final (e : FinalError)
  deriving DecidableEq

inductive Ending where
  | succeeded (pendingHello : Option UInt64)
  | failed (e : TransferError)
  | timedOut
  | panicked
  deriving DecidableEq

inductive Stage where
  | releasingTail
  | joining (queuedHello : Option UInt64)
  | releasing (result : Receiver) (nextHello : Option UInt64)
  | replying (copies : ℕ) (result : Receiver) (nextHello : Option UInt64)
  | ticketing (copies : ℕ) (result : Receiver) (nextHello : Option UInt64)
  | ended (ending : Ending)

/-- What the thread returned, while the handler works with it. -/
def Stage.result : Stage → Option Receiver
  | .releasing r _ | .replying _ r _ | .ticketing _ r _ => some r
  | _ => none

/-- No verdict of the finalisation. -/
def Stage.Undecided : Stage → Prop
  | .ended (.succeeded _) | .ended (.failed (.final _)) => False
  | _ => True

structure DataPhase where
  thread : Option RecvThread
  stage : Stage
  cache : Option Bytes

structure HandlerEnv where
  encrypted : Bool
  enforcing : Bool
  /-- A panic while the ticket key was held. -/
  poisoned : Bool
  issued : Bool
  io : CacheIo

inductive PhaseEvent where
  | tailReleased (spawned : Bool)
  | recv (ev : RecvEvent)
  | recvFailed (text : String)
  /-- A HELLO on the control socket; the first one is queued. -/
  | hello (connId : UInt64)
  | join
  | joinFailed
  | advance
  | timeout

variable (blake3 : Bytes → FixedBytes 32) (m : FinalManifest) (env : HandlerEnv)

namespace DataPhase

def finalize (s : DataPhase) (result : Receiver) (nextHello : Option UInt64) : DataPhase :=
  match (Machine.range result.mmap 0 m.fileSize).bind fun data =>
      finalizeTransfer blake3 env.io m data result.totalReceived s.cache with
  | none => { s with stage := .ended .panicked }
  | some (.error e, cache) => { s with stage := .ended (.failed (.final e)), cache }
  | some (.ok (), cache) => { s with stage := .ended (.succeeded nextHello), cache }

def ticketDue (result : Receiver) : Bool :=
  env.encrypted && decide (m.totalChunks ≤ result.totalReceived) && !env.enforcing

def afterReply (s : DataPhase) (result : Receiver) (nextHello : Option UInt64) : DataPhase :=
  if ticketDue m env result then
    if env.poisoned then { s with stage := .ended .panicked }
    else if env.issued then { s with stage := .ticketing 0 result nextHello }
    else s.finalize blake3 m env result nextHello
  else s.finalize blake3 m env result nextHello

def joined (s : DataPhase) (queuedHello : Option UInt64) : RecvThread → Option DataPhase
  | .running _ => none
  | .returned r => some { s with stage := .releasing r (r.pendingHello.or queuedHello) }
  | .failed _ e => some { s with stage := .ended (.failed (.recv e)) }
  | .panicked _ => some { s with stage := .ended (.failed .threadPanicked) }

def advance (s : DataPhase) : Option DataPhase :=
  match s.stage with
  | .releasing r hello =>
    some (if r.finishReplied then s.afterReply blake3 m env r hello
      else { s with stage := .replying 0 r hello })
  | .replying copies r hello =>
    some (if copies < 2 then { s with stage := .replying (copies + 1) r hello }
      else s.afterReply blake3 m env r hello)
  | .ticketing copies r hello =>
    some (if copies < 2 then { s with stage := .ticketing (copies + 1) r hello }
      else s.finalize blake3 m env r hello)
  | _ => none

/-- `r₀` is what the thread is started with. -/
def step (r₀ : Receiver) (s : DataPhase) : PhaseEvent → Option DataPhase
  | .tailReleased spawned =>
    match s.stage with
    | .releasingTail =>
      some (if spawned then { s with thread := some (.running r₀), stage := .joining none }
        else { s with stage := .ended (.failed .spawn) })
    | _ => none
  | .recv ev =>
    s.thread.bind fun t => (t.recv P openFn cfg ev).map fun t => { s with thread := some t }
  | .recvFailed text =>
    match s.thread with
    | some (.running r) => some { s with thread := some (.failed r (.io text)) }
    | _ => none
  | .hello connId =>
    match s.stage with
    | .joining queued => some { s with stage := .joining (queued.or (some connId)) }
    | _ => none
  | .join =>
    match s.stage with
    | .joining queued => s.thread.bind (s.joined queued)
    | _ => none
  | .joinFailed =>
    match s.stage with
    | .joining _ => some { s with stage := .ended (.failed .join) }
    | _ => none
  | .advance => s.advance blake3 m env
  | .timeout =>
    match s.stage with
    | .ended _ => none
    | _ => some { s with stage := .ended .timedOut }

def start (cache : Option Bytes) : DataPhase := ⟨none, .releasingTail, cache⟩

/-- Along a run only finalisation touches the cache file. -/
def CacheInv (cache : Option Bytes) (s : DataPhase) : Prop :=
  match s.stage with
  | .ended (.succeeded _) => True
  | .ended (.failed (.final _)) => s.cache = removeMerkleCache env.io cache
  | _ => s.cache = cache

variable {blake3 m env} {cache : Option Bytes}

lemma cache_of_finalizeTransfer_error {io : CacheIo} {data : Bytes} {nReceived : ℕ}
    {e : FinalError} {after : Option Bytes}
    (h : finalizeTransfer blake3 io m data nReceived cache = some (.error e, after)) :
    after = removeMerkleCache io cache := by
  unfold finalizeTransfer at h
  dsimp only at h
  split at h
  · cases h
    rfl
  split at h
  · cases h
    rfl
  split at h
  · obtain ⟨tree, -, h⟩ := bind_eq_some_iff.mp h
    obtain ⟨written, -, h⟩ := map_eq_some_iff.mp h
    cases h
  · cases h

variable {s : DataPhase}

lemma cacheInv_finalize (hs : s.cache = cache) (result : Receiver) (nextHello : Option UInt64) :
    (s.finalize blake3 m env result nextHello).CacheInv env cache := by
  unfold finalize
  cases hfinal : (Machine.range result.mmap 0 m.fileSize).bind fun data =>
      finalizeTransfer blake3 env.io m data result.totalReceived s.cache with
  | none => exact hs
  | some verdict =>
    obtain ⟨_ | _, after⟩ := verdict
    · obtain ⟨data, -, hdata⟩ := bind_eq_some_iff.mp hfinal
      rw [hs] at hdata
      exact cache_of_finalizeTransfer_error hdata
    · exact trivial

variable {s' : DataPhase} {r r₀ : Receiver} {hello : Option UInt64}

variable (blake3 m env) in
/-- What a step is: the thread's own, one without a verdict, or the finalisation of what the thread
returned. -/
inductive Turn (r₀ : Receiver) (s s' : DataPhase) : Prop where
  | thread {r : Receiver} {t : RecvThread} (hrunning : s.thread = some (.running r))
      (hthread : s'.thread = some t) (hnext : t.receiver = r ∨
        ∃ ev out, r.step P openFn cfg ev = some (t.receiver, out))
      (hstage : s'.stage = s.stage) (hcache : s'.cache = s.cache)
  | handler (hopen : s.stage.Undecided) (hundecided : s'.stage.Undecided)
      (hcache : s'.cache = s.cache)
      (hthread : s'.thread = s.thread ∨ s'.thread = some (.running r₀))
      (hresult : ∀ r ∈ s'.stage.result, s'.thread = some (.returned r) ∨
        s.stage.result = some r ∧ s'.thread = s.thread)
  | final {r : Receiver} (hresult : s.stage.result = some r) (hello : Option UInt64)
      (heq : s' = s.finalize blake3 m env r hello)

lemma turn_afterReply (hopen : s.stage.Undecided) (hresult : s.stage.result = some r) :
    Turn P openFn cfg blake3 m env r₀ s (s.afterReply blake3 m env r hello) := by
  unfold afterReply
  split_ifs
  · exact .handler hopen trivial rfl (.inl rfl) (by rintro _ ⟨⟩)
  · refine .handler hopen trivial rfl (.inl rfl) ?_
    rintro _ ⟨⟩
    exact .inr ⟨hresult, rfl⟩
  all_goals exact .final hresult hello rfl

lemma turn_advance (h : s.advance blake3 m env = some s') :
    Turn P openFn cfg blake3 m env r₀ s s' := by
  obtain ⟨thread, stage, now⟩ := s
  cases stage with
  | releasing r hello | replying copies r hello | ticketing copies r hello =>
    cases h
    split_ifs
    all_goals first
      | exact turn_afterReply _ _ _ trivial rfl
      | exact .final rfl hello rfl
      | exact .handler trivial trivial rfl (.inl rfl) fun _ hr => .inr ⟨hr, rfl⟩
  | releasingTail | joining | ended => cases h

variable {P openFn cfg} {e : PhaseEvent}

lemma receiver_ofReceiver : (RecvThread.ofReceiver r).receiver = r := by
  unfold RecvThread.ofReceiver
  split <;> rfl

lemma turn_step (h : s.step P openFn cfg blake3 m env r₀ e = some s') :
    Turn P openFn cfg blake3 m env r₀ s s' := by
  cases e with
  | recv ev =>
    obtain ⟨t, ht, h⟩ := bind_eq_some_iff.mp h
    obtain ⟨t', hrecv, rfl⟩ := map_eq_some_iff.mp h
    cases t with
    | running r =>
      obtain ⟨⟨next, out⟩, hstep, rfl⟩ := map_eq_some_iff.mp hrecv
      refine .thread ht rfl ?_ rfl rfl
      split
      · exact .inr ⟨ev, out, by rwa [receiver_ofReceiver]⟩
      · exact .inl rfl
    | _ => cases hrecv
  | recvFailed text =>
    dsimp only [step] at h
    split at h
    · rename_i r hr
      cases h
      exact .thread hr rfl (.inl rfl) rfl rfl
    · cases h
  | advance => exact turn_advance _ _ _ h
  | join =>
    obtain ⟨thread, stage, now⟩ := s
    cases stage with
    | joining queued =>
      obtain ⟨t, ht, h⟩ := bind_eq_some_iff.mp h
      cases t with
      | running r => cases h
      | returned r =>
        cases h
        refine .handler trivial trivial rfl (.inl rfl) ?_
        rintro _ ⟨⟩
        exact .inl ht
      | failed | panicked =>
        cases h
        exact .handler trivial trivial rfl (.inl rfl) (by rintro _ ⟨⟩)
    | _ => cases h
  | tailReleased spawned =>
    obtain ⟨thread, stage, now⟩ := s
    cases stage with
    | releasingTail =>
      cases h
      cases spawned with
      | false => exact .handler trivial trivial rfl (.inl rfl) (by rintro _ ⟨⟩)
      | true => exact .handler trivial trivial rfl (.inr rfl) (by rintro _ ⟨⟩)
    | _ => cases h
  | hello | joinFailed | timeout =>
    obtain ⟨thread, stage, now⟩ := s
    cases stage with
    | _ =>
      first
        | cases h; done
        | cases h
          exact .handler trivial trivial rfl (.inl rfl) (by rintro _ ⟨⟩)

lemma undecided_of_result {stage : Stage} (h : stage.result = some r) : stage.Undecided := by
  cases stage with
  | ended => cases h
  | _ => trivial

lemma cacheInv_iff (h : s.stage.Undecided) : s.CacheInv env cache ↔ s.cache = cache := by
  unfold CacheInv
  split <;> simp_all [Stage.Undecided]

lemma cacheInv_step (hs : s.CacheInv env cache)
    (h : s.step P openFn cfg blake3 m env r₀ e = some s') : s'.CacheInv env cache := by
  cases turn_step h with
  | thread _ _ _ hstage hcache =>
    unfold CacheInv at hs ⊢
    rwa [hstage, hcache]
  | handler hopen hundecided hcache _ _ =>
    rw [cacheInv_iff hundecided, hcache]
    exact (cacheInv_iff hopen).mp hs
  | final hresult hello heq =>
    rw [heq]
    exact cacheInv_finalize ((cacheInv_iff (undecided_of_result hresult)).mp hs) _ hello

/-- After a transfer that did not succeed the cache file is gone just if the handler came to
finalisation and the file could be removed there; a silent peer, a socket error, a panic or the
end of the slot's time leave it. -/
theorem cache_removed_iff_failed_at_finalization {r₀ : Receiver} {raw : Bytes}
    {events : List PhaseEvent} {s : DataPhase} {ending : Ending}
    (hrun : exec (step P openFn cfg blake3 m env r₀) (start (some raw)) events = some s)
    (hend : s.stage = .ended ending) (hfail : ∀ hello, ending ≠ .succeeded hello) :
    s.cache = none ↔ (∃ e, ending = .failed (.final e)) ∧ env.io.removed = true := by
  have hinv : s.CacheInv env (some raw) := by
    apply exec_invariant (P := CacheInv env (some raw)) _ _ hrun
    · intro s e s' hs hstep
      exact cacheInv_step hs hstep
    · exact rfl
  rw [CacheInv, hend] at hinv
  cases ending with
  | succeeded hello => exact absurd rfl (hfail hello)
  | failed e =>
    cases e with
    | final e => simp [hinv, removeMerkleCache]
    | _ => simp [hinv]
  | timedOut | panicked => simp [hinv]

lemma checked_of_finalizeTransfer {io : CacheIo} {data : Bytes} {nReceived : ℕ}
    {after : Option Bytes}
    (h : finalizeTransfer blake3 io m data nReceived cache = some (.ok (), after)) :
    m.totalChunks ≤ nReceived ∧ ∀ hash ∈ m.fileHash, hash = hexEncode (blake3 data).1 := by
  unfold finalizeTransfer at h
  dsimp only at h
  split at h
  · cases h
  rename_i hcount
  split at h
  · cases h
  rename_i hhash
  exact ⟨not_lt.mp hcount, by simpa [filter_eq_none_iff] using hhash⟩

variable (blake3 m) in
/-- The mapping holds the file with the hash that the sender announced, if any. -/
def HashMatches (r : Receiver) : Prop :=
  ∃ data, Machine.range r.mmap 0 m.fileSize = some data ∧
    ∀ hash ∈ m.fileHash, hash = hexEncode (blake3 data).1

variable (cfg blake3 m) in
/-- The handler works with what its thread returned, and the thread with the streams of the file. -/
structure VerdictInv (s : DataPhase) : Prop where
  tracked : ∀ t ∈ s.thread, Tracked cfg t.receiver
  result : ∀ r ∈ s.stage.result, s.thread = some (.returned r)
  checked : ∀ hello, s.stage = .ended (.succeeded hello) → ∃ r, s.thread = some (.returned r) ∧
    m.totalChunks ≤ r.totalReceived ∧ HashMatches blake3 m r

lemma verdictInv_finalize (htracked : ∀ t ∈ s.thread, Tracked cfg t.receiver)
    (hthread : s.thread = some (.returned r)) :
    (s.finalize blake3 m env r hello).VerdictInv cfg blake3 m := by
  unfold finalize
  cases hfinal : (Machine.range r.mmap 0 m.fileSize).bind fun data =>
      finalizeTransfer blake3 env.io m data r.totalReceived s.cache with
  | none => exact ⟨htracked, by rintro _ ⟨⟩, by rintro _ ⟨⟩⟩
  | some verdict =>
    obtain ⟨_ | _, after⟩ := verdict
    · exact ⟨htracked, by rintro _ ⟨⟩, by rintro _ ⟨⟩⟩
    · obtain ⟨data, hdata, hok⟩ := bind_eq_some_iff.mp hfinal
      obtain ⟨hcount, hhash⟩ := checked_of_finalizeTransfer hok
      exact ⟨htracked, by rintro _ ⟨⟩, fun _ _ => ⟨r, hthread, hcount, data, hdata, hhash⟩⟩

lemma verdictInv_step (hack : 0 < cfg.ackEvery) (hr₀ : Tracked cfg r₀)
    (hs : s.VerdictInv cfg blake3 m) (h : s.step P openFn cfg blake3 m env r₀ e = some s') :
    s'.VerdictInv cfg blake3 m := by
  cases turn_step h with
  | thread hrunning hthread hnext hstage _ =>
    have htracked := hs.tracked _ hrunning
    constructor
    · rintro _ ht
      cases hthread.symm.trans ht
      rcases hnext with hsame | ⟨ev, out, hstep⟩
      · rwa [hsame]
      · exact htracked.step hack hstep
    -- While the thread runs the handler has no result of it.
    · rw [hstage]
      intro r' hr'
      cases hrunning.symm.trans (hs.result r' hr')
    · rw [hstage]
      intro hello hend
      obtain ⟨r', hr', -⟩ := hs.checked hello hend
      cases hrunning.symm.trans hr'
  | handler _ hundecided _ hthread hnext =>
    constructor
    · intro t ht
      rcases hthread with hsame | hstarted
      · exact hs.tracked t (hsame ▸ ht)
      · cases hstarted.symm.trans ht
        exact hr₀
    · intro r hr
      rcases hnext r hr with hjoined | ⟨hold, hsame⟩
      · exact hjoined
      · exact hsame.trans (hs.result r hold)
    · intro hello hend
      rw [hend] at hundecided
      cases hundecided
  | final hold hello heq =>
    rw [heq]
    exact verdictInv_finalize hs.tracked (hs.result _ hold)

/-- A transfer is only reported as successful if the thread returned with the flag of every chunk
set, in streams that make up the file, and the mapping then has the announced hash; in every run of
the handler and its thread, from any start of a resume. -/
theorem success_is_complete {bitmap : Option Bytes} {mmap : Bytes} {seq : UInt64}
    {keys : Option SessionKeys} {o : TransferOptions} {raw : Option Bytes}
    {events : List PhaseEvent}
    (hstart : receiveStart m.toFileManifest bitmap mmap seq keys = some r₀)
    (hrun : exec (step P openFn (recvConfig m.toFileManifest o) blake3 m env r₀) (start raw)
      events = some s)
    (hend : s.stage = .ended (.succeeded hello)) :
    ∃ r, s.thread = some (.returned r) ∧ (r.streams.map (·.chunkCount)).sum = m.totalChunks ∧
      r.Complete ∧ HashMatches blake3 m r := by
  have hinv : s.VerdictInv (recvConfig m.toFileManifest o) blake3 m := by
    refine exec_invariant ?_ ?_ hrun
    · intro s e s' hs hstep
      exact verdictInv_step (ackEvery_bounds _ _).1 (tracked_receiveStart hstart) hs hstep
    · exact ⟨by rintro _ ⟨⟩, by rintro _ ⟨⟩, by rintro _ ⟨⟩⟩
  obtain ⟨r, hr, hcount, hhash⟩ := hinv.checked hello hend
  have htracked := hinv.tracked _ hr
  exact ⟨r, hr, htracked.total, htracked.complete_iff.mpr hcount, hhash⟩

end DataPhase

end Model

def resumedManifest : FinalManifest :=
  ⟨⟨sampleManifest, "out", "merkle", none⟩, none⟩

def sampleEnv : HandlerEnv := ⟨false, false, false, false, ⟨true, none, none⟩⟩

def resumedReceiver : Receiver :=
  Receiver.init 0 [7, 7] (buildRecvStreams 2 1) none

abbrev resumedStep : DataPhase → PhaseEvent → Option DataPhase :=
  DataPhase.step nullPrimitives dropTag sampleConfig sampleHash
    resumedManifest sampleEnv resumedReceiver

def sampleFinish : RecvEvent :=
  .datagram (encodeCtrlPacketInto nullPrimitives.crc32c .finish 7 0 0) (fun _ => 0) 0

def Stage.ending : Stage → Option Ending
  | .ended ending => some ending
  | _ => none

lemma Stage.eq_of_ending {stage : Stage} {e : Ending} (h : stage.ending = some e) :
    stage = .ended e := by
  cases stage with
  | ended => rw [some.inj h]
  | _ => cases h

def earlyFinish : List PhaseEvent :=
  [.tailReleased true, .recv (sampleData 0 9), .recv sampleFinish, .join, .advance]

theorem cache_removed_after_early_finish :
    ∃ s, exec resumedStep (.start (some [1])) earlyFinish = some s ∧
      s.stage = .ended (.failed (.final (.incomplete 1 2))) ∧ s.cache = none := by
  obtain ⟨s, hrun, hending⟩ : ∃ s, exec resumedStep (.start (some [1])) earlyFinish = some s ∧
      s.stage.ending = some (.failed (.final (.incomplete 1 2))) := by
    decide +kernel
  have hend := Stage.eq_of_ending hending
  refine ⟨s, hrun, hend, ?_⟩
  apply (DataPhase.cache_removed_iff_failed_at_finalization hrun hend ?_).mpr
  · exact ⟨⟨_, rfl⟩, rfl⟩
  · rintro hello ⟨⟩

def hashedManifest : FinalManifest :=
  { resumedManifest with fileHash := some (hexEncode (sampleHash [9, 8]).1) }

abbrev hashedStep : DataPhase → PhaseEvent → Option DataPhase :=
  DataPhase.step nullPrimitives dropTag sampleConfig sampleHash hashedManifest sampleEnv
    resumedReceiver

def bothChunks : List PhaseEvent :=
  [.tailReleased true, .recv (sampleData 0 9), .recv (sampleData 1 8), .recv sampleFinish,
    .join, .advance]

theorem success_is_complete_two_chunks :
    ∃ s r, exec hashedStep (.start none) bothChunks = some s ∧
      s.thread = some (.returned r) ∧ r.Complete ∧
        DataPhase.HashMatches sampleHash hashedManifest r := by
  obtain ⟨s, hrun, hending⟩ : ∃ s, exec hashedStep (.start none) bothChunks = some s ∧
      s.stage.ending = some (.succeeded none) := by
    decide +kernel
  have hstart : receiveStart sampleManifest (some [0]) [7, 7] 0 none = some resumedReceiver := rfl
  obtain ⟨r, hr, -, hcomplete⟩ := DataPhase.success_is_complete (m := hashedManifest)
    (o := sampleOptions) hstart hrun (Stage.eq_of_ending hending)
  exact ⟨s, r, hrun, hr, hcomplete⟩

/-- One chunk is overwritten; then the peer is silent, or the slot's time is up.  The entry made
for the old content is still there. -/
theorem cache_survives_silent_peer_and_timeout :
    receiveStart sampleManifest (some [0]) [7, 7] 0 none = some resumedReceiver ∧
      (∃ s, exec resumedStep (.start (some [1])) [.tailReleased true,
          .recv (sampleData 0 9), .recv .peerInactive, .join] = some s ∧
        s.stage = .ended (.failed (.recv .peerSilent)) ∧
        (s.thread.map fun t => t.receiver.mmap) = some [9, 7] ∧ s.cache = some [1]) ∧
      ∃ s, exec resumedStep (.start (some [1])) [.tailReleased true,
          .recv (sampleData 0 9), .timeout] = some s ∧
        s.stage = .ended .timedOut ∧
        (s.thread.map fun t => t.receiver.mmap) = some [9, 7] ∧ s.cache = some [1] :=
  ⟨rfl, ⟨_, rfl, rfl, rfl, rfl⟩, _, rfl, rfl, rfl, rfl⟩

end Favonius.Daemon
