import Favonius.Daemon.Handshake
import Favonius.Lib.UnixPath

/-!
# Where a transfer may write

The destination a MANIFEST names is confined to the configured roots and then
checked against the sender's grant.  Only the first of the two resolves `..`:
without roots the grant is compared with the sender's own text.  Paths are UTF-8
text here, for which `to_string_lossy` is the identity.
-/

namespace Favonius.Daemon

open ByteCodec Crypto UnixPath

def lexicalNormalize (path : String) : LexicalPath :=
  UnixPath.lexicalNormalize (components path.toList)

def Below (path : LexicalPath) (base : String) : Prop :=
  StartsWith path.components (components base.toList)

instance (path : LexicalPath) (base : String) : Decidable (Below path base) :=
  inferInstanceAs (Decidable (StartsWith _ _))

def confineDestPath (root dest : String) : Except String LexicalPath :=
  let joined := lexicalNormalize (String.ofList (join root.toList dest.toList))
  if Below joined root then .ok joined
  else .error s!"destination path {dest} escapes the configured --dest-root {root}"

def confineDestPathAny (roots : List String) (dest : String) : Except String LexicalPath :=
  match roots.findSome? fun root => (confineDestPath root dest).toOption with
  | some path => .ok path
  | none =>
    let listed := ", ".intercalate roots
    .error (s!"destination path {dest} is under none of the configured --dest-root " ++
      s!"directories ({listed})")

/-- The rewritten path, or the sender's own when no roots are configured. -/
def confineToRoots (roots : List String) (dest : String) : Except String String :=
  if roots.isEmpty then .ok dest
  else (confineDestPathAny roots dest).map fun path => String.ofList path.text

def openedPath {E : Ed25519} {anchors : List (FixedBytes 32)} (roots : List String)
    (permittedPaths : Option (VerifiedGrant E anchors)) (dest : String) : Except String String := do
  let confined ← confineToRoots roots dest
  if permittedPaths.any fun grant => !grant.permitsPath confined then
    .error "destination is outside the permitted path prefix"
  else .ok confined

variable {E : Ed25519} {anchors : List (FixedBytes 32)} {roots : List String}

/-- The handler opens the path that the check against roots and grant gives. -/
theorem openedPath_of_handleTransfer {d : Server} {i : HelloInputs} {used : UsedTicketCache}
    {payload ack : Bytes} {keys : Option SessionKeys}
    {permittedPaths : Option (VerifiedGrant d.ed25519 d.policy.anchors)}
    (hshake : (d.handshake i used payload).1 = .established keys ack permittedPaths)
    {maxFileSize : Option ℕ} {manifest : FileManifest} {dest path : String}
    {keys' : Option SessionKeys}
    (h : d.handleTransfer i used payload maxFileSize (confineToRoots roots) manifest dest =
      .ok (some (keys', path))) : openedPath roots permittedPaths dest = .ok path := by
  unfold Server.handleTransfer at h
  rw [hshake] at h
  simp only [bind, Except.bind] at h
  split at h
  · cases h
  unfold openedPath
  simp only [bind, Except.bind]
  split at h
  · cases h
  split at h
  · cases h
  · rename_i hpermitted
    cases h
    rw [if_neg hpermitted]

end Favonius.Daemon
