import Favonius.Api.ManifestLayout
import Favonius.Lib.PosixFs

/-!
# Local transfers of the API

`create_transfer` compares source and destination before a transfer is accepted, and
`execute_local_transfer` copies.  The comparison looks at the paths before missing directories
of the destination are created, and does not look at paths that are taken for remote ones.
-/

namespace Favonius.Api

open ByteCodec DirTree UnixPath

section Check

variable (fs : Fs Name Bytes) (cwd : Location)

end Check

/-- What the system makes of `set_len` and of the copy. -/
structure Outcome where
  resized : Bool
  /-- As many bytes are copied before the copy ends or fails. -/
  copied : ℕ

section Execute

variable (may : Location → Bool) (cwd : Location)

variable (blake3 : Bytes → FixedBytes 32) (transferId : List Char) (chunkSize : UInt32)

end Execute

section Source

variable {may : Location → Bool} {cwd loc : Location} {fs : Fs Name Bytes} {data : Bytes}

variable {p : RawPath} {dst : Location}

variable {source destination : RawPath}

end Source

end Favonius.Api
