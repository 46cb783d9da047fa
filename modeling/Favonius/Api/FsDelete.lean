import Favonius.Api.FsResolve
import Favonius.Client.ExactWalk

/-!
# Deleting an entry

`DELETE /fs/entry` removes a regular file or a link.  The path is resolved before it is looked
at, so a link that leads to a file inside the root is followed.
-/

namespace Favonius.Api

open DirTree Client.FsTree List Fs Volume

section Delete

variable {N : Type*} [DecidableEq N]
variable (text : NameText N) (disk : Disk N) (links : ℕ)

variable {text disk links} {may : List N → Bool} {root full loc : List N} {path : List Char}

variable {node : Node N FileMeta}

variable {dir : List N} {n : N}

variable {p parent : RawPath} {name : UnixPath.Name} {limit : ℕ}

variable {m : FileMeta}

variable {stop rest : List N} {k : N} {e : Errno}

end Delete

end Favonius.Api
