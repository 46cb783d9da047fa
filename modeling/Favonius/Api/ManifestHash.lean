import Favonius.Lib.ByteCodec
import Favonius.Lib.Utf8Lossy

/-!
# The hash of a manifest

`ManifestBuilder` lays the chunks of its files out one after the other and hashes the layout, with
every string behind its length.  Of a path, which may be any bytes, the hash covers the text that
`to_string_lossy` makes of it.
-/

namespace Favonius.Api

open ByteCodec List Utf8Lossy

inductive ManifestMode where
  | send
  | sync
  | live
  deriving DecidableEq

def ManifestMode.byte : ManifestMode → UInt8
  | send => 0
  | sync => 1
  | live => 2

structure FileEntry where
  path : Bytes
  size : UInt64
  hash : Option (FixedBytes 32)

structure ManifestFile where
  index : UInt32
  path : Bytes
  size : UInt64
  hash : FixedBytes 32
  firstChunk : UInt64
  chunkCount : UInt32
  deriving DecidableEq

structure Manifest where
  transferId : List Char
  mode : ManifestMode
  files : List ManifestFile
  hash : FixedBytes 32
  totalChunks : UInt64

structure ManifestBuilder where
  transferId : List Char
  mode : ManifestMode
  chunkSize : UInt32
  files : List FileEntry

def chunksForSize (fileSize : UInt64) (chunkSize : UInt32) : Except String UInt32 :=
  if chunkSize = 0 then .error "chunk size must be non-zero"
  else if fileSize = 0 then .ok 0
  else
    let count := fileSize.toNat / chunkSize.toNat +
      if fileSize.toNat % chunkSize.toNat = 0 then 0 else 1
    if count < 2 ^ 32 then .ok (.ofNat count)
    else .error (s!"file size {fileSize} needs {count} chunks of {chunkSize} bytes, " ++
      "exceeding u32 chunk addressing")

def toStringLossy (path : Bytes) : Bytes := encode (decode path)

/-- Lengths are cut to 32 bits. -/
def ManifestFile.bytes (f : ManifestFile) : Bytes :=
  leBytes 4 f.index.toNat ++ (leBytes 4 (toStringLossy f.path).length ++ (toStringLossy f.path ++
    (leBytes 8 f.size.toNat ++ (f.hash.1 ++ (leBytes 8 f.firstChunk.toNat ++
      leBytes 4 f.chunkCount.toNat)))))

def manifestBytes (transferId : List Char) (mode : ManifestMode) (chunkSize : UInt32)
    (files : List ManifestFile) : Bytes :=
  leBytes 4 (encode transferId).length ++ (encode transferId ++
    (mode.byte :: (leBytes 4 chunkSize.toNat ++ (leBytes 4 files.length ++
      files.flatMap ManifestFile.bytes))))

namespace ManifestBuilder

/-- The loop of `build` over the files from `index` on. -/
def layout (chunkSize : UInt32) : ℕ → UInt64 → List FileEntry →
    Except String (List ManifestFile × UInt64)
  | _, offset, [] => .ok ([], offset)
  | index, offset, entry :: entries =>
    match chunksForSize entry.size chunkSize with
    | .error e => .error e
    | .ok chunkCount =>
      (layout chunkSize (index + 1) (offset + chunkCount.toUInt64) entries).map fun r =>
        (⟨.ofNat index, entry.path, entry.size, entry.hash.getD (.fill 32 0), offset,
          chunkCount⟩ :: r.1, r.2)

def build (blake3 : Bytes → FixedBytes 32) (b : ManifestBuilder) : Except String Manifest :=
  if b.chunkSize = 0 then .error "chunk size must be non-zero"
  else (layout b.chunkSize 0 0 b.files).map fun r => ⟨b.transferId, b.mode, r.1,
    blake3 (manifestBytes b.transferId b.mode b.chunkSize r.1), r.2⟩

end ManifestBuilder

def ManifestFile.mapPath (g : Bytes → Bytes) (f : ManifestFile) : ManifestFile :=
  { f with path := g f.path }

lemma u32_eq_of_leBytes {x y : UInt32} (h : leBytes 4 x.toNat = leBytes 4 y.toNat) : x = y :=
  UInt32.toNat_inj.mp (leBytes_injOn 4 x.toNat_lt y.toNat_lt h)

lemma u64_eq_of_leBytes {x y : UInt64} (h : leBytes 8 x.toNat = leBytes 8 y.toNat) : x = y :=
  UInt64.toNat_inj.mp (leBytes_injOn 8 x.toNat_lt y.toNat_lt h)

lemma ManifestFile.bytes_append_inj {f f' : ManifestFile} {rest rest' : Bytes}
    (hf : (toStringLossy f.path).length < 2 ^ 32) (hf' : (toStringLossy f'.path).length < 2 ^ 32)
    (h : f.bytes ++ rest = f'.bytes ++ rest') :
    f.mapPath toStringLossy = f'.mapPath toStringLossy ∧ rest = rest' := by
  simp only [bytes, append_assoc] at h
  obtain ⟨hindex, h⟩ := append_inj h (by simp)
  obtain ⟨hpath, h⟩ := prefixed_append_inj (length_leBytes 4) (leBytes_injOn 4) hf hf' h
  obtain ⟨hsize, h⟩ := append_inj h (by simp)
  obtain ⟨hhash, h⟩ := append_inj h (by rw [f.hash.2, f'.hash.2])
  obtain ⟨hfirst, h⟩ := append_inj h (by simp)
  obtain ⟨hcount, h⟩ := append_inj h (by simp)
  refine ⟨?_, h⟩
  simp only [mapPath, mk.injEq]
  exact ⟨u32_eq_of_leBytes hindex, hpath, u64_eq_of_leBytes hsize, Subtype.ext hhash,
    u64_eq_of_leBytes hfirst, u32_eq_of_leBytes hcount⟩

lemma ManifestMode.byte_injective : Function.Injective byte := by
  rintro (_ | _ | _) (_ | _ | _) h <;> first | rfl | cases h

variable {tid tid' : List Char} {mode mode' : ManifestMode} {chunkSize chunkSize' : UInt32}
  {files files' : List ManifestFile}

lemma fields_of_manifestBytes (htid : (encode tid).length < 2 ^ 32)
    (htid' : (encode tid').length < 2 ^ 32) (hcount : files.length < 2 ^ 32)
    (hcount' : files'.length < 2 ^ 32)
    (hfiles : ∀ f ∈ files, (toStringLossy f.path).length < 2 ^ 32)
    (hfiles' : ∀ f ∈ files', (toStringLossy f.path).length < 2 ^ 32)
    (h : manifestBytes tid mode chunkSize files = manifestBytes tid' mode' chunkSize' files') :
    tid = tid' ∧ mode = mode' ∧ chunkSize = chunkSize' ∧
      files.map (·.mapPath toStringLossy) = files'.map (·.mapPath toStringLossy) := by
  obtain ⟨hid, h⟩ := prefixed_append_inj (length_leBytes 4) (leBytes_injOn 4) htid htid' h
  obtain ⟨hmode, h⟩ := cons.inj h
  obtain ⟨hsize, h⟩ := append_inj h (by simp)
  obtain ⟨hlen, h⟩ := append_inj h (by simp)
  refine ⟨encode_injective hid, ManifestMode.byte_injective hmode, u32_eq_of_leBytes hsize, ?_⟩
  exact flatMap_inj_of_append_inj ManifestFile.bytes_append_inj hfiles hfiles'
    (leBytes_injOn 4 hcount hcount' hlen) h

lemma flatMap_bytes_of_mapPath
    (h : files.map (·.mapPath toStringLossy) = files'.map (·.mapPath toStringLossy)) :
    files.flatMap ManifestFile.bytes = files'.flatMap ManifestFile.bytes := by
  have hmap : ∀ fs : List ManifestFile, fs.flatMap ManifestFile.bytes =
      (fs.map (·.mapPath toStringLossy)).flatMap fun f => leBytes 4 f.index.toNat ++
        (leBytes 4 f.path.length ++ (f.path ++ (leBytes 8 f.size.toNat ++ (f.hash.1 ++
          (leBytes 8 f.firstChunk.toNat ++ leBytes 4 f.chunkCount.toNat))))) := by
    intro fs
    rw [flatMap_map]
    rfl
  rw [hmap, hmap, h]

/-- An entry of the builder as the manifest has it, its path read by `g`. -/
def FileEntry.read (g : Bytes → Bytes) (e : FileEntry) : Bytes × UInt64 × FixedBytes 32 :=
  (g e.path, e.size, e.hash.getD (.fill 32 0))

namespace ManifestBuilder

variable {index : ℕ} {offset : UInt64} {entry : FileEntry} {entries entries' : List FileEntry}
  {r r' : List ManifestFile × UInt64}

lemma layout_cons (h : layout chunkSize index offset (entry :: entries) = .ok r) :
    ∃ chunkCount rest, chunksForSize entry.size chunkSize = .ok chunkCount ∧
      layout chunkSize (index + 1) (offset + chunkCount.toUInt64) entries = .ok rest ∧
      r = (⟨.ofNat index, entry.path, entry.size, entry.hash.getD (.fill 32 0), offset,
        chunkCount⟩ :: rest.1, rest.2) := by
  rw [layout] at h
  split at h
  · cases h
  rename_i chunkCount hcount
  rcases hrest : layout chunkSize (index + 1) (offset + chunkCount.toUInt64) entries with _ | rest
  · rw [hrest] at h
    cases h
  rw [hrest] at h
  cases h
  exact ⟨chunkCount, rest, hcount, hrest, rfl⟩

lemma path_layout (h : layout chunkSize index offset entries = .ok r) :
    r.1.map (·.path) = entries.map (·.path) := by
  induction entries generalizing index offset r with
  | nil =>
    cases h
    rfl
  | cons entry entries ih =>
    obtain ⟨chunkCount, rest, -, hrest, rfl⟩ := layout_cons h
    exact congrArg (entry.path :: ·) (ih hrest)

lemma mapPath_layout_iff (g : Bytes → Bytes) (h : layout chunkSize index offset entries = .ok r)
    (h' : layout chunkSize index offset entries' = .ok r') :
    r.1.map (·.mapPath g) = r'.1.map (·.mapPath g) ↔
      entries.map (·.read g) = entries'.map (·.read g) := by
  induction entries generalizing index offset entries' r r' with
  | nil =>
    cases h
    cases entries' with
    | nil =>
      cases h'
      exact ⟨fun _ => rfl, fun _ => rfl⟩
    | cons entry' entries' =>
      obtain ⟨chunkCount, rest, -, -, rfl⟩ := layout_cons h'
      exact ⟨nofun, nofun⟩
  | cons entry entries ih =>
    obtain ⟨chunkCount, rest, hcount, hrest, rfl⟩ := layout_cons h
    cases entries' with
    | nil =>
      cases h'
      exact ⟨nofun, nofun⟩
    | cons entry' entries' =>
      obtain ⟨chunkCount', rest', hcount', hrest', rfl⟩ := layout_cons h'
      simp only [map_cons, cons.injEq, ManifestFile.mapPath, ManifestFile.mk.injEq,
        FileEntry.read, Prod.mk.injEq, true_and]
      -- files of one size have as many chunks, so the rest starts at the same chunk
      have hsame : entry.size = entry'.size → chunkCount = chunkCount' := by
        intro hsize
        rw [hsize, hcount'] at hcount
        exact (Except.ok.inj hcount).symm
      constructor
      · rintro ⟨⟨hpath, hsize, hhash, -⟩, htail⟩
        rw [← hsame hsize] at hrest'
        exact ⟨⟨hpath, hsize, hhash⟩, (ih hrest hrest').mp htail⟩
      · rintro ⟨⟨hpath, hsize, hhash⟩, htail⟩
        rw [← hsame hsize] at hrest'
        exact ⟨⟨hpath, hsize, hhash, hsame hsize⟩, (ih hrest hrest').mpr htail⟩

variable {blake3 : Bytes → FixedBytes 32} {b b' : ManifestBuilder} {m m' : Manifest}

lemma build_eq_ok (h : b.build blake3 = .ok m) : layout b.chunkSize 0 0 b.files =
      .ok (m.files, m.totalChunks) ∧
    m.hash = blake3 (manifestBytes b.transferId b.mode b.chunkSize m.files) := by
  unfold build at h
  split at h
  · cases h
  rcases hlayout : layout b.chunkSize 0 0 b.files with _ | r
  · rw [hlayout] at h
    cases h
  rw [hlayout] at h
  cases h
  exact ⟨rfl, rfl⟩

/-- The lengths that are written in full. -/
structure Fits (b : ManifestBuilder) : Prop where
  transferId : (encode b.transferId).length < 2 ^ 32
  count : b.files.length < 2 ^ 32
  path : ∀ e ∈ b.files, (toStringLossy e.path).length < 2 ^ 32

lemma Fits.built (hb : b.Fits) (h : b.build blake3 = .ok m) : m.files.length < 2 ^ 32 ∧
    ∀ f ∈ m.files, (toStringLossy f.path).length < 2 ^ 32 := by
  have hpaths := path_layout (build_eq_ok h).1
  constructor
  · have hlen := congrArg List.length hpaths
    simp only [length_map] at hlen
    exact hlen ▸ hb.count
  · intro f hf
    have hmem : f.path ∈ m.files.map (·.path) := mem_map_of_mem hf
    rw [hpaths] at hmem
    obtain ⟨e, he, hpath⟩ := List.mem_map.mp hmem
    exact hpath ▸ hb.path e he

/-- The files differ, and only in paths that read as the same text. -/
def LossyTwins (b b' : ManifestBuilder) : Prop :=
  b.transferId = b'.transferId ∧ b.mode = b'.mode ∧ b.chunkSize = b'.chunkSize ∧
    b.files.map (·.read toStringLossy) = b'.files.map (·.read toStringLossy) ∧
    b.files.map (·.read id) ≠ b'.files.map (·.read id)

/-- Manifests with one hash are the same, exactly if their builders were not given paths that read
as the same text and are different. -/
theorem manifest_hash_identifies_iff (blake3 : Bytes → FixedBytes 32) {b b' : ManifestBuilder}
    (hb : b.Fits) (hb' : b'.Fits) {m m' : Manifest} (hm : b.build blake3 = .ok m)
    (hm' : b'.build blake3 = .ok m')
    (hfree : blake3 (manifestBytes b.transferId b.mode b.chunkSize m.files) =
        blake3 (manifestBytes b'.transferId b'.mode b'.chunkSize m'.files) →
      manifestBytes b.transferId b.mode b.chunkSize m.files =
        manifestBytes b'.transferId b'.mode b'.chunkSize m'.files) :
    (m.hash = m'.hash → b.transferId = b'.transferId ∧ b.mode = b'.mode ∧
        b.chunkSize = b'.chunkSize ∧ m.files = m'.files) ↔ ¬LossyTwins b b' := by
  obtain ⟨hlayout, hhash⟩ := build_eq_ok hm
  obtain ⟨hlayout', hhash'⟩ := build_eq_ok hm'
  have hread : b.chunkSize = b'.chunkSize → ∀ g,
      m.files.map (·.mapPath g) = m'.files.map (·.mapPath g) ↔
        b.files.map (·.read g) = b'.files.map (·.read g) := by
    intro hsize g
    rw [← hsize] at hlayout'
    exact mapPath_layout_iff g hlayout hlayout'
  have hid : ∀ fs : List ManifestFile, fs.map (·.mapPath id) = fs := fun fs => map_id fs
  rw [hhash, hhash']
  constructor
  · rintro hsame ⟨htid, hmode, hsize, htext, hpath⟩
    have hbytes := flatMap_bytes_of_mapPath ((hread hsize toStringLossy).mpr htext)
    have hlen : m.files.length = m'.files.length := by
      simpa using congrArg List.length ((hread hsize toStringLossy).mpr htext)
    refine hpath ((hread hsize id).mp ?_)
    rw [hid, hid]
    refine (hsame ?_).2.2.2
    rw [manifestBytes, manifestBytes, htid, hmode, hsize, hbytes, hlen]
  · intro htwins hequal
    obtain ⟨htid, hmode, hsize, htext⟩ := fields_of_manifestBytes hb.transferId hb'.transferId
      (hb.built hm).1 (hb'.built hm').1 (hb.built hm).2 (hb'.built hm').2 (hfree hequal)
    refine ⟨htid, hmode, hsize, ?_⟩
    by_contra hne
    refine htwins ⟨htid, hmode, hsize, (hread hsize toStringLossy).mp htext, ?_⟩
    rw [Ne, ← hread hsize id, hid, hid]
    exact hne

instance : Decidable (LossyTwins b b') := inferInstanceAs (Decidable (_ ∧ _))

def ofPath (path : Bytes) : ManifestBuilder := ⟨['t'], .send, 8, [⟨path, 5, none⟩]⟩

def builtFrom (blake3 : Bytes → FixedBytes 32) (path : Bytes) : Manifest :=
  let files := [⟨0, path, 5, .fill 32 0, 0, 1⟩]
  ⟨['t'], .send, files, blake3 (manifestBytes ['t'] .send 8 files), 1⟩

lemma build_ofPath (blake3 : Bytes → FixedBytes 32) (path : Bytes) :
    (ofPath path).build blake3 = .ok (builtFrom blake3 path) := by
  have hcount : chunksForSize 5 8 = .ok 1 := by decide +kernel
  simp [build, layout, ofPath, builtFrom, hcount, Except.map]

theorem manifest_hash_identifies_two : ¬LossyTwins (ofPath [97]) (ofPath [98]) ∧
    ((builtFrom (.pad 32) [97]).hash = (builtFrom (.pad 32) [98]).hash →
      ['t'] = ['t'] ∧ ManifestMode.send = .send ∧ (8 : UInt32) = 8 ∧
        (builtFrom (.pad 32) [97]).files = (builtFrom (.pad 32) [98]).files) := by
  have hnot : ¬LossyTwins (ofPath [97]) (ofPath [98]) := by decide +kernel
  exact ⟨hnot, (manifest_hash_identifies_iff (.pad 32)
    ⟨by decide +kernel, by decide, by decide +kernel⟩
    ⟨by decide +kernel, by decide, by decide +kernel⟩ (build_ofPath (.pad 32) [97])
    (build_ofPath (.pad 32) [98]) (by decide +kernel)).mpr hnot⟩

/-- Two paths that are not UTF-8 are hashed alike. -/
theorem broken_paths_share_a_hash :
    (ofPath [254]).build (.pad 32) = .ok (builtFrom (.pad 32) [254]) ∧
      (ofPath [255]).build (.pad 32) = .ok (builtFrom (.pad 32) [255]) ∧
      manifestBytes ['t'] .send 8 (builtFrom (.pad 32) [254]).files =
        manifestBytes ['t'] .send 8 (builtFrom (.pad 32) [255]).files ∧
      (builtFrom (.pad 32) [254]).hash = (builtFrom (.pad 32) [255]).hash ∧
      (builtFrom (.pad 32) [254]).files ≠ (builtFrom (.pad 32) [255]).files :=
  ⟨build_ofPath (.pad 32) [254], build_ofPath (.pad 32) [255], by decide +kernel⟩

end ManifestBuilder

end Favonius.Api
