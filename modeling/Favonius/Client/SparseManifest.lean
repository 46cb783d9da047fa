import Favonius.Client.Packets
import Favonius.Lib.CompactJson
import Favonius.Sync.ZeroRuns

/-!
# The MANIFEST of a sparse file

The sender's manifest as compact JSON and the zero runs that are added to it.  The room
for the runs is estimated before the runs and the feature tag are in the manifest; the
daemon reads the whole packet into one buffer.
-/

namespace Favonius.Client.SparseManifest

open ByteCodec CompactJson Runs Utf8Text Proto Sync.ZeroRuns List

def maxPacket : ℕ := 1500

inductive AckMode where
  | bitmap
  | nack
  deriving DecidableEq

def AckMode.toJson : AckMode → List Char
  | .bitmap => str "bitmap"
  | .nack => str "nack"

structure FileManifest where
  fileName : String
  fileSize : ℕ
  destPath : String
  payloadSize : ℕ
  totalChunks : ℕ
  ackMode : AckMode
  numStreams : ℕ
  encrypted : Bool
  compressed : Bool
  headerProtected : Bool
  resumeMode : String
  fileHash : Option String
  merkleRoot : Option String
  features : List String
  zeroRuns : List (ℕ × ℕ)

namespace FileManifest

def plainMembers (m : FileManifest) : List (String × List Char) :=
  [("file_name", str m.fileName), ("file_size", num m.fileSize), ("dest_path", str m.destPath),
    ("payload_size", num m.payloadSize), ("total_chunks", num m.totalChunks),
    ("ack_mode", m.ackMode.toJson), ("num_streams", num m.numStreams),
    ("encrypted", bool m.encrypted), ("compressed", bool m.compressed),
    ("header_protected", bool m.headerProtected), ("resume_mode", str m.resumeMode),
    ("file_hash", orNull (m.fileHash.map str)), ("merkle_root", orNull (m.merkleRoot.map str))]

/-- `skip_serializing_if = "Vec::is_empty"`. -/
def listMember (name : String) (items : List (List Char)) : List (String × List Char) :=
  if items = [] then [] else [(name, arr items)]

def runJson (r : ℕ × ℕ) : List Char := arr [num r.1, num r.2]

def toJson (m : FileManifest) : List Char :=
  obj (m.plainMembers ++
    (listMember "features" (m.features.map str) ++ listMember "zero_runs" (m.zeroRuns.map runJson)))

def toVec (m : FileManifest) : Bytes := m.toJson.flatMap String.utf8EncodeChar

/-- The bytes left for the runs, with a slack for the feature tag. -/
def zeroRunsBudget (m : FileManifest) : ℕ :=
  let overhead := headerSize + m.toVec.length + ",\"zero_runs\":".utf8ByteSize + 32
  maxPacket - overhead

def addZeroRuns (m : FileManifest) (runs : List (ℕ × ℕ)) : FileManifest :=
  if runs = [] then m
  else
    let kept := fit runs m.zeroRunsBudget
    if kept = [] then m
    else { m with features := m.features ++ ["zero-runs"], zeroRuns := kept }

end FileManifest

def sendCtrl (crc32c : Bytes → UInt32) (ptype : PacketType) (connId seq timestamp : UInt64)
    (payload : Bytes) : Bytes :=
  encodePacketAuto crc32c ⟨makeHeader ptype connId seq timestamp payload.length, [], payload⟩

lemma length_sendCtrl (crc32c : Bytes → UInt32) (ptype : PacketType)
    (connId seq timestamp : UInt64) (payload : Bytes) :
    (sendCtrl crc32c ptype connId seq timestamp payload).length = headerSize + payload.length := by
  simp [sendCtrl, encodePacketAuto, encodePacket]

variable (m : FileManifest) (name : String)

lemma length_toVec : m.toVec.length = byteLength m.toJson := by
  rw [FileManifest.toVec, length_flatMap, byteLength]
  congr 1
  exact map_congr_left fun c _ => String.length_utf8EncodeChar c

def membersCost (members : List (String × List Char)) : ℕ :=
  (members.map fun m => byteLength (entry m.1 m.2) + 1).sum

open FileManifest

@[simp] lemma membersCost_listMember_nil : membersCost (listMember name []) = 0 := rfl

lemma membersCost_listMember {items : List (List Char)} (h : items ≠ []) :
    membersCost (listMember name items) =
      byteLength (str name) + (items.map fun t => byteLength t + 1).sum + 3 := by
  have hcolon : Char.utf8Size ':' = 1 := rfl
  rw [listMember, if_neg h, membersCost, map_singleton, sum_singleton, entry,
    byteLength_append, byteLength_cons, hcolon, byteLength_arr h]
  dsimp only
  omega

lemma length_toVec_eq :
    m.toVec.length = byteLength (obj m.plainMembers) +
      (membersCost (listMember "features" (m.features.map str)) +
        membersCost (listMember "zero_runs" (m.zeroRuns.map runJson))) := by
  have hplain : m.plainMembers ≠ [] := cons_ne_nil _ _
  rw [length_toVec, toJson, byteLength_obj_append hplain, map_append, sum_append]
  rfl

/-- The tag alone needs its member's name, brackets and quotes; after another tag it is one
more item. -/
theorem membersCost_tag_le (features : List String) :
    membersCost (listMember "features" ((features ++ ["zero-runs"]).map str)) ≤
      membersCost (listMember "features" (features.map str)) + 32 := by
  have htag : byteLength (str "zero-runs") = 11 := by decide
  have hname : byteLength (str "features") = 10 := by decide
  rw [map_append, membersCost_listMember _ (by simp)]
  cases features with
  | nil => simp [hname, htag]
  | cons tag features =>
    rw [membersCost_listMember _ (by simp)]
    simp only [map_append, sum_append, map_singleton, sum_singleton, htag]
    omega

lemma byteLength_runJson (r : ℕ × ℕ) : byteLength (runJson r) + 1 = cost r := by
  rw [runJson, byteLength_arr (cons_ne_nil _ _), cost]
  simp only [map_cons, map_nil, sum_cons, sum_nil, byteLength_num]
  omega

lemma membersCost_zeroRuns {kept : List (ℕ × ℕ)} (h : kept ≠ []) :
    membersCost (listMember "zero_runs" (kept.map runJson)) = (kept.map cost).sum + 14 := by
  have hname : byteLength (str "zero_runs") = 11 := by decide
  have hcost : (kept.map runJson).map (fun t => byteLength t + 1) = kept.map cost := by
    rw [map_map]
    exact map_congr_left fun r _ => byteLength_runJson r
  rw [membersCost_listMember _ (by simpa using h), hcost, hname]
  omega

lemma addZeroRuns_cases (runs : List (ℕ × ℕ)) :
    m.addZeroRuns runs = m ∧ fit runs m.zeroRunsBudget = [] ∨
      fit runs m.zeroRunsBudget ≠ [] ∧
        m.addZeroRuns runs = { m with
          features := m.features ++ ["zero-runs"]
          zeroRuns := fit runs m.zeroRunsBudget } := by
  unfold addZeroRuns
  dsimp only
  split_ifs with hruns hkept
  · subst hruns
    exact .inl ⟨rfl, rfl⟩
  · exact .inl ⟨rfl, hkept⟩
  · exact .inr ⟨hkept, rfl⟩

lemma zeroRuns_addZeroRuns {m : FileManifest} (h : m.zeroRuns = []) (runs : List (ℕ × ℕ)) :
    (m.addZeroRuns runs).zeroRuns = fit runs m.zeroRunsBudget := by
  rcases addZeroRuns_cases m runs with ⟨hsame, hnone⟩ | ⟨-, hadded⟩
  · rw [hsame, hnone, h]
  · rw [hadded]

lemma length_addZeroRuns_le {m : FileManifest} (h : m.zeroRuns = [])
    (hfits : headerSize + m.toVec.length ≤ maxPacket) (runs : List (ℕ × ℕ)) :
    headerSize + (m.addZeroRuns runs).toVec.length ≤ maxPacket := by
  rcases addZeroRuns_cases m runs with ⟨hsame, -⟩ | ⟨hkept, hadded⟩
  · rw [hsame]
    exact hfits
  have hbudget := fit_cost_le hkept
  have hname : ",\"zero_runs\":".utf8ByteSize = 13 := by decide
  have hbase : m.toVec.length = byteLength (obj m.plainMembers) +
      membersCost (listMember "features" (m.features.map str)) := by
    rw [length_toVec_eq, h, map_nil, membersCost_listMember_nil, Nat.add_zero]
  have hroom : headerSize + m.toVec.length + 13 + 32 + m.zeroRunsBudget ≤ maxPacket := by
    have hpos : 0 < m.zeroRunsBudget := by omega
    unfold zeroRunsBudget at hpos ⊢
    dsimp only at hpos ⊢
    omega
  have htag := membersCost_tag_le m.features
  rw [hadded, length_toVec_eq, membersCost_zeroRuns hkept]
  dsimp only [plainMembers] at hbase ⊢
  omega

/-- The packet with the runs fits the buffer whatever the runs are.  Of the runs, at most
`maxZeroRuns` are kept, in the order of their first chunks, and a run that was passed over
although it is longer than a kept one did not fit when its turn came. -/
theorem sparse_manifest_fits_packet (crc32c : Bytes → UInt32) (connId seq timestamp : UInt64)
    (m : FileManifest) (runs : List (ℕ × ℕ)) (hplain : m.zeroRuns = [])
    (hfits : headerSize + m.toVec.length ≤ maxPacket) :
    (sendCtrl crc32c .manifest connId seq timestamp (m.addZeroRuns runs).toVec).length ≤
        maxPacket ∧
      (m.addZeroRuns runs).zeroRuns.length ≤ Daemon.maxZeroRuns ∧
      ((m.addZeroRuns runs).zeroRuns.Pairwise fun a b => a.1 ≤ b.1) ∧
      (∀ limit, Ascending limit runs → Ascending limit (m.addZeroRuns runs).zeroRuns) ∧
      ∀ before r after, runs.insertionSort BySize = before ++ r :: after →
        (keep m.zeroRunsBudget (considered m.zeroRunsBudget before) r).1 =
          (considered m.zeroRunsBudget before).1 →
        (∃ k ∈ (m.addZeroRuns runs).zeroRuns, k.2 < r.2) →
        m.zeroRunsBudget < (considered m.zeroRunsBudget before).2 + cost r := by
  rw [zeroRuns_addZeroRuns hplain]
  refine ⟨?_, length_fit_le runs _, pairwise_fit runs _, ?_, ?_⟩
  · rw [length_sendCtrl]
    exact length_addZeroRuns_le hplain hfits runs
  · intro limit hascending
    exact (fit_spec _ hascending).1
  · rintro before r after horder hdrop ⟨k, hk, hlt⟩
    exact fit_dropped horder hdrop hk hlt

def sampleManifest : FileManifest where
  fileName := "disk.img"
  fileSize := 40000
  destPath := "backup/disk.img"
  payloadSize := 1000
  totalChunks := 40
  ackMode := .bitmap
  numStreams := 2
  encrypted := true
  compressed := false
  headerProtected := false
  resumeMode := "none"
  fileHash := none
  merkleRoot := none
  features := ["per-stream-ports"]
  zeroRuns := []

theorem sparse_manifest_sample_fits :
    sampleManifest.toVec.length = 296 ∧
      (sampleManifest.addZeroRuns [(3, 4), (20, 9)]).zeroRuns = [(3, 4), (20, 9)] ∧
      (sendCtrl (fun _ => 0) .manifest 7 1 0
        (sampleManifest.addZeroRuns [(3, 4), (20, 9)]).toVec).length ≤ maxPacket := by
  have hlen : sampleManifest.toVec.length = 296 := by decide +kernel
  refine ⟨hlen, by decide +kernel, ?_⟩
  exact (sparse_manifest_fits_packet (fun _ => 0) 7 1 0 sampleManifest [(3, 4), (20, 9)] rfl
    (by rw [hlen]; decide)).1

end Favonius.Client.SparseManifest
