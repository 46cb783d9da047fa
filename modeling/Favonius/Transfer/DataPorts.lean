import Favonius.Daemon.DataSockets
import Favonius.Daemon.Handshake

/-!
# Data ports

The daemon reserves a run of consecutive ports when a transfer is admitted and advertises its length
in the capability bits.  The sender derives the port of each stream from the advertised port; the
daemon gives back the ports it does not need once it knows the number of streams, and answers a
stream from the socket that it expects the stream's packets on.
-/

namespace Favonius

open Proto List

namespace Client

/-- The number of destinations.  Only the batched backends split. -/
def numDestinations (perStreamPortsEnabled splitCapable : Bool)
    (advertisedDataPorts numStreams : ℕ) : ℕ :=
  if perStreamPortsEnabled && splitCapable then max (min advertisedDataPorts numStreams) 1 else 1

def saturatingAdd (a b : UInt16) : UInt16 := UInt16.ofNat (min (a.toNat + b.toNat) 65535)

def dataRemotes (dataPort : UInt16) (nDest : ℕ) : List UInt16 :=
  (List.range nDest).map fun i => saturatingAdd dataPort (UInt16.ofNat i)

/-- Streams past the end of the run share its last port. -/
def streamRemote (remotes : List UInt16) (stream : ℕ) : Option UInt16 :=
  remotes[min stream (remotes.length - 1)]?

end Client

namespace Daemon

/-- Sockets on consecutive ports, in ascending order. -/
structure PortRun where
  base : UInt16
  length : ℕ
  length_pos : 0 < length
  fits : base.toNat + length ≤ 65536

def PortRun.ports (run : PortRun) : List UInt16 :=
  (List.range run.length).map fun i => UInt16.ofNat (run.base.toNat + i)

section Sockets

variable {σ : Type*}

/-- What is still held, and the pool with what was given back. -/
def releaseTail (held pool : List σ) (keep : ℕ) : List σ × List σ :=
  if keep = 0 ∨ held.length ≤ keep then (held, pool) else (held.take keep, pool ++ held.drop keep)

def usedPorts (numStreams : ℕ) (dataSocks : List σ) : ℕ := min numStreams dataSocks.length

def dataSocksUsed (numStreams : ℕ) (dataSocks : List σ) : List σ :=
  dataSocks.take (usedPorts numStreams dataSocks)

def sockFor (socks : List σ) (streamId : ℕ) : Option σ := socks[min streamId (socks.length - 1)]?

lemma releaseTail_usedPorts {numStreams : ℕ} (hpos : 0 < numStreams) {socks : List σ}
    (pool : List σ) :
    (releaseTail socks pool (usedPorts numStreams socks)).1 = dataSocksUsed numStreams socks := by
  unfold releaseTail dataSocksUsed
  split
  · rename_i hkeep
    rw [usedPorts] at hkeep ⊢
    rw [take_of_length_le (by omega)]
  · rfl

end Sockets

/-- A slot keeps and polls the sockets that the split of its tail leaves. -/
theorem held_splitTail {c c' : DataSockets.Slot} {numStreams : ℕ} {back : List ℕ}
    (hheld : c.held = some c.socks) (pool : List ℕ)
    (h : DataSockets.act c (.splitTail numStreams) = some (c', back)) :
    c'.held = some (releaseTail c.socks pool (usedPorts (max numStreams 1) c.socks)).1 ∧
      c'.reads = dataSocksUsed (max numStreams 1) c.socks := by
  rw [releaseTail_usedPorts (Nat.le_max_right _ _)]
  dsimp only [DataSockets.act] at h
  split at h
  · cases h
    exact ⟨congrArg (Option.map _) hheld, rfl⟩
  · cases h

variable (run : PortRun)

lemma PortRun.length_ports : run.ports.length = run.length := by
  rw [ports, length_map, length_range]

lemma PortRun.getElem?_ports {i : ℕ} (h : i < run.length) :
    run.ports[i]? = some (UInt16.ofNat (run.base.toNat + i)) := by
  rw [ports, getElem?_map, getElem?_range h, Option.map_some]

lemma PortRun.getElem?_dataSocksUsed {numStreams i : ℕ} (hi : i < numStreams)
    (h : i < run.length) :
    (dataSocksUsed numStreams run.ports)[i]? = some (UInt16.ofNat (run.base.toNat + i)) := by
  have hused : i < usedPorts numStreams run.ports := by
    rw [usedPorts, run.length_ports]
    omega
  rw [dataSocksUsed, getElem?_take_of_lt hused, run.getElem?_ports h]

lemma PortRun.length_dataSocksUsed (numStreams : ℕ) :
    (dataSocksUsed numStreams run.ports).length = min numStreams run.length := by
  rw [dataSocksUsed, length_take, usedPorts, run.length_ports, min_assoc, min_self]

end Daemon

namespace Transfer

open Client Daemon

lemma dataPortCount_of_lt : ∀ c < 256,
    dataPortCount (daemonCapabilities ||| (capPerStreamPorts ||| UInt32.ofNat c <<< 8)) = max c 1 ∧
      dataPortCount (daemonCapabilities ||| (capPerStreamPorts ||| UInt32.ofNat c <<< 8) |||
        capPeerAuth) = max c 1 := by
  decide +kernel

/-- The length of the run as the sender reads it: one byte of the capability bits. -/
theorem dataPortCount_capabilities (d : Server) :
    dataPortCount d.capabilities = max (min d.dataSocks 255) 1 := by
  unfold Server.capabilities perStreamPorts
  by_cases hsingle : d.dataSocks ≤ 1
  · have hone : max (min d.dataSocks 255) 1 = 1 := by omega
    rw [if_pos hsingle, hone]
    split <;> rfl
  · obtain ⟨hopen, henforcing⟩ := dataPortCount_of_lt (min d.dataSocks 255) (by omega)
    rw [if_neg hsingle]
    split
    · exact henforcing
    · exact hopen

lemma streamRemote_dataRemotes {base : UInt16} {nDest : ℕ} (hpos : 0 < nDest)
    (hfits : base.toNat + nDest ≤ 65536) (stream : ℕ) :
    streamRemote (dataRemotes base nDest) stream =
      some (UInt16.ofNat (base.toNat + min stream (nDest - 1))) := by
  have hlt : min stream (nDest - 1) < nDest := by omega
  have hword : min stream (nDest - 1) < 2 ^ 16 := by omega
  have hindex : (UInt16.ofNat (min stream (nDest - 1))).toNat = min stream (nDest - 1) :=
    UInt16.toNat_ofNat_of_lt' hword
  rw [streamRemote, dataRemotes, length_map, length_range, getElem?_map,
    getElem?_range hlt, Option.map_some, saturatingAdd, hindex, min_eq_left (by omega)]

/-- Each port the sender uses is held and polled, and a sender that splits gets the ACKs of a stream
from the port it sends the stream to as long as one byte holds the length of the run, the number of
streams or the place of the stream among them. -/
theorem data_ports_agree (d : Server) {run : PortRun} (hbase : d.dataPort = run.base)
    (hsocks : d.dataSocks = run.length) {numStreams : ℕ}
    (perStreamPortsEnabled splitCapable : Bool) (pool : List UInt16) {i : ℕ} (hi : i < numStreams) :
    ∃ port, streamRemote (dataRemotes d.dataPort (numDestinations perStreamPortsEnabled splitCapable
        (dataPortCount d.capabilities) numStreams)) i = some port ∧
      port ∈ (releaseTail run.ports pool (usedPorts numStreams run.ports)).1 ∧
      port ∈ dataSocksUsed numStreams run.ports ∧
      (perStreamPortsEnabled = true → splitCapable = true →
        run.length ≤ 255 ∨ numStreams ≤ 255 ∨ i < 255 →
          sockFor (dataSocksUsed numStreams run.ports) i = some port) := by
  have hlength := run.length_pos
  have hfits := run.fits
  have hports : run.ports ≠ [] := by
    rw [← length_pos_iff, run.length_ports]
    exact hlength
  rw [hbase, dataPortCount_capabilities, hsocks]
  generalize hdest : numDestinations perStreamPortsEnabled splitCapable
    (max (min run.length 255) 1) numStreams = nDest
  have hbounds : 0 < nDest ∧ nDest ≤ min numStreams run.length := by
    rw [← hdest, numDestinations]
    split <;> omega
  have hmem : UInt16.ofNat (run.base.toNat + min i (nDest - 1)) ∈
      dataSocksUsed numStreams run.ports := by
    apply mem_of_getElem?
    exact run.getElem?_dataSocksUsed (by omega) (by omega)
  refine ⟨_, streamRemote_dataRemotes hbounds.1 (by omega) i, ?_, hmem, ?_⟩
  · rwa [releaseTail_usedPorts (by omega)]
  intro henabled hcapable hbyte
  have hsame : min i (nDest - 1) = min i (min numStreams run.length - 1) := by
    rw [← hdest, numDestinations, henabled, hcapable]
    simp only [Bool.and_self, if_true]
    omega
  rw [sockFor, run.length_dataSocksUsed, hsame]
  exact run.getElem?_dataSocksUsed (by omega) (by omega)

theorem data_ports_agree_five :
    let run : PortRun := ⟨5000, 5, by decide, by decide⟩
    let d : Server :=
      { Server.sample (.new [] false) with dataPort := run.base, dataSocks := run.length }
    ∃ port, streamRemote (dataRemotes d.dataPort
        (numDestinations true true (dataPortCount d.capabilities) 4)) 3 = some port ∧
      port ∈ (releaseTail run.ports [] (usedPorts 4 run.ports)).1 ∧
      sockFor (dataSocksUsed 4 run.ports) 3 = some port := by
  intro run d
  obtain ⟨port, hremote, hheld, -, hack⟩ := @data_ports_agree d run rfl rfl 4 true true [] 3
    (by decide)
  exact ⟨port, hremote, hheld, hack rfl rfl (.inl (by decide))⟩

/-- A run of 256 ports is advertised as 255: the last of 256 streams is sent to one port and
answered from the next. -/
theorem data_ports_differ :
    let run : PortRun := ⟨5000, 256, by decide, by decide⟩
    let d : Server :=
      { Server.sample (.new [] false) with dataPort := run.base, dataSocks := run.length }
    streamRemote (dataRemotes d.dataPort
        (numDestinations true true (dataPortCount d.capabilities) 256)) 255 = some 5254 ∧
      sockFor (dataSocksUsed 256 run.ports) 255 = some 5255 := by
  decide +kernel

end Transfer

end Favonius
