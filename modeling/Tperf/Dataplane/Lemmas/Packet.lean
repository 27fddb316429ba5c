import Mathlib.Tactic.Common
import Tperf.Dataplane.Basic

/-!
# The packet format
-/

namespace Tperf.Dataplane
open Lib

/-- The 20 bytes of a header. -/
def hdr (senderId : UInt32) (seq : UInt64) (len : UInt32) : List UInt8 :=
  beBytes 4 udpMagic.toNat ++ beBytes 4 senderId.toNat ++ beBytes 8 seq.toNat ++ beBytes 4 len.toNat

/-- A header with the data it announces. -/
def packet (senderId : UInt32) (seq : UInt64) (data : List UInt8) : List UInt8 :=
  hdr senderId seq (UInt32.ofNat data.length) ++ data

theorem hdr_length (senderId : UInt32) (seq : UInt64) (len : UInt32) :
    (hdr senderId seq len).length = udpHdr := by
  simp [hdr, udpHdr]

theorem packet_length (senderId : UInt32) (seq : UInt64) (data : List UInt8) :
    (packet senderId seq data).length = udpHdr + data.length := by
  rw [packet, List.length_append, hdr_length]

/-! ## Encoding -/

/-- The four copies fill the first 20 bytes and leave the rest. -/
theorem writeHdr_eq (buf : List UInt8) (senderId : UInt32) (seq : UInt64) (len : UInt32) :
    writeHdr buf senderId seq len = hdr senderId seq len ++ buf.drop udpHdr := by
  have h₀ (src : List UInt8) : splice buf 0 src = src ++ buf.drop src.length :=
    @splice_append [] buf src 0 rfl
  simp only [writeHdr]
  rw [h₀, splice_append (by simp), splice_append (by simp), splice_append (by simp)]
  simp [hdr, udpHdr, List.drop_drop]

theorem fill_bytes (pkt : PktBuf) (selfId : UInt32) (seq : UInt64) (p : Payload) (offset : Nat) :
    (pkt.fill selfId seq p offset).bytes =
      packet selfId seq (p.piece offset) ++ (pkt.bytes.drop udpHdr).drop (p.piece offset).length := by
  simp only [PktBuf.fill, writeHdr_eq]
  rw [splice_append (hdr_length _ _ _), packet, p.piece_length]

/-- What `send_to` is given is the packet: nothing of the old buffer is left in it. -/
theorem take_fill (pkt : PktBuf) (selfId : UInt32) (seq : UInt64) (p : Payload) (offset : Nat) :
    (pkt.fill selfId seq p offset).bytes.take (udpHdr + min (p.length - offset) chunk)
      = packet selfId seq (p.piece offset) := by
  rw [fill_bytes, ← p.piece_length, ← packet_length selfId seq, List.take_left]

/-! ## Decoding -/

theorem readHdr_hdr (senderId : UInt32) (seq : UInt64) (len : UInt32) (rest : List UInt8) :
    readHdr (hdr senderId seq len ++ rest) = some (senderId, seq, len) := by
  have hm : ofBe (beBytes 4 udpMagic.toNat) = udpMagic.toNat := ofBe_beBytes_of_lt udpMagic.toNat_lt
  have hi : ofBe (beBytes 4 senderId.toNat) = senderId.toNat := ofBe_beBytes_of_lt senderId.toNat_lt
  have hs : ofBe (beBytes 8 seq.toNat) = seq.toNat := ofBe_beBytes_of_lt seq.toNat_lt
  have hl : ofBe (beBytes 4 len.toNat) = len.toNat := ofBe_beBytes_of_lt len.toNat_lt
  have hlen : ¬ (hdr senderId seq len ++ rest).length < udpHdr := by
    rw [List.length_append, hdr_length]; omega
  rw [readHdr, if_neg hlen]
  simp only [hdr, List.append_assoc]
  have e₈ (l : List UInt8) : l.drop 8 = (l.drop 4).drop 4 := by rw [List.drop_drop]
  have e₁₆ (l : List UInt8) : l.drop 16 = ((l.drop 4).drop 4).drop 8 := by
    rw [List.drop_drop, List.drop_drop]
  rw [e₁₆, e₈, List.drop_left' (by simp), List.drop_left' (by simp), List.drop_left' (by simp),
    List.take_left' (by simp), List.take_left' (by simp), List.take_left' (by simp),
    List.take_left' (by simp), hm, hi, hs, hl]
  simp

theorem readHdr_packet (senderId : UInt32) (seq : UInt64) (data : List UInt8) :
    readHdr (packet senderId seq data) = some (senderId, seq, UInt32.ofNat data.length) :=
  readHdr_hdr senderId seq (UInt32.ofNat data.length) data

/-- A packet of the sender `id` that fits the buffer of the receiver. -/
def IsPacket (id : UInt32) (bytes : List UInt8) : Prop :=
  ∃ seq data, bytes = packet id seq data ∧ udpHdr + data.length ≤ udpRecvBuf

/-- The number in the header of a datagram. -/
def seqOf (bytes : List UInt8) : Nat :=
  match readHdr bytes with
  | some (_, seq, _) => seq.toNat
  | none => 0

theorem seqOf_packet (senderId : UInt32) (seq : UInt64) (data : List UInt8) :
    seqOf (packet senderId seq data) = seq.toNat := by
  rw [seqOf, readHdr_packet]

theorem seqOf_lt (bytes : List UInt8) : seqOf bytes < 2 ^ 64 := by
  unfold seqOf
  split
  · exact UInt64.toNat_lt _
  · decide

theorem Payload.piece_fits (p : Payload) (offset : Nat) :
    udpHdr + (p.piece offset).length ≤ udpRecvBuf := by
  rw [p.piece_length]
  simp only [chunk, udpHdr, udpPkt, udpRecvBuf]
  omega

end Tperf.Dataplane
