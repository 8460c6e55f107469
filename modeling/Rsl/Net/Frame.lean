import Rsl.Net.Packet
import Rsl.Wire.RoundTrip

/-!
# What the two receivers make of a stream

`decodeNet` is what the C++ receiver makes of the bytes that have arrived, without its buffers: like
`decode_packet`, except that a packet of more than `2 ^ 30` bytes ends the process. Both decoders
are stable, so how the stream is cut does not matter to them.
-/

set_option autoImplicit false

namespace Rsl.Net

open Wire Lib List

/-- The greatest size that the buffers of the C++ receiver can hold. -/
def maxBuffer : Nat := 1073741824

/-- How a connection ends. -/
inductive Ended where
  | closed
  | aborted
  deriving DecidableEq, Repr

/-- What the C++ receiver makes of the start of the stream. -/
def decodeNet (maxSize : Nat) (buf : Bytes) : Framing.Step Bytes Ended :=
  if buf.length < serialLen then .needMore
  else
    let hdr := PacketHdr.deSerialize (buf.take serialLen)
    if hdr.size < serialLen ∨ effectiveMax maxSize < hdr.size then .reject .closed
    else if maxBuffer < hdr.size then .reject .aborted
    else if buf.length < hdr.size then .needMore
    else
      match verifyChecksum (buf.take hdr.size) with
      | .payload bytes => .frame bytes hdr.size
      | _ => .reject .closed

/-- The header at the start of a stream. -/
def headOf (buf : Bytes) : PacketHdr := PacketHdr.deSerialize (buf.take serialLen)

/-- The size of a header is accepted. -/
def InRange (maxSize : Nat) (hdr : PacketHdr) : Prop :=
  serialLen ≤ hdr.size ∧ hdr.size ≤ effectiveMax maxSize

instance (maxSize : Nat) (hdr : PacketHdr) : Decidable (InRange maxSize hdr) :=
  inferInstanceAs (Decidable (_ ∧ _))

variable {buf : Bytes} {maxSize : Nat}

theorem headOf_append (h : serialLen ≤ buf.length) (more : Bytes) :
    headOf (buf ++ more) = headOf buf := by
  rw [headOf, headOf, take_append_of_le_length h]

/-- `frame_checksum` is the checksum of the frame with zeros for its checksum. -/
theorem frameChecksum_eq (frame : Bytes) :
    frameChecksum frame = fingerprint (setChecksum 0 frame) := by
  have hlt := Fingerprint.poly_lt
  rw [frameChecksum, setChecksum, fingerprint, fingerprint, append_assoc,
    fingerprintWith_append hlt, fingerprintWith_append]
  · rfl
  · rw [Fingerprint.fingerprintWith_eq hlt]
    exact Fingerprint.absorb_lt hlt _

theorem deSerialize_take {n : Nat} (hn : serialLen ≤ n) :
    PacketHdr.deSerialize (buf.take n) = headOf buf := by
  unfold serialLen at hn
  simp only [headOf, PacketHdr.deSerialize, serialLen, take_take, drop_take, PacketHdr.mk.injEq]
  refine ⟨?_, ?_, ?_, ?_⟩ <;> congr 2 <;> omega

/-- The checksum of the packet at the start of the stream matches. -/
def Checks (buf : Bytes) : Prop :=
  fingerprint (setChecksum 0 (buf.take (headOf buf).size)) = (headOf buf).checksum

instance (buf : Bytes) : Decidable (Checks buf) := inferInstanceAs (Decidable (_ = _))

theorem verifyChecksum_eq (h : serialLen ≤ (headOf buf).size) :
    verifyChecksum (buf.take (headOf buf).size) =
      if Checks buf then .payload ((buf.take (headOf buf).size).drop serialLen) else .invalid := by
  rw [verifyChecksum, deSerialize_take h]
  by_cases hc : Checks buf
  · rw [if_pos hc, if_neg (not_not.mpr hc.symm)]
  · rw [if_neg hc, if_pos fun heq => hc heq.symm]

/-- The packet at the start of the stream, when it is all there. -/
def payloadOf (buf : Bytes) : Bytes := (buf.take (headOf buf).size).drop serialLen

/-- What a decoder makes of a stream, by the header at its start. -/
theorem decodePacket_eq (maxSize : Nat) (buf : Bytes) :
    decodePacket maxSize buf =
      if buf.length < serialLen then .needMore
      else if ¬ InRange maxSize (headOf buf) then
        .reject (.invalidSize (headOf buf).size (effectiveMax maxSize))
      else if buf.length < (headOf buf).size then .needMore
      else if Checks buf then .frame (payloadOf buf) (headOf buf).size
      else .reject (.checksum (headOf buf).checksum
        (fingerprint (setChecksum 0 (buf.take (headOf buf).size)))) := by
  rw [decodePacket]
  simp only [frameChecksum_eq, InRange, not_and_or, not_le]
  rw [← headOf]
  by_cases hc : Checks buf
  · rw [if_pos hc, if_neg (not_not.mpr (show _ = _ from hc))]
    rfl
  · rw [if_neg hc, if_pos (show _ ≠ _ from hc)]

theorem decodeNet_eq (maxSize : Nat) (buf : Bytes) :
    decodeNet maxSize buf =
      if buf.length < serialLen then .needMore
      else if ¬ InRange maxSize (headOf buf) then .reject .closed
      else if maxBuffer < (headOf buf).size then .reject .aborted
      else if buf.length < (headOf buf).size then .needMore
      else if Checks buf then .frame (payloadOf buf) (headOf buf).size
      else .reject .closed := by
  rw [decodeNet]
  simp only [InRange, not_and_or, not_le]
  rw [← headOf]
  by_cases hrange : (headOf buf).size < serialLen ∨ effectiveMax maxSize < (headOf buf).size
  · rw [if_pos hrange, if_pos hrange]
  · rw [if_neg hrange, if_neg hrange, verifyChecksum_eq (by omega)]
    by_cases hc : Checks buf
    · rw [if_pos hc, if_pos hc]
      rfl
    · rw [if_neg hc, if_neg hc]

/-! ## Stability -/

section

variable (hhead : serialLen ≤ buf.length) (hsize : (headOf buf).size ≤ buf.length) (more : Bytes)

include hhead hsize more

theorem take_frame_append :
    (buf ++ more).take (headOf (buf ++ more)).size = buf.take (headOf buf).size := by
  rw [headOf_append hhead, take_append_of_le_length hsize]

theorem checks_append :
    Checks (buf ++ more) ↔ Checks buf := by
  rw [Checks, take_frame_append hhead hsize, headOf_append hhead, Checks]

theorem payloadOf_append :
    payloadOf (buf ++ more) = payloadOf buf := by
  rw [payloadOf, take_frame_append hhead hsize, payloadOf]

end

/-- A packet that a receiver takes: its header is accepted and it is all there. -/
structure Whole (maxSize : Nat) (buf : Bytes) : Prop where
  head : serialLen ≤ buf.length
  range : InRange maxSize (headOf buf)
  size : (headOf buf).size ≤ buf.length
  checks : Checks buf

theorem Whole.append (h : Whole maxSize buf) (more : Bytes) :
    Whole maxSize (buf ++ more) := by
  have hhead := headOf_append h.head more
  refine ⟨?_, ?_, ?_, ?_⟩
  · rw [length_append]
    exact Nat.le_add_right_of_le h.head
  · rw [hhead]
    exact h.range
  · rw [hhead, length_append]
    exact Nat.le_add_right_of_le h.size
  · rw [checks_append h.head h.size]
    exact h.checks

theorem decodePacket_whole (h : Whole maxSize buf) :
    decodePacket maxSize buf = .frame (payloadOf buf) (headOf buf).size := by
  rw [decodePacket_eq, if_neg (not_lt.mpr h.head), if_neg (not_not.mpr h.range),
    if_neg (not_lt.mpr h.size), if_pos h.checks]

theorem decodePacket_eq_frame {buf content : Bytes} {size : Nat}
    (h : decodePacket maxSize buf = .frame content size) :
    Whole maxSize buf ∧ content = payloadOf buf ∧ size = (headOf buf).size := by
  rw [decodePacket_eq] at h
  split_ifs at h with hhead hrange hsize hchecks
  cases h
  exact ⟨⟨not_lt.mp hhead, hrange, not_lt.mp hsize, hchecks⟩, rfl, rfl⟩

theorem decodeNet_whole (h : Whole maxSize buf) (hfits : (headOf buf).size ≤ maxBuffer) :
    decodeNet maxSize buf = .frame (payloadOf buf) (headOf buf).size := by
  rw [decodeNet_eq, if_neg (not_lt.mpr h.head), if_neg (not_not.mpr h.range),
    if_neg (not_lt.mpr hfits), if_neg (not_lt.mpr h.size), if_pos h.checks]

theorem decodeNet_eq_frame {buf content : Bytes} {size : Nat}
    (h : decodeNet maxSize buf = .frame content size) :
    Whole maxSize buf ∧ (headOf buf).size ≤ maxBuffer ∧ content = payloadOf buf ∧
      size = (headOf buf).size := by
  rw [decodeNet_eq] at h
  split_ifs at h with hhead hrange hfits hsize hchecks
  cases h
  exact ⟨⟨not_lt.mp hhead, hrange, not_lt.mp hsize, hchecks⟩,
    not_lt.mp hfits, rfl, rfl⟩

theorem serialLen_pos : 0 < serialLen := by decide

theorem stable_decodePacket (maxSize : Nat) : Framing.Stable (decodePacket maxSize) where
  nil := by rw [decodePacket_eq, if_pos (show ([] : Bytes).length < serialLen from serialLen_pos)]
  pos h := by
    obtain ⟨hwhole, -, rfl⟩ := decodePacket_eq_frame h
    exact serialLen_pos.trans_le hwhole.range.1
  le h := by
    obtain ⟨hwhole, -, rfl⟩ := decodePacket_eq_frame h
    exact hwhole.size
  frame more h := by
    obtain ⟨hwhole, rfl, rfl⟩ := decodePacket_eq_frame h
    rw [decodePacket_whole (hwhole.append more), payloadOf_append hwhole.head hwhole.size,
      headOf_append hwhole.head]
  reject {buf reason} more h := by
    rw [decodePacket_eq] at h
    split_ifs at h with hhead hrange hsize hchecks
    all_goals
      cases h
      have hhead' := not_lt.mp hhead
      have hlen : ¬ (buf ++ more).length < serialLen := by
        rw [length_append]
        omega
      rw [decodePacket_eq, if_neg hlen, headOf_append hhead']
    · have hsize' := not_lt.mp hsize
      rw [if_neg (not_not.mpr hrange), if_neg (by rw [length_append]; omega),
        if_neg ((checks_append hhead' hsize' more).not.mpr hchecks),
        take_append_of_le_length hsize']
    · rw [if_pos hrange]

theorem stable_decodeNet (maxSize : Nat) : Framing.Stable (decodeNet maxSize) where
  nil := by rw [decodeNet_eq, if_pos (show ([] : Bytes).length < serialLen from serialLen_pos)]
  pos h := by
    obtain ⟨hwhole, -, -, rfl⟩ := decodeNet_eq_frame h
    exact serialLen_pos.trans_le hwhole.range.1
  le h := by
    obtain ⟨hwhole, -, -, rfl⟩ := decodeNet_eq_frame h
    exact hwhole.size
  frame more h := by
    obtain ⟨hwhole, hfits, rfl, rfl⟩ := decodeNet_eq_frame h
    have hhead := headOf_append hwhole.head more
    rw [decodeNet_whole (hwhole.append more) (by rwa [hhead]),
      payloadOf_append hwhole.head hwhole.size, hhead]
  reject {buf reason} more h := by
    rw [decodeNet_eq] at h
    split_ifs at h with hhead hrange hfits hsize hchecks
    all_goals
      cases h
      have hhead' := not_lt.mp hhead
      have hlen : ¬ (buf ++ more).length < serialLen := by
        rw [length_append]
        omega
      rw [decodeNet_eq, if_neg hlen, headOf_append hhead']
    · rw [if_neg (not_not.mpr hrange), if_pos hfits]
    · have hsize' := not_lt.mp hsize
      rw [if_neg (not_not.mpr hrange), if_neg hfits, if_neg (by rw [length_append]; omega),
        if_neg ((checks_append hhead' hsize' more).not.mpr hchecks)]
    · rw [if_pos hrange]

/-! ## Packets that are sent -/

theorem length_serialize_hdr (hdr : PacketHdr) : hdr.serialize.length = serialLen := by
  simp [PacketHdr.serialize, length_leBytes, serialLen]

/-- Only the checksum is replaced. -/
theorem setChecksum_serialize (hdr : PacketHdr) (payload : Bytes) (checksum : Nat) :
    setChecksum checksum (hdr.serialize ++ payload) =
      PacketHdr.serialize { hdr with checksum := checksum } ++ payload := by
  have htake : (hdr.serialize ++ payload).take 12 =
      leBytes 4 hdr.size ++ leBytes 4 hdr.protoVersion ++ leBytes 4 hdr.xid := by
    rw [PacketHdr.serialize, append_assoc _ (leBytes 8 hdr.checksum)]
    exact take_left' (by simp [length_leBytes])
  rw [setChecksum, htake, drop_left' (length_serialize_hdr hdr)]
  rfl

theorem deSerialize_serialize {hdr : PacketHdr} (hsize : hdr.size < 4294967296)
    (hproto : hdr.protoVersion < 4294967296) (hxid : hdr.xid < 4294967296)
    (hsum : hdr.checksum < 18446744073709551616) : PacketHdr.deSerialize hdr.serialize = hdr := by
  obtain ⟨size, protoVersion, xid, checksum⟩ := hdr
  have h4 (n : Nat) : (leBytes 4 n).length = 4 := length_leBytes 4 n
  have h8 (n : Nat) : (leBytes 8 n).length = 8 := length_leBytes 8 n
  simp only [PacketHdr.deSerialize, PacketHdr.serialize, append_assoc]
  rw [take_left' (h4 _), drop_left' (h4 _), take_left' (h4 _)]
  have hdrop8 (rest : Bytes) :
      (leBytes 4 size ++ (leBytes 4 protoVersion ++ rest)).drop 8 = rest := by
    rw [← append_assoc]
    exact drop_left' (by simp [length_leBytes])
  have hdrop12 : (leBytes 4 size ++ (leBytes 4 protoVersion ++ (leBytes 4 xid ++
      leBytes 8 checksum))).drop 12 = leBytes 8 checksum := by
    rw [← append_assoc, ← append_assoc]
    exact drop_left' (by simp [length_leBytes])
  rw [hdrop8, hdrop12, take_left' (h4 _), take_of_length_le (h8 _).le]
  simp only [leNat_leBytes, PacketHdr.mk.injEq]
  exact ⟨Nat.mod_eq_of_lt hsize, Nat.mod_eq_of_lt hproto, Nat.mod_eq_of_lt hxid,
    Nat.mod_eq_of_lt hsum⟩

/-- What is sent for a payload: its header carries the size and the checksum. -/
theorem serialize_eq {payload : Bytes} (h : serialLen + payload.length < 4294967296) :
    serialize payload = PacketHdr.serialize ⟨serialLen + payload.length, 0, 0,
      fingerprint (PacketHdr.serialize ⟨serialLen + payload.length, 0, 0, 0⟩ ++ payload)⟩
        ++ payload := by
  have hsize : asU32 (serialLen + payload.length) = serialLen + payload.length :=
    Nat.mod_eq_of_lt h
  rw [serialize, hsize]
  exact setChecksum_serialize _ _ _

/-- A packet that was sent is whole, whatever comes behind it. -/
theorem whole_serialize {payload : Bytes} (h : serialLen + payload.length < 4294967296)
    (hmax : serialLen + payload.length ≤ effectiveMax maxSize) (more : Bytes) :
    Whole maxSize (serialize payload ++ more) ∧
      (headOf (serialize payload ++ more)).size = (serialize payload).length ∧
      (serialize payload).length = serialLen + payload.length ∧
      payloadOf (serialize payload ++ more) = payload := by
  generalize hsum : fingerprint
    (PacketHdr.serialize ⟨serialLen + payload.length, 0, 0, 0⟩ ++ payload)
    = sum
  have hlt : sum < 18446744073709551616 := by
    rw [← hsum]
    exact fingerprint_lt _
  have heq := serialize_eq h
  rw [hsum] at heq
  have hlen : (serialize payload).length = serialLen + payload.length := by
    rw [heq, length_append, length_serialize_hdr]
  have hhead : headOf (serialize payload) = ⟨serialLen + payload.length, 0, 0, sum⟩ := by
    rw [headOf, heq, take_left' (length_serialize_hdr _)]
    exact deSerialize_serialize h (Nat.zero_lt_succ _) (Nat.zero_lt_succ _) hlt
  have hle : serialLen ≤ (serialize payload).length := by omega
  have hwhole : Whole maxSize (serialize payload) := by
    refine ⟨hle, ?_, by rw [hhead, hlen], ?_⟩
    · rw [hhead]
      exact ⟨le_self_add, hmax⟩
    · rw [Checks, hhead, take_of_length_le hlen.le, heq, setChecksum_serialize]
      exact hsum
  refine ⟨hwhole.append more, ?_, hlen, ?_⟩
  · rw [headOf_append hle, hhead, hlen]
  · rw [payloadOf_append hle (by rw [hhead, hlen]), payloadOf, hhead,
      take_of_length_le hlen.le, heq, drop_left' (length_serialize_hdr _)]

end Rsl.Net
