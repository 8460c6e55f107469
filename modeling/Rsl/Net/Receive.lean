import Rsl.Net.Pool
import Rsl.Net.Frame

/-!
# The C++ receive loop refines its decoder

The ring, the switch to a buffer of the packet's own and back, and the header that is kept between
two reads do not show: after every read the connection is where `decodeNet` leaves the stream so far
(`Tracks`).
-/

set_option autoImplicit false

namespace Rsl.Net

open Wire Lib RingBuffer Framing.Drained Framing

/-- A configuration that the internal buffer can be made for, with a maximum that a `UInt32`
holds. -/
structure Config.Fits (cfg : Config) : Prop where
  head : serialLen ≤ cfg.readBufferSize
  buffer : cfg.readBufferSize ≤ maxBuffer
  max : cfg.maxPacketSize < 4294967296

theorem effectiveMax_lt {maxSize : Nat} (h : maxSize < 4294967296) :
    effectiveMax maxSize < 4294967296 := by
  rw [effectiveMax]
  split_ifs
  · decide
  · exact h

theorem toInt32_of_le {n : Nat} (h : n ≤ maxBuffer) : toInt32 n = n := by
  unfold maxBuffer at h
  rw [toInt32, if_pos (by omega)]

theorem headerBytes_eq {buffer : RingBuffer UInt8} (h : buffer.Ok)
    (hlen : serialLen ≤ buffer.length) : headerBytes buffer = buffer.toList.take serialLen := by
  rw [headerBytes]
  split_ifs with hstraight
  · exact peek_eq h hlen
  · exact slice_eq h (not_lt.mp hstraight) hlen

theorem deSerializeHeader_eq (cfg : Config) {buffer : RingBuffer UInt8} (h : buffer.Ok)
    (hlen : serialLen ≤ buffer.length) :
    deSerializeHeader cfg buffer =
      if InRange cfg.maxPacketSize (headOf buffer.toList) then some (headOf buffer.toList)
      else none := by
  rw [deSerializeHeader, headerBytes_eq h hlen, ← headOf]
  by_cases hrange : InRange cfg.maxPacketSize (headOf buffer.toList)
  · rw [if_pos hrange, if_neg]
    rw [InRange] at hrange
    omega
  · rw [if_neg hrange, if_pos]
    rw [InRange] at hrange
    omega

namespace NetCxn

variable {cfg : Config} {c : NetCxn}

/-- What holds of a connection that is open, before and after its packets are taken. -/
structure Sound (cfg : Config) (c : NetCxn) : Prop where
  ok : c.netBuffer.Ok
  size : c.netBuffer.size ≤ maxBuffer
  packet : ∀ hdr, c.packet = some hdr → serialLen ≤ c.netBuffer.length ∧
    hdr = headOf c.netBuffer.toList ∧ InRange cfg.maxPacketSize hdr ∧ hdr.size ≤ c.netBuffer.size
  internal : c.usingInternalBuffer = true →
    c.todo = none ∧ getBuffer cfg.readBufferSize = some c.netBuffer.size
  own : c.usingInternalBuffer = false → c.netBuffer.start = 0 ∧ ∃ hdr, c.packet = some hdr ∧
    c.netBuffer.length ≤ hdr.size ∧ c.todo = some (hdr.size - c.netBuffer.length)
  closed : c.closed = false
  aborted : c.aborted = false

/-- No packet can be taken: its header or its body is not complete. -/
def Waiting (c : NetCxn) : Prop :=
  c.netBuffer.length < serialLen ∨ ∃ hdr, c.packet = some hdr ∧ c.netBuffer.length < hdr.size

/-- A connection that waits can be read from. -/
theorem Sound.room_pos (h : Sound cfg c) (hfits : cfg.Fits) (hwait : c.Waiting) : 0 < c.room := by
  have hsize : 0 < c.netBuffer.room := by
    apply RingBuffer.room_pos h.ok
    rcases hwait with hlt | ⟨hdr, hpacket, hlt⟩
    · cases hint : c.usingInternalBuffer with
      | true =>
        obtain ⟨size, hbuffer, hle, -⟩ := getBuffer_eq_some
          (serialLen_pos.trans_le hfits.head) hfits.buffer
        have hsome := (h.internal hint).2
        rw [hbuffer] at hsome
        cases hsome
        have := hfits.head
        omega
      | false =>
        obtain ⟨-, hdr, hpacket, -⟩ := h.own hint
        have := (h.packet hdr hpacket).1
        omega
    · have := (h.packet hdr hpacket).2.2.2
      omega
  rw [room]
  cases hint : c.usingInternalBuffer with
  | true =>
    rw [(h.internal hint).1]
    exact hsize
  | false =>
    obtain ⟨-, hdr, hpacket, hle, htodo⟩ := h.own hint
    have hhead := (h.packet hdr hpacket).1
    have hlt : c.netBuffer.length < hdr.size := by
      rcases hwait with hlt | ⟨hdr', hpacket', hlt⟩
      · omega
      · rw [hpacket] at hpacket'
        cases hpacket'
        exact hlt
    rw [htodo]
    dsimp only
    omega

/-- The header at the start of the buffer. -/
abbrev head (c : NetCxn) : PacketHdr := headOf c.netBuffer.toList

/-- The header that a turn works with. -/
theorem Sound.header (h : Sound cfg c) (hhead : serialLen ≤ c.netBuffer.length) :
    c.packet.or (deSerializeHeader cfg c.netBuffer) =
      if InRange cfg.maxPacketSize c.head then some c.head
      else none := by
  rw [deSerializeHeader_eq cfg h.ok hhead]
  cases hpacket : c.packet with
  | none => rfl
  | some hdr =>
    obtain ⟨-, rfl, hrange, -⟩ := h.packet hdr hpacket
    rw [if_pos hrange]
    rfl

/-- What `DeSerialize` makes of a packet that is complete. -/
theorem Sound.deSerialize (h : Sound cfg c) (hhead : serialLen ≤ c.netBuffer.length)
    (hrange : InRange cfg.maxPacketSize c.head) (hsize : c.head.size ≤ c.netBuffer.length) :
    c.deSerialize cfg =
      if Checks c.netBuffer.toList then .payload (payloadOf c.netBuffer.toList) else .invalid := by
  have hle := length_le h.ok
  have hmax := h.size
  rw [NetCxn.deSerialize, deSerializeHeader_eq cfg h.ok hhead, if_pos hrange]
  dsimp only
  have hpeek := peek_eq h.ok hsize
  cases hint : c.usingInternalBuffer with
  | true =>
    have hresize : resizeBuffer c.head.size = true := by
      rw [resizeBuffer]
      split_ifs with hbig
      · have hsum : asU32 (serialLen + c.head.size) =
            serialLen + c.head.size :=
          Nat.mod_eq_of_lt (by unfold maxBuffer at hmax; unfold serialLen; omega)
        rw [hsum]
        rcases lt_or_ge 1073741824 (serialLen + c.head.size) with hgt | hge
        · rw [getBuffer_of_gt hgt (by unfold maxBuffer at hmax; unfold serialLen; omega)]
          rfl
        · obtain ⟨size, hbuffer, -⟩ := getBuffer_eq_some (by unfold serialLen; omega) hge
          rw [hbuffer]
          rfl
      · rfl
    rw [if_pos rfl, hresize, if_neg Bool.true_eq_false.mp,
      toInt32_of_le (by show c.head.size ≤ _; omega),
      if_neg (by omega), hpeek, verifyChecksum_eq hrange.1]
    rfl
  | false =>
    have hslice : c.netBuffer.slice 0 c.head.size =
        c.netBuffer.peek c.head.size := by
      have hstart := (h.own hint).1
      rw [peek, if_pos (by rw [hstart]; omega), hstart]
    rw [if_neg Bool.false_ne_true, hslice, hpeek, verifyChecksum_eq hrange.1]
    rfl

/-- A complete packet is taken off the buffer. -/
theorem Sound.takePacket (h : Sound cfg c) (hfits : cfg.Fits)
    (hhead : serialLen ≤ c.netBuffer.length) (hrange : InRange cfg.maxPacketSize c.head)
    (hsize : c.head.size ≤ c.netBuffer.length) (hchecks : Checks c.netBuffer.toList) :
    ∃ c' more, c.takePacket cfg c.head.size = (c', more) ∧ Sound cfg c' ∧
      c'.netBuffer.toList = c.netBuffer.toList.drop c.head.size ∧
      c'.received = c.received ++ [payloadOf c.netBuffer.toList] ∧
      (more = false → c'.netBuffer.toList = []) := by
  have hpop := toList_pop h.ok hsize
  have hlen := length_pop h.ok hsize
  rw [NetCxn.takePacket, h.deSerialize hhead hrange hsize, if_pos hchecks]
  dsimp only
  cases hint : c.usingInternalBuffer with
  | true =>
    rw [if_pos rfl]
    refine ⟨_, true, rfl, ⟨ok_pop h.ok hsize, h.size, ?_, ?_, ?_, h.closed, h.aborted⟩,
      hpop, rfl, by simp⟩
    · intro hdr hpacket
      cases hpacket
    · intro _
      exact h.internal hint
    · intro hown
      cases hown
  | false =>
    -- A packet with a buffer of its own is never longer than what was asked for.
    obtain ⟨-, hdr, hpacket, hle, -⟩ := h.own hint
    obtain ⟨-, rfl, -, -⟩ := h.packet hdr hpacket
    change _ ≤ c.head.size at hle
    obtain ⟨size, hbuffer, hlow, hhigh⟩ := getBuffer_eq_some
      (serialLen_pos.trans_le hfits.head) hfits.buffer
    have hpos := serialLen_pos.trans_le (hfits.head.trans hlow)
    have hdrop : c.netBuffer.toList.drop c.head.size = [] := by
      apply List.drop_of_length_le
      rw [length_toList]
      exact hle
    rw [if_neg Bool.false_ne_true, if_neg (by rw [hlen]; omega), switchBack, hbuffer]
    refine ⟨_, false, rfl, ⟨⟨hpos, hpos, nofun⟩, hhigh, ?_, ?_, ?_, h.closed, h.aborted⟩, ?_, rfl,
      fun _ => rfl⟩
    · intro hdr hpacket
      cases hpacket
    · intro _
      exact ⟨rfl, hbuffer⟩
    · intro hown
      cases hown
    · rw [hdrop]
      rfl

/-- A packet that does not fit gets a buffer of its own. -/
theorem sound_readMoreData (hring : c.netBuffer.Ok) (hclosed : c.closed = false)
    (haborted : c.aborted = false) (hhead : serialLen ≤ c.netBuffer.length)
    (hpacket : c.packet = some c.head) (hrange : InRange cfg.maxPacketSize c.head)
    (hmax : c.head.size ≤ maxBuffer) (hsize : c.netBuffer.length < c.head.size) :
    Sound cfg (c.readMoreData cfg c.head.size) ∧
      (c.readMoreData cfg c.head.size).netBuffer.toList = c.netBuffer.toList ∧
      (c.readMoreData cfg c.head.size).received = c.received ∧
      (c.readMoreData cfg c.head.size).Waiting := by
  obtain ⟨size, hbuffer, hlow, hhigh⟩ := getBuffer_eq_some (by omega) hmax
  have hpeek : c.netBuffer.peek c.netBuffer.length = c.netBuffer.toList := by
    rw [peek_eq hring le_rfl, List.take_of_length_le]
    rw [length_toList]
  have hempty : (cfg.emptyBuffer size).Ok := ⟨by dsimp only [Config.emptyBuffer]; omega,
    by dsimp only [Config.emptyBuffer]; omega, nofun⟩
  have hroom : c.netBuffer.toList.length ≤ (cfg.emptyBuffer size).room := by
    rw [length_toList]
    show _ ≤ size - 0
    omega
  have hlist := toList_push hempty hroom
  have hlength := length_push hempty hroom
  have hok := ok_push hempty hroom
  have hnil : (cfg.emptyBuffer size).toList = [] := rfl
  have hzero : (cfg.emptyBuffer size).length = 0 := rfl
  rw [hnil, List.nil_append] at hlist
  rw [hzero, zero_add, length_toList] at hlength
  rw [NetCxn.readMoreData, hbuffer]
  dsimp only
  rw [toInt32_of_le hhigh, if_neg (by omega), hpeek]
  refine ⟨⟨hok, hhigh, ?_, ?_, ?_, hclosed, haborted⟩, hlist, rfl, .inr ⟨_, hpacket, ?_⟩⟩
  · intro hdr hsome
    dsimp only at hsome ⊢
    rw [hpacket] at hsome
    cases hsome
    rw [hlist, hlength]
    exact ⟨hhead, rfl, hrange, hlow⟩
  · intro hint
    cases hint
  · intro _
    refine ⟨rfl, _, hpacket, ?_, ?_⟩
    · rw [hlength]
      exact hsize.le
    · rw [hlength]
  · rw [hlength]
    exact hsize

/-- The size of a packet that is too big for every buffer ends the process. -/
theorem Sound.turn_tooBig (h : Sound cfg c) (hfits : cfg.Fits)
    (hhead : serialLen ≤ c.netBuffer.length) (hrange : InRange cfg.maxPacketSize c.head)
    (hbig : maxBuffer < c.head.size) :
    ∃ c', c.turn cfg = (c', false) ∧ c'.received = c.received ∧ c'.closed = false ∧
      c'.aborted = true := by
  have hle := length_le h.ok
  have hsize := h.size
  have hword := hrange.2.trans_lt (effectiveMax_lt hfits.max)
  have hint : c.usingInternalBuffer = true := by
    cases hint : c.usingInternalBuffer with
    | true => rfl
    | false =>
      obtain ⟨-, hdr, hpacket, -⟩ := h.own hint
      obtain ⟨-, rfl, -, hfit⟩ := h.packet hdr hpacket
      exact absurd (hbig.trans_le hfit) (by omega)
  rw [turn, h.header hhead, if_pos hrange]
  dsimp only
  generalize hn : c.head.size = n at hbig hword
  unfold maxBuffer at hbig hsize
  rcases lt_or_ge n 2147483648 with hlt | hge
  · have hint32 : toInt32 n = n := if_pos hlt
    rw [hint32, if_neg (by omega), if_pos (by omega), if_pos hint, NetCxn.readMoreData,
      getBuffer_of_gt hbig hlt]
    dsimp only
    rw [if_pos (by have : toInt32 2147483648 = -2147483648 := rfl; omega)]
    exact ⟨_, rfl, rfl, h.closed, rfl⟩
  · have hint32 : toInt32 n = (n : Int) - 4294967296 := if_neg (by omega)
    rw [hint32, if_pos (by omega), NetCxn.takePacket, NetCxn.deSerialize,
      deSerializeHeader_eq cfg h.ok hhead, if_pos hrange]
    dsimp only
    rw [hint, if_pos rfl, hn]
    by_cases hresize : resizeBuffer n = false
    · rw [if_pos hresize]
      exact ⟨_, rfl, rfl, h.closed, rfl⟩
    · rw [if_neg hresize, if_pos (by rw [hint32]; omega)]
      exact ⟨_, rfl, rfl, h.closed, rfl⟩

/-- What a turn does, by what the decoder makes of the buffer. -/
inductive Turned (cfg : Config) (c : NetCxn) : Step Bytes Ended → NetCxn × Bool → Prop where
  | frame (c' : NetCxn) (more : Bool) (size : Nat) (content : Bytes) (hsound : Sound cfg c')
      (hlist : c'.netBuffer.toList = c.netBuffer.toList.drop size)
      (hreceived : c'.received = c.received ++ [content])
      (hlast : more = false → c'.netBuffer.toList = []) :
      Turned cfg c (.frame content size) (c', more)
  | needMore (c' : NetCxn) (hsound : Sound cfg c')
      (hlist : c'.netBuffer.toList = c.netBuffer.toList) (hreceived : c'.received = c.received)
      (hwait : c'.Waiting) : Turned cfg c .needMore (c', false)
  | closed (c' : NetCxn) (hreceived : c'.received = c.received) (hclosed : c'.closed = true)
      (haborted : c'.aborted = false) : Turned cfg c (.reject .closed) (c', false)
  | aborted (c' : NetCxn) (hreceived : c'.received = c.received) (hclosed : c'.closed = false)
      (haborted : c'.aborted = true) : Turned cfg c (.reject .aborted) (c', false)

theorem Sound.turned (h : Sound cfg c) (hfits : cfg.Fits) (hhead : serialLen ≤ c.netBuffer.length) :
    Turned cfg c (decodeNet cfg.maxPacketSize c.netBuffer.toList) (c.turn cfg) := by
  have hlength := length_toList c.netBuffer
  rw [decodeNet_eq, if_neg (by omega)]
  by_cases hrange : InRange cfg.maxPacketSize c.head
  swap
  · rw [if_pos hrange, turn, h.header hhead, if_neg hrange]
    exact .closed _ rfl rfl h.aborted
  rw [if_neg (not_not.mpr hrange)]
  by_cases hbig : maxBuffer < c.head.size
  · obtain ⟨c', hturn, hreceived, hclosed, haborted⟩ := h.turn_tooBig hfits hhead hrange hbig
    rw [if_pos hbig, hturn]
    exact .aborted c' hreceived hclosed haborted
  rw [if_neg hbig, turn, h.header hhead, if_pos hrange]
  dsimp only
  rw [toInt32_of_le (not_lt.mp hbig)]
  -- The header is kept; it is the one at the start of the buffer.
  have hheld : c.usingInternalBuffer = false → c.packet = some c.head ∧
      c.netBuffer.length ≤ c.head.size ∧ c.todo = some (c.head.size - c.netBuffer.length) ∧
      c.head.size ≤ c.netBuffer.size := by
    intro hint
    obtain ⟨-, hdr, hpacket, hle, htodo⟩ := h.own hint
    obtain ⟨-, rfl, -, hfit⟩ := h.packet hdr hpacket
    exact ⟨hpacket, hle, htodo, hfit⟩
  have hkeep : c.head.size ≤ c.netBuffer.size → Sound cfg { c with packet := some c.head } := by
    intro hfit
    refine ⟨h.ok, h.size, ?_, h.internal, ?_, h.closed, h.aborted⟩
    · rintro hdr ⟨rfl⟩
      exact ⟨hhead, rfl, hrange, hfit⟩
    · intro hint
      obtain ⟨-, hle, htodo, -⟩ := hheld hint
      exact ⟨(h.own hint).1, _, rfl, hle, htodo⟩
  by_cases hsize : c.head.size ≤ c.netBuffer.length
  · have hkept := hkeep (hsize.trans (length_le h.ok))
    have hint : (c.head.size : Int) ≤ c.netBuffer.length := by exact_mod_cast hsize
    rw [if_neg (by show ¬ _ < c.head.size; omega), if_pos hint]
    by_cases hchecks : Checks c.netBuffer.toList
    · obtain ⟨c', more, htake, hsound, hlist, hreceived, hlast⟩ :=
        hkept.takePacket hfits hhead hrange hsize hchecks
      rw [if_pos hchecks, htake]
      exact .frame c' more _ _ hsound hlist hreceived hlast
    · rw [if_neg hchecks, NetCxn.takePacket, hkept.deSerialize hhead hrange hsize, if_neg hchecks]
      exact .closed _ rfl rfl h.aborted
  · have hwait : c.netBuffer.length < c.head.size := not_le.mp hsize
    rw [if_pos (by show _ < c.head.size; omega), if_neg (by omega)]
    by_cases hfit : c.head.size ≤ c.netBuffer.size
    · rw [if_neg (by omega)]
      exact .needMore _ (hkeep hfit) rfl rfl (.inr ⟨_, rfl, hwait⟩)
    · have hint : c.usingInternalBuffer = true := by
        cases hint : c.usingInternalBuffer with
        | true => rfl
        | false => exact absurd (hheld hint).2.2.2 hfit
      rw [if_pos (by omega), if_pos hint]
      obtain ⟨hsound, hlist, hreceived, hwait'⟩ := @sound_readMoreData cfg
        { c with packet := some c.head } h.ok h.closed h.aborted hhead rfl hrange
        (not_lt.mp hbig) hwait
      exact .needMore _ hsound hlist hreceived hwait'

/-- The connection is where the decoder leaves the stream. -/
structure Tracks (cfg : Config) (c : NetCxn) (d : Framing.Drained UInt8 Bytes Ended) : Prop where
  received : c.received = d.frames
  closed : c.closed = decide (d.rejected = some .closed)
  aborted : c.aborted = decide (d.rejected = some .aborted)
  running : d.rejected = none → Sound cfg c ∧ c.netBuffer.toList = d.rest ∧ c.Waiting

theorem Sound.tracks (h : Sound cfg c) (hwait : c.Waiting) :
    Tracks cfg c ⟨c.received, none, c.netBuffer.toList⟩ :=
  ⟨rfl, h.closed, h.aborted, fun _ => ⟨h, rfl, hwait⟩⟩

/-- The loop takes every packet that is in the buffer. -/
theorem Sound.readReady (h : Sound cfg c) (hfits : cfg.Fits) {n : Nat}
    (hn : c.netBuffer.length ≤ n) :
    Tracks cfg (c.readReady cfg n)
      ((drain (decodeNet cfg.maxPacketSize) c.netBuffer.toList).after c.received) := by
  have hstable := stable_decodeNet cfg.maxPacketSize
  induction n generalizing c with
  | zero =>
    have hwait : c.Waiting := .inl (hn.trans_lt serialLen_pos)
    have hlist : c.netBuffer.toList = [] := by
      apply List.eq_nil_of_length_eq_zero
      rw [length_toList]
      omega
    have htracks := h.tracks hwait
    rw [hlist] at htracks
    rw [NetCxn.readReady, hlist, drain_needMore hstable.nil]
    simpa [after] using htracks
  | succ n ih =>
    rw [NetCxn.readReady]
    by_cases hhead : c.netBuffer.length < serialLen
    · have hmore : decodeNet cfg.maxPacketSize c.netBuffer.toList = .needMore := by
        rw [decodeNet_eq, if_pos (by rw [length_toList]; exact hhead)]
      rw [if_pos hhead, drain_needMore hmore]
      simpa [after] using h.tracks (.inl hhead)
    · rw [if_neg hhead]
      have hturned := h.turned hfits (not_lt.mp hhead)
      generalize hstep : decodeNet cfg.maxPacketSize c.netBuffer.toList = step at hturned
      generalize c.turn cfg = result at hturned
      cases hturned with
      | frame c' more size content hsound hlist hreceived hlast =>
        have hpos := hstable.pos hstep
        have hle := hstable.le hstep
        rw [drain_frame hstable hstep, ← hlist, after_after, ← hreceived]
        cases more with
        | true =>
          apply ih hsound
          rw [← length_toList, hlist, List.length_drop, length_toList]
          omega
        | false =>
          have hnil := hlast rfl
          have hwait : c'.Waiting := by
            refine .inl ?_
            rw [← length_toList, hnil]
            exact serialLen_pos
          have htracks := hsound.tracks hwait
          rw [hnil] at htracks ⊢
          rw [drain_needMore hstable.nil]
          simpa [after] using htracks
      | needMore c' hsound hlist hreceived hwait =>
        rw [drain_needMore hstep, ← hlist, ← hreceived]
        simpa [after] using hsound.tracks hwait
      | closed c' hreceived hclosed haborted | aborted c' hreceived hclosed haborted =>
        rw [drain_reject hstable hstep]
        refine ⟨?_, hclosed, haborted, fun hnone => absurd hnone (by simp [after])⟩
        simpa [after] using hreceived

/-- What a read leaves before the packets are taken. -/
theorem Sound.push (h : Sound cfg c) {bytes : Bytes} (hroom : bytes.length ≤ c.room) :
    Sound cfg { c with
        netBuffer := c.netBuffer.push bytes
        todo := c.todo.map (· - bytes.length) } ∧
      (c.netBuffer.push bytes).toList = c.netBuffer.toList ++ bytes := by
  have hring : bytes.length ≤ c.netBuffer.room := by
    rw [room] at hroom
    split at hroom
    · exact hroom
    · exact hroom.trans (min_le_right _ _)
  have hlist := toList_push h.ok hring
  have hlength := length_push h.ok hring
  have hhead : serialLen ≤ c.netBuffer.length →
      headOf (c.netBuffer.push bytes).toList = headOf c.netBuffer.toList := by
    intro hle
    rw [hlist]
    exact headOf_append (by rw [length_toList]; exact hle) bytes
  refine ⟨⟨ok_push h.ok hring, h.size, ?_, ?_, ?_, h.closed, h.aborted⟩, hlist⟩
  · intro hdr hpacket
    obtain ⟨hle, rfl, hrange, hfit⟩ := h.packet hdr hpacket
    exact ⟨by dsimp only; omega, (hhead hle).symm, hrange, hfit⟩
  · intro hint
    obtain ⟨htodo, hbuffer⟩ := h.internal hint
    exact ⟨by rw [htodo]; rfl, hbuffer⟩
  · intro hint
    obtain ⟨hstart, hdr, hpacket, hle, htodo⟩ := h.own hint
    rw [room, htodo] at hroom
    dsimp only at hroom
    refine ⟨hstart, hdr, hpacket, by dsimp only; omega, ?_⟩
    rw [htodo, hlength, Option.map_some, Nat.sub_sub]

theorem Tracks.receive {d : Framing.Drained UInt8 Bytes Ended} {c' : NetCxn} {bytes : Bytes}
    (h : Tracks cfg c d) (hfits : cfg.Fits) (hr : c.receive cfg bytes = some c') :
    Tracks cfg c' (feed (decodeNet cfg.maxPacketSize) d bytes) := by
  have hclosed := h.closed
  have haborted := h.aborted
  rw [NetCxn.receive] at hr
  rw [feed]
  cases hrejected : d.rejected with
  | none =>
    obtain ⟨hsound, hlist, -⟩ := h.running hrejected
    have hopen : (c.closed || c.aborted) = false := by rw [hsound.closed, hsound.aborted]; rfl
    rw [hopen, if_neg Bool.false_ne_true] at hr
    split_ifs at hr with hbytes
    rw [not_or, not_lt] at hbytes
    obtain ⟨hpushed, hpushedList⟩ := hsound.push hbytes.2
    cases hr
    have htracks := hpushed.readReady hfits le_rfl
    rw [hpushedList, hlist] at htracks
    rw [← h.received]
    exact htracks
  | some reason =>
    have hended : (c.closed || c.aborted) = true := by
      rw [hclosed, haborted, hrejected]
      cases reason <;> rfl
    rw [if_pos hended] at hr
    cases hr
    exact h

theorem Tracks.run {d : Framing.Drained UInt8 Bytes Ended} {c' : NetCxn} {cuts : List Bytes}
    (h : Tracks cfg c d) (hfits : cfg.Fits) (hr : c.run cfg cuts = some c') :
    Tracks cfg c' (cuts.foldl (feed (decodeNet cfg.maxPacketSize)) d) := by
  induction cuts generalizing c d with
  | nil =>
    cases hr
    exact h
  | cons bytes cuts ih =>
    rw [NetCxn.run] at hr
    obtain ⟨c₁, hreceive, hrun⟩ := Option.bind_eq_some_iff.mp hr
    exact ih (h.receive hfits hreceive) hrun

/-- A new connection waits for its first packet. -/
theorem exists_init (hfits : cfg.Fits) :
    ∃ c, NetCxn.init cfg = some c ∧ Tracks cfg c ⟨[], none, []⟩ := by
  obtain ⟨size, hbuffer, hlow, hhigh⟩ := getBuffer_eq_some
    (serialLen_pos.trans_le hfits.head) hfits.buffer
  have hpos : 0 < size := serialLen_pos.trans_le (hfits.head.trans hlow)
  rw [NetCxn.init, if_neg (not_lt.mpr hfits.head), hbuffer]
  refine ⟨_, rfl, rfl, rfl, rfl, fun _ => ⟨⟨⟨hpos, hpos, nofun⟩, hhigh, nofun, ?_, nofun, rfl, rfl⟩,
    rfl, .inl serialLen_pos⟩⟩
  intro _
  exact ⟨rfl, hbuffer⟩

end NetCxn
end Rsl.Net
