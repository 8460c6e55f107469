import Rsl.Net.Receive

/-!
# Both receivers deliver the same packets

However a stream is cut into reads, each receiver ends where its decoder leaves the whole stream.
The two decoders differ only at a packet that the configured maximum allows and that has more than
`2 ^ 30` bytes: there the C++ process ends (`framing_agrees`).
-/

set_option autoImplicit false

namespace Rsl.Net

open Wire Lib Framing ReadLoop List

/-- Every packet that a receiver comes to in the stream, and that its maximum allows, fits a buffer
of the C++ pool. -/
inductive Modest (maxSize : Nat) : Bytes → Prop where
  | frame {buf content : Bytes} {size : Nat} (h : decodePacket maxSize buf = .frame content size)
      (hsize : size ≤ maxBuffer) (rest : Modest maxSize (buf.drop size)) : Modest maxSize buf
  | needMore {buf : Bytes} (h : decodePacket maxSize buf = .needMore)
      (hsize : serialLen ≤ buf.length → (headOf buf).size ≤ maxBuffer) : Modest maxSize buf
  | reject {buf : Bytes} {reason : FrameError} (h : decodePacket maxSize buf = .reject reason)
      (hsize : InRange maxSize (headOf buf) → (headOf buf).size ≤ maxBuffer) : Modest maxSize buf

/-- The same packets, the same end, and the same bytes left. -/
structure EndsAs (c : NetCxn) (d : ReadLoop) : Prop where
  received : c.received = d.frames
  closed : c.closed = d.rejected.isSome
  aborted : c.aborted = false
  rest : d.rejected = none → c.netBuffer.toList = d.rest

/-- The two decoders on one stream. -/
structure Agrees (e : Framing.Drained UInt8 Bytes Ended) (d : ReadLoop) : Prop where
  frames : e.frames = d.frames
  rejected : e.rejected = d.rejected.map fun _ => .closed
  rest : d.rejected = none → e.rest = d.rest

variable {maxSize : Nat} {buf : Bytes}

/-- At a packet that is too big, the C++ receiver stops. -/
theorem decodeNet_tooBig (hhead : serialLen ≤ buf.length) (hrange : InRange maxSize (headOf buf))
    (hbig : maxBuffer < (headOf buf).size) : decodeNet maxSize buf = .reject .aborted := by
  rw [decodeNet_eq, if_neg (not_lt.mpr hhead), if_neg (not_not.mpr hrange), if_pos hbig]

/-- Otherwise it does what the Rust receiver does. -/
theorem decodeNet_modest (hsize : serialLen ≤ buf.length → InRange maxSize (headOf buf) →
      (headOf buf).size ≤ maxBuffer) :
    decodeNet maxSize buf =
      match decodePacket maxSize buf with
      | .frame content size => .frame content size
      | .needMore => .needMore
      | .reject _ => .reject .closed := by
  rw [decodeNet_eq, decodePacket_eq]
  by_cases hhead : buf.length < serialLen
  · rw [if_pos hhead, if_pos hhead]
  rw [if_neg hhead, if_neg hhead]
  by_cases hrange : InRange maxSize (headOf buf)
  · have hfits := hsize (not_lt.mp hhead) hrange
    rw [if_neg (not_not.mpr hrange), if_neg (not_not.mpr hrange), if_neg (not_lt.mpr hfits)]
    split_ifs <;> rfl
  · rw [if_pos hrange, if_pos hrange]

/-- A decoder that asks for more has not seen a header that it refuses. -/
theorem inRange_of_needMore (h : decodePacket maxSize buf = .needMore)
    (hhead : serialLen ≤ buf.length) : InRange maxSize (headOf buf) := by
  rw [decodePacket_eq, if_neg (not_lt.mpr hhead)] at h
  by_contra hrange
  rw [if_pos hrange] at h
  cases h

theorem Modest.agrees (h : Modest maxSize buf) :
    Agrees (drain (decodeNet maxSize) buf) (drain (decodePacket maxSize) buf) := by
  have hnet := stable_decodeNet maxSize
  have hrust := stable_decodePacket maxSize
  induction h with
  | @frame buf content size hd hsize rest ih =>
    obtain ⟨hwhole, rfl, rfl⟩ := decodePacket_eq_frame hd
    rw [drain_frame hrust hd, drain_frame hnet (decodeNet_whole hwhole hsize)]
    exact ⟨congrArg _ ih.frames, ih.rejected, ih.rest⟩
  | @needMore buf hd hsize =>
    have hmore := decodeNet_modest fun hhead (_ : InRange maxSize (headOf buf)) => hsize hhead
    rw [hd] at hmore
    rw [drain_needMore hd, drain_needMore hmore]
    exact ⟨rfl, rfl, fun _ => rfl⟩
  | @reject buf reason hd hsize =>
    have hreject := decodeNet_modest fun (_ : serialLen ≤ buf.length) hrange => hsize hrange
    rw [hd] at hreject
    rw [drain_reject hrust hd, drain_reject hnet hreject]
    exact ⟨rfl, rfl, nofun⟩

/-- Where they agree, every packet fits. -/
theorem Agrees.modest
    (h : Agrees (drain (decodeNet maxSize) buf) (drain (decodePacket maxSize) buf)) :
    Modest maxSize buf := by
  have hnet := stable_decodeNet maxSize
  have hrust := stable_decodePacket maxSize
  -- A packet that is too big makes the C++ side end in a way that the Rust side never does.
  have hfits : ∀ {buf : Bytes}, Agrees (drain (decodeNet maxSize) buf)
      (drain (decodePacket maxSize) buf) → serialLen ≤ buf.length →
      InRange maxSize (headOf buf) → (headOf buf).size ≤ maxBuffer := by
    intro buf hagrees hhead hrange
    by_contra hbig
    have haborted := hagrees.rejected
    rw [drain_reject hnet (decodeNet_tooBig hhead hrange (not_le.mp hbig))] at haborted
    cases hr : (drain (decodePacket maxSize) buf).rejected with
    | none | some reason =>
      rw [hr] at haborted
      cases haborted
  induction buf using drain_induct hrust with
  | frame buf content size hd ih =>
    obtain ⟨hwhole, rfl, rfl⟩ := decodePacket_eq_frame hd
    have hsize := hfits h hwhole.head hwhole.range
    refine .frame hd hsize (ih ?_)
    rw [drain_frame hrust hd, drain_frame hnet (decodeNet_whole hwhole hsize)] at h
    exact ⟨cons_injective h.frames, h.rejected, h.rest⟩
  | needMore buf hd =>
    exact .needMore hd fun hhead => hfits h hhead (inRange_of_needMore hd hhead)
  | reject buf reason hd =>
    refine .reject hd fun hrange => ?_
    rcases lt_or_ge buf.length serialLen with hlt | hge
    · rw [decodePacket_eq, if_pos hlt] at hd
      cases hd
    · exact hfits h hge hrange

variable {cfg : Config}

/-- The connection ends as the Rust decoder does exactly if the decoders agree. -/
theorem NetCxn.Tracks.endsAs_iff {c : NetCxn}
    {d e : Framing.Drained UInt8 Bytes Ended} {r : ReadLoop} (h : NetCxn.Tracks cfg c e)
    (halike : Alike e d) : EndsAs c r ↔ Agrees d r := by
  constructor
  · intro hends
    have hclosed := hends.closed
    have haborted := hends.aborted
    rw [h.closed, halike.rejected] at hclosed
    rw [h.aborted, halike.rejected] at haborted
    refine ⟨?_, ?_, ?_⟩
    · rw [← halike.frames, ← h.received]
      exact hends.received
    · cases hd : d.rejected with
      | none =>
        rw [hd] at hclosed
        cases hr : r.rejected with
        | none => rfl
        | some reason =>
          rw [hr] at hclosed
          cases hclosed
      | some reason =>
        rw [hd] at hclosed haborted
        cases reason with
        | closed =>
          cases hr : r.rejected with
          | none =>
            rw [hr] at hclosed
            cases hclosed
          | some reason => rfl
        | aborted => cases haborted
    · intro hr
      have hd : d.rejected = none := by
        rw [hr] at hclosed
        cases hd : d.rejected with
        | none => rfl
        | some reason =>
          rw [hd] at hclosed haborted
          cases reason with
          | closed => cases hclosed
          | aborted => cases haborted
      rw [← halike.rest hd, ← hends.rest hr]
      exact ((h.running (halike.rejected.trans hd)).2.1).symm
  · intro hagrees
    have hrejected : e.rejected = r.rejected.map fun _ => Ended.closed :=
      halike.rejected.trans hagrees.rejected
    refine ⟨?_, ?_, ?_, ?_⟩
    · rw [h.received, halike.frames, hagrees.frames]
    · rw [h.closed, hrejected]
      cases r.rejected <;> rfl
    · rw [h.aborted, hrejected]
      cases r.rejected <;> rfl
    · intro hr
      rw [hr] at hrejected
      have hd : d.rejected = none := halike.rejected.symm.trans hrejected
      rw [(h.running hrejected).2.1, halike.rest hd, hagrees.rest hr]

/-! ## The Rust receiver -/

theorem ReadLoop.run_eq {s s' : ReadLoop} {cuts : List Bytes} (h : run cfg s cuts = some s') :
    s' = cuts.foldl (feed (decodePacket cfg.maxPacketSize)) s := by
  induction cuts generalizing s with
  | nil =>
    cases h
    rfl
  | cons bytes cuts ih =>
    rw [run] at h
    obtain ⟨s₁, hreceive, hrun⟩ := Option.bind_eq_some_iff.mp h
    rw [receive] at hreceive
    split_ifs at hreceive
    cases hreceive
    exact ih hrun

/-- What the Rust receiver ends with, against its decoder on the whole stream. -/
theorem ReadLoop.alike {s : ReadLoop} {cuts : List Bytes} (h : run cfg .init cuts = some s) :
    Alike s (drain (decodePacket cfg.maxPacketSize) cuts.flatten) := by
  rw [run_eq h]
  exact feed_eq_drain (stable_decodePacket _) cuts

/-- It reads one byte at a time. -/
theorem ReadLoop.exists_run (hfits : cfg.Fits) (s : ReadLoop) (data : Bytes) :
    ∃ s', run cfg s (data.map ([·])) = some s' := by
  induction data generalizing s with
  | nil => exact ⟨s, rfl⟩
  | cons b data ih =>
    have hone : ¬ (s.rejected.isNone ∧ ([b] = [] ∨ cfg.readBufferSize < [b].length)) := by
      rintro ⟨-, hnil | hlt⟩
      · cases hnil
      · have hhead := hfits.head
        unfold serialLen at hhead
        rw [length_singleton] at hlt
        omega
    rw [map_cons, run, receive, if_neg hone]
    exact ih _

/-- So does the C++ receiver. -/
theorem NetCxn.Tracks.exists_run (hfits : cfg.Fits) {c : NetCxn}
    {d : Framing.Drained UInt8 Bytes Ended} (h : NetCxn.Tracks cfg c d) (data : Bytes) :
    ∃ c', c.run cfg (data.map ([·])) = some c' := by
  induction data generalizing c d with
  | nil => exact ⟨c, rfl⟩
  | cons b data ih =>
    have hone : ∃ c₁, c.receive cfg [b] = some c₁ := by
      rw [NetCxn.receive]
      split_ifs with hended hbytes
      · exact ⟨_, rfl⟩
      · cases hrejected : d.rejected with
        | none =>
          obtain ⟨hsound, -, hwait⟩ := h.running hrejected
          have hroom := hsound.room_pos hfits hwait
          rw [length_singleton] at hbytes
          rcases hbytes with hnil | hlt
          · cases hnil
          · omega
        | some reason =>
          rw [h.closed, h.aborted, hrejected] at hended
          cases reason with
          | closed | aborted => exact absurd rfl hended
      · exact ⟨_, rfl⟩
    obtain ⟨c₁, hreceive⟩ := hone
    rw [map_cons, NetCxn.run, hreceive]
    exact ih (h.receive hfits hreceive)

/-! ## Payloads -/

/-- What is sent for payloads that the maximum allows is taken apart again. -/
theorem drain_serialize (hmax : maxSize < 4294967296) {payloads : List Bytes}
    (h : ∀ p ∈ payloads, serialLen + p.length ≤ effectiveMax maxSize) :
    drain (decodePacket maxSize) (payloads.map serialize).flatten = ⟨payloads, none, []⟩ := by
  have hstable := stable_decodePacket maxSize
  induction payloads with
  | nil => exact drain_needMore hstable.nil
  | cons p payloads ih =>
    have hp := h p mem_cons_self
    have hword := hp.trans_lt (effectiveMax_lt hmax)
    obtain ⟨hwhole, hsize, -, hpayload⟩ := whole_serialize hword hp (payloads.map serialize).flatten
    rw [map_cons, flatten_cons, drain_frame hstable (decodePacket_whole hwhole), hsize,
      drop_left, ih fun q hq => h q (mem_cons_of_mem p hq), hpayload]
    rfl

/-- The packets of payloads fit if the payloads do. -/
theorem modest_serialize (hmax : maxSize < 4294967296) {payloads : List Bytes}
    (h : ∀ p ∈ payloads, serialLen + p.length ≤ effectiveMax maxSize) :
    Modest maxSize (payloads.map serialize).flatten ↔
      ∀ p ∈ payloads, serialLen + p.length ≤ maxBuffer := by
  induction payloads with
  | nil =>
    constructor
    · intro _ p hp
      cases hp
    · intro _
      exact .needMore (stable_decodePacket maxSize).nil fun hhead => absurd hhead (by decide)
  | cons p payloads ih =>
    have hp := h p mem_cons_self
    have hword := hp.trans_lt (effectiveMax_lt hmax)
    obtain ⟨hwhole, hsize, hlen, -⟩ := whole_serialize hword hp (payloads.map serialize).flatten
    have hframe := decodePacket_whole hwhole
    have hrest := ih fun q hq => h q (mem_cons_of_mem p hq)
    rw [map_cons, flatten_cons, forall_mem_cons, ← hrest]
    constructor
    · intro hmodest
      cases hmodest with
      | frame hd hle rest =>
        rw [hframe] at hd
        cases hd
        rw [hsize, drop_left] at rest
        exact ⟨by omega, rest⟩
      | needMore hd _ | reject hd _ =>
        rw [hframe] at hd
        cases hd
    · rintro ⟨hle, hmodest⟩
      refine .frame hframe (by omega) ?_
      rw [hsize, drop_left]
      exact hmodest

/-! ## Both receivers -/

section Cpp

variable {c₀ c : NetCxn} {cuts : List Bytes}

section

variable (hfits : cfg.Fits) (hinit : NetCxn.init cfg = some c₀) (hrun : c₀.run cfg cuts = some c)

include hfits hinit hrun

/-- What a new connection ends as is what its decoder makes of the whole stream. -/
theorem endsAs_iff_agrees (r : ReadLoop) :
    EndsAs c r ↔ Agrees (drain (decodeNet cfg.maxPacketSize) cuts.flatten) r := by
  obtain ⟨start, hsome, hstart⟩ := NetCxn.exists_init hfits
  cases hinit.symm.trans hsome
  exact (hstart.run hfits hrun).endsAs_iff (feed_eq_drain (stable_decodeNet _) cuts)

/-- Packets that were sent for payloads within the maximum are delivered exactly if none of them is
too big for the buffers. -/
theorem endsAs_payloads_iff {payloads : List Bytes}
    (hpayloads : ∀ p ∈ payloads, serialLen + p.length ≤ effectiveMax cfg.maxPacketSize)
    (hcuts : cuts.flatten = (payloads.map serialize).flatten) :
    EndsAs c ⟨payloads, none, []⟩ ↔ ∀ p ∈ payloads, serialLen + p.length ≤ maxBuffer := by
  rw [endsAs_iff_agrees hfits hinit hrun, hcuts, ← drain_serialize hfits.max hpayloads,
    ← modest_serialize hfits.max hpayloads]
  exact ⟨Agrees.modest, Modest.agrees⟩

end

end Cpp

/-- **Framing.** However the same stream is cut for the two receivers, they deliver the same
packets, close at the same frame and have the same bytes left exactly if no packet that the maximum
allows is bigger than `2 ^ 30` bytes. Packets that were sent for payloads within the maximum are
delivered by the Rust receiver, and by the C++ receiver exactly if they are not bigger. Both can
always be read from one byte at a time. -/
theorem framing_agrees (cfg : Config) (hfits : cfg.Fits) (c₀ : NetCxn)
    (hinit : NetCxn.init cfg = some c₀) :
    (∀ cuts cuts' c s, cuts.flatten = cuts'.flatten → c₀.run cfg cuts = some c →
      run cfg .init cuts' = some s →
      (EndsAs c s ↔ Modest cfg.maxPacketSize cuts.flatten)) ∧
    (∀ payloads : List Bytes,
      (∀ p ∈ payloads, serialLen + p.length ≤ effectiveMax cfg.maxPacketSize) →
      (∀ cuts c, cuts.flatten = (payloads.map serialize).flatten → c₀.run cfg cuts = some c →
        (EndsAs c ⟨payloads, none, []⟩ ↔ ∀ p ∈ payloads, serialLen + p.length ≤ maxBuffer)) ∧
      (∀ cuts s, cuts.flatten = (payloads.map serialize).flatten →
        run cfg .init cuts = some s → s = ⟨payloads, none, []⟩)) ∧
    (∀ data : Bytes, (∃ c, c₀.run cfg (data.map ([·])) = some c) ∧
      ∃ s, run cfg .init (data.map ([·])) = some s) := by
  obtain ⟨c, hsome, hstart⟩ := NetCxn.exists_init hfits
  rw [hinit] at hsome
  cases hsome
  refine ⟨?_, ?_, fun data => ⟨hstart.exists_run hfits data, exists_run hfits _ data⟩⟩
  · intro cuts cuts' c s hcuts hrun hrun'
    have halike := alike hrun'
    rw [← hcuts] at halike
    rw [endsAs_iff_agrees hfits hinit hrun]
    constructor
    · rintro ⟨hframes, hrejected, hrest⟩
      refine Agrees.modest ⟨hframes.trans halike.frames, ?_, ?_⟩
      · rw [hrejected, halike.rejected]
      · intro hr
        rw [hrest (halike.rejected.trans hr), halike.rest hr]
    · intro hmodest
      obtain ⟨hframes, hrejected, hrest⟩ := hmodest.agrees
      refine ⟨hframes.trans halike.frames.symm, ?_, ?_⟩
      · rw [hrejected, halike.rejected]
      · intro hr
        have hr' := halike.rejected.symm.trans hr
        rw [hrest hr', halike.rest hr']
  · intro payloads hpayloads
    have hdrain := drain_serialize hfits.max hpayloads
    refine ⟨?_, ?_⟩
    · intro cuts c hcuts hrun
      exact endsAs_payloads_iff hfits hinit hrun hpayloads hcuts
    · intro cuts s hcuts hrun
      have halike := alike hrun
      rw [hcuts, hdrain] at halike
      obtain ⟨hframes, hrejected, hrest⟩ := halike
      obtain ⟨frames, rejected, rest⟩ := s
      dsimp only at hframes hrejected hrest
      rw [hframes, hrejected, hrest rfl]

/-- A receiver with a read buffer of 32 bytes. -/
def smallConfig (maxPacketSize : Nat) : Config := ⟨maxPacketSize, 32, fun _ => 0⟩

theorem fits_smallConfig {maxPacketSize : Nat} (h : maxPacketSize < 4294967296) :
    (smallConfig maxPacketSize).Fits :=
  ⟨show 20 ≤ 32 by decide, show 32 ≤ 1073741824 by decide, h⟩

/-- A short packet and one that does not fit the read buffer, byte by byte. -/
theorem framing_agrees_twoPackets :
    ∃ c₀ c, NetCxn.init (smallConfig 1024) = some c₀ ∧
      c₀.run (smallConfig 1024)
        (([[1, 2], replicate 20 3].map serialize).flatten.map ([·])) = some c ∧
      EndsAs c ⟨[[1, 2], replicate 20 3], none, []⟩ := by
  have hfits : (smallConfig 1024).Fits := fits_smallConfig (by decide)
  obtain ⟨c₀, hinit, -⟩ := NetCxn.exists_init hfits
  obtain ⟨-, hpayloads, hbytes⟩ := framing_agrees (smallConfig 1024) hfits c₀ hinit
  obtain ⟨⟨c, hrun⟩, -⟩ := hbytes ([[1, 2], replicate 20 3].map serialize).flatten
  refine ⟨c₀, c, hinit, hrun, ((hpayloads _ (by decide)).1 _ c ?_ hrun).mpr (by decide)⟩
  decide +kernel

/-- The header of a packet of `2 ^ 30 + 1` bytes. -/
def bigHeader : Bytes := PacketHdr.serialize ⟨1073741825, 0, 0, 0⟩

/-- With a maximum of `2 ^ 31` bytes it ends the C++ process, and the Rust receiver waits for the
rest. -/
theorem not_framing_agrees_bigHeader :
    ∃ c₀ c s, NetCxn.init (smallConfig 2147483648) = some c₀ ∧
      c₀.run (smallConfig 2147483648) [bigHeader] = some c ∧
      run (smallConfig 2147483648) .init [bigHeader] = some s ∧
      c.aborted = true ∧ s.rejected = none ∧ ¬ EndsAs c s := by
  obtain ⟨c, hrun, haborted⟩ := Option.map_eq_some_iff.mp
    (by decide +kernel : ((NetCxn.init (smallConfig 2147483648)).bind fun c₀ =>
      c₀.run (smallConfig 2147483648) [bigHeader]).map (·.aborted) = some true)
  obtain ⟨c₀, hinit, hrun⟩ := Option.bind_eq_some_iff.mp hrun
  obtain ⟨s, hrun', hrejected⟩ := Option.map_eq_some_iff.mp
    (by decide +kernel : (run (smallConfig 2147483648) .init [bigHeader]).map (·.rejected)
      = some none)
  refine ⟨c₀, c, s, hinit, hrun, hrun', haborted, hrejected, fun hends => ?_⟩
  have hfalse := hends.aborted
  rw [haborted] at hfalse
  cases hfalse

end Rsl.Net
