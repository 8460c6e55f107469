import Rsl.Lib.Cursor
import Rsl.Tls.Settings

/-!
# Thumbprints as text

The text of a thumbprint in both implementations: `Thumbprint::parse`, `parse_list` and `fmt` of
`tls/thumbprint.rs`, and `HexToString` and the readers of `SSLImpl.cpp`. A string is its bytes.

`HexToString` ends the text behind as many digits as there are bytes, not behind two for each, so
that only half of a thumbprint is written. `thumbprint_text` says that nothing else is wrong.
-/

set_option autoImplicit false

namespace Rsl.Tls

open List

/-! ## The Rust side -/

namespace Thumbprint

inductive ParseError where
  | length (got : Nat)
  | notHex (c : UInt8)
  deriving DecidableEq, Repr

def hex (c : UInt8) : Except ParseError UInt8 :=
  if 48 ≤ c ∧ c ≤ 57 then .ok (c - 48)
  else if 97 ≤ c ∧ c ≤ 102 then .ok (c - 97 + 10)
  else if 65 ≤ c ∧ c ≤ 70 then .ok (c - 65 + 10)
  else .error (.notHex c)

/-- The loop of `parse`; a last digit without a second one is not read. -/
def hexPairs : List UInt8 → Except ParseError Thumbprint
  | high :: low :: rest => do
    let high ← hex high
    let low ← hex low
    return (high * 16 + low) :: (← hexPairs rest)
  | _ => .ok []

def parse (s : List UInt8) : Except ParseError Thumbprint :=
  if s.length / 2 ≠ 20 then .error (.length s.length) else hexPairs s

def parseList (s : List UInt8) : Except ParseError (List Thumbprint) :=
  (s.splitOn 59).mapM parse

/-- A digit of `{b:02x}`. -/
def lowerHex (n : UInt8) : UInt8 :=
  if n < 10 then 48 + n else 87 + n

def fmt (t : Thumbprint) : List UInt8 :=
  t.flatMap fun b => [lowerHex (b / 16), lowerHex (b % 16)]

end Thumbprint

/-! ## The C++ side -/

/-- What is read of a string that is passed as a `LPCSTR`. -/
def cStr (s : List UInt8) : List UInt8 :=
  s.takeWhile (· ≠ 0)

namespace SslAuth

/-- `ConvertStringThumbprintToByteArray` of the bytes of a string. -/
def convertThumbprint (s : List UInt8) : Option Thumbprint :=
  convertStringThumbprintToByteArray ((cStr s).map fun c => Char.ofNat c.toNat)

/-- `ConvertStringThumbprintsToArrayOfByteArray` of the bytes of a string. -/
def convertThumbprints (s : List UInt8) : Option (List Thumbprint) :=
  (s.splitOn 59).mapM convertThumbprint

def quadToChar (b : UInt8) : UInt8 :=
  if b ≤ 9 then 48 + b else if 10 ≤ b ∧ b ≤ 15 then 97 + b - 10 else 63

/-- `HexToString`; `last` is what stands at the end of its array. -/
def hexToString (last : UInt8) (t : Thumbprint) : List UInt8 :=
  let bytes := t.flatMap fun b : UInt8 => [quadToChar (b >>> 4), quadToChar (b &&& 0x0f)]
  -- The index of the terminator is the one that the loop over the bytes has reached.
  cStr ((bytes ++ [last]).set t.length 0)

end SslAuth

open Lib Thumbprint SslAuth

/-! ## What Rust accepts, C++ accepts -/

theorem forall_byte {P : UInt8 → Prop} (h : ∀ n < 256, P (UInt8.ofNat n)) (c : UInt8) : P c := by
  have hc := h c.toNat c.toNat_lt
  rwa [UInt8.ofNat_toNat] at hc

theorem hex_eq_ok {c v : UInt8} (h : hex c = .ok v) :
    c ≠ 0 ∧ hexToDec (Char.ofNat c.toNat) = v := by
  have hdigit := forall_byte (P := fun c => ((hex c).toOption.all fun v =>
    decide (c ≠ 0 ∧ hexToDec (Char.ofNat c.toNat) = v)) = true) (by decide +kernel) c
  simpa [h, Except.toOption] using hdigit

theorem hexPairs_eq_ok {s : List UInt8} {t : Thumbprint} (h : hexPairs s = .ok t) :
    hexBytes ((cStr s).map fun c => Char.ofNat c.toNat) = t ∧
      (cStr s).length / 2 = s.length / 2 := by
  fun_induction hexPairs s generalizing t with
  | case1 high low rest ih =>
    obtain ⟨a, hhigh, h⟩ := bind_eq_ok.mp h
    obtain ⟨b, hlow, h⟩ := bind_eq_ok.mp h
    obtain ⟨t', hrest, ⟨⟩⟩ := bind_eq_ok.mp h
    obtain ⟨hne, ha⟩ := hex_eq_ok hhigh
    obtain ⟨hne', hb⟩ := hex_eq_ok hlow
    obtain ⟨hbytes, hlen⟩ := ih hrest
    have hcut : cStr (high :: low :: rest) = high :: low :: cStr rest := by
      simp [cStr, hne, hne']
    rw [hcut]
    constructor
    · simp [hexBytes, ha, hb, hbytes]
    · simp only [length_cons]
      omega
  | case2 s hs =>
    cases h
    -- A last digit alone may be a NUL, at which C++ stops reading.
    match s, hs with
    | [], _ => exact ⟨rfl, rfl⟩
    | [c], _ =>
      by_cases hc : c = 0
      · simp [cStr, hc, hexBytes]
      · simp [cStr, hc, hexBytes]
    | _ :: _ :: _, hs => exact absurd rfl (hs _ _ _)

theorem convertThumbprint_of_parse {s : List UInt8} {t : Thumbprint} (h : parse s = .ok t) :
    convertThumbprint s = some t := by
  rw [parse] at h
  split at h
  · cases h
  · rename_i hlen
    obtain ⟨hbytes, hpairs⟩ := hexPairs_eq_ok h
    rw [convertThumbprint, convertStringThumbprintToByteArray, length_map, hpairs,
      if_neg hlen, hbytes]

theorem mapM_convertThumbprint {parts : List (List UInt8)} {ts : List Thumbprint}
    (h : parts.mapM parse = .ok ts) : parts.mapM convertThumbprint = some ts := by
  induction parts generalizing ts with
  | nil =>
    cases h
    rfl
  | cons part parts ih =>
    rw [mapM_cons] at h ⊢
    obtain ⟨t, hpart, h⟩ := bind_eq_ok.mp h
    obtain ⟨rest, hparts, ⟨⟩⟩ := bind_eq_ok.mp h
    rw [convertThumbprint_of_parse hpart, ih hparts]
    rfl

/-! ## What is written -/

theorem lowerHex_reads : ∀ b : UInt8,
    hex (lowerHex (b / 16)) = .ok (b / 16) ∧ hex (lowerHex (b % 16)) = .ok (b % 16) ∧
      b / 16 * 16 + b % 16 = b :=
  forall_byte (by decide +kernel)

theorem hexPairs_fmt (t : Thumbprint) : hexPairs (fmt t) = .ok t := by
  induction t with
  | nil => rfl
  | cons b t ih =>
    obtain ⟨hhigh, hlow, hb⟩ := lowerHex_reads b
    refine bind_eq_ok.mpr ⟨_, hhigh, bind_eq_ok.mpr ⟨_, hlow, bind_eq_ok.mpr ⟨t, ih, ?_⟩⟩⟩
    rw [hb]
    rfl

theorem length_fmt (t : Thumbprint) : (fmt t).length = 2 * t.length := by
  simp [fmt, mul_comm]

/-- A digit that is not a capital letter. -/
def isLowerHex (c : UInt8) : Bool := (48 ≤ c && c ≤ 57) || (97 ≤ c && c ≤ 102)

theorem isLowerHex_of_mem_fmt {t : Thumbprint} {c : UInt8} (hc : c ∈ fmt t) :
    isLowerHex c = true := by
  have hdigits : ∀ b : UInt8, isLowerHex (lowerHex (b / 16)) = true ∧
      isLowerHex (lowerHex (b % 16)) = true := forall_byte (by decide +kernel)
  obtain ⟨b, -, hc⟩ := mem_flatMap.mp hc
  rcases mem_pair.mp hc with rfl | rfl
  · exact (hdigits b).1
  · exact (hdigits b).2

/-- `HexToString` writes half of the digits. -/
theorem hexToString_eq (last : UInt8) (t : Thumbprint) :
    hexToString last t = (fmt t).take t.length := by
  have hbytes : ∀ b : UInt8, [quadToChar (b >>> 4), quadToChar (b &&& 0x0f)] =
      [lowerHex (b / 16), lowerHex (b % 16)] := forall_byte (by decide +kernel)
  have hlen : t.length ≤ (fmt t).length := by
    rw [length_fmt]
    omega
  simp only [hexToString, hbytes]
  rw [← fmt, set_eq_take_append_cons_drop, if_pos (by simp; omega), take_append_of_le_length hlen,
    cStr, takeWhile_append_of_pos, takeWhile_cons_of_neg (by simp), append_nil]
  intro c hc
  have hlower := isLowerHex_of_mem_fmt (mem_of_mem_take hc)
  rw [decide_eq_true_eq]
  rintro rfl
  cases hlower

inductive Implementation where
  | cpp
  | rust
  deriving DecidableEq, Repr

/-- The text of a thumbprint. -/
def render (last : UInt8) : Implementation → Thumbprint → List UInt8
  | .cpp, t => hexToString last t
  | .rust, t => fmt t

/-- Forty lowercase digits that both implementations read back. -/
structure Faithful (text : List UInt8) (t : Thumbprint) : Prop where
  length : text.length = 40
  lower : ∀ c ∈ text, isLowerHex c = true
  rust : parse text = .ok t
  cpp : convertThumbprint text = some t

theorem faithful_fmt {t : Thumbprint} (ht : t.length = 20) : Faithful (fmt t) t := by
  have hlen : (fmt t).length = 40 := by rw [length_fmt, ht]
  have hrust : parse (fmt t) = .ok t := by
    rw [parse, hlen, if_neg (by decide), hexPairs_fmt]
  exact ⟨hlen, fun _ => isLowerHex_of_mem_fmt, hrust, convertThumbprint_of_parse hrust⟩

/-- What the Rust readers accept, the C++ readers accept as the same bytes; and of the two texts of
a thumbprint the one of Rust is what it should be. -/
theorem thumbprint_text (last : UInt8) (s : List UInt8) (implementation : Implementation)
    (t : Thumbprint) (ht : t.length = 20) :
    (∀ t', parse s = .ok t' → convertThumbprint s = some t') ∧
      (∀ ts, parseList s = .ok ts → convertThumbprints s = some ts) ∧
      (Faithful (render last implementation t) t ↔ implementation = .rust) := by
  refine ⟨fun _ => convertThumbprint_of_parse, fun _ => mapM_convertThumbprint, ?_⟩
  cases implementation with
  | rust => exact ⟨fun _ => rfl, fun _ => faithful_fmt ht⟩
  | cpp =>
    refine ⟨fun h => ?_, nofun⟩
    have hlen := h.length
    rw [render, hexToString_eq, length_take, length_fmt, ht] at hlen
    cases hlen

/-- Twenty different bytes. -/
def ascending : Thumbprint := (range 20).map fun i => UInt8.ofNat (13 * i)

/-- Two thumbprints of a list, the second in uppercase digits. -/
def pairText : List UInt8 := fmt ascending ++ [0x3b] ++ replicate 40 0x41

theorem thumbprint_text_pair :
    parseList pairText = .ok [ascending, replicate 20 0xaa] ∧
      convertThumbprints pairText = some [ascending, replicate 20 0xaa] ∧
      Faithful (render 0 .rust ascending) ascending := by
  have hparse : parseList pairText = .ok [ascending, replicate 20 0xaa] := by decide +kernel
  have h := thumbprint_text 0 pairText .rust ascending (by decide)
  exact ⟨hparse, h.2.1 _ hparse, h.2.2.mpr rfl⟩

/-- Twenty digits, which no reader accepts. -/
theorem not_faithful_hexToString :
    ∃ t : Thumbprint, t.length = 20 ∧ ∀ last, (hexToString last t).length = 20 ∧
      parse (hexToString last t) = .error (.length 20) ∧
      convertThumbprint (hexToString last t) = none := by
  refine ⟨replicate 20 0, rfl, fun last => ?_⟩
  rw [hexToString_eq]
  decide +kernel

end Rsl.Tls
