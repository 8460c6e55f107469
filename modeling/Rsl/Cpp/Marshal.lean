import Rsl.Cpp.Message

/-!
# Reads of `MarshalData`

The read operations of `MarshalData` over a buffer in memory, with the read pointer, the valid
length and the overshoot flag. Every one of them tests the end of the field it reads with a sum of
32 bits.

`marshalData_reads_iff` says when an operation does what its caller may expect of it: a success is a
read inside the valid bytes that moves the read pointer by exactly the length, and a failure leaves
the read pointer alone. A sum that wraps passes the test for any field; `ForwardReadPointer` moves
the read pointer to the end when it fails; and the operations that read several fields keep what
they have read when a later field is not there.
-/

set_option autoImplicit false

namespace Rsl.Cpp

open Wire

/-! ## The model -/

/-- A `MarshalData` and its memory manager. The buffer is the memory from its start on, of which the
bytes up to the valid length are the buffer's own. -/
structure MarshalData where
  buffer : Nat → UInt8
  validLength : Nat
  readPointer : Nat
  overshoot : Bool
  validLength_lt : validLength < word
  readPointer_le : readPointer ≤ validLength

namespace MarshalData

/-- `readPointer + length > dataLen`, in 32 bits. -/
def beyond (m : MarshalData) (length : Nat) : Prop :=
  m.validLength < (m.readPointer + length) % word

instance (m : MarshalData) (length : Nat) : Decidable (m.beyond length) :=
  inferInstanceAs (Decidable (_ < _))

/-- `SetReadPointer`, with an offset that is not behind the valid bytes. -/
def setReadPointer (m : MarshalData) (offset : Nat) (h : offset ≤ m.validLength) : MarshalData :=
  ⟨m.buffer, m.validLength, offset, false, m.validLength_lt, h⟩

/-- `m_overshoot = true`. -/
def fail (m : MarshalData) : MarshalData :=
  ⟨m.buffer, m.validLength, m.readPointer, true, m.validLength_lt, m.readPointer_le⟩

/-- The bytes at the read pointer, wherever they end. -/
def bytes (m : MarshalData) (length : Nat) : Bytes :=
  (List.range length).map fun i => m.buffer (m.readPointer + i)

/-- `ReadData`. -/
def readData (m : MarshalData) (length : Nat) : Option Bytes × MarshalData :=
  if h : m.overshoot = true ∨ m.beyond length then (none, m.fail)
  else
    (some (m.bytes length),
      m.setReadPointer ((m.readPointer + length) % word) (not_lt.mp fun hlt => h (.inr hlt)))

/-- A number of `width` bytes. -/
def readNumber (m : MarshalData) (width : Nat) : Option Nat × MarshalData :=
  let (field, m) := m.readData width
  (field.map leNat, m)

/-- `ReadUInt8`. -/
def readUInt8 (m : MarshalData) : Option Nat × MarshalData := m.readNumber 1

/-- `ReadBool`. -/
def readBool (m : MarshalData) : Option Bool × MarshalData :=
  let (isBool, m) := m.readUInt8
  (isBool.map (· != 0), m)

/-- `ReadUInt16`. -/
def readUInt16 (m : MarshalData) : Option Nat × MarshalData := m.readNumber 2

/-- `ReadUInt32`. -/
def readUInt32 (m : MarshalData) : Option Nat × MarshalData := m.readNumber 4

/-- `ReadUInt64`. -/
def readUInt64 (m : MarshalData) : Option Nat × MarshalData := m.readNumber 8

/-- `ReadFloat`: the bits of the float. -/
def readFloat (m : MarshalData) : Option Nat × MarshalData := m.readUInt32

/-- `count` numbers one after the other, until one of them is not there. -/
def readArray (width : Nat) : Nat → MarshalData → Option (List Nat) × MarshalData
  | 0, m => (some [], m)
  | count + 1, m =>
    match m.readNumber width with
    | (none, m) => (none, m)
    | (some val, m) =>
      let (vals, m) := readArray width count m
      (vals.map (val :: ·), m)

/-- `ReadUInt32Array`. -/
def readUInt32Array (m : MarshalData) (count : Nat) : Option (List Nat) × MarshalData :=
  readArray 4 count m

/-- `ReadUInt64Array`. -/
def readUInt64Array (m : MarshalData) (count : Nat) : Option (List Nat) × MarshalData :=
  readArray 8 count m

/-- `ReadFloatArray`. -/
def readFloatArray (m : MarshalData) (count : Nat) : Option (List Nat) × MarshalData :=
  readArray 4 count m

/-- `ReadString`. -/
def readString (m : MarshalData) : Option Bytes × MarshalData :=
  match m.readUInt32 with
  | (none, m) => (none, m)
  | (some length, m) => if length = 0 then (some [], m) else m.readData length

/-- `PeekDataPointer`: the offset of the data. -/
def peekDataPointer (m : MarshalData) (length : Nat) : Option Nat × MarshalData :=
  if m.overshoot = true ∨ m.beyond length then (none, m.fail) else (some m.readPointer, m)

/-- `TestReadRemaining`. -/
def testReadRemaining (m : MarshalData) (length : Nat) : Bool × MarshalData :=
  if m.overshoot = true ∨ m.beyond length then (false, m.fail) else (true, m)

/-- `ForwardReadPointer`, which does not look at the overshoot flag. -/
def forwardReadPointer (m : MarshalData) (length : Nat) : Bool × MarshalData :=
  if h : m.beyond length then (false, m.setReadPointer m.validLength le_rfl)
  else (true, m.setReadPointer ((m.readPointer + length) % word) (not_lt.mp h))

end MarshalData

/-- The operations, with their arguments. -/
inductive ReadOp where
  | readUInt8
  | readBool
  | readUInt16
  | readUInt32
  | readUInt64
  | readFloat
  | readUInt32Array (count : UInt32)
  | readUInt64Array (count : UInt32)
  | readFloatArray (count : UInt32)
  | readData (length : UInt32)
  | readString
  | peekDataPointer (length : UInt32)
  | testReadRemaining (length : UInt32)
  | forwardReadPointer (length : UInt32)
  deriving DecidableEq, Repr

namespace ReadOp

/-- What the operation reports, and the `MarshalData` after it. -/
def run (m : MarshalData) : ReadOp → Bool × MarshalData
  | readUInt8 => m.readUInt8.map Option.isSome id
  | readBool => m.readBool.map Option.isSome id
  | readUInt16 => m.readUInt16.map Option.isSome id
  | readUInt32 => m.readUInt32.map Option.isSome id
  | readUInt64 => m.readUInt64.map Option.isSome id
  | readFloat => m.readFloat.map Option.isSome id
  | readUInt32Array count => (m.readUInt32Array count.toNat).map Option.isSome id
  | readUInt64Array count => (m.readUInt64Array count.toNat).map Option.isSome id
  | readFloatArray count => (m.readFloatArray count.toNat).map Option.isSome id
  | readData length => (m.readData length.toNat).map Option.isSome id
  | readString => m.readString.map Option.isSome id
  | peekDataPointer length => (m.peekDataPointer length.toNat).map Option.isSome id
  | testReadRemaining length => m.testReadRemaining length.toNat
  | forwardReadPointer length => m.forwardReadPointer length.toNat

/-- The bytes that the operation is about: for a string the four of its length and those it
announces. -/
def length (m : MarshalData) : ReadOp → Nat
  | readUInt8 | readBool => 1
  | readUInt16 => 2
  | readUInt32 | readFloat => 4
  | readUInt64 => 8
  | readUInt32Array count | readFloatArray count => count.toNat * 4
  | readUInt64Array count => count.toNat * 8
  | readString => 4 + leNat (m.bytes 4)
  | readData length | peekDataPointer length | testReadRemaining length
  | forwardReadPointer length =>
    length.toNat

/-- The operation does not move the read pointer. -/
def looks : ReadOp → Bool
  | peekDataPointer _ | testReadRemaining _ => true
  | _ => false

end ReadOp

/-! ## What is asked for -/

/-- A success is about bytes inside the valid ones and moves the read pointer by their number, or
not at all; a failure leaves it where it is. -/
structure Within32 (m : MarshalData) (op : ReadOp) : Prop where
  success : (op.run m).1 = true → m.readPointer + op.length m ≤ m.validLength ∧
    (op.run m).2.readPointer = m.readPointer + if op.looks then 0 else op.length m
  failure : (op.run m).1 = false → (op.run m).2.readPointer = m.readPointer

/-! ## The condition -/

namespace MarshalData

/-- A field of this length: the sum does not wrap, or nothing is read at all. -/
def FitsField (m : MarshalData) (length : Nat) : Prop :=
  m.overshoot = true ∨ m.readPointer + length < word

/-- Numbers one after the other: all of them are there, or the first one is not. -/
def FitsArray (m : MarshalData) (width count : Nat) : Prop :=
  count = 0 ∨ m.overshoot = true ∨ m.readPointer + count * width ≤ m.validLength ∨
    m.validLength < m.readPointer + width ∧ m.readPointer + width < word

/-- A string: all of it is there, or its length is not. -/
def FitsString (m : MarshalData) : Prop :=
  m.overshoot = true ∨ m.readPointer + (4 + leNat (m.bytes 4)) ≤ m.validLength ∨
    m.validLength < m.readPointer + 4 ∧ m.readPointer + 4 < word

/-- A step forward: the sum does not wrap, and it stays inside or the read pointer is at the end. -/
def FitsForward (m : MarshalData) (length : Nat) : Prop :=
  m.readPointer + length < word ∧
    (m.readPointer + length ≤ m.validLength ∨ m.readPointer = m.validLength)

end MarshalData

/-- When an operation does what is asked for. -/
def ReadOp.Fits (m : MarshalData) : ReadOp → Prop
  | readUInt8 | readBool => m.FitsField 1
  | readUInt16 => m.FitsField 2
  | readUInt32 | readFloat => m.FitsField 4
  | readUInt64 => m.FitsField 8
  | readUInt32Array count | readFloatArray count => m.FitsArray 4 count.toNat
  | readUInt64Array count => m.FitsArray 8 count.toNat
  | readString => m.FitsString
  | readData length | peekDataPointer length | testReadRemaining length => m.FitsField length.toNat
  | forwardReadPointer length => m.FitsForward length.toNat

/-! ## Fields -/

/-- A result of an operation about `length` bytes that moves the read pointer by `advance`. -/
structure Sane (m : MarshalData) (length advance : Nat) (r : Bool × MarshalData) : Prop where
  success : r.1 = true → m.readPointer + length ≤ m.validLength ∧
    r.2.readPointer = m.readPointer + advance
  failure : r.1 = false → r.2.readPointer = m.readPointer

namespace MarshalData

variable {m : MarshalData}

variable {length : Nat}

/-- Where a field ends that passes the test. -/
theorem mod_of_not_beyond (hlength : length < word) (h : ¬ m.beyond length) :
    m.readPointer + length ≤ m.validLength ∧ (m.readPointer + length) % word =
      m.readPointer + length ∨
      word ≤ m.readPointer + length ∧ (m.readPointer + length) % word < m.readPointer := by
  have hword := word_eq
  have hvalid := m.validLength_lt
  have hread := m.readPointer_le
  rw [beyond] at h
  rw [hword] at h hlength hvalid ⊢
  omega

theorem not_beyond_of_word_le (hlength : length < word)
    (h : word ≤ m.readPointer + length) : ¬ m.beyond length := by
  have hword := word_eq
  have hvalid := m.validLength_lt
  have hread := m.readPointer_le
  rw [beyond]
  rw [hword] at h hlength hvalid ⊢
  omega

theorem beyond_of_fails (hover : m.overshoot = false) (h : m.overshoot = true ∨ m.beyond length) :
    m.beyond length :=
  h.resolve_left (Bool.eq_false_iff.mp hover)

theorem lt_of_beyond (h : m.beyond length) : m.validLength < m.readPointer + length :=
  h.trans_le (Nat.mod_le _ _)

/-- An operation that tests one field and fails with the overshoot flag. -/
theorem sane_field_iff {length advance : Nat} (hlength : length < word) {r : Bool × MarshalData}
    (hr : (m.overshoot = true ∨ m.beyond length) ∧ r = (false, m.fail) ∨
      m.overshoot = false ∧ ¬ m.beyond length ∧ r.1 = true ∧
        (m.readPointer + length < word → r.2.readPointer = m.readPointer + advance)) :
    Sane m length advance r ↔ m.FitsField length := by
  rcases hr with ⟨hfails, rfl⟩ | ⟨hover, hinside, hok, hadvance⟩
  · refine ⟨fun _ => ?_, fun _ => ⟨Bool.noConfusion, fun _ => rfl⟩⟩
    rcases hfails with hover | hbeyond
    · exact .inl hover
    · exact .inr (lt_of_not_ge fun hle => not_beyond_of_word_le hlength hle hbeyond)
  · constructor
    · intro hsane
      exact .inr (lt_of_le_of_lt (hsane.success hok).1 m.validLength_lt)
    · rintro (hover' | hlt)
      · rw [hover] at hover'
        cases hover'
      · rcases mod_of_not_beyond hlength hinside with ⟨hle, -⟩ | ⟨hge, -⟩
        · refine ⟨fun _ => ⟨hle, hadvance hlt⟩, fun hbad => ?_⟩
          rw [hok] at hbad
          cases hbad
        · exact absurd hlt (not_lt.mpr hge)

/-- What `ReadData` reports, and where it leaves the read pointer. -/
theorem readData_cases (m : MarshalData) (length : Nat) :
    (m.overshoot = true ∨ m.beyond length) ∧ m.readData length = (none, m.fail) ∨
      m.overshoot = false ∧ ¬ m.beyond length ∧ ∃ h, m.readData length
        = (some (m.bytes length), m.setReadPointer ((m.readPointer + length) % word) h) := by
  rw [readData]
  split_ifs with hfails
  · exact .inl ⟨hfails, rfl⟩
  · rw [not_or, Bool.not_eq_true] at hfails
    exact .inr ⟨hfails.1, hfails.2, not_lt.mp hfails.2, rfl⟩

theorem readData_sane_iff (hlength : length < word) :
    Sane m length length ((m.readData length).map Option.isSome id) ↔ m.FitsField length := by
  apply sane_field_iff hlength
  rcases m.readData_cases length with ⟨hfails, hread⟩ | ⟨hover, hinside, h, hread⟩
  · exact .inl ⟨hfails, by rw [hread]; rfl⟩
  · rw [hread]
    exact .inr ⟨hover, hinside, rfl, fun hlt => Nat.mod_eq_of_lt hlt⟩

theorem readNumber_sane_iff {width : Nat} (hwidth : width < word) :
    Sane m width width ((m.readNumber width).map Option.isSome id) ↔ m.FitsField width := by
  rw [← readData_sane_iff hwidth]
  simp only [readNumber, Prod.map_apply, Option.isSome_map]
  exact Iff.rfl

theorem peekDataPointer_sane_iff (hlength : length < word) :
    Sane m length 0 ((m.peekDataPointer length).map Option.isSome id) ↔ m.FitsField length := by
  apply sane_field_iff hlength
  rw [peekDataPointer]
  split_ifs with hfails
  · exact .inl ⟨hfails, rfl⟩
  · rw [not_or, Bool.not_eq_true] at hfails
    exact .inr ⟨hfails.1, hfails.2, rfl, fun _ => rfl⟩

theorem testReadRemaining_sane_iff (hlength : length < word) :
    Sane m length 0 (m.testReadRemaining length) ↔ m.FitsField length := by
  apply sane_field_iff hlength
  rw [testReadRemaining]
  split_ifs with hfails
  · exact .inl ⟨hfails, rfl⟩
  · rw [not_or, Bool.not_eq_true] at hfails
    exact .inr ⟨hfails.1, hfails.2, rfl, fun _ => rfl⟩

theorem forwardReadPointer_sane_iff (hlength : length < word) :
    Sane m length length (m.forwardReadPointer length) ↔ m.FitsForward length := by
  rw [forwardReadPointer]
  split_ifs with hbeyond
  · have hlt : m.readPointer + length < word :=
      lt_of_not_ge fun hle => not_beyond_of_word_le hlength hle hbeyond
    have hout := lt_of_beyond hbeyond
    constructor
    · exact fun hsane => ⟨hlt, .inr (hsane.failure rfl).symm⟩
    · rintro ⟨-, hle | hend⟩
      · exact absurd hout (not_lt.mpr hle)
      · exact ⟨Bool.noConfusion, fun _ => hend.symm⟩
  · constructor
    · intro hsane
      have hle := (hsane.success rfl).1
      exact ⟨hle.trans_lt m.validLength_lt, .inl hle⟩
    · rintro ⟨hlt, -⟩
      rcases mod_of_not_beyond hlength hbeyond with ⟨hle, hmod⟩ | ⟨hge, -⟩
      · exact ⟨fun _ => ⟨hle, hmod⟩, Bool.noConfusion⟩
      · exact absurd hlt (not_lt.mpr hge)

end MarshalData

/-! ## Several fields -/

namespace MarshalData

variable {m : MarshalData} {width : Nat}

/-- What reading a number reports, and where it leaves the read pointer. -/
theorem readNumber_cases (m : MarshalData) (width : Nat) :
    (m.overshoot = true ∨ m.beyond width) ∧ m.readNumber width = (none, m.fail) ∨
      m.overshoot = false ∧ ¬ m.beyond width ∧ ∃ h, m.readNumber width
        = (some (leNat (m.bytes width)), m.setReadPointer ((m.readPointer + width) % word) h) := by
  rcases m.readData_cases width with ⟨hfails, hread⟩ | ⟨hover, hinside, h, hread⟩
  · exact .inl ⟨hfails, by rw [readNumber, hread]; rfl⟩
  · exact .inr ⟨hover, hinside, h, by rw [readNumber, hread]; rfl⟩

variable {count : Nat}

/-- The numbers are all there, so they are read. -/
theorem readArray_of_le (hover : m.overshoot = false)
    (hle : m.readPointer + count * width ≤ m.validLength) :
    (readArray width count m).1.isSome = true ∧
      (readArray width count m).2.readPointer = m.readPointer + count * width := by
  induction count generalizing m with
  | zero => exact ⟨rfl, by rw [zero_mul]; rfl⟩
  | succ count ih =>
    rw [Nat.succ_mul] at hle ⊢
    have hmod : (m.readPointer + width) % word = m.readPointer + width :=
      Nat.mod_eq_of_lt (lt_of_le_of_lt (by omega) m.validLength_lt)
    rcases m.readNumber_cases width with ⟨hfails, -⟩ | ⟨-, -, h, hread⟩
    · have := lt_of_beyond (beyond_of_fails hover hfails)
      omega
    · obtain ⟨hsome, hpointer⟩ := ih (m := m.setReadPointer _ h) rfl (by
        show (m.readPointer + width) % word + count * width ≤ m.validLength
        omega)
      simp only [readArray, hread, Option.isSome_map]
      refine ⟨hsome, hpointer.trans ?_⟩
      show (m.readPointer + width) % word + count * width = _
      omega

/-- A failure leaves the read pointer where a number does not fit. -/
theorem beyond_of_readArray (hover : m.overshoot = false)
    (h : (readArray width count m).1.isSome = false) :
    (readArray width count m).2.beyond width := by
  induction count generalizing m with
  | zero => cases h
  | succ count ih =>
    rcases m.readNumber_cases width with ⟨hfails, hread⟩ | ⟨-, -, hle, hread⟩
    · simp only [readArray, hread]
      have hbeyond := beyond_of_fails hover hfails
      exact hbeyond
    · simp only [readArray, hread, Option.isSome_map] at h ⊢
      exact ih rfl h

theorem validLength_readArray (count : Nat) :
    (readArray width count m).2.validLength = m.validLength := by
  induction count generalizing m with
  | zero => rfl
  | succ count ih =>
    rcases m.readNumber_cases width with ⟨-, hread⟩ | ⟨-, -, h, hread⟩
    · simp only [readArray, hread]
      rfl
    · simp only [readArray, hread]
      exact ih

/-- The first number is not there, so nothing is read. -/
theorem readArray_of_fails (h : m.overshoot = true ∨ m.beyond width) (count : Nat) :
    readArray width (count + 1) m = (none, m.fail) := by
  rcases m.readNumber_cases width with ⟨-, hread⟩ | ⟨hover, hinside, -⟩
  · simp only [readArray, hread]
  · exact absurd (beyond_of_fails hover h) hinside

theorem readArray_sane_iff (hwidth : width < word) :
    Sane m (count * width) (count * width) ((readArray width count m).map Option.isSome id) ↔
      m.FitsArray width count := by
  cases count with
  | zero =>
    refine ⟨fun _ => .inl rfl, fun _ => ⟨fun _ => ?_, Bool.noConfusion⟩⟩
    rw [zero_mul]
    exact ⟨m.readPointer_le, rfl⟩
  | succ count =>
    by_cases hfails : m.overshoot = true ∨ m.beyond width
    · rw [readArray_of_fails hfails]
      refine ⟨fun _ => ?_, fun _ => ⟨Bool.noConfusion, fun _ => rfl⟩⟩
      rcases hfails with hover | hbeyond
      · exact .inr (.inl hover)
      · exact .inr (.inr (.inr ⟨lt_of_beyond hbeyond,
          lt_of_not_ge fun hle => not_beyond_of_word_le hwidth hle hbeyond⟩))
    · obtain ⟨hover, hinside⟩ := not_or.mp hfails
      rw [Bool.not_eq_true] at hover
      constructor
      · intro hsane
        cases hstatus : (readArray width (count + 1) m).1.isSome with
        | true => exact .inr (.inr (.inl (hsane.success hstatus).1))
        | false =>
          -- The array stops where a number does not fit, but at the read pointer one does.
          have hbeyond := beyond_of_readArray hover hstatus
          have hstays : (readArray width (count + 1) m).2.readPointer = m.readPointer :=
            hsane.failure hstatus
          rw [beyond, validLength_readArray, hstays] at hbeyond
          exact absurd hbeyond hinside
      · rintro (hzero | hover' | hle | ⟨hout, hlt⟩)
        · cases hzero
        · rw [hover] at hover'
          cases hover'
        · obtain ⟨hsome, hpointer⟩ := readArray_of_le hover hle
          refine ⟨fun _ => ⟨hle, hpointer⟩, fun hnone => ?_⟩
          have hnone : (readArray width (count + 1) m).1.isSome = false := hnone
          rw [hsome] at hnone
          cases hnone
        · rw [beyond, Nat.mod_eq_of_lt hlt] at hinside
          exact absurd hout hinside

/-! ## Strings -/

/-- The bytes are all there, so they are read. -/
theorem readData_of_le {length : Nat} (hover : m.overshoot = false)
    (hle : m.readPointer + length ≤ m.validLength) :
    (m.readData length).1.isSome = true ∧
      (m.readData length).2.readPointer = m.readPointer + length := by
  rcases m.readData_cases length with ⟨hfails, -⟩ | ⟨-, -, h, hread⟩
  · exact absurd (lt_of_beyond (beyond_of_fails hover hfails)) (not_lt.mpr hle)
  · rw [hread]
    exact ⟨rfl, Nat.mod_eq_of_lt (hle.trans_lt m.validLength_lt)⟩

/-- What is left of a string behind its length, which was read. -/
theorem readString_eq {h : (m.readPointer + 4) % word ≤ m.validLength}
    (hread : m.readNumber 4
      = (some (leNat (m.bytes 4)), m.setReadPointer ((m.readPointer + 4) % word) h)) :
    m.readString =
      if leNat (m.bytes 4) = 0 then (some [], m.setReadPointer ((m.readPointer + 4) % word) h)
      else (m.setReadPointer ((m.readPointer + 4) % word) h).readData (leNat (m.bytes 4)) := by
  rw [readString, readUInt32, hread]

theorem readString_sane_iff :
    Sane m (4 + leNat (m.bytes 4)) (4 + leNat (m.bytes 4)) (m.readString.map Option.isSome id) ↔
      m.FitsString := by
  have hvalid := m.validLength_lt
  rcases m.readNumber_cases 4 with ⟨hfails, hread⟩ | ⟨hover, hinside, h, hread⟩
  · have hstring : m.readString = (none, m.fail) := by
      simp only [readString, readUInt32, hread]
    rw [hstring]
    refine ⟨fun _ => ?_, fun _ => ⟨Bool.noConfusion, fun _ => rfl⟩⟩
    rcases hfails with hover | hbeyond
    · exact .inl hover
    · exact .inr (.inr ⟨lt_of_beyond hbeyond,
        lt_of_not_ge fun hle => not_beyond_of_word_le (by decide) hle hbeyond⟩)
  · have hmoved : (m.readPointer + 4) % word ≠ m.readPointer := by
      rcases mod_of_not_beyond (by decide) hinside with ⟨-, hmod⟩ | ⟨-, hback⟩
      · omega
      · omega
    have hstring := readString_eq hread
    -- The read pointer has left its place, so only a success can be right.
    constructor
    · intro hsane
      cases hstatus : m.readString.1.isSome with
      | true => exact .inr (.inl (hsane.success hstatus).1)
      | false =>
        have hstays : m.readString.2.readPointer = m.readPointer := hsane.failure hstatus
        rw [hstring] at hstatus hstays
        split_ifs at hstatus hstays with hempty
        · cases hstatus
        rcases (m.setReadPointer _ h).readData_cases
          (leNat (m.bytes 4)) with ⟨-, hdata⟩ | ⟨-, -, _, hdata⟩
        · rw [hdata] at hstays
          exact absurd hstays hmoved
        · rw [hdata] at hstatus
          cases hstatus
    · rintro (hover' | hle | ⟨hout, hlt⟩)
      · rw [hover] at hover'
        cases hover'
      · have hmod : (m.readPointer + 4) % word = m.readPointer + 4 := Nat.mod_eq_of_lt (by omega)
        have hdone : m.readString.1.isSome = true ∧
            m.readString.2.readPointer = m.readPointer + (4 + leNat (m.bytes 4)) := by
          rw [hstring]
          split_ifs with hempty
          · refine ⟨rfl, ?_⟩
            rw [hempty]
            exact hmod
          · have hend : (m.setReadPointer _ h).readPointer + leNat (m.bytes 4) ≤ m.validLength := by
              show (m.readPointer + 4) % word + _ ≤ _
              omega
            obtain ⟨hsome, hpointer⟩ := readData_of_le rfl hend
            refine ⟨hsome, hpointer.trans ?_⟩
            show (m.readPointer + 4) % word + _ = _
            omega
        refine ⟨fun _ => ⟨hle, hdone.2⟩, fun hnone => ?_⟩
        have hnone : m.readString.1.isSome = false := hnone
        rw [hdone.1] at hnone
        cases hnone
      · rw [beyond, Nat.mod_eq_of_lt hlt] at hinside
        exact absurd hout hinside

end MarshalData

theorem within32_iff_sane {m : MarshalData} {op : ReadOp} :
    Within32 m op ↔ Sane m (op.length m) (if op.looks then 0 else op.length m) (op.run m) :=
  ⟨fun h => ⟨h.success, h.failure⟩, fun h => ⟨h.success, h.failure⟩⟩

/-- **Reads.** An operation reads inside the valid bytes and moves the read pointer by exactly the
length when it succeeds, and leaves the read pointer alone when it fails, exactly if it fits. -/
theorem marshalData_reads_iff (m : MarshalData) (op : ReadOp) : Within32 m op ↔ op.Fits m := by
  rw [within32_iff_sane]
  cases op with
  | readUInt8 => exact @MarshalData.readNumber_sane_iff m 1 (by decide)
  | readUInt16 => exact @MarshalData.readNumber_sane_iff m 2 (by decide)
  | readUInt32 | readFloat => exact @MarshalData.readNumber_sane_iff m 4 (by decide)
  | readUInt64 => exact @MarshalData.readNumber_sane_iff m 8 (by decide)
  | readBool =>
    have hstatus : ReadOp.readBool.run m = ReadOp.readUInt8.run m := by
      simp only [ReadOp.run, MarshalData.readBool, Prod.map_apply, Option.isSome_map]
      rfl
    rw [hstatus]
    exact @MarshalData.readNumber_sane_iff m 1 (by decide)
  | readUInt32Array count | readUInt64Array count | readFloatArray count =>
    exact MarshalData.readArray_sane_iff (by decide)
  | readData length => exact MarshalData.readData_sane_iff length.toNat_lt
  | readString => exact MarshalData.readString_sane_iff
  | peekDataPointer length => exact MarshalData.peekDataPointer_sane_iff length.toNat_lt
  | testReadRemaining length => exact MarshalData.testReadRemaining_sane_iff length.toNat_lt
  | forwardReadPointer length => exact MarshalData.forwardReadPointer_sane_iff length.toNat_lt

/-- A buffer of eight bytes whose read pointer is at four. -/
def eightBytes : MarshalData := ⟨fun i => if i < 8 then 1 else 0, 8, 4, false, by decide, by decide⟩

/-- A length of `2 ^ 32 - 1` passes the test, and the read pointer goes back by one. A step forward
by eight is refused and moves the read pointer to the end. -/
theorem not_marshalData_reads :
    (ReadOp.run eightBytes (.peekDataPointer 4294967295)).1 = true ∧
      (ReadOp.run eightBytes (.forwardReadPointer 4294967295)).1 = true ∧
      (ReadOp.run eightBytes (.forwardReadPointer 4294967295)).2.readPointer = 3 ∧
      (ReadOp.run eightBytes (.forwardReadPointer 8)).1 = false ∧
      (ReadOp.run eightBytes (.forwardReadPointer 8)).2.readPointer = 8 ∧
      ¬ Within32 eightBytes (.peekDataPointer 4294967295) ∧
      ¬ Within32 eightBytes (.forwardReadPointer 8) := by
  refine ⟨by decide, by decide, by decide, by decide, by decide, fun h => ?_, fun h => ?_⟩
  · exact absurd (h.success (by decide)).1 (by decide)
  · exact absurd (h.failure (by decide)) (by decide)

end Rsl.Cpp
