import Mathlib.Algebra.Group.Nat.Defs

/-!
# The Rabin-64 fingerprint of the wire crate

`fprint.rs`: the eight tables `bybyte` and the fingerprint that folds a message eight bytes at a
time and its last bytes one at a time. A `u64` is a natural number here: the only operations are
exclusive or, right shift and masking, none of which leaves the range.
-/

set_option autoImplicit false

namespace Rsl.Wire

/-- Byte strings. -/
abbrev Bytes := List UInt8

/-- `from_le_bytes`: the value of a little-endian byte string. -/
def leNat : Bytes → Nat
  | [] => 0
  | b :: bs => b.toNat + 256 * leNat bs

theorem leNat_lt (bytes : Bytes) : leNat bytes < 256 ^ bytes.length := by
  induction bytes with
  | nil => exact Nat.one_pos
  | cons b bytes ih =>
    have hb : b.toNat < 256 := b.toNat_lt
    rw [leNat, List.length_cons, pow_succ]
    omega

/-- `POLY`, also the fingerprint of the empty string. -/
def poly : Nat := 0xa795d0f29b4dcdf8

/-- `poly_tab[f & 1] ^ (f >> 1)`. -/
def nextPower (f : Nat) : Nat := (if f &&& 1 = 1 then poly else 0) ^^^ (f >>> 1)

/-- The `n` values that `f` takes in turn, with the value after them. -/
def powersFrom : Nat → Nat → List Nat × Nat
  | 0, f => ([], f)
  | n + 1, f =>
    let (fs, last) := powersFrom n (nextPower f)
    (f :: fs, last)

/-- One table: the single-bit entries are given from bit `0x80` down, and entry `i + k` for `k < i`
is the exclusive or of entries `i` and `k`. -/
def tableOf (bits : List Nat) : List Nat :=
  bits.reverse.foldl (fun row xf => row ++ row.map (xf ^^^ ·)) [0]

/-- `Tables::new`, from table `b` on. -/
def tablesFrom : Nat → Nat → List (List Nat)
  | 0, _ => []
  | n + 1, f =>
    let (bits, f') := powersFrom 8 f
    tableOf bits :: tablesFrom n f'

/-- `TABLES.bybyte`. -/
def bybyte : List (List Nat) := tablesFrom 8 poly

/-- `bybyte[b][i]`. -/
def byteEntry (b i : Nat) : Nat := (bybyte.getD b []).getD i 0

/-- The step for one byte. -/
def stepByte (fp : Nat) (byte : UInt8) : Nat :=
  (fp >>> 8) ^^^ byteEntry 0 ((fp &&& 0xff) ^^^ byte.toNat)

/-- The step for one chunk of eight bytes. -/
def stepChunk (fp : Nat) (chunk : Bytes) : Nat :=
  let x := leNat chunk ^^^ fp
  byteEntry 7 (x &&& 0xff) ^^^ byteEntry 6 ((x >>> 8) &&& 0xff) ^^^
    byteEntry 5 ((x >>> 16) &&& 0xff) ^^^ byteEntry 4 ((x >>> 24) &&& 0xff) ^^^
    byteEntry 3 ((x >>> 32) &&& 0xff) ^^^ byteEntry 2 ((x >>> 40) &&& 0xff) ^^^
    byteEntry 1 ((x >>> 48) &&& 0xff) ^^^ byteEntry 0 (x >>> 56)

/-- `fingerprint_with`: `chunks_exact(8)`, then the remainder byte by byte. -/
def fingerprintWith (fp : Nat) : Bytes → Nat
  | b0 :: b1 :: b2 :: b3 :: b4 :: b5 :: b6 :: b7 :: rest =>
    fingerprintWith (stepChunk fp [b0, b1, b2, b3, b4, b5, b6, b7]) rest
  | rest => rest.foldl stepByte fp

/-- `fingerprint`. -/
def fingerprint (data : Bytes) : Nat := fingerprintWith poly data

end Rsl.Wire
