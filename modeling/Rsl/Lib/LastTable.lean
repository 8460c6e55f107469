import Mathlib.Algebra.GroupWithZero.Nat
import Mathlib.Data.List.Basic

/-!
# The last positions of consecutive keys

Items of some size lie one after the other, and some of them have a key. `fromLast` is what lies
from the last item of a key on. A table holds the position of the last item of every key, for keys
that come one after the other, modulo some number, where the highest one may come again.
`Covers.adds`: the table stays right when an item is added, as long as it has no more entries than
there are keys.
-/

set_option autoImplicit false

namespace Rsl.Lib

open List

/-! ## The last item of a key -/

section FromLast

variable {α : Type} (key : α → Option Nat) (k : Nat)

/-- The items from the last one of a key on; `none` when there is none. -/
def fromLast : List α → Option (List α)
  | [] => none
  | item :: items =>
    match fromLast items with
    | some suffix => some suffix
    | none => if key item = some k then some (item :: items) else none

variable {key k}

theorem fromLast_eq_none {items : List α} :
    fromLast key k items = none ↔ ∀ item ∈ items, key item ≠ some k := by
  induction items with
  | nil => simp [fromLast]
  | cons item items ih =>
    rw [fromLast, forall_mem_cons]
    cases hrest : fromLast key k items with
    | some suffix =>
      have hkey : ¬ ∀ item ∈ items, key item ≠ some k := by
        rw [← ih, hrest]
        simp
      simp [hkey]
    | none =>
      have hkey := ih.mp hrest
      by_cases hitem : key item = some k
      · simp [hitem]
      · simpa [hitem] using hkey

/-- The last item of a key is the one in the last part that has one. -/
theorem fromLast_append (before after : List α) :
    fromLast key k (before ++ after) =
      (fromLast key k after).or ((fromLast key k before).map (· ++ after)) := by
  induction before with
  | nil =>
    rw [nil_append]
    cases fromLast key k after <;> rfl
  | cons item before ih =>
    rw [cons_append, fromLast, fromLast, ih]
    cases fromLast key k after with
    | some suffix => rfl
    | none =>
      cases fromLast key k before with
      | some suffix => rfl
      | none =>
        simp only [Option.map_none, Option.or_none, Option.none_or]
        by_cases hkey : key item = some k
        · rw [if_pos hkey, if_pos hkey]
          rfl
        · rw [if_neg hkey, if_neg hkey]
          rfl

/-- The items from the last one of a key on start with it. -/
theorem fromLast_split {items suffix : List α} (h : fromLast key k items = some suffix) :
    ∃ before item after, items = before ++ suffix ∧ suffix = item :: after := by
  induction items with
  | nil => cases h
  | cons item items ih =>
    rw [fromLast] at h
    cases hrest : fromLast key k items with
    | some later =>
      rw [hrest] at h
      cases h
      obtain ⟨before, last, after, hitems, hsuffix⟩ := ih hrest
      exact ⟨item :: before, last, after, congrArg (item :: ·) hitems, hsuffix⟩
    | none =>
      rw [hrest] at h
      by_cases hkey : key item = some k
      · simp only [if_pos hkey, Option.some.injEq] at h
        exact ⟨[], item, items, h, h.symm⟩
      · simp only [if_neg hkey, reduceCtorEq] at h

theorem fromLast_concat_of_ne {items suffix : List α} {item : α} (h : key item ≠ some k)
    (hsuffix : fromLast key k items = some suffix) :
    fromLast key k (items ++ [item]) = some (suffix ++ [item]) := by
  have hnone : fromLast key k [item] = none := by
    rw [fromLast_eq_none]
    simpa using h
  rw [fromLast_append, hnone, hsuffix]
  rfl

theorem fromLast_concat {items : List α} {item : α} (h : key item = some k) :
    fromLast key k (items ++ [item]) = some [item] := by
  have hsome : fromLast key k [item] = some [item] := by
    simp only [fromLast, if_pos h]
  rw [fromLast_append, hsome, Option.some_or]

end FromLast

/-! ## Tables -/

/-- The size of items that lie one after the other. -/
def sizes {α : Type} (size : α → Nat) (items : List α) : Nat := (items.map size).sum

theorem sizes_append {α : Type} (size : α → Nat) (items items' : List α) :
    sizes size (items ++ items') = sizes size items + sizes size items' := by
  rw [sizes, map_append, sum_append]
  rfl

theorem sizes_singleton {α : Type} (size : α → Nat) (item : α) : sizes size [item] = size item := by
  simp [sizes]

/-- A table: the first key, the positions of the last items of it and of the keys behind it, and the
size of all items. -/
structure LastTable where
  first : Nat
  positions : List Nat
  total : Nat

namespace LastTable

variable {α : Type} (key : α → Option Nat) (size : α → Nat) (modulus : Nat)

/-- The key of an entry. -/
def keyAt (t : LastTable) (i : Nat) : Nat := (t.first + i) % modulus

/-- What adding an item may do to a table. -/
inductive Adds (t : LastTable) (item : α) : LastTable → Prop where
  | other (hkey : key item = none) : Adds t item ⟨t.first, t.positions, t.total + size item⟩
  | start (k : Nat) (hkey : key item = some k) (hk : k < modulus) (hempty : t.positions = []) :
      Adds t item ⟨k, [t.total], t.total + size item⟩
  | again (hkey : key item = some (t.keyAt modulus (t.positions.length - 1)))
      (hne : t.positions ≠ []) :
      Adds t item ⟨t.first, t.positions.dropLast ++ [t.total], t.total + size item⟩
  | next (hkey : key item = some (t.keyAt modulus t.positions.length)) (hne : t.positions ≠ []) :
      Adds t item ⟨t.first, t.positions ++ [t.total], t.total + size item⟩

/-- A table covers items: every key has an entry, and every entry is the position of the last item
of its key. -/
structure Covers (t : LastTable) (items : List α) : Prop where
  total : t.total = sizes size items
  keys : ∀ item ∈ items, ∀ k, key item = some k → ∃ i < t.positions.length, k = t.keyAt modulus i
  last : ∀ i position, t.positions[i]? = some position → ∃ before after,
    items = before ++ after ∧ position = sizes size before ∧
      fromLast key (t.keyAt modulus i) items = some after

variable {key size modulus} {t t' : LastTable} {items : List α} {item : α}

/-- An empty table covers nothing. -/
theorem covers_empty (first : Nat) :
    (⟨first, [], 0⟩ : LastTable).Covers key size modulus ([] : List α) where
  total := rfl
  keys := by simp
  last := by simp

theorem Adds.total_eq (h : Adds key size modulus t item t') : t'.total = t.total + size item := by
  cases h <;> rfl

/-- A table never shrinks. -/
theorem Adds.length_le (h : Adds key size modulus t item t') :
    t.positions.length ≤ t'.positions.length := by
  cases h with
  | other hkey => exact Nat.le_refl _
  | start k hkey hk hempty =>
    rw [hempty]
    exact Nat.zero_le _
  | again hkey hne =>
    have := length_pos_iff.mpr hne
    rw [length_append, length_dropLast, length_singleton]
    omega
  | next hkey hne =>
    rw [length_append]
    omega

/-- Keys of different entries differ. -/
theorem keyAt_ne {i j : Nat} (hlt : i < j) (hj : j < modulus) :
    t.keyAt modulus i ≠ t.keyAt modulus j := by
  intro h
  have hmod : (t.first + i) % modulus = (t.first + j) % modulus := h
  have hsub := Nat.sub_mod_eq_zero_of_mod_eq hmod.symm
  rw [Nat.add_sub_add_left, Nat.mod_eq_of_lt (by omega)] at hsub
  omega

/-- An entry stays when an item is added that has not its key. -/
theorem Covers.keep (h : t.Covers key size modulus items) {i position : Nat}
    (hposition : t.positions[i]? = some position) (hne : key item ≠ some (t.keyAt modulus i)) :
    ∃ before after, items ++ [item] = before ++ after ∧ position = sizes size before ∧
      fromLast key (t.keyAt modulus i) (items ++ [item]) = some after := by
  obtain ⟨before, after, hsplit, hpos, hlast⟩ := h.last i position hposition
  refine ⟨before, after ++ [item], ?_, hpos, fromLast_concat_of_ne hne hlast⟩
  rw [hsplit, append_assoc]

/-- The entry of the item that is added. -/
theorem Covers.new (h : t.Covers key size modulus items) {k : Nat} (hkey : key item = some k) :
    ∃ before after, items ++ [item] = before ++ after ∧ t.total = sizes size before ∧
      fromLast key k (items ++ [item]) = some after :=
  ⟨items, [item], rfl, h.total, fromLast_concat hkey⟩

/-- The last entry of a table with one entry more. -/
theorem getElem?_concat {positions : List Nat} {last i position : Nat}
    (h : (positions ++ [last])[i]? = some position) :
    (i < positions.length ∧ positions[i]? = some position) ∨
      i = positions.length ∧ last = position := by
  rw [getElem?_append] at h
  split at h
  · next hlt => exact .inl ⟨hlt, h⟩
  · next hge =>
    cases hi : i - positions.length with
    | zero => exact .inr ⟨by omega, by simpa [hi] using h⟩
    | succ i => simp [hi] at h

/-- Every key has an entry after an item is added. -/
theorem Covers.keys_adds (h : t.Covers key size modulus items)
    (hadd : Adds key size modulus t item t') {added : α} (hmem : added ∈ items ++ [item]) {k : Nat}
    (hk : key added = some k) : ∃ i < t'.positions.length, k = t'.keyAt modulus i := by
  have hlength := hadd.length_le
  rcases mem_append.mp hmem with hold | hnew
  · obtain ⟨i, hi, rfl⟩ := h.keys added hold k hk
    refine ⟨i, by omega, ?_⟩
    cases hadd with
    | start k' hkey hk' hempty =>
      rw [hempty] at hi
      exact absurd hi (Nat.not_lt_zero _)
    | other hkey => rfl
    | again hkey hne => rfl
    | next hkey hne => rfl
  · obtain rfl := mem_singleton.mp hnew
    cases hadd with
    | other hkey =>
      rw [hkey] at hk
      cases hk
    | start k' hkey hk' hempty =>
      cases hkey.symm.trans hk
      exact ⟨0, Nat.one_pos, (Nat.mod_eq_of_lt hk').symm⟩
    | again hkey hne =>
      have hpos := length_pos_iff.mpr hne
      exact ⟨t.positions.length - 1, by omega, Option.some.inj (hk.symm.trans hkey)⟩
    | next hkey hne =>
      refine ⟨t.positions.length, ?_, Option.some.inj (hk.symm.trans hkey)⟩
      rw [length_append, length_singleton]
      exact Nat.lt_succ_self _

/-- An entry of the table after an item is added is an old one, and then the item has no key or that
of the last entry, or it is that of the item. -/
theorem Adds.entry (h : Adds key size modulus t item t') {i position : Nat}
    (hposition : t'.positions[i]? = some position) :
    (t.positions[i]? = some position ∧ t'.first = t.first ∧ ∀ k, key item = some k →
      i < t'.positions.length - 1 ∧ k = t'.keyAt modulus (t'.positions.length - 1)) ∨
    position = t.total ∧ key item = some (t'.keyAt modulus i) := by
  cases h with
  | other hkey => exact .inl ⟨hposition, rfl, fun k hk => by rw [hkey] at hk; cases hk⟩
  | start k hkey hk hempty =>
    obtain ⟨hlt, -⟩ | ⟨rfl, rfl⟩ := @getElem?_concat [] _ _ _ hposition
    · exact absurd hlt (Nat.not_lt_zero _)
    · exact .inr ⟨rfl, hkey.trans (congrArg some (Nat.mod_eq_of_lt hk).symm)⟩
  | again hkey hne =>
    have hlength : (t.positions.dropLast ++ [t.total]).length - 1 = t.positions.length - 1 := by
      rw [length_append, length_dropLast, length_singleton, Nat.add_sub_cancel]
    rcases getElem?_concat hposition with ⟨hlt, hold⟩ | ⟨rfl, rfl⟩
    · rw [length_dropLast] at hlt
      rw [getElem?_dropLast, if_pos hlt] at hold
      refine .inl ⟨hold, rfl, fun k hk => ?_⟩
      simp only [hlength]
      exact ⟨hlt, Option.some.inj (hk.symm.trans hkey)⟩
    · rw [length_dropLast]
      exact .inr ⟨rfl, hkey⟩
  | next hkey hne =>
    rcases getElem?_concat hposition with ⟨hlt, hold⟩ | ⟨rfl, rfl⟩
    · refine .inl ⟨hold, rfl, fun k hk => ?_⟩
      simp only [length_append, length_singleton, Nat.add_sub_cancel]
      exact ⟨hlt, Option.some.inj (hk.symm.trans hkey)⟩
    · exact .inr ⟨rfl, hkey⟩

theorem Covers.adds (h : t.Covers key size modulus items) (hadd : Adds key size modulus t item t')
    (hfits : t'.positions.length ≤ modulus) : t'.Covers key size modulus (items ++ [item]) := by
  refine ⟨?_, fun added hmem k hk => h.keys_adds hadd hmem hk, fun i position hposition => ?_⟩
  · rw [hadd.total_eq, h.total, sizes_append, sizes_singleton]
  rcases hadd.entry hposition with ⟨hold, hfirst, hkey⟩ | ⟨rfl, hkey⟩
  · have hsame : t'.keyAt modulus i = t.keyAt modulus i := by rw [keyAt, keyAt, hfirst]
    rw [hsame]
    refine h.keep hold fun heq => ?_
    obtain ⟨hlt, hlast⟩ := hkey _ heq
    exact keyAt_ne hlt (by omega) (hsame.trans hlast)
  · exact h.new hkey

end LastTable

end Rsl.Lib
