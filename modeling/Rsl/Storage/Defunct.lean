import Rsl.Lib.Disk
import Rsl.Wire.RoundTrip

/-!
# The file of the highest defunct configuration number

`read_defunct` and `write_defunct` on `defunct.txt`, with a crash after any number of steps. A power
loss may keep any of the changes that were not flushed, as in `sim.rs`. `atomic_iff` says at which
crashes the stored number or the new one is read afterwards, whatever is kept. The open truncates
the file before the four bytes are written, so a process that ends in between leaves no number, and
so does a power loss up to the flush when the truncation reached the disk; and a file that is there
does not have its directory flushed, even when the attempt that created it never did so.
-/

set_option autoImplicit false

namespace Rsl.Storage

open Wire Lib

/-- `encode_defunct`. -/
def encodeDefunct (value : UInt32) : Bytes := leBytes 4 value.toNat

/-- `decode_defunct`: the leading four bytes. -/
def decodeDefunct (buf : Bytes) : Option UInt32 :=
  if 4 ≤ buf.length then some (UInt32.ofNat (leNat (buf.take 4))) else none

/-- `read_defunct`. -/
def readDefunct (content : Option Bytes) : Option UInt32 := content.bind decodeDefunct

/-- `write_defunct`. `OpenMode::Create` truncates, and the directory is flushed only for a file
that did not exist. -/
def writeDefunct (existed : Bool) (value : UInt32) : List DiskOp :=
  [.create, .setSize 0, .write 0 (encodeDefunct value), .syncData] ++
    if existed then [] else [.syncDir]

namespace Defunct

inductive Crash where
  | process
  | powerLoss
  deriving DecidableEq, Repr

/-- The content that may be found after a crash. -/
def Crash.Leaves : Crash → Option JournaledFile → Option Bytes → Prop
  | .process, file, disk => disk = file.map (·.content)
  | .powerLoss, none, disk => disk = none
  | .powerLoss, some file, disk => file.Leaves disk

variable (file : Option JournaledFile) (value : UInt32) (k : Nat)

/-- What `read_defunct` returns before the call. -/
def stored : Option UInt32 := readDefunct (file.map (·.content))

/-- The file after the first `k` steps of `write_defunct`. -/
def after : Option JournaledFile :=
  JournaledFile.run (cutOps k (writeDefunct file.isSome value)) file

/-- Every crash after `k` steps leaves the previous reading or the new number, and the new number
when the call had returned and the power is lost. -/
def Atomic (crash : Crash) : Prop :=
  ∀ disk, crash.Leaves (after file value k) disk →
    (readDefunct disk = stored file ∨ readDefunct disk = some value) ∧
      (((writeDefunct file.isSome value).map DiskOp.steps).sum ≤ k → crash = .powerLoss →
        readDefunct disk = some value)

/-- A power loss before the call would have left the number that was read, or the new one. -/
def Settled (f : JournaledFile) : Prop :=
  ∀ disk, f.Leaves disk → readDefunct disk = stored (some f) ∨ readDefunct disk = some value

/-- There is no number to lose when a process ends between the truncation and the last byte, or the
power is lost between the truncation and the flush. Up to the flush, a file that was there was
settled before, and from then on it has a durable name. -/
def Guarded : Crash → Prop
  | .process => stored file = none ∨ k < 2 ∨ 6 ≤ k
  | .powerLoss => ∀ f ∈ file,
      if k < 7 then Settled value f ∧ (k < 2 ∨ stored file = none) else f.named = true

@[simp] theorem length_encodeDefunct : (encodeDefunct value).length = 4 := rfl

theorem decodeDefunct_encodeDefunct : decodeDefunct (encodeDefunct value) = some value := by
  have hvalue : value.toNat < 256 ^ 4 := value.toNat_lt
  rw [decodeDefunct, List.take_of_length_le (length_encodeDefunct value).le,
    if_pos (length_encodeDefunct value).ge, encodeDefunct, leNat_leBytes, Nat.mod_eq_of_lt hvalue,
    UInt32.ofNat_toNat]

theorem decodeDefunct_take (h : k < 4) : decodeDefunct ((encodeDefunct value).take k) = none := by
  rw [decodeDefunct, if_neg]
  rw [List.length_take, length_encodeDefunct]
  omega

/-- The open file after `k` steps. -/
def opened (existed : Bool) (f : JournaledFile) : JournaledFile :=
  if k < 2 then f
  else if k < 7 then
    { f with pending := f.pending ++ [.setSize 0, .write 0 ((encodeDefunct value).take (k - 2))] }
  else ⟨encodeDefunct value, [], f.named || (!existed && decide (8 ≤ k))⟩

theorem writeAt_truncated (content bytes : Bytes) : writeAt (resize content 0) 0 bytes = bytes := by
  simp [writeAt, resize]

theorem run_opened (existed : Bool) (f : JournaledFile) :
    JournaledFile.run (cutOps k (writeDefunct existed value)) (some f) =
      some (opened value k existed f) := by
  -- steps 1 and 2 open the file, 3 to 6 write a byte each, 7 flushes it and 8 its directory
  match k with
  | 0 => rfl
  | 1 => rfl
  | k + 2 =>
    by_cases hwhole : 4 ≤ k
    · have htake : (encodeDefunct value).take k = encodeDefunct value :=
        List.take_of_length_le hwhole
      by_cases hsync : 1 ≤ k - 4
      · have hlate : ¬ k + 2 < 7 := by omega
        have hdir : 1 ≤ k - 4 - 1 ↔ 8 ≤ k + 2 := by omega
        cases existed <;> by_cases h : 8 ≤ k + 2 <;>
          simp [writeDefunct, cutOps, DiskOp.steps, DiskOp.cut, JournaledFile.run,
            JournaledFile.apply, JournaledFile.content, DiskOp.edit, opened, writeAt_truncated, *]
      · have hearly : k < 5 := by omega
        simp [writeDefunct, cutOps, DiskOp.steps, DiskOp.cut, JournaledFile.run,
          JournaledFile.apply, opened, *]
    · have hearly : k < 5 := by omega
      simp [writeDefunct, cutOps, DiskOp.steps, DiskOp.cut, JournaledFile.run, JournaledFile.apply,
        opened, *]

/-- A call that has opened its file: it is as if an empty one without a durable name was there. -/
theorem after_eq : after file value k =
    if file = none ∧ k = 0 then none
    else some (opened value k file.isSome (file.getD ⟨[], [], false⟩)) := by
  cases file with
  | some f =>
    rw [if_neg (by simp)]
    exact run_opened value k true f
  | none =>
    cases k with
    | zero => rfl
    | succ k =>
      rw [if_neg (by simp)]
      exact run_opened value (k + 1) false ⟨[], [], false⟩

/-- What an open file holds through the cache. -/
theorem content_opened (existed : Bool) (f : JournaledFile) :
    decodeDefunct (opened value k existed f).content =
      if k < 2 then decodeDefunct f.content else if k < 6 then none else some value := by
  unfold opened
  split_ifs with htrunc hsync hlast hlast
  · rfl
  · simp only [JournaledFile.content, List.foldl_append, List.foldl_cons, List.foldl_nil,
      DiskOp.edit, writeAt_truncated]
    exact decodeDefunct_take value _ (by omega)
  · simp only [JournaledFile.content, List.foldl_append, List.foldl_cons, List.foldl_nil,
      DiskOp.edit, writeAt_truncated]
    rw [List.take_of_length_le (by simp only [length_encodeDefunct]; omega),
      decodeDefunct_encodeDefunct]
  · omega
  · exact decodeDefunct_encodeDefunct value

/-- Only the new number's own four bytes read as it. -/
theorem take_of_decodeDefunct {content : Bytes} (h : decodeDefunct content = some value) :
    content.take 4 = encodeDefunct value := by
  rw [decodeDefunct] at h
  split_ifs at h with hlong
  have hlen : (content.take 4).length = 4 := by
    rw [List.length_take]
    omega
  have hlt : leNat (content.take 4) < 2 ^ 32 := by
    have := leNat_lt (content.take 4)
    rwa [hlen] at this
  rw [encodeDefunct, ← Option.some.inj h, UInt32.toNat_ofNat', Nat.mod_eq_of_lt hlt]
  conv_lhs => rw [← leBytes_leNat (content.take 4), hlen]

/-- A part of the new number over a content that reads as nothing or as that number. -/
theorem decodeDefunct_writeAt {content : Bytes} (j : Nat)
    (h : decodeDefunct content = none ∨ decodeDefunct content = some value) :
    decodeDefunct (writeAt content 0 ((encodeDefunct value).take j)) = none ∨
      decodeDefunct (writeAt content 0 ((encodeDefunct value).take j)) = some value := by
  have hwrite : writeAt content 0 ((encodeDefunct value).take j) =
      (encodeDefunct value).take j ++ content.drop (min j 4) := by
    simp [writeAt, resize]
  rw [hwrite]
  rcases h with hnone | hvalue
  · have hshort : content.length < 4 := by
      by_contra hlong
      simp [decodeDefunct, not_lt.mp hlong] at hnone
    by_cases hwhole : 4 ≤ j
    · right
      rw [List.take_of_length_le hwhole, min_eq_right hwhole,
        List.drop_eq_nil_of_le (by omega), List.append_nil, decodeDefunct_encodeDefunct]
    · left
      rw [decodeDefunct, if_neg]
      rw [List.length_append, List.length_take, List.length_drop, length_encodeDefunct]
      omega
  · right
    rw [← take_of_decodeDefunct value hvalue, List.take_take, List.take_append_drop, hvalue]

section PowerLoss

variable {value k} {f : JournaledFile} {existed : Bool} {disk : Option Bytes}

theorem opened_truncated (htrunc : 2 ≤ k) (hsync : k < 7) : opened value k existed f =
    { f with
        pending := f.pending ++ [.setSize 0, .write 0 ((encodeDefunct value).take (k - 2))] } := by
  rw [opened, if_neg (not_lt.mpr htrunc), if_pos hsync]

/-- Between the truncation and the flush, a power loss may leave what it could before, and an empty
file. -/
theorem leaves_opened (hsync : k < 7) :
    (∀ disk, f.Leaves disk → (opened value k existed f).Leaves disk) ∧
      (2 ≤ k → (opened value k existed f).Leaves (some [])) := by
  by_cases htrunc : 2 ≤ k
  · rw [opened_truncated htrunc hsync]
    constructor
    · rintro disk (⟨kept, hkept, rfl⟩ | hlost)
      · exact .inl ⟨kept, hkept.trans (List.sublist_append_left _ _), rfl⟩
      · exact .inr hlost
    · intro _
      refine .inl ⟨[.setSize 0], ?_, by simp [DiskOp.edit, resize]⟩
      exact (List.singleton_sublist.mpr List.mem_cons_self).trans (List.sublist_append_right _ _)
  · rw [opened, if_pos (not_le.mp htrunc)]
    exact ⟨fun _ => id, fun h => absurd h htrunc⟩

/-- It leaves nothing else than that, or the new number, when there was no number. -/
theorem readDefunct_truncated (htrunc : 2 ≤ k) (hsync : k < 7) (hsettled : Settled value f)
    (hnone : stored (some f) = none) (h : (opened value k existed f).Leaves disk) :
    readDefunct disk = none ∨ readDefunct disk = some value := by
  rw [opened_truncated htrunc hsync] at h
  rcases h with ⟨kept, hkept, rfl⟩ | ⟨-, rfl⟩
  · obtain ⟨before, during, rfl, hbefore, hduring⟩ := List.sublist_append_iff.mp hkept
    have hold := hsettled (some (before.foldl DiskOp.edit f.synced)) (.inl ⟨before, hbefore, rfl⟩)
    rw [hnone] at hold
    rw [List.foldl_append]
    generalize before.foldl DiskOp.edit f.synced = content at hold
    -- any of the truncation and the write is kept
    have hnothing : decodeDefunct [] = none := rfl
    have hpart := decodeDefunct_writeAt value (k - 2) (.inl hnothing)
    have hover := decodeDefunct_writeAt value (k - 2) hold
    have hcases := List.mem_sublists.mpr hduring
    simp [List.sublists_cons] at hcases
    have hempty : resize content 0 = [] := by simp [resize]
    rcases hcases with rfl | rfl | rfl | rfl
    · exact hold
    · simp only [List.foldl_cons, List.foldl_nil, DiskOp.edit, hempty]
      exact .inl rfl
    · exact hover
    · simp only [List.foldl_cons, List.foldl_nil, DiskOp.edit, hempty]
      exact hpart
  · exact .inl rfl

theorem opened_flushed (hsync : 7 ≤ k) : opened value k existed f =
    ⟨encodeDefunct value, [], f.named || (!existed && decide (8 ≤ k))⟩ := by
  rw [opened, if_neg (by omega), if_neg (by omega)]

/-- After the flush a power loss leaves the new number, or no file. -/
theorem leaves_flushed (hsync : 7 ≤ k) : (opened value k existed f).Leaves disk ↔
    disk = some (encodeDefunct value) ∨
      ((f.named || (!existed && decide (8 ≤ k))) = false ∧ disk = none) := by
  rw [opened_flushed hsync, JournaledFile.Leaves]
  simp

end PowerLoss

/-- An empty file that was just created has nothing to lose. -/
theorem settled_created : Settled value ⟨[], [], false⟩ := by
  rintro disk (⟨kept, hkept, rfl⟩ | ⟨-, rfl⟩)
  · obtain rfl := List.sublist_nil.mp hkept
    exact .inl rfl
  · exact .inl rfl

theorem atomic_process : Atomic file value k .process ↔ Guarded file value k .process := by
  have hread : readDefunct ((after file value k).map (·.content)) =
      if k < 2 then stored file else if k < 6 then none else some value := by
    rw [after_eq]
    by_cases hearly : file = none ∧ k = 0
    · rw [if_pos hearly, hearly.1, hearly.2]
      rfl
    · rw [if_neg hearly]
      refine (content_opened value k _ _).trans ?_
      cases file <;> rfl
  simp only [Atomic, Crash.Leaves, forall_eq, hread, Guarded, reduceCtorEq, false_implies,
    implies_true, and_true]
  split_ifs with htrunc hlast
  · simp [htrunc]
  · simp [htrunc, hlast, eq_comm]
  · simp [le_of_not_gt hlast]

/-- A power loss does no harm to a file that the call creates. -/
theorem atomic_created : Atomic none value k .powerLoss := by
  intro disk h
  rw [after_eq] at h
  have hsteps : ((writeDefunct false value).map DiskOp.steps).sum = 8 := rfl
  show (readDefunct disk = none ∨ _) ∧ (((writeDefunct false value).map DiskOp.steps).sum ≤ k → _)
  rw [hsteps]
  by_cases hzero : k = 0
  · rw [if_pos ⟨rfl, hzero⟩] at h
    obtain rfl : disk = none := h
    exact ⟨.inl rfl, fun hdone => by omega⟩
  rw [if_neg (by simp [hzero])] at h
  by_cases hsync : k < 7
  · refine ⟨?_, fun hdone => by omega⟩
    by_cases htrunc : 2 ≤ k
    · exact readDefunct_truncated htrunc hsync (settled_created value) rfl h
    · rw [opened, if_pos (not_le.mp htrunc)] at h
      exact settled_created value disk h
  · rcases (leaves_flushed (not_lt.mp hsync)).mp h with rfl | ⟨hname, rfl⟩
    · have hvalue : readDefunct (some (encodeDefunct value)) = some value :=
        decodeDefunct_encodeDefunct value
      exact ⟨.inr hvalue, fun _ _ => hvalue⟩
    · have hdir : ¬ 8 ≤ k := by simpa using hname
      exact ⟨.inl rfl, fun hdone => absurd hdone hdir⟩

theorem atomic_existing (f : JournaledFile) :
    Atomic (some f) value k .powerLoss ↔ Guarded (some f) value k .powerLoss := by
  have hsteps : ((writeDefunct true value).map DiskOp.steps).sum = 7 := rfl
  have hafter : after (some f) value k = some (opened value k true f) := run_opened value k true f
  simp only [Atomic, Guarded, Crash.Leaves, Option.isSome_some, hafter, hsteps, true_imp_iff,
    Option.mem_some_iff, forall_eq']
  by_cases hsync : k < 7
  · rw [if_pos hsync]
    have hrunning : ¬ 7 ≤ k := not_le.mpr hsync
    simp only [hrunning, false_implies, and_true]
    constructor
    · intro h
      refine ⟨fun disk hdisk => h disk ((leaves_opened hsync).1 disk hdisk), ?_⟩
      by_cases htrunc : 2 ≤ k
      · right
        rcases h _ ((leaves_opened hsync).2 htrunc) with hempty | hempty
        · exact hempty.symm
        · cases hempty
      · exact .inl (not_le.mp htrunc)
    · rintro ⟨hsettled, hnone⟩ disk h
      rcases hnone with htrunc | hnone
      · rw [opened, if_pos htrunc] at h
        exact hsettled disk h
      · by_cases htrunc : 2 ≤ k
        · rw [hnone]
          exact readDefunct_truncated htrunc hsync hsettled hnone h
        · rw [opened, if_pos (not_le.mp htrunc)] at h
          exact hsettled disk h
  · rw [if_neg hsync]
    have hdone : 7 ≤ k := not_lt.mp hsync
    have hvalue : readDefunct (some (encodeDefunct value)) = some value :=
      decodeDefunct_encodeDefunct value
    simp only [leaves_flushed hdone, hdone, true_imp_iff, Bool.not_true, Bool.false_and,
      Bool.or_false]
    constructor
    · intro h
      by_contra hname
      have hlost := (h none (.inr ⟨Bool.eq_false_iff.mpr hname, rfl⟩)).2
      cases hlost
    · rintro hname disk (rfl | ⟨hlost, -⟩)
      · exact ⟨.inr hvalue, hvalue⟩
      · rw [hname] at hlost
        cases hlost

/-- `write_defunct` at a crash leaves the number before or the new one, whatever of the changes that
were not flushed is kept, exactly when the crash is guarded. -/
theorem atomic_iff (crash : Crash) :
    Atomic file value k crash ↔ Guarded file value k crash := by
  cases crash with
  | process => exact atomic_process file value k
  | powerLoss =>
    cases file with
    | some f => exact atomic_existing value k f
    | none => exact iff_of_true (atomic_created value k) fun _ hnone => by cases hnone

/-- A process that ends right after the open has lost the number 1, and so has a power loss then
that kept the truncation; and a file that an earlier attempt created without a durable name is lost
after the call for the number 2 returned. -/
theorem not_atomic_truncated :
    ¬ Atomic (some ⟨encodeDefunct 1, [], true⟩) 2 2 .process ∧
      ¬ Atomic (some ⟨encodeDefunct 1, [], true⟩) 2 2 .powerLoss ∧
      ¬ Atomic (some ⟨[], [], false⟩) 2 7 .powerLoss := by
  refine ⟨?_, ?_, ?_⟩
  · rw [atomic_process]
    unfold Guarded
    decide +kernel
  · intro h
    obtain ⟨-, hnone⟩ := (atomic_existing _ _ _).mp h _ rfl
    revert hnone
    decide +kernel
  · intro h
    have hname := (atomic_existing _ _ _).mp h _ rfl
    cases hname

end Defunct

end Rsl.Storage
