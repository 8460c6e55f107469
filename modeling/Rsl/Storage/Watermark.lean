import Rsl.Storage.Sectors

/-!
# The durable length of an open log

In the runs of `Rsl.Storage.Sectors`, `append_batch` is an append and, when that returned, a flush,
and a flush that fails is no event: it leaves everything as it is. `open_with` counts as durable
what the scan reads back, which after the end of a process may stand in the cache only;
`DURABILITY.md` lists this among the residual gaps. `run_keeps_durable` says that this is the only
gap: a power loss at any point keeps the first `durable_len` bytes when it keeps what was flushed
and what the last reopen read back, and what was flushed is enough in a run whose reopens find no
whole record that was not flushed.
-/

set_option autoImplicit false

namespace Rsl.Storage

open Wire List

namespace SectorLog

/-- A power loss that keeps only `known` bytes leaves the first `durable_len` bytes, and the next
scan recovers them. -/
def Honest (s : SectorLog) (known : Nat) : Prop :=
  ∀ writer, s.writer = some writer →
    (s.content.take known).take writer.durableLen = s.content.take writer.durableLen ∧
    ∃ result, scan (s.content.take known) = some result ∧
      writer.durableLen ≤ (result.records.map fun record => record.info.paddedLen).sum

/-- How many bytes the last reopen of a run found and kept, or `n` if the run has none. Only a
reopen makes a writer where there was none. -/
def readBack (s : SectorLog) (n : Nat) : List SectorEvent → Nat
  | [] => n
  | event :: events =>
    let s' := s.step event
    s'.readBack (if s.writer.isNone && s'.writer.isSome then s'.content.length else n) events

/-- The condition on an event: a reopen that does not follow a power loss finds no whole record that
was not flushed. -/
def Covered (s : SectorLog) : SectorEvent → Prop
  | .reopen settled => settled = true ∨ s.writer.isSome = true ∨
      ∀ front ∈ s.appended.inits, logBytes front <+: s.content → (logBytes front).length ≤ s.durable
  | _ => True

instance (s : SectorLog) (event : SectorEvent) : Decidable (s.Covered event) := by
  cases event <;> unfold Covered <;> infer_instance

/-- Every event of a run meets the condition. -/
def AllCovered (s : SectorLog) : List SectorEvent → Prop
  | [] => True
  | event :: events => s.Covered event ∧ (s.step event).AllCovered events

/-- The durable length is that of the first records, and they are among the known bytes. -/
def Marked (s : SectorLog) (known : Nat) : Prop :=
  ∀ writer, s.writer = some writer → ∃ done, done <+: s.appended ∧
    writer.durableLen = (logBytes done).length ∧ (logBytes done).length ≤ known

variable {s : SectorLog} {known known' : Nat}

theorem Marked.append (h : s.Marked known) {records : List Bytes}
    (haccepts : ∀ record ∈ records, scanAccepts record = true) :
    (s.step (.append records)).Marked known := by
  rw [SectorLog.step]
  cases hwriter : s.writer with
  | none => exact h
  | some writer =>
    rcases happend : appendUnsynced writer records with ⟨ops, outcome⟩
    simp only [happend]
    rcases appendUnsynced_spec haccepts happend with
      ⟨-, e, rfl⟩ | ⟨more, -, -, -, _, index, -, rfl | ⟨-, rfl, -⟩⟩
    · exact h
    · exact fun _ hnone => by cases hnone
    · intro written hwritten
      cases hwritten
      obtain ⟨done, hdone, hlen, hknown⟩ := h writer hwriter
      exact ⟨done, hdone.trans (prefix_append _ _), hlen, hknown⟩

section

variable (hinv : s.Inv)

include hinv

/-- What a flush leaves: nothing changes, or all of the file is durable. -/
theorem sync_cases : s.step .sync = s ∨
    (∃ writer, (s.step .sync).writer = some writer ∧
      writer.durableLen = (logBytes (s.step .sync).appended).length) ∧
      (s.step .sync).durable = (logBytes (s.step .sync).appended).length ∧
      s.durable ≤ (s.step .sync).durable := by
  rw [SectorLog.step]
  cases hwriter : s.writer with
  | none => exact .inl rfl
  | some writer =>
    have hopened := hinv.opened writer hwriter
    by_cases hskip : writer.durableLen = writer.index.dataLen
    · left
      simp only [syncWriter, if_pos hskip, isEmpty_nil, if_true]
      cases s
      cases hwriter
      rfl
    · right
      have hlen := congrArg length hopened.content
      simp only [syncWriter, if_neg hskip]
      exact ⟨⟨_, rfl, hopened.dataLen.trans hlen⟩, hlen, hopened.durable_le⟩

/-- What a reopen leaves: nothing changes, or the writer counts all that the scan kept, which are
the first records that stand whole in the file. -/
theorem reopen_cases (settled : Bool) : s.step (.reopen settled) = s ∨
    ∃ writer read, s.writer = none ∧ (s.step (.reopen settled)).writer = some writer ∧
      read <+: s.appended ∧ logBytes read <+: s.content ∧
      (s.step (.reopen settled)).appended = read ∧
      (s.step (.reopen settled)).content = logBytes read ∧
      writer.durableLen = (logBytes read).length ∧
      (s.step (.reopen settled)).durable =
        if settled then (logBytes read).length else min s.durable (logBytes read).length := by
  obtain ⟨whole, hleft⟩ := hinv.left
  rw [SectorLog.step]
  split
  · next result ops writer hwriter hscan hopen =>
    obtain ⟨-, hcontent, -, -, hdurable⟩ := hleft.reopen hscan hopen
    obtain ⟨result', read, hscan', hread, -, hbytes, hlaid⟩ := hleft.scanned
    cases hscan'.symm.trans hscan
    rw [hlaid.messages_eq] at hcontent
    rw [hcontent] at hdurable ⊢
    exact .inr ⟨writer, read, hwriter, rfl, hread.trans hleft.front, hbytes, hlaid.messages_eq, rfl,
      hdurable, rfl⟩
  · exact .inl rfl

/-- One event keeps the durable length among the known bytes, if these do not get fewer while a
writer is open and hold what is flushed and what a reopen reads back. -/
theorem Marked.step (h : s.Marked known) {event : SectorEvent} (hguard : guarded event = true)
    (hgrow : s.writer.isSome = true → known ≤ known') (hdurable : (s.step event).durable ≤ known')
    (hreopen : s.writer = none → (s.step event).writer.isSome = true →
      (s.step event).content.length ≤ known') : (s.step event).Marked known' := by
  have hsame : s.Marked known' := by
    intro writer hwriter
    obtain ⟨done, hdone, hlen, hknown⟩ := h writer hwriter
    exact ⟨done, hdone, hlen, hknown.trans (hgrow (by rw [hwriter]; rfl))⟩
  cases event with
  | append records => exact hsame.append (all_eq_true.mp hguard)
  | crash kept size => exact fun _ hnone => by cases hnone
  | sync =>
    rcases sync_cases hinv with heq | ⟨⟨writer, hwriter, hlen⟩, hflushed, -⟩
    · rw [heq]
      exact hsame
    · intro w hw
      cases hw.symm.trans hwriter
      exact ⟨_, prefix_refl _, hlen, hflushed ▸ hdurable⟩
  | reopen settled =>
    rcases reopen_cases hinv settled with heq | ⟨writer, read, hnone, hwriter, -, -, happended,
      hcontent, hlen, -⟩
    · rw [heq]
      exact hsame
    · intro w hw
      cases hw.symm.trans hwriter
      have hknown := hreopen hnone (by rw [hwriter]; rfl)
      rw [hcontent] at hknown
      exact ⟨read, happended ▸ prefix_refl _, hlen, hknown⟩

/-- While a writer is open, the disk does not lose what it is known to hold. -/
theorem durable_le_step (event : SectorEvent) (hopen : s.writer.isSome = true) :
    s.durable ≤ (s.step event).durable := by
  cases event with
  | append records =>
    rw [SectorLog.step]
    obtain ⟨writer, hwriter⟩ := Option.isSome_iff_exists.mp hopen
    rcases happend : appendUnsynced writer records with ⟨ops, outcome⟩
    simp only [hwriter, happend]
    cases outcome <;> exact le_rfl
  | crash kept size => exact le_rfl
  | sync =>
    rcases sync_cases hinv with heq | ⟨-, -, hle⟩
    · rw [heq]
    · exact hle
  | reopen settled =>
    rcases reopen_cases hinv settled with heq | ⟨writer, read, hnone, -⟩
    · rw [heq]
    · rw [hnone] at hopen
      cases hopen

/-- What a reopen reads back is flushed, where the condition holds. -/
theorem Covered.reopen {event : SectorEvent} (hcovered : s.Covered event) (hnone : s.writer = none)
    (hopen : (s.step event).writer.isSome = true) :
    (s.step event).content.length ≤ (s.step event).durable := by
  cases event with
  | append records | sync | crash kept size => simp [SectorLog.step, hnone] at hopen
  | reopen settled =>
    rcases reopen_cases hinv settled with heq | ⟨writer, read, -, -, hread, hbytes, -, hcontent, -,
      hdurable⟩
    · rw [heq, hnone] at hopen
      cases hopen
    · rw [hcontent, hdurable]
      split_ifs with hsettled
      · exact le_rfl
      · rcases hcovered with htrue | hopened | hflushed
        · exact absurd htrue hsettled
        · rw [hnone] at hopened
          cases hopened
        · exact le_min (hflushed read ((mem_inits _ _).mpr hread) hbytes) le_rfl

/-- A whole run, with what was flushed and what the last reopen read back. -/
theorem Marked.run_readBack {n : Nat} (h : s.Marked (max s.durable n)) {events : List SectorEvent}
    (hguard : s.AllGuarded events) :
    (s.run events).Marked (max (s.run events).durable (s.readBack n events)) := by
  induction events generalizing s n with
  | nil => exact h
  | cons event events ih =>
    obtain ⟨hdetect, hevent, hrest⟩ := hguard
    refine ih (hinv.step hdetect hevent) (h.step hinv hevent ?_ (le_max_left _ _) ?_) hrest
    · intro hopen
      have hle := durable_le_step hinv event hopen
      obtain ⟨writer, hwriter⟩ := Option.isSome_iff_exists.mp hopen
      simp only [hwriter, Option.isNone_some, Bool.false_and, Bool.false_eq_true, if_false]
      exact max_le_max hle le_rfl
    · intro hnone hopen
      simp only [hnone, hopen, Option.isNone_none, Bool.and_self, if_true]
      exact le_max_right _ _

/-- A whole run, with what was flushed. -/
theorem Marked.run (h : s.Marked s.durable) {events : List SectorEvent}
    (hguard : s.AllGuarded events) (hcovered : s.AllCovered events) :
    (s.run events).Marked (s.run events).durable := by
  induction events generalizing s with
  | nil => exact h
  | cons event events ih =>
    obtain ⟨hdetect, hevent, hrest⟩ := hguard
    refine ih (hinv.step hdetect hevent) ?_ hrest hcovered.2
    exact h.step hinv hevent (durable_le_step hinv event) le_rfl (hcovered.1.reopen hinv)

/-- What the invariants say of the durable length. -/
theorem Marked.honest (h : s.Marked known) : s.Honest known := by
  intro writer hwriter
  obtain ⟨done, ⟨rest, hrest⟩, hlen, hknown⟩ := h writer hwriter
  have hopened := hinv.opened writer hwriter
  refine ⟨by rw [take_take, min_eq_left (hlen ▸ hknown)], ?_⟩
  -- what is left is a prefix of the log, so its scan returns the records that lie in it
  have hfront : s.content.take known <+: logBytes s.appended :=
    hopened.content ▸ List.take_prefix _ _
  obtain ⟨result, hscan, -, hbytes⟩ := scan_prefix hopened.ok hfront
  refine ⟨result, hscan, ?_⟩
  have hwhole : (logBytes done).length ≤ (s.content.take known).length := by
    rw [length_take, hopened.content, ← hrest, logBytes_append, length_append]
    omega
  rw [hbytes, hlen, ← hrest, wholeIn_append rest hwhole, logBytes_append, length_append]
  exact le_self_add

end

/-- At every point of a run a power loss keeps the durable length when it keeps what was flushed and
what the last reopen read back; what was flushed is enough in a run in which every reopen that does
not follow a power loss finds no whole record that was not flushed. -/
theorem run_keeps_durable (events : List SectorEvent) (h : AllGuarded {} events) :
    (run {} events).Honest (max (run {} events).durable (readBack {} 0 events)) ∧
      (AllCovered {} events → (run {} events).Honest (run {} events).durable) := by
  have hempty : ∀ known, Marked {} known := by
    intro known writer hwriter
    cases hwriter
    exact ⟨[], nil_prefix, rfl, Nat.zero_le _⟩
  have hinv := inv_init.run h
  refine ⟨((hempty _).run_readBack inv_init h).honest hinv, fun hcovered => ?_⟩
  exact ((hempty _).run inv_init h hcovered).honest hinv

end SectorLog

/-! ## Runs -/

namespace Example

/-- A record that is flushed before the process ends, without loss, and the log is opened again. -/
def endedAfterSync : List SectorEvent :=
  [.append [voteOne], .sync, .crash (fun _ => true) 512, .reopen false]

/-- The same with a record that was not flushed. -/
def endedBeforeSync : List SectorEvent :=
  [.append [voteOne], .crash (fun _ => true) 512, .reopen false]

end Example

open Storage.Example SectorLog

/-- A record that was flushed survives, and one that was not is at least what the reopen read
back. -/
theorem run_keeps_durable_endedAfterSync :
    ((SectorLog.run {} endedAfterSync).writer.map (·.durableLen) = some 512 ∧
      (SectorLog.run {} endedAfterSync).Honest (SectorLog.run {} endedAfterSync).durable) ∧
    (SectorLog.run {} endedBeforeSync).durable = 0 ∧
      (SectorLog.run {} endedBeforeSync).Honest
        (max (SectorLog.run {} endedBeforeSync).durable (readBack {} 0 endedBeforeSync)) := by
  refine ⟨⟨by decide +kernel, (run_keeps_durable endedAfterSync
    ⟨?_, ?_, ?_, ?_, ?_, ?_, ?_, ?_, trivial⟩).2 ⟨?_, ?_, ?_, ?_, trivial⟩⟩, by decide +kernel,
    (run_keeps_durable endedBeforeSync ⟨?_, ?_, ?_, ?_, ?_, ?_, trivial⟩).1⟩ <;> decide +kernel

/-- The reopened log counts 512 bytes as durable that a power loss takes away. -/
theorem not_keeps_durable_endedBeforeSync :
    ¬ (SectorLog.run {} endedBeforeSync).Honest (SectorLog.run {} endedBeforeSync).durable := by
  intro h
  obtain ⟨writer, hwriter, hlen⟩ := Option.map_eq_some_iff.mp
    (by decide +kernel : (SectorLog.run {} endedBeforeSync).writer.map (·.durableLen) = some 512)
  obtain ⟨htake, -⟩ := h writer hwriter
  rw [hlen] at htake
  revert htake
  decide +kernel

end Rsl.Storage
