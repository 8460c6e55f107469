import Rsl.Cleanup.Plan

/-!
# What a cleanup keeps

Which numbers are planned can be read off the directory: a log is superseded when more than
`maxLogs` files have a number from its own on, and one more of them is no later than the decree
after the oldest checkpoint (`mem_planLogs`); a checkpoint is surplus when more than
`maxCheckpoints` files have a number from its own on (`mem_planCheckpoints`). All this is said once
for both implementations, over a view of the directory that gives each file's own name its number
(`Lawful`). `cleanup_keeps` says for which directories a cleanup keeps the replica startable, and
`cleanup_startable_of_own` that those of the replica's own files are among them.
-/

set_option autoImplicit false

namespace Rsl.Cleanup

open Wire List

/-! ## Planned numbers -/

/-- More than `maxLogs` names have a number from `log` on, and at least two have one up to
`limit`. -/
def Superseded (maxLogs limit : Nat) (logs : List Nat) (log : Nat) : Prop :=
  maxLogs < logs.countP (log ≤ ·) ∧ 1 < logs.countP fun n => decide (log ≤ n) && decide (n ≤ limit)

/-- More than `maxCheckpoints` names have a number from `checkpoint` on. -/
def Surplus (maxCheckpoints : Nat) (checkpoints : List Nat) (checkpoint : Nat) : Prop :=
  maxCheckpoints < checkpoints.countP (checkpoint ≤ ·)

/-- In a sorted list every element is from the first one on. -/
theorem countP_head {first : Nat} {rest : List Nat} (h : (first :: rest).Pairwise (· ≤ ·)) :
    (first :: rest).countP (first ≤ ·) = (first :: rest).length := by
  rw [countP_eq_length]
  intro n hn
  rcases mem_cons.mp hn with rfl | hn
  · simp
  · simpa using rel_of_pairwise_cons h hn

/-- A name before `log` does not count for it. -/
theorem superseded_cons {maxLogs limit log first : Nat} {logs : List Nat} (h : first < log) :
    Superseded maxLogs limit (first :: logs) log ↔ Superseded maxLogs limit logs log := by
  rw [Superseded, Superseded, countP_cons_of_neg (by simpa using h),
    countP_cons_of_neg (by simp; omega)]

/-- A name before `checkpoint` does not count for it. -/
theorem surplus_cons {maxCheckpoints checkpoint first : Nat} {checkpoints : List Nat}
    (h : first < checkpoint) :
    Surplus maxCheckpoints (first :: checkpoints) checkpoint ↔
      Surplus maxCheckpoints checkpoints checkpoint := by
  rw [Surplus, Surplus, countP_cons_of_neg (by simpa using h)]

/-- The planned logs are those that are superseded. -/
theorem mem_planLogs {maxLogs limit log : Nat} {logs : List Nat} (h : logs.Pairwise (· ≤ ·)) :
    log ∈ planLogs maxLogs limit logs ↔ log ∈ logs ∧ Superseded maxLogs limit logs log := by
  induction logs with
  | nil => simp [planLogs]
  | cons first logs ih =>
    cases logs with
    | nil =>
      rw [planLogs]
      refine iff_of_false not_mem_nil ?_
      rintro ⟨-, -, hwithin⟩
      exact absurd (hwithin.trans_le countP_le_length) (by simp)
    | cons next rest =>
      have htail := Pairwise.of_cons h
      have hnext : first ≤ next := rel_of_pairwise_cons h mem_cons_self
      rw [planLogs]
      by_cases hgo : maxLogs < (first :: next :: rest).length ∧ next ≤ limit
      · rw [if_pos hgo, mem_cons, ih htail]
        by_cases heq : log = first
        · subst heq
          refine iff_of_true (.inl rfl) ⟨mem_cons_self, ?_, ?_⟩
          · rw [countP_head h]
            exact hgo.1
          · rw [countP_cons_of_pos (by simp; omega), countP_cons_of_pos (by simp; omega)]
            omega
        · rw [or_iff_right heq, show log ∈ first :: next :: rest ↔ log ∈ next :: rest by simp [heq]]
          apply and_congr_right
          intro hmem
          have hle : next ≤ log := by
            rcases mem_cons.mp hmem with rfl | hmem
            · exact le_rfl
            · exact rel_of_pairwise_cons htail hmem
          exact (superseded_cons (by omega)).symm
      · rw [if_neg hgo]
        refine iff_of_false not_mem_nil ?_
        rintro ⟨hmem, hfrom, hwithin⟩
        rw [not_and_or, not_lt, not_le] at hgo
        rcases hgo with hfew | hbehind
        · have := @countP_le_length _ (decide <| log ≤ ·) (first :: next :: rest)
          omega
        · -- Only the first log can be up to the limit.
          have hzero :
              (next :: rest).countP (fun n => decide (log ≤ n) && decide (n ≤ limit)) = 0 := by
            rw [countP_eq_zero]
            intro n hn
            have hge : next ≤ n := by
              rcases mem_cons.mp hn with rfl | hn
              · exact le_rfl
              · exact rel_of_pairwise_cons htail hn
            simp
            omega
          rw [countP_cons, hzero] at hwithin
          split at hwithin <;> omega

/-- The planned checkpoints are those that are surplus. -/
theorem mem_planCheckpoints {maxCheckpoints checkpoint : Nat} {checkpoints : List Nat}
    (h : checkpoints.Pairwise (· ≤ ·)) :
    checkpoint ∈ checkpoints.take (checkpoints.length - maxCheckpoints) ↔
      checkpoint ∈ checkpoints ∧ Surplus maxCheckpoints checkpoints checkpoint := by
  induction checkpoints with
  | nil => simp
  | cons first rest ih =>
    have htail := Pairwise.of_cons h
    rcases lt_or_ge maxCheckpoints (first :: rest).length with hmany | hfew
    · obtain ⟨k, hk⟩ : ∃ k, (first :: rest).length - maxCheckpoints = k + 1 :=
        ⟨(first :: rest).length - maxCheckpoints - 1, by omega⟩
      have hk' : rest.length - maxCheckpoints = k := by
        rw [length_cons] at hk
        omega
      rw [hk, take_succ_cons, mem_cons, ← hk', ih htail, mem_cons]
      by_cases heq : checkpoint = first
      · subst heq
        refine iff_of_true (.inl rfl) ⟨.inl rfl, ?_⟩
        rw [Surplus, countP_head h]
        exact hmany
      · rw [or_iff_right heq, or_iff_right heq]
        apply and_congr_right
        intro hmem
        have hle : first ≤ checkpoint := rel_of_pairwise_cons h hmem
        exact (surplus_cons (by omega)).symm
    · rw [Nat.sub_eq_zero_of_le hfew, take_zero]
      refine iff_of_false not_mem_nil ?_
      rintro ⟨-, hsurplus⟩
      have := @countP_le_length _ (decide <| checkpoint ≤ ·) (first :: rest)
      rw [Surplus] at hsurplus
      omega

/-! ## Numbers of files -/

/-- A printed number starts with a digit. -/
theorem digits_head (n : Nat) :
    ∃ d tail, d < 10 ∧ digits n = UInt8.ofNat d.digitChar.toNat :: tail := by
  rcases Nat.eq_zero_or_pos n with rfl | hpos
  · exact ⟨0, [], by decide, rfl⟩
  · obtain ⟨d, tail, -, hd, heq⟩ := toDigits_head hpos
    exact ⟨d, tail.map fun c => UInt8.ofNat c.toNat, hd, by rw [digits, heq, map_cons]⟩

section Names

variable {ext : Bytes} {n : Nat}

/-- A printed number is read to its end, whatever follows that is no digit. -/
theorem leadingNumber_digits {rest : Bytes} (hn : n < 18446744073709551616)
    (hrest : readDigits 10 n false rest = (n, false, rest)) :
    leadingNumber (digits n ++ rest) = some (n, false) := by
  have hread : readDigits 10 0 false (digits n ++ rest) = (n, false, rest) := by
    rw [digits, readDigits_toDigits n hn, hrest]
  obtain ⟨d, tail, hd, heq⟩ := digits_head n
  rw [heq, cons_append] at hread ⊢
  rw [leadingNumber, toDigit_digitChar hd, hread]
  rfl

theorem hasExt_fileName (ext : Bytes) (n : Nat) : hasExt ext (fileName ext n) = true := by
  obtain ⟨d, tail, hd, heq⟩ := digits_head n
  have hdot : UInt8.ofNat d.digitChar.toNat ≠ 46 := by interval_cases d <;> decide
  rw [hasExt, Bool.and_eq_true, isSuffixOf_iff_suffix]
  refine ⟨?_, suffix_append _ _⟩
  rw [fileName, heq, cons_append, head?_cons]
  simpa using hdot

/-- The C++ reads the number of a file off its name. -/
theorem sscanf_fileName (hn : n < 18446744073709551616) :
    sscanf (fileName ext n) = some n := by
  have hlead : leadingNumber (digits n ++ 46 :: ext) = some (n, false) :=
    leadingNumber_digits hn rfl
  obtain ⟨d, tail, hd, heq⟩ := digits_head n
  obtain ⟨hspace, hsign, -⟩ := first_digit hd (tail ++ 46 :: ext)
  rw [heq, cons_append] at hlead
  rw [sscanf, fileName, heq, cons_append, hspace, hsign]
  simp only [hlead]
  rfl

/-- The Rust reads the number of a file off its name. -/
theorem parseNumberedName_fileName (hn : n < 18446744073709551616) :
    parseNumberedName ext (fileName ext n) = some n := by
  have hlead : leadingNumber (digits n ++ []) = some (n, false) := leadingNumber_digits hn rfl
  have htake : (fileName ext n).take ((fileName ext n).length - (ext.length + 1)) = digits n := by
    rw [fileName, length_append, length_cons, Nat.add_sub_cancel]
    exact take_left
  rw [append_nil] at hlead
  rw [parseNumberedName, htake, hlead]
  rfl

/-- No log has the name of a checkpoint. -/
theorem fileName_log_ne_codex (n m : Nat) : fileName logExt n ≠ fileName codexExt m := by
  intro h
  have := congrArg getLast? h
  simp [fileName, logExt, codexExt] at this

/-- Only a letter has another one in lower case. -/
theorem lower_eq {b : UInt8} (h : lower b < 65) : lower b = b := by
  rw [lower] at h ⊢
  split_ifs at h ⊢ with hupper
  · simp only [UInt8.lt_iff_toNat_lt, UInt8.le_iff_toNat_le, UInt8.toNat_add] at h hupper
    simp at h hupper
    omega
  · rfl

theorem digits_lt {b : UInt8} (h : b ∈ digits n) : b < 65 := by
  obtain ⟨c, hc, rfl⟩ := mem_map.mp h
  have hdigit := Nat.isDigit_of_mem_toDigits (by decide) (by decide) hc
  simp only [Char.isDigit, Bool.and_eq_true, decide_eq_true_eq, UInt32.le_iff_toNat_le] at hdigit
  change c.toNat ≥ 48 ∧ c.toNat ≤ 57 at hdigit
  rw [UInt8.lt_iff_toNat_lt, UInt8.toNat_ofNat']
  simp
  omega

/-- A file with the name of a number up to the case of its letters: only the extension has
letters. -/
theorem exists_fileName_of_lower {name : Name} (h : name.map lower = fileName ext n) :
    ∃ ext', name = fileName ext' n := by
  obtain ⟨number, rest, rfl, hnumber, hrest⟩ := map_eq_append_iff.mp h
  obtain ⟨dot, ext', rfl, hdot, -⟩ := map_eq_cons_iff.mp hrest
  have hlower : ∀ b ∈ number, lower b = b := by
    intro b hb
    exact lower_eq (digits_lt (hnumber ▸ mem_map_of_mem hb : lower b ∈ digits n))
  have hdot' : dot = 46 := by
    rw [← hdot]
    exact (lower_eq (by rw [hdot]; decide)).symm
  refine ⟨ext', ?_⟩
  rw [fileName, ← hnumber, map_congr_left hlower, map_id', hdot']

end Names

/-! ## Views of a directory -/

namespace View

variable {ε : Type}

/-- A file's own name is listed with its number, and is not one of a log and of a checkpoint at
once. -/
structure Lawful (view : View ε) : Prop where
  lists_own : ∀ ext n file, view.own ext n file = true → view.lists ext file = true
  read_own : ∀ ext n file, view.own ext n file = true → view.read ext file = some n
  log_or_codex : ∀ n m file, view.own logExt n file = true → view.own codexExt m file = false

/-- The number of a file that is listed. -/
def number (view : View ε) (ext : Bytes) (file : ε) : Option Nat :=
  if view.lists ext file then view.read ext file else none

/-- Every file that is listed gives a number. -/
def Readable (view : View ε) (files : List ε) : Prop :=
  ∀ ext ∈ [logExt, codexExt], ∀ file ∈ files, view.lists ext file = true →
    (view.read ext file).isSome = true

/-- How many files with the extension have such a number. -/
def count (view : View ε) (ext : Bytes) (p : Nat → Bool) (files : List ε) : Nat :=
  files.countP fun file => (view.number ext file).any p

/-- The directory holds the file that is meant by a number. -/
def Real (view : View ε) (ext : Bytes) (n : Nat) (files : List ε) : Prop :=
  ∃ file ∈ files, view.own ext n file = true

/-- The least number of a file that is listed as a checkpoint. -/
def Oldest (view : View ε) (oldest : Nat) (files : List ε) : Prop :=
  (∃ file ∈ files, view.number codexExt file = some oldest) ∧
    ∀ file ∈ files, ∀ n, view.number codexExt file = some n → oldest ≤ n

variable {view : View ε} {ext : Bytes} {files : List ε} {ns : List Nat} {n : Nat}

/-- Reading all of some files gives a number for each, or nothing. -/
theorem mapM_read (view : View ε) (ext : Bytes) (files : List ε) :
    (files.filter (view.lists ext)).mapM (view.read ext) =
      if ∀ file ∈ files, view.lists ext file = true → (view.read ext file).isSome = true then
        some (files.filterMap (view.number ext))
      else none := by
  induction files with
  | nil => rfl
  | cons file files ih =>
    by_cases hlists : view.lists ext file = true
    · rw [filter_cons_of_pos hlists, mapM_cons, ih, filterMap_cons, number, if_pos hlists]
      cases hread : view.read ext file with
      | none => simp [hlists, hread]
      | some n =>
        simp only [forall_mem_cons, hread, Option.isSome_some, imp_true_iff, true_and]
        split_ifs <;> rfl
    · rw [filter_cons_of_neg hlists, ih, filterMap_cons, number, if_neg hlists]
      simp [hlists]

/-- The numbers that a cleanup sorts are those of the files. -/
theorem numbers_eq_some (h : view.numbers ext files = some ns) :
    ns.Pairwise (· ≤ ·) ∧ (∀ n, n ∈ ns ↔ ∃ file ∈ files, view.number ext file = some n) ∧
      ∀ p, ns.countP p = view.count ext p files := by
  obtain ⟨raw, hraw, rfl⟩ := Option.map_eq_some_iff.mp h
  rw [mapM_read] at hraw
  split_ifs at hraw
  obtain rfl := Option.some.inj hraw
  refine ⟨pairwise_insertionSort _ _, ?_, ?_⟩
  · intro n
    rw [mem_insertionSort, mem_filterMap]
  · intro p
    rw [(perm_insertionSort _ _).countP_eq, countP_filterMap, count]
    apply countP_congr
    intro file _
    cases view.number ext file <;> simp

theorem numbers_isSome_iff : (view.numbers ext files).isSome = true ↔
    ∀ file ∈ files, view.lists ext file = true → (view.read ext file).isSome = true := by
  rw [numbers, mapM_read, Option.isSome_map]
  split_ifs with h
  · exact iff_of_true rfl h
  · exact iff_of_false Bool.false_ne_true h

/-- Both kinds of files are read, or one of them is not. -/
theorem numbers_cases (view : View ε) (files : List ε) :
    (¬ view.Readable files ∧
        (view.numbers logExt files = none ∨ view.numbers codexExt files = none)) ∨
      (view.Readable files ∧ ∃ logs checkpoints, view.numbers logExt files = some logs ∧
        view.numbers codexExt files = some checkpoints) := by
  have hreadable : view.Readable files ↔
      (view.numbers logExt files).isSome = true ∧ (view.numbers codexExt files).isSome = true := by
    rw [numbers_isSome_iff, numbers_isSome_iff]
    simp [Readable]
  rw [hreadable]
  cases view.numbers logExt files <;> cases view.numbers codexExt files <;> simp

theorem Lawful.number_own (hview : view.Lawful) {file : ε} (h : view.own ext n file = true) :
    view.number ext file = some n := by
  rw [number, if_pos (hview.lists_own ext n file h), hview.read_own ext n file h]

theorem Lawful.own_inj (hview : view.Lawful) {m : Nat} {file : ε} (hn : view.own ext n file = true)
    (hm : view.own ext m file = true) : n = m :=
  Option.some.inj ((hview.read_own ext n file hn).symm.trans (hview.read_own ext m file hm))

end View

theorem windows_lawful : windows.Lawful where
  lists_own ext n entry h := by
    obtain ⟨-, hname⟩ := Bool.and_eq_true_iff.mp h
    have hname : entry.name.map lower = fileName ext n := beq_iff_eq.mp hname
    have hfile := hasExt_fileName ext n
    rw [← hname, hasExt, Bool.and_eq_true] at hfile
    have hhead : entry.name.head? ≠ some 46 := by
      intro hdot
      have := hfile.1
      rw [head?_map, hdot] at this
      exact absurd this (by decide)
    simp only [windows, DirEntry.hasExt, hfile.2, Bool.true_or, Bool.and_true]
    simpa using hhead
  read_own ext n entry h := by
    obtain ⟨hn, hname⟩ := Bool.and_eq_true_iff.mp h
    obtain ⟨ext', heq⟩ := exists_fileName_of_lower (beq_iff_eq.mp hname)
    show sscanf entry.name = some n
    rw [heq]
    exact sscanf_fileName (of_decide_eq_true hn)
  log_or_codex n m entry h := by
    obtain ⟨-, hname⟩ := Bool.and_eq_true_iff.mp h
    have hname : entry.name.map lower = fileName logExt n := beq_iff_eq.mp hname
    simp [windows, hname, fileName_log_ne_codex]

theorem exactNames_lawful : exactNames.Lawful where
  lists_own ext n name h := by
    obtain ⟨-, hname⟩ := Bool.and_eq_true_iff.mp h
    obtain rfl : name = fileName ext n := beq_iff_eq.mp hname
    exact hasExt_fileName ext n
  read_own ext n name h := by
    obtain ⟨hn, hname⟩ := Bool.and_eq_true_iff.mp h
    obtain rfl : name = fileName ext n := beq_iff_eq.mp hname
    exact parseNumberedName_fileName (of_decide_eq_true hn)
  log_or_codex n m name h := by
    obtain ⟨-, hname⟩ := Bool.and_eq_true_iff.mp h
    obtain rfl : name = fileName logExt n := beq_iff_eq.mp hname
    simp [exactNames, fileName_log_ne_codex]

/-! ## What stays -/

namespace View

variable {ε : Type}

/-- The log is needed to replay from the decree after the checkpoint on: no later log starts by
then. -/
def Needed (view : View ε) (checkpoint log : Nat) (files : List ε) : Prop :=
  view.Real logExt log files ∧
    ∀ next, view.Real logExt next files → log < next → checkpoint + 1 < next

/-- The checkpoint is the newest one. -/
def Newest (view : View ε) (checkpoint : Nat) (files : List ε) : Prop :=
  view.Real codexExt checkpoint files ∧
    ∀ other, view.Real codexExt other files → other ≤ checkpoint

/-- The replica can still start from `after`, which is left of `files`, and use the logs it has
listed. -/
structure Kept (view : View ε) (files after : List ε) (listed : List Nat) : Prop where
  replay : ∀ checkpoint, view.Real codexExt checkpoint after →
    ∀ log, view.Needed checkpoint log files → view.Real logExt log after
  listed : ∀ log ∈ listed, view.Real logExt log files → view.Real logExt log after
  newest : ∀ checkpoint, view.Newest checkpoint files → view.Real codexExt checkpoint after

/-- Whichever of the planned deletions are carried out, the replica can start. -/
def Startable (view : View ε) (files : List ε) (listed : List Nat) : Outcome → Prop
  | .nothing => True
  | .undefined => False
  | .planned plan => ∀ done : CleanupPlan, done.checkpoints ⊆ plan.checkpoints →
      done.logs ⊆ plan.logs → view.Kept files (view.remaining files done) listed

/-- A log that the replica needs: it is in use, or a checkpoint needs it for replay. -/
def Wanted (view : View ε) (files : List ε) (inUse : Nat → Prop) (log : Nat) : Prop :=
  view.Real logExt log files ∧
    (inUse log ∨ ∃ checkpoint, view.Real codexExt checkpoint files ∧
      view.Needed checkpoint log files)

/-- The condition on a directory. For a log that is needed there are no more than `maxLogs` log
files with a number from its own on, or no second one that starts by the decree after the oldest
checkpoint; and no more than `maxCheckpoints` checkpoint files have a number from the newest one's
on. -/
structure Spares (view : View ε) (retention : Retention) (files : List ε) (inUse : Nat → Prop) :
    Prop where
  logs : ∀ oldest, view.Oldest oldest files → ∀ log, view.Wanted files inUse log →
    view.count logExt (log ≤ ·) files ≤ retention.maxLogs ∨
      view.count logExt (fun n => log ≤ n && n ≤ afterOldest oldest) files ≤ 1
  checkpoints : ∀ checkpoint, view.Newest checkpoint files →
    view.count codexExt (checkpoint ≤ ·) files ≤ retention.maxCheckpoints

/-- There is a checkpoint to compare the logs with, or no log too many. -/
def Compares (view : View ε) (retention : Retention) (files : List ε) : Prop :=
  (∃ file ∈ files, (view.number codexExt file).isSome = true) ∨
    view.count logExt (fun _ => true) files ≤ retention.maxLogs

variable {view : View ε} {files : List ε} {done planned : CleanupPlan} {n : Nat} {listed : List Nat}
  {inUse : Nat → Prop} {retention : Retention} {logs checkpoints : List Nat}

theorem real_log_remaining (hview : view.Lawful) :
    view.Real logExt n (view.remaining files done) ↔
      view.Real logExt n files ∧ n ∉ done.logs := by
  constructor
  · rintro ⟨file, hmem, hown⟩
    obtain ⟨hmem, hleft⟩ := mem_filter.mp hmem
    refine ⟨⟨file, hmem, hown⟩, fun hlog => ?_⟩
    have hdeleted : done.logs.any (fun n => view.own logExt n file) = true :=
      any_eq_true.mpr ⟨n, hlog, hown⟩
    simp [hdeleted] at hleft
  · rintro ⟨⟨file, hmem, hown⟩, hlog⟩
    refine ⟨file, mem_filter.mpr ⟨hmem, ?_⟩, hown⟩
    simp only [Bool.and_eq_true, Bool.not_eq_true', any_eq_false, Bool.not_eq_true]
    refine ⟨fun m _ => hview.log_or_codex n m file hown, fun m hm => ?_⟩
    exact Bool.eq_false_iff.mpr fun hother => hlog (hview.own_inj hown hother ▸ hm)

theorem real_codex_remaining (hview : view.Lawful) :
    view.Real codexExt n (view.remaining files done) ↔
      view.Real codexExt n files ∧ n ∉ done.checkpoints := by
  constructor
  · rintro ⟨file, hmem, hown⟩
    obtain ⟨hmem, hleft⟩ := mem_filter.mp hmem
    refine ⟨⟨file, hmem, hown⟩, fun hcheckpoint => ?_⟩
    have hdeleted : done.checkpoints.any (fun n => view.own codexExt n file) = true :=
      any_eq_true.mpr ⟨n, hcheckpoint, hown⟩
    simp [hdeleted] at hleft
  · rintro ⟨⟨file, hmem, hown⟩, hcheckpoint⟩
    refine ⟨file, mem_filter.mpr ⟨hmem, ?_⟩, hown⟩
    simp only [Bool.and_eq_true, Bool.not_eq_true', any_eq_false, Bool.not_eq_true]
    refine ⟨fun m hm => ?_, fun m _ => Bool.eq_false_iff.mpr fun hlog => ?_⟩
    · exact Bool.eq_false_iff.mpr fun hother => hcheckpoint (hview.own_inj hown hother ▸ hm)
    · exact Bool.false_ne_true ((hview.log_or_codex m n file hlog).symm.trans hown)

/-- The replica can start after any of the deletions exactly if none of them is a log that it needs
or the newest checkpoint. The logs alone may be deleted, so a planned checkpoint needs its logs as
well. -/
theorem startable_planned_iff (hview : view.Lawful) :
    view.Startable files listed (.planned planned) ↔
      (∀ log, view.Wanted files (· ∈ listed) log → log ∉ planned.logs) ∧
        ∀ checkpoint, view.Newest checkpoint files → checkpoint ∉ planned.checkpoints := by
  constructor
  · intro h
    have hlogs := h ⟨[], planned.logs⟩ (nil_subset _) (Subset.refl _)
    have hall := h planned (Subset.refl _) (Subset.refl _)
    constructor
    · rintro log ⟨hreal, hlisted | ⟨checkpoint, hcheckpoint, hneeded⟩⟩
      · exact ((real_log_remaining hview).mp (hall.listed log hlisted hreal)).2
      · have hleft : view.Real codexExt checkpoint (view.remaining files ⟨[], planned.logs⟩) :=
          (real_codex_remaining hview).mpr ⟨hcheckpoint, not_mem_nil⟩
        exact ((real_log_remaining hview).mp (hlogs.replay checkpoint hleft log hneeded)).2
    · intro checkpoint hnewest
      exact ((real_codex_remaining hview).mp (hall.newest checkpoint hnewest)).2
  · rintro ⟨hwanted, hnewest⟩ done hcheckpoints hlogs
    constructor
    · intro checkpoint hleft log hneeded
      have hreal := ((real_codex_remaining hview).mp hleft).1
      exact (real_log_remaining hview).mpr ⟨hneeded.1, fun hmem =>
        hwanted log ⟨hneeded.1, .inr ⟨checkpoint, hreal, hneeded⟩⟩ (hlogs hmem)⟩
    · intro log hlog hreal
      exact (real_log_remaining hview).mpr
        ⟨hreal, fun hmem => hwanted log ⟨hreal, .inl hlog⟩ (hlogs hmem)⟩
    · intro checkpoint hnew
      exact (real_codex_remaining hview).mpr
        ⟨hnew.1, fun hmem => hnewest checkpoint hnew (hcheckpoints hmem)⟩

section Plan

variable (hview : view.Lawful) (hlogs : view.numbers logExt files = some logs)
  (hcheckpoints : view.numbers codexExt files = some checkpoints)

include hcheckpoints in
/-- The first of the sorted numbers is the least one. -/
theorem oldest_iff (oldest : Nat) : oldest ∈ checkpoints.head? ↔ view.Oldest oldest files := by
  obtain ⟨hsorted, hmem, -⟩ := numbers_eq_some hcheckpoints
  constructor
  · intro hhead
    obtain ⟨rest, rfl⟩ := head?_eq_some_iff.mp (Option.mem_def.mp hhead)
    refine ⟨(hmem oldest).mp mem_cons_self, fun file hfile n hn => ?_⟩
    rcases mem_cons.mp ((hmem n).mpr ⟨file, hfile, hn⟩) with rfl | hrest
    · exact le_rfl
    · exact rel_of_pairwise_cons hsorted hrest
  · rintro ⟨hfound, hleast⟩
    cases checkpoints with
    | nil => exact absurd ((hmem oldest).mpr hfound) not_mem_nil
    | cons first rest =>
      obtain ⟨file, hfile, hfirst⟩ := (hmem first).mp mem_cons_self
      rcases mem_cons.mp ((hmem oldest).mpr hfound) with rfl | hrest
      · rfl
      · exact congrArg some (le_antisymm (rel_of_pairwise_cons hsorted hrest)
          (hleast file hfile first hfirst))

include hview hlogs hcheckpoints in
theorem mem_plan_logs (hreal : view.Real logExt n files) :
    n ∈ (plan retention logs checkpoints).logs ↔ ∃ oldest, view.Oldest oldest files ∧
      retention.maxLogs < view.count logExt (n ≤ ·) files ∧
      1 < view.count logExt (fun m => n ≤ m && m ≤ afterOldest oldest) files := by
  obtain ⟨hsorted, hmem, hcount⟩ := numbers_eq_some hlogs
  have hin : n ∈ logs := by
    obtain ⟨file, hfile, hown⟩ := hreal
    exact (hmem n).mpr ⟨file, hfile, hview.number_own hown⟩
  simp only [← oldest_iff hcheckpoints, ← hcount]
  cases checkpoints with
  | nil => simp [plan]
  | cons oldest rest =>
    have hplanned : n ∈ planLogs retention.maxLogs (afterOldest oldest) logs ↔ _ :=
      mem_planLogs hsorted
    simp only [plan, head?_cons, Option.mem_some_iff, exists_eq_left', hplanned]
    exact and_iff_right hin

include hview hcheckpoints in
theorem mem_plan_checkpoints (hreal : view.Real codexExt n files) :
    n ∈ (plan retention logs checkpoints).checkpoints ↔
      retention.maxCheckpoints < view.count codexExt (n ≤ ·) files := by
  obtain ⟨hsorted, hmem, hcount⟩ := numbers_eq_some hcheckpoints
  obtain ⟨file, hfile, hown⟩ := hreal
  rw [← hcount]
  refine (mem_planCheckpoints hsorted).trans (and_iff_right ?_)
  exact (hmem n).mpr ⟨file, hfile, hview.number_own hown⟩

include hview hlogs hcheckpoints in
/-- A plan made of the numbers of a directory leaves the replica startable exactly if the directory
meets the condition. -/
theorem startable_plan_iff (hinUse : ∀ log, log ∈ listed ↔ inUse log) :
    view.Startable files listed (.planned (plan retention logs checkpoints)) ↔
      view.Spares retention files inUse := by
  obtain rfl : inUse = (· ∈ listed) := funext fun log => propext (hinUse log).symm
  rw [startable_planned_iff hview]
  constructor
  · rintro ⟨hwanted, hnewest⟩
    refine ⟨fun oldest holdest log hlog => ?_, fun checkpoint hnew => ?_⟩
    · by_contra hnot
      rw [not_or, not_le, not_le] at hnot
      exact hwanted log hlog
        ((mem_plan_logs hview hlogs hcheckpoints hlog.1).mpr ⟨oldest, holdest, hnot⟩)
    · by_contra hmany
      exact hnewest checkpoint hnew
        ((mem_plan_checkpoints hview hcheckpoints hnew.1).mpr (not_le.mp hmany))
  · intro h
    refine ⟨fun log hlog hmem => ?_, fun checkpoint hnew hmem => ?_⟩
    · obtain ⟨oldest, holdest, hmany, htwo⟩ :=
        (mem_plan_logs hview hlogs hcheckpoints hlog.1).mp hmem
      rcases h.logs oldest holdest log hlog with hfew | hone
      · omega
      · omega
    · have hmany := (mem_plan_checkpoints hview hcheckpoints hnew.1).mp hmem
      have hfew := h.checkpoints checkpoint hnew
      omega

include hlogs hcheckpoints in
theorem compares_iff : view.Compares retention files ↔
    ¬ (checkpoints = [] ∧ retention.maxLogs < logs.length) := by
  obtain ⟨-, hmem, -⟩ := numbers_eq_some hcheckpoints
  obtain ⟨-, -, hcount⟩ := numbers_eq_some hlogs
  rw [Compares, ← hcount, countP_true, not_and_or, not_lt]
  refine or_congr_left ?_
  rw [eq_nil_iff_forall_not_mem, not_forall_not]
  constructor
  · rintro ⟨file, hfile, hsome⟩
    obtain ⟨n, hn⟩ := Option.isSome_iff_exists.mp hsome
    exact ⟨n, (hmem n).mpr ⟨file, hfile, hn⟩⟩
  · rintro ⟨n, hn⟩
    obtain ⟨file, hfile, hnumber⟩ := (hmem n).mp hn
    exact ⟨file, hfile, Option.isSome_iff_exists.mpr ⟨n, hnumber⟩⟩

end Plan

end View

/-! ## Both cleanups -/

/-- A log in memory that the C++ cleanup leaves there: it, or a log before it, has no next one that
starts by the decree after `minDecree`. -/
def InUse (minDecree : Nat) (logFiles : List LogFile) (number : Nat) : Prop :=
  ∃ i file, logFiles[i]? = some file ∧ file.number = number ∧
    ∃ j ≤ i, ∀ next, logFiles[j + 1]? = some next → afterOldest minDecree < next.minDecree

theorem mem_trim_iff {minDecree number : Nat} {logFiles : List LogFile} :
    number ∈ (trim minDecree logFiles).map (·.number) ↔ InUse minDecree logFiles number := by
  induction logFiles with
  | nil => simp [trim, InUse]
  | cons first logFiles ih =>
    cases logFiles with
    | nil =>
      have hone : ∀ {i : Nat} {file : LogFile}, [first][i]? = some file → first = file := by
        intro i file hi
        cases i with
        | zero => exact Option.some.inj hi
        | succ i => cases hi
      constructor
      · intro hmem
        have heq : number = first.number := by simpa [trim] using hmem
        exact ⟨0, first, rfl, heq.symm, 0, le_rfl, fun next hnext => by cases hnext⟩
      · rintro ⟨i, file, hi, rfl, -⟩
        simp [trim, hone hi]
    | cons second rest =>
      rw [trim]
      split_ifs with hdrop
      · rw [ih]
        constructor
        · rintro ⟨i, file, hi, hnumber, j, hj, hnext⟩
          exact ⟨i + 1, file, hi, hnumber, j + 1, Nat.succ_le_succ hj, hnext⟩
        · rintro ⟨i, file, hi, hnumber, j, hj, hnext⟩
          cases j with
          | zero => exact absurd (hnext second rfl) (not_lt.mpr hdrop)
          | succ j =>
            obtain ⟨i, rfl⟩ := Nat.exists_eq_succ_of_ne_zero (Nat.ne_zero_of_lt hj)
            exact ⟨i, file, hi, hnumber, j, Nat.le_of_succ_le_succ hj, hnext⟩
      · rw [mem_map]
        constructor
        · rintro ⟨file, hmem, hnumber⟩
          obtain ⟨i, hi⟩ := mem_iff_getElem?.mp hmem
          refine ⟨i, file, hi, hnumber, 0, Nat.zero_le i, fun next hnext => ?_⟩
          obtain rfl := Option.some.inj hnext
          exact not_le.mp hdrop
        · rintro ⟨i, file, hi, hnumber, -⟩
          exact ⟨file, mem_iff_getElem?.mpr ⟨i, hi⟩, hnumber⟩

variable {retention : Retention}

/-- `CleanupLogsAndCheckpoint` leaves the replica startable exactly if one of the files gives no
number, or it reads no checkpoint out of none and the directory meets the condition. -/
theorem cleanupLogsAndCheckpoint_startable_iff {entries : List DirEntry} {minDecree : Nat}
    {logFiles : List LogFile} :
    windows.Startable entries ((trim minDecree logFiles).map (·.number))
        (cleanupLogsAndCheckpoint retention entries) ↔
      (windows.Readable entries → windows.Compares retention entries ∧
        windows.Spares retention entries (InUse minDecree logFiles)) := by
  rw [cleanupLogsAndCheckpoint, getFileNumbers, getFileNumbers]
  rcases windows.numbers_cases entries with ⟨hnot, hnone⟩ | ⟨hreadable, logs, checkpoints, hl, hc⟩
  · refine iff_of_true ?_ fun h => absurd h hnot
    cases hc : windows.numbers codexExt entries with
    | none => trivial
    | some checkpoints =>
      rw [hnone.resolve_right (by simp [hc])]
      trivial
  · have hcompares : windows.Compares retention entries ↔ _ := View.compares_iff hl hc
    rw [hl, hc, hcompares]
    simp only [hreadable, true_imp_iff, cleanupPlan]
    split_ifs with hread
    · exact iff_of_false id fun h => h.1 hread
    · exact (View.startable_plan_iff windows_lawful hl hc fun _ => mem_trim_iff).trans
        (and_iff_right hread).symm

/-- `cleanup` leaves the replica startable exactly if one of the files gives no number or the
directory meets the condition. -/
theorem cleanup_startable_iff {names : List Name} {listed : List Nat} :
    exactNames.Startable names listed (cleanup retention names) ↔
      (exactNames.Readable names → exactNames.Spares retention names (· ∈ listed)) := by
  rw [cleanup, scan]
  rcases exactNames.numbers_cases names with ⟨hnot, hnone⟩ | ⟨hreadable, logs, checkpoints, hl, hc⟩
  · refine iff_of_true ?_ fun h => absurd h hnot
    cases hl : exactNames.numbers logExt names with
    | none => trivial
    | some logs =>
      rw [hnone.resolve_left (by simp [hl])]
      trivial
  · simp only [hl, hc, hreadable, true_imp_iff]
    exact View.startable_plan_iff exactNames_lawful hl hc fun _ => Iff.rfl

/-- A checkpoint, and a copy of it under a name that starts with the same number. -/
def copiedCheckpoint : List Name := [fileName codexExt 12, digits 12 ++ 120 :: 46 :: codexExt]

/-- The same on a file system that does not tell upper from lower case, the copy in upper case. -/
def copiedEntries : List DirEntry :=
  [⟨fileName codexExt 12, none⟩, ⟨digits 12 ++ [88, 46, 67, 79, 68, 69, 88], none⟩]

/-- A checkpoint is the newest one when no file has a greater number. -/
theorem View.Lawful.newest {ε : Type} {view : View ε} (hview : view.Lawful) {files : List ε}
    {checkpoint : Nat} (hreal : files.any (view.own codexExt checkpoint) = true)
    (h : files.all (fun file => (view.read codexExt file).all (· ≤ checkpoint)) = true) :
    view.Newest checkpoint files := by
  refine ⟨any_eq_true.mp hreal, ?_⟩
  rintro other ⟨file, hfile, hown⟩
  have hle := all_eq_true.mp h file hfile
  rw [hview.read_own codexExt other file hown] at hle
  exact of_decide_eq_true hle

/-- Every name with the extension is a file's own, and no name stands twice. -/
structure OwnNames (ext : Bytes) (names : List Name) : Prop where
  nodup : names.Nodup
  own : ∀ name ∈ names, hasExt ext name = true →
    ∃ n, n < 18446744073709551616 ∧ name = fileName ext n

variable {ext : Bytes} {names : List Name}

/-- A number among those of own names is that of a file. -/
theorem OwnNames.eq_fileName (h : OwnNames ext names) {name : Name} {n : Nat} (hname : name ∈ names)
    (hnumber : exactNames.number ext name = some n) :
    name = fileName ext n ∧ exactNames.Real ext n names := by
  rw [View.number] at hnumber
  split_ifs at hnumber with hext
  obtain ⟨m, hm, rfl⟩ := h.own name hname hext
  have hread : exactNames.read ext (fileName ext m) = some m := parseNumberedName_fileName hm
  obtain rfl := Option.some.inj (hread.symm.trans hnumber)
  exact ⟨rfl, fileName ext m, hname, by simp [exactNames, isU64, hm]⟩

/-- At most one of the own names has a given number. -/
theorem OwnNames.count_le_one (h : OwnNames ext names) {p : Nat → Bool} {a : Nat}
    (hp : ∀ n, exactNames.Real ext n names → p n = true → n = a) :
    exactNames.count ext p names ≤ 1 := by
  calc exactNames.count ext p names
      ≤ names.countP (· == fileName ext a) := by
        apply countP_mono_left
        intro name hname hany
        obtain ⟨n, hnumber, hpn⟩ := (Option.any_eq_true _ _).mp hany
        obtain ⟨heq, hreal⟩ := h.eq_fileName hname hnumber
        rw [heq, hp n hreal hpn, beq_self_eq_true]
    _ ≤ 1 := nodup_iff_count_le_one.mp h.nodup _

/-- A cleanup of a directory of own names keeps the replica startable, as long as no log is in
use. -/
theorem cleanup_startable_of_own
    (hlogs : OwnNames logExt names) (hcheckpoints : OwnNames codexExt names) :
    exactNames.Startable names [] (cleanup retention names) := by
  rw [cleanup_startable_iff]
  intro _
  constructor
  · rintro oldest ⟨-, hleast⟩ log ⟨-, hlisted | ⟨checkpoint, hreal, hneeded⟩⟩
    · exact absurd hlisted not_mem_nil
    · -- the next log of the replica starts too late for the oldest checkpoint
      refine .inr (hlogs.count_le_one (a := log) fun n hn hp => ?_)
      simp only [Bool.and_eq_true, decide_eq_true_eq] at hp
      obtain ⟨file, hfile, hown⟩ := hreal
      have hle := hleast file hfile checkpoint (exactNames_lawful.number_own hown)
      by_contra hne
      have hnext := hneeded.2 n hn (by omega)
      have hlimit : afterOldest oldest ≤ oldest + 1 := Nat.mod_le _ _
      omega
  · intro checkpoint hnewest
    refine (hcheckpoints.count_le_one (a := checkpoint) fun n hn hp => ?_).trans
      retention.checkpoints_pos
    exact le_antisymm (hnewest.2 n hn) (of_decide_eq_true hp)

/-- Three logs and two checkpoints. -/
def ownFiles : List Name := [1, 5, 9].map (fileName logExt) ++ [4, 8].map (fileName codexExt)

/-- With one log and one checkpoint to keep, the oldest of both go: the log of decree 5 stays for
the checkpoint of decree 4, which may be left behind. -/
theorem cleanup_startable_threeLogs :
    cleanup ⟨1, 1, by decide, by decide⟩ ownFiles = .planned ⟨[4], [1]⟩ ∧
      exactNames.Startable ownFiles [] (cleanup ⟨1, 1, by decide, by decide⟩ ownFiles) := by
  have hnodup : ownFiles.Nodup := by decide +kernel
  refine ⟨by decide +kernel, cleanup_startable_of_own ⟨hnodup, ?_⟩ ⟨hnodup, ?_⟩⟩
  · have hall : ∀ name ∈ ownFiles, hasExt logExt name = true →
        ∃ n ∈ [1, 5, 9], name = fileName logExt n := by decide +kernel
    intro name hname hext
    obtain ⟨n, hn, heq⟩ := hall name hname hext
    exact ⟨n, (by decide : ∀ n ∈ [1, 5, 9], n < 18446744073709551616) n hn, heq⟩
  · have hall : ∀ name ∈ ownFiles, hasExt codexExt name = true →
        ∃ n ∈ [4, 8], name = fileName codexExt n := by decide +kernel
    intro name hname hext
    obtain ⟨n, hn, heq⟩ := hall name hname hext
    exact ⟨n, (by decide : ∀ n ∈ [4, 8], n < 18446744073709551616) n hn, heq⟩

end Rsl.Cleanup
