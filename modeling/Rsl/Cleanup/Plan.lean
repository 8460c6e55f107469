import Rsl.Wire.RoundTrip

/-!
# Cleaning up logs and checkpoints

`CleanupLogsAndCheckpoint` and `GetFileNumbers` of `legislator.cpp`, and `dir.rs` with `plan` of
`gc.rs`. Both read a number off the start of every name with the right extension, sort the numbers,
and plan deletions by number: the oldest checkpoints, and the oldest logs as long as enough of them
remain and the next one starts no later than the decree after the oldest checkpoint. What is deleted
for a number is the file whose name is that number and the extension. Names are not only those
files: others may begin with a number too.

The two see a directory differently (`View`). `FindFirstFileA` looks at the name and at the 8.3 name
of a file and does not tell upper from lower case, and `sscanf` skips blanks and a sign and gives
the greatest number for digits that overflow. The Rust compares names as they are, and takes digits
only. A name that gives no number ends the C++ process and makes the Rust scan fail; neither then
deletes anything.
-/

set_option autoImplicit false

namespace Rsl.Cleanup

open Wire

/-- The name of a file. -/
abbrev Name := Bytes

/-- The extension of logs. -/
def logExt : Bytes := [108, 111, 103]

/-- The extension of checkpoints. -/
def codexExt : Bytes := [99, 111, 100, 101, 120]

/-- A number as it is printed. -/
def digits (n : Nat) : Bytes := (Nat.toDigits 10 n).map fun c => UInt8.ofNat c.toNat

/-- `log_file_name` and `checkpoint_file_name`, which are printed with `%I64u.log` and
`%I64u.codex`. -/
def fileName (ext : Bytes) (decree : Nat) : Name := digits decree ++ 46 :: ext

/-- A number that a file name can hold. -/
def isU64 (n : Nat) : Bool := decide (n < 18446744073709551616)

/-- The name has the extension and does not start with a dot. -/
def hasExt (ext : Bytes) (name : Name) : Bool :=
  name.head? != some 46 && (46 :: ext).isSuffixOf name

/-- A letter in lower case; other bytes stay as they are. -/
def lower (b : UInt8) : UInt8 := if 65 ≤ b ∧ b ≤ 90 then b + 32 else b

/-- A file as `FindFirstFileA` finds it: its name, and its 8.3 name if it has another one. A file is
not opened by the latter here: those that the file system makes hold a tilde. -/
structure DirEntry where
  name : Name
  shortName : Option Name
  deriving DecidableEq, Repr

/-- `FindFirstFileA("*.ext")` finds the file by one of its names, and `GetFileNumbers` does not skip
it. -/
def DirEntry.hasExt (ext : Bytes) (entry : DirEntry) : Bool :=
  let found (name : Name) := (46 :: ext).isSuffixOf (name.map lower)
  entry.name.head? != some 46 && (found entry.name || entry.shortName.any found)

/-- The number that digits start with, and whether it overflowed. -/
def leadingNumber (text : Bytes) : Option (Nat × Bool) :=
  match text with
  | [] => none
  | b :: _ =>
    if (toDigit 10 b).isNone then none
    else some ((readDigits 10 0 false text).1, (readDigits 10 0 false text).2.1)

/-- `sscanf_s(name, "%I64u", &val)`. -/
def sscanf (name : Name) : Option Nat :=
  let (negative, text) := readSign (name.dropWhile isSpace)
  (leadingNumber text).map fun (n, overflow) =>
    if overflow then 18446744073709551615
    else if negative then (18446744073709551616 - n) % 18446744073709551616
    else n

/-- The number of `parse_numbered_name`, for a name with the extension. -/
def parseNumberedName (ext : Bytes) (name : Name) : Option Nat :=
  match leadingNumber (name.take (name.length - (ext.length + 1))) with
  | none => none
  | some (n, overflow) => if overflow then none else some n

/-- How the files of a directory look to a cleanup: those that it lists for an extension, the number
it reads off one of them, and the file that it means by a number. -/
structure View (ε : Type) where
  lists : Bytes → ε → Bool
  read : Bytes → ε → Option Nat
  own : Bytes → Nat → ε → Bool

/-- The files as the C++ sees them. -/
def windows : View DirEntry where
  lists := DirEntry.hasExt
  read _ entry := sscanf entry.name
  own ext n entry := isU64 n && entry.name.map lower == fileName ext n

/-- The files as the Rust sees them. -/
def exactNames : View Name where
  lists := hasExt
  read := parseNumberedName
  own ext n name := isU64 n && name == fileName ext n

/-- The numbers of the files with the extension, sorted; `none` when one of them gives no number. -/
def View.numbers {ε : Type} (view : View ε) (ext : Bytes) (files : List ε) : Option (List Nat) :=
  ((files.filter (view.lists ext)).mapM (view.read ext)).map (·.insertionSort (· ≤ ·))

/-- `GetFileNumbers`. -/
def getFileNumbers (ext : Bytes) (files : List DirEntry) : Option (List Nat) :=
  windows.numbers ext files

/-- `DataDir::scan`: the numbers of the logs and of the checkpoints. -/
def scan (names : List Name) : Option (List Nat × List Nat) := do
  let logs ← exactNames.numbers logExt names
  let checkpoints ← exactNames.numbers codexExt names
  return (logs, checkpoints)

/-- `Retention`. Both are at least one: the C++ asserts it. -/
structure Retention where
  maxCheckpoints : Nat
  maxLogs : Nat
  checkpoints_pos : 0 < maxCheckpoints
  logs_pos : 0 < maxLogs

/-- `CleanupPlan`. -/
structure CleanupPlan where
  checkpoints : List Nat
  logs : List Nat
  deriving DecidableEq, Repr

/-- The loop over the logs: the logs before one that is the last of too few, or whose next one
starts behind `limit`. -/
def planLogs (maxLogs limit : Nat) : List Nat → List Nat
  | [] => []
  | [_] => []
  | log :: next :: rest =>
    if maxLogs < (log :: next :: rest).length ∧ next ≤ limit then
      log :: planLogs maxLogs limit (next :: rest)
    else []

/-- The first decree that the oldest checkpoint does not hold, in 64 bits. -/
def afterOldest (oldest : Nat) : Nat := (oldest + 1) % 18446744073709551616

/-- `plan`. -/
def plan (retention : Retention) (logs checkpoints : List Nat) : CleanupPlan :=
  { checkpoints := checkpoints.take (checkpoints.length - retention.maxCheckpoints)
    logs :=
      match checkpoints with
      | [] => []
      | oldest :: _ => planLogs retention.maxLogs (afterOldest oldest) logs }

/-- The two loops of `CleanupLogsAndCheckpoint`; `none` when they read `checkpoints[0]` of no
checkpoints. -/
def cleanupPlan (retention : Retention) (logs checkpoints : List Nat) : Option CleanupPlan :=
  if checkpoints = [] ∧ retention.maxLogs < logs.length then none
  else some (plan retention logs checkpoints)

/-- What comes of a cleanup: it gives up before it plans, it reads past the end of a vector, or it
deletes what is planned. -/
inductive Outcome where
  | nothing
  | undefined
  | planned (plan : CleanupPlan)
  deriving DecidableEq, Repr

/-- What comes of a plan that is made of defined reads only. -/
def Outcome.ofPlan : Option CleanupPlan → Outcome
  | some plan => .planned plan
  | none => .undefined

/-- `CleanupLogsAndCheckpoint`, up to the deletions. -/
def cleanupLogsAndCheckpoint (retention : Retention) (files : List DirEntry) : Outcome :=
  match getFileNumbers codexExt files, getFileNumbers logExt files with
  | some checkpoints, some logs => .ofPlan (cleanupPlan retention logs checkpoints)
  | _, _ => .nothing

/-- `cleanup_with`, up to the deletions. -/
def cleanup (retention : Retention) (names : List Name) : Outcome :=
  match scan names with
  | some (logs, checkpoints) => .planned (plan retention logs checkpoints)
  | none => .nothing

/-- A `LogFile` in memory: the number in its name, and `m_minDecree`. -/
structure LogFile where
  number : Nat
  minDecree : Nat
  deriving DecidableEq, Repr

/-- The logs that the C++ cleanup leaves in `m_logFiles`. -/
def trim (minDecree : Nat) : List LogFile → List LogFile
  | first :: second :: rest =>
    if second.minDecree ≤ afterOldest minDecree then trim minDecree (second :: rest)
    else first :: second :: rest
  | logFiles => logFiles

/-- The files that are left when some deletions have been carried out. -/
def View.remaining {ε : Type} (view : View ε) (files : List ε) (done : CleanupPlan) : List ε :=
  files.filter fun file =>
    !(done.checkpoints.any fun n => view.own codexExt n file) &&
      !(done.logs.any fun n => view.own logExt n file)

end Rsl.Cleanup
