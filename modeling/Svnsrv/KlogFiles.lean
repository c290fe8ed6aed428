import Svnsrv.Lib.Files
import Svnsrv.Klog

/-!
# Log files

`Klogger` of klog.cc over the C streams. A log is written to one stream, and after
`MAX_LINE_NUMBER` records its file is renamed to a name made of the time and opened
again. Both writers hold the same mutex, so a call is one step. What a stream has
buffered counts as part of its file.
-/

namespace Svnsrv.Klog

open CText
set_option autoImplicit false

/-! ## Streams -/

inductive LogKind where
  | access
  | error
  deriving DecidableEq, Repr

/-- `FILE *`; the streams that `fopen` returns are numbered. -/
inductive FilePtr where
  | null
  | stdout
  | stderr
  | file (k : Nat)
  deriving DecidableEq, Repr

/-- What a file holds: bytes of no writer (what was there before, the message of `destroy`), and
the records of the logs, each log's numbered. -/
inductive Entry where
  | before (bytes : Bytes)
  | record (log : LogKind) (n : Nat) (bytes : Bytes)
  deriving DecidableEq, Repr

structure Klogger where
  infoFile_ : Bytes
  errorFile_ : Bytes
  logAccess : FilePtr
  logError : FilePtr
  accessCounts : UInt32
  errorCounts : UInt32

namespace Klogger

def constructed : Klogger := ⟨[], [], .stdout, .stdout, 0, 0⟩

def file (k : Klogger) : LogKind → Bytes
  | .access => k.infoFile_
  | .error => k.errorFile_

def stream (k : Klogger) : LogKind → FilePtr
  | .access => k.logAccess
  | .error => k.logError

def counts (k : Klogger) : LogKind → UInt32
  | .access => k.accessCounts
  | .error => k.errorCounts

def withFile (k : Klogger) (name : Bytes) : LogKind → Klogger
  | .access => { k with infoFile_ := name }
  | .error => { k with errorFile_ := name }

def withStream (k : Klogger) (p : FilePtr) : LogKind → Klogger
  | .access => { k with logAccess := p }
  | .error => { k with logError := p }

def count (k : Klogger) : LogKind → Klogger
  | .access => { k with accessCounts := k.accessCounts + 1 }
  | .error => { k with errorCounts := k.errorCounts + 1 }

end Klogger

/-- The process and the files. `closed` lists what `fclose` was given, `renamed` the renames
that succeeded, `written` the records of each log. -/
structure State where
  klogger : Klogger
  files : Files Bytes (List Entry)
  streams : List Nat
  closed : List FilePtr
  renamed : List (Bytes × Bytes)
  written : LogKind → List Bytes

/-- What `localtime` returns, with the day of the year. -/
structure DayTm extends Tm where
  tm_yday : Fin 366
  deriving DecidableEq, Repr

/-- What a call learns from the system if it rotates its log. -/
structure Turn where
  tm : DayTm
  renames : Bool
  opens : Bool
  deriving DecidableEq, Repr

namespace State

/-- `fopen(name, "a+")` -/
def fopen (s : State) (name : Bytes) (opens : Bool) : State × FilePtr :=
  if opens then
    let (files, i) := s.files.openOrCreate name []
    ({ s with files, streams := s.streams ++ [i] }, .file s.streams.length)
  else (s, .null)

/-- None is the use of a null pointer or of a stream that is closed. -/
def fclose (s : State) (p : FilePtr) : Option State :=
  if p = .null ∨ p ∈ s.closed then none else some { s with closed := s.closed ++ [p] }

def fwrite (s : State) (p : FilePtr) (e : Entry) : Option State :=
  if p = .null ∨ p ∈ s.closed then none
  else match p with
    | .file k => do
      let i ← s.streams[k]?
      return { s with files := s.files.put i (s.files.data i ++ [e]) }
    | _ => some s

def rename (s : State) (old new : Bytes) (renames : Bool) : State :=
  match if renames then s.files.rename old new else none with
  | some files => { s with files, renamed := s.renamed ++ [(old, new)] }
  | none => s

end State

/-! ## Klogger -/

def maxLineNumber : UInt32 := 50000

/-- `snprintf(newname, 4096, "%s.%d-%d-%d+%d.%d", ...)` -/
def newname (file : Bytes) (tm : DayTm) : Bytes :=
  (cString file ++ ascii "." ++ decimalInt (tm.tm_year + 1900) ++ ascii "-" ++
    decimal (tm.tm_mon.val + 1) ++ ascii "-" ++ decimal tm.tm_yday ++ ascii "+" ++
    decimal tm.tm_hour ++ ascii "." ++ decimal tm.tm_min).take 4095

namespace State

/-- What `RollingFileA` and `RollingFileE` share; `std` is the stream that is left alone. -/
def rolling (s : State) (log : LogKind) (std : FilePtr) (t : Turn) : Option State :=
  if s.klogger.stream log ≠ std ∧ s.klogger.stream log ≠ .null then do
    let s ← s.fclose (s.klogger.stream log)
    let file := s.klogger.file log
    let s := s.rename file (newname file t.tm) t.renames
    let (s, p) := s.fopen file t.opens
    return { s with klogger := s.klogger.withStream (if p = .null then .stdout else p) log }
  else some s

def rollingFileA (s : State) (t : Turn) : Option State := s.rolling .access .stdout t
def rollingFileE (s : State) (t : Turn) : Option State := s.rolling .error .stderr t

/-- What the writers share behind the rotation. -/
def append (s : State) (log : LogKind) (buffer : Bytes) : Option State := do
  let s := { s with klogger := s.klogger.count log }
  let s ← s.fwrite (s.klogger.stream log) (.record log (s.written log).length buffer)
  return { s with written := Function.update s.written log (s.written log ++ [buffer]) }

def writerAccess (s : State) (buffer : Bytes) (t : Turn) : Option State := do
  let s ← if s.klogger.accessCounts ≥ maxLineNumber then s.rollingFileA t else some s
  s.append .access buffer

def writerError (s : State) (buffer : Bytes) (t : Turn) : Option State := do
  let s ← if s.klogger.errorCounts ≥ maxLineNumber then s.rollingFileE t else some s
  s.append .error buffer

/-- A file that cannot be opened, or is not given, leaves its log as it is. -/
def initLog (s : State) (log : LogKind) (file : Option Bytes) (opens : Bool) : State :=
  match file with
  | none => s
  | some name =>
    match s.fopen name opens with
    | (s, .null) => s
    | (s, fp) => { s with klogger := (s.klogger.withStream fp log).withFile name log }

def init (s : State) (infoFile errorFile : Option Bytes) (opensInfo opensError : Bool) : State :=
  (s.initLog .access infoFile opensInfo).initLog .error errorFile opensError

def constructed (files : Files Bytes (List Entry)) : State :=
  ⟨.constructed, files, [], [], [], fun _ => []⟩

end State

/-! ## Runs -/

structure Call where
  log : LogKind
  buffer : Bytes
  turn : Turn
  deriving DecidableEq, Repr

def step (s : State) (c : Call) : Option State :=
  match c.log with
  | .access => s.writerAccess c.buffer c.turn
  | .error => s.writerError c.buffer c.turn

/-- Both logs have been opened, and no file holds a record yet. -/
def Init (s : State) : Prop :=
  ∃ files : Files Bytes (List Entry), ∃ infoFile errorFile,
    (∀ i e, e ∈ files.data i → ∃ bytes, e = .before bytes) ∧
    s = (State.constructed files).init (some infoFile) (some errorFile) true true

/-- A log's file and everything it was renamed to. -/
def State.names (s : State) (log : LogKind) : List Bytes :=
  s.klogger.file log :: (s.renamed.filter fun p => p.1 = s.klogger.file log).map Prod.snd

/-- The current file of a log and its rotated files. -/
def State.filesOf (s : State) (log : LogKind) : List Nat := (s.names log).filterMap s.files.dir

/-- Every record is in one file of its log, and there once. -/
def Kept (s : State) : Prop :=
  ∀ log n bytes, (s.written log)[n]? = some bytes →
    ∃ i ∈ s.filesOf log, (s.files.data i).count (.record log n bytes) = 1 ∧
      ∀ j ∈ s.filesOf log, j ≠ i → .record log n bytes ∉ s.files.data j

def State.Rotates (s : State) (c : Call) : Prop := maxLineNumber ≤ s.klogger.counts c.log

/-- If the call rotates its log, `rename` and `fopen` succeed. -/
def Succeeds (s : State) (c : Call) : Prop :=
  s.Rotates c → c.turn.renames = true ∧ (s.files.dir (s.klogger.file c.log)).isSome ∧
    c.turn.opens = true

/-- If the call rotates its log, no file of a log lies at the name that the clock gives. -/
def Spares (s : State) (c : Call) : Prop :=
  s.Rotates c → newname (s.klogger.file c.log) c.turn.tm = s.klogger.file c.log ∨
    ∀ j, s.files.dir (newname (s.klogger.file c.log) c.turn.tm) = some j → ∀ log, j ∉ s.filesOf log

/-! ## A Monday in July 2016 -/

theorem sampleYear_fits : (1900 + 116 : Int).natAbs ≤ 2 ^ 31 := by decide

def sampleTm : Tm := ⟨116, 6, 25, 3, 9, 26, 1, sampleYear_fits⟩

def sampleTurn : Turn where
  tm := { toTm := sampleTm, tm_yday := 206 }
  renames := true
  opens := true

def noFiles : Files Bytes (List Entry) := .empty []

/-- The logs "a" and "e", just opened. -/
def sampleLogs : State :=
  (State.constructed noFiles).init (some (ascii "a")) (some (ascii "e")) true true

end Svnsrv.Klog
