import DeepOj.Conc.Record
import DeepOj.Worker.TestCaseCache
import DeepOj.Worker.Unzip
import Mathlib.Logic.Function.Basic

/-!
# The test case directories of a workspace

`Prepare`, down to the single file operations: it downloads the archive of a
problem, extracts it into a directory next to its place, renames it, and writes
two marker files. `touchCache` may evict any problem at its end. Any number of
worker processes share the workspace; a process can be killed between any two
operations.
-/

namespace DeepOj.Worker.TestCases

open Conc Go

/-- A goroutine: its process, which life of that process, and a number of its own. -/
structure Self where
  proc : Nat
  epoch : Nat
  serial : Nat
  deriving DecidableEq, Repr

/-- `localPath + ".lock"` and `workDir + ".lock"`. -/
inductive LockFile where
  | zip (problemID : Nat)
  | work (problemID : Nat)
  deriving DecidableEq, Repr

/-- The other files of a problem, by their paths. -/
inductive CaseFile where
  | zip
  | zipETag
  | zipTmp
  | ready
  | readyETag
  deriving DecidableEq, Repr

/-- `workDir`, and `workDir + ".tmp"`. -/
inductive CaseDir where
  | work
  | tmp
  deriving DecidableEq, Repr

/-- The keys of the single flights. -/
inductive Flight where
  | dl (problemID : Nat)
  | uz (problemID : Nat)
  deriving DecidableEq, Repr

/-- The return statements of `Prepare`. -/
inductive Return where
  /-- `workDir`, since its ready marker was found. -/
  | fromReady
  /-- `workDir`, freshly extracted. -/
  | extracted
  /-- `workDir`, from a call that was joined. -/
  | shared
  | failed
  deriving DecidableEq, Repr

/-- The counters of `UnzipWithLimits`. -/
structure Counts where
  totalWritten : Int := 0
  fileCount : Int := 0
  deriving DecidableEq, Repr

/-- The operations on the files of a problem. -/
inductive FileOp where
  /-- The zip is there, not empty, and has this ETag next to it. -/
  | etagMatch (remoteETag : Bytes)
  /-- `downloadObjectWithRetry`. -/
  | fetch
  /-- `os.Rename(tmpPath, localPath)`. -/
  | renameZip
  /-- `fileExists(readyPath)`. -/
  | statReady
  | readFile (f : CaseFile)
  /-- The first half of `os.WriteFile`. -/
  | create (f : CaseFile)
  /-- The second half of `os.WriteFile`. -/
  | write (f : CaseFile) (content : Bytes)
  | remove (f : CaseFile)
  /-- What `os.RemoveAll` goes through, in the order it goes through it. -/
  | readDir (dir : CaseDir)
  | unlink (dir : CaseDir) (path : Path)
  /-- `os.MkdirAll(tmpDir)`. -/
  | mkdirTmp
  /-- `zip.OpenReader`. -/
  | openZip
  /-- One turn of the loop of `UnzipWithLimits`. -/
  | extract (f : ZipEntry) (counts : Counts)
  /-- `os.Rename(tmpDir, workDir)`. -/
  | rename

@[reducible] def FileOp.Reply : FileOp → Type
  | .etagMatch _ => Bool
  | .fetch => Bool
  | .renameZip => Bool
  | .statReady => Bool
  | .readFile _ => Option Bytes
  | .create _ => Bool
  | .write .. => Bool
  | .remove _ => Unit
  | .readDir _ => List Path
  | .unlink .. => Unit
  | .mkdirTmp => Bool
  | .openZip => Archive
  | .extract .. => Option Counts
  | .rename => Bool

/-- The operations on a lock file; `lock` is `lockFileWithContext`. -/
inductive LockOp where
  | open
  | lock
  | close
  | remove
  deriving DecidableEq, Repr

@[reducible] def LockOp.Reply : LockOp → Type
  | .open => Bool
  | .lock => Bool
  | .close => Unit
  | .remove => Unit

/-- The operations of a goroutine. -/
inductive Op where
  /-- `m.sf.Do`: this call runs the function (`none`), or joins a running one and gets its result. -/
  | flight (key : Flight)
  /-- `getRemoteETagWithRetry`. -/
  | statObject (problemID : Nat)
  | file (problemID : Nat) (o : FileOp)
  | lock (file : LockFile) (o : LockOp)
  /-- `touchCache` under `cacheMu`, up to the files of the entries it removes. -/
  | touch (problemID : Nat) (etag : Bytes) (zipPath workDir : Bool)
  /-- `m.cacheMu.Unlock()`. -/
  | unlock
  | ret (problemID : Nat) (how : Return)
  /-- `filepath.Glob`: the number of test cases. -/
  | glob (problemID : Nat)
  /-- One test case; it tells whether to go on. -/
  | runCase (problemID : Nat)
  /-- The end of `ExecuteTask`. -/
  | done (problemID : Nat)

@[reducible] def Op.Reply : Op → Type
  | .flight _ => Option Bool
  | .statObject _ => Option Bytes
  | .file _ o => o.Reply
  | .lock _ o => o.Reply
  | .touch .. => List CacheEntry
  | .unlock => Unit
  | .ret .. => Unit
  | .glob _ => Nat
  | .runCase _ => Bool
  | .done _ => Unit

/-- Programs of the workers. Every operation names the goroutine that performs it. -/
abbrev FileProgram (α : Type) : Type := Prog (Self × Op) (fun e => e.2.Reply) α

/-- Perform one operation. -/
abbrev op (self : Self) (o : Op) : FileProgram o.Reply := Prog.perform (self, o)

/-- Perform one operation on a file. -/
abbrev file (self : Self) (problemID : Nat) (o : FileOp) : FileProgram o.Reply :=
  op self (.file problemID o)

/-- Perform one operation on a lock file. -/
abbrev lockOp (self : Self) (lock : LockFile) (o : LockOp) : FileProgram o.Reply :=
  op self (.lock lock o)

/-! ## The programs -/

section Programs

variable (self : Self) (problemID : Nat)

/-- The loop of `os.RemoveAll`. -/
def unlinkAll (dir : CaseDir) : List Path → FileProgram Unit
  | [] => pure ()
  | path :: rest => do
    file self problemID (.unlink dir path)
    unlinkAll dir rest

/-- `os.RemoveAll`. -/
def removeAll (dir : CaseDir) : FileProgram Unit := do
  let paths ← file self problemID (.readDir dir)
  unlinkAll self problemID dir paths

/-- The part of `removeEntry` for `entry.zipPath`. -/
def removeZip (e : CacheEntry) : FileProgram Unit :=
  if e.zipPath then do
    file self e.problemID (.remove .zip)
    file self e.problemID (.remove .zipETag)
    lockOp self (.zip e.problemID) .remove
  else pure ()

/-- The part of `removeEntry` for `entry.workDir`. -/
def removeWork (e : CacheEntry) : FileProgram Unit :=
  if e.workDir then do
    removeAll self e.problemID .work
    lockOp self (.work e.problemID) .remove
    file self e.problemID (.remove .ready)
    file self e.problemID (.remove .readyETag)
  else pure ()

/-- The files of `removeEntry`. -/
def removeEntry (e : CacheEntry) : FileProgram Unit := do
  removeZip self e
  removeWork self e

/-- The files of the entries that `evictIfNeeded` removes. -/
def removeEntries : List CacheEntry → FileProgram Unit
  | [] => pure ()
  | e :: es => do
    removeEntry self e
    removeEntries es

/-- `touchCache`. -/
def touch (etag : Bytes) (zipPath workDir : Bool) : FileProgram Unit := do
  let evicted ← op self (.touch problemID etag zipPath workDir)
  removeEntries self evicted
  op self .unlock

/-- `os.WriteFile`. -/
def writeFile (f : CaseFile) (content : Bytes) : FileProgram Bool := do
  if ← file self problemID (.create f) then file self problemID (.write f content)
  else pure false

/-- `Download`, once the zip is in `tmpPath`. -/
def placeZip (remoteETag : Bytes) : FileProgram Bool := do
  if ← file self problemID .renameZip then
    let _ ← writeFile self problemID .zipETag remoteETag
    touch self problemID remoteETag true false
    pure true
  else
    file self problemID (.remove .zipTmp)
    pure false

/-- `Download`, once its lock file is open. -/
def downloadLocked (remoteETag : Bytes) : FileProgram Bool := do
  if ← lockOp self (.zip problemID) .lock then
    if ← file self problemID (.etagMatch remoteETag) then
      touch self problemID remoteETag true false
      pure true
    else
      file self problemID (.remove .zipTmp)
      if ← file self problemID .fetch then placeZip self problemID remoteETag
      else
        file self problemID (.remove .zipTmp)
        pure false
  else pure false

/-- The function in the flight of `Download`. -/
def downloadFlight : FileProgram Bool := do
  match ← op self (.statObject problemID) with
  | none => pure false
  | some remoteETag =>
    if ← file self problemID (.etagMatch remoteETag) then
      touch self problemID remoteETag true false
      pure true
    else if ← lockOp self (.zip problemID) .open then
      let ok ← downloadLocked self problemID remoteETag
      lockOp self (.zip problemID) .close
      pure ok
    else pure false

/-- `Download`. -/
def download : FileProgram Bool := do
  match ← op self (.flight (.dl problemID)) with
  | some ok => pure ok
  | none => downloadFlight self problemID

/-- `readyMatchesETag`. -/
def readyMatchesETag (expectedETag : Bytes) : FileProgram Bool := do
  if ← file self problemID .statReady then
    if trimSpaces expectedETag = [] then pure true
    else
      match ← file self problemID (.readFile .readyETag) with
      | none => pure false
      | some b => pure (trimSpaces b = trimSpaces expectedETag)
  else pure false

/-- The entries of `UnzipWithLimits`. -/
def unzipEntries : List ZipEntry → Counts → FileProgram Bool
  | [], _ => pure true
  | f :: fs, counts => do
    match ← file self problemID (.extract f counts) with
    | none => pure false
    | some counts => unzipEntries fs counts

/-- `UnzipWithLimits(zipPath, tmpDir, ..)`. -/
def unzip : FileProgram Bool := do
  match ← file self problemID .openZip with
  | .error _ => pure false
  | .ok entries =>
    if ← file self problemID .mkdirTmp then unzipEntries self problemID entries {}
    else pure false

/-- The two markers. What the ready marker says is a time that nobody reads. -/
def writeMarkers (expectedETag : Bytes) : FileProgram Bool := do
  if expectedETag ≠ [] then
    if ← writeFile self problemID .readyETag expectedETag then writeFile self problemID .ready []
    else pure false
  else
    file self problemID (.remove .readyETag)
    writeFile self problemID .ready []

/-- The extraction, once it is in `tmpDir`. -/
def install (expectedETag : Bytes) : FileProgram Return := do
  removeAll self problemID .work
  if ← file self problemID .rename then
    if ← writeMarkers self problemID expectedETag then
      touch self problemID expectedETag true true
      pure .extracted
    else pure .failed
  else
    removeAll self problemID .tmp
    pure .failed

/-- The extraction. -/
def unpack (expectedETag : Bytes) : FileProgram Return := do
  removeAll self problemID .tmp
  if ← file self problemID .mkdirTmp then
    if ← unzip self problemID then install self problemID expectedETag
    else
      removeAll self problemID .tmp
      pure .failed
  else pure .failed

/-- The extraction, once its lock file is open. -/
def unpackLocked (expectedETag : Bytes) : FileProgram Return := do
  if ← lockOp self (.work problemID) .lock then
    if ← file self problemID .statReady then pure .fromReady
    else unpack self problemID expectedETag
  else pure .failed

/-- The function in the second flight of `Prepare`. -/
def unpackFlight (expectedETag : Bytes) : FileProgram Return := do
  if ← readyMatchesETag self problemID expectedETag then pure .fromReady
  else if ← lockOp self (.work problemID) .open then
    let how ← unpackLocked self problemID expectedETag
    lockOp self (.work problemID) .close
    pure how
  else pure .failed

/-- `Prepare`, once the zip has been downloaded. -/
def prepareZip (expectedETag : Bytes) : FileProgram Return := do
  if ← readyMatchesETag self problemID expectedETag then pure .fromReady
  else
    match ← op self (.flight (.uz problemID)) with
    | some true => pure .shared
    | some false => pure .failed
    | none => unpackFlight self problemID expectedETag

/-- `Prepare` without MinIO. -/
def prepareLocal : FileProgram Return := do
  if ← file self problemID .statReady then
    touch self problemID [] false true
    pure .fromReady
  else pure .failed

/-- `Prepare`, up to its return statement. -/
def prepareDir : FileProgram Return := do
  if ← download self problemID then
    let etag ← file self problemID (.readFile .zipETag)
    prepareZip self problemID (trimSpaces (etag.getD []))
  else prepareLocal self problemID

/-- `Prepare`. -/
def prepare : FileProgram Return := do
  let how ← prepareDir self problemID
  op self (.ret problemID how)
  pure how

/-- The test case loop. -/
def runCases : Nat → FileProgram Unit
  | 0 => pure ()
  | n + 1 => do
    if ← op self (.runCase problemID) then runCases n
    else pure ()

/-- `ExecuteTask`, as far as it uses the test cases. -/
def executeTask : FileProgram Unit := do
  if (← prepare self problemID) = .failed then pure ()
  else
    let n ← op self (.glob problemID)
    runCases self problemID n
    op self (.done problemID)

end Programs

/-! ## The workspace -/

/-- A zip file on disk. -/
structure ZipFile where
  size : Nat
  archive : Archive

/-- The files of one problem. `workDir` is a tree of its own, `tmpDir` stands at its path. -/
structure CaseFiles where
  zip : Option ZipFile := none
  zipETag : Option Bytes := none
  zipTmp : Option ZipFile := none
  work : Option Tree := none
  tmp : Tree := []
  /-- A recursive delete has taken a file from `workDir`, and `workDir` is still there. -/
  torn : Bool := false
  /-- The archives that have been downloaded. -/
  downloaded : List Archive := []

/-- An open lock file. One that is removed and created again is another file: `inode` counts
the files there have been at the path. -/
structure Descriptor where
  self : Self
  lock : LockFile
  inode : Nat
  deriving DecidableEq, Repr

/-- The shared state of the workers. -/
structure Workspace where
  files : Nat → CaseFiles := fun _ => {}
  /-- The file at the path of a lock file. -/
  locks : LockFile → Option Nat := fun _ => none
  nextInode : LockFile → Nat := fun _ => 0
  fds : List Descriptor := []
  /-- Who holds the lock of a lock file. -/
  holder : LockFile → Nat → Option Self := fun _ _ => none
  caches : Nat → Cache := fun _ => []
  cacheMu : Nat → Option Self := fun _ => none
  /-- How often a process has been restarted. -/
  epochs : Nat → Nat := fun _ => 0
  nextSerial : Nat := 0
  /-- What stood at `workDir` when `Prepare` returned it because of its ready marker. -/
  answers : List (Nat × Option Tree) := []

/-- What an operation leaves to the environment. -/
structure Pick where
  /-- The operation does not fail for reasons of its own. -/
  ok : Bool := true
  /-- The result of the call that is joined. -/
  joined : Option Bool := none
  /-- The ETag of the object, unless MinIO does not answer. -/
  etag : Option Bytes := none
  /-- The object, unless the download fails. -/
  object : Option ZipFile := none
  /-- The order of a directory walk. -/
  order : List Path := []
  /-- What an entry that fails leaves in `tmpDir`. -/
  broken : Option Tree := none
  now : Int := 0
  /-- `calcEntrySizeBytes`. -/
  sizeOf : Bool → Bool → Nat := fun _ _ => 0
  cases : Nat := 0

/-- The settings of the workers. -/
structure ManagerConfig where
  cache : CacheConfig
  lims : UnzipLimits
  workspace : Path

/-- `workDir + ".tmp"`. -/
def ManagerConfig.tmpDir (cfg : ManagerConfig) (problemID : Nat) : Path :=
  cfg.workspace ++ [utf8 "cases_unzipped", utf8 (toString problemID ++ ".tmp")]

def readyPath : Path := [utf8 ".ready"]
def readyETagPath : Path := [utf8 ".ready.etag"]

/-- Some path below `q` is bound. -/
def hasBelow (t : Tree) (q : Path) : Bool := t.any fun b => q.isPrefixOf b.1 && b.1 != q

/-- Take one path off a tree, unless something is below it. -/
def erase (t : Tree) (q : Path) : Tree := if hasBelow t q then t else t.filter (·.1 ≠ q)

/-- What is below a directory, with paths relative to it. -/
def relative (dir : Path) (t : Tree) : Tree :=
  t.filterMap fun b => if dir <+: b.1 then some (b.1.drop dir.length, b.2) else none

/-- The path of a marker in `workDir`. -/
def CaseFile.marker : CaseFile → Option Path
  | .ready => some readyPath
  | .readyETag => some readyETagPath
  | _ => none

namespace CaseFiles

/-- The content of a file. -/
def read (c : CaseFiles) : CaseFile → Option Bytes
  | .zipETag => c.zipETag
  | .readyETag =>
    match c.work.bind (·.stat readyETagPath) with
    | some (.file content) => some content
    | _ => none
  | _ => none

/-- The zip is there, not empty, and next to it is this ETag. -/
def hasETag (c : CaseFiles) (remoteETag : Bytes) : Bool :=
  match c.zip with
  | some z => 0 < z.size ∧ remoteETag ≠ [] ∧ c.zipETag = some remoteETag
  | none => false

/-- Create or empty a file; a marker needs its directory. -/
def create (c : CaseFiles) (f : CaseFile) : Option CaseFiles :=
  match f.marker, c.work with
  | some path, some t =>
    match createFile (fun _ => none) t path with
    | .ok t => some { c with work := some t }
    | .error _ => none
  | some _, none => none
  | none, _ => if f = .zipETag then some { c with zipETag := some [] } else none

/-- Write to a file that has been created, if it is still there. -/
def write (c : CaseFiles) (f : CaseFile) (content : Bytes) : CaseFiles :=
  match f.marker with
  | some path =>
    { c with work := c.work.map fun t => if t.Has path then t.put path (.file content) else t }
  | none => if f = .zipETag then { c with zipETag := c.zipETag.map fun _ => content } else c

/-- `os.Remove`. -/
def remove (c : CaseFiles) : CaseFile → CaseFiles
  | .zip => { c with zip := none }
  | .zipETag => { c with zipETag := none }
  | .zipTmp => { c with zipTmp := none }
  | .ready => { c with work := c.work.map (erase · readyPath) }
  | .readyETag => { c with work := c.work.map (erase · readyETagPath) }

/-- The paths `os.RemoveAll` goes through, the directory itself among them. -/
def walk (c : CaseFiles) (tmpDir : Path) : CaseDir → List Path
  | .work => (c.work.map fun t => [] :: t.map Prod.fst).getD []
  | .tmp => (c.tmp.map Prod.fst).filter (tmpDir <+: ·)

/-- One step of `os.RemoveAll`. -/
def unlink (c : CaseFiles) : CaseDir → Path → CaseFiles
  | .tmp, q => { c with tmp := erase c.tmp q }
  | .work, q =>
    match c.work with
    | none => c
    | some t =>
      if q = [] then if hasBelow t [] then c else { c with work := none, torn := false }
      else { c with work := some (erase t q),
                    torn := c.torn || (t.Has q ∧ q ≠ readyPath ∧ q ≠ readyETagPath) }

/-- `os.Rename(tmpDir, workDir)`: it replaces nothing but an empty directory. -/
def rename (c : CaseFiles) (tmpDir : Path) : Option CaseFiles :=
  if c.tmp.Has tmpDir ∧ (c.work.map fun t => hasBelow t []).getD false = false then
    some { c with work := some (relative tmpDir c.tmp), torn := false, tmp := c.tmp.removeAll tmpDir }
  else none

end CaseFiles

/-- A walk sees every path after everything below it. -/
def ValidWalk (paths order : List Path) : Prop :=
  (∀ q ∈ order, q ∈ paths) ∧ (∀ q ∈ paths, q ∈ order) ∧ order.Pairwise fun a b => ¬ a <+: b

instance (paths order : List Path) : Decidable (ValidWalk paths order) :=
  inferInstanceAs (Decidable (_ ∧ _ ∧ _))

/-- Change the files of a problem. -/
def Workspace.setFiles (w : Workspace) (problemID : Nat) (c : CaseFiles) : Workspace :=
  { w with files := Function.update w.files problemID c }

/-- The lock file a goroutine has open. -/
def Workspace.inode (w : Workspace) (self : Self) (lock : LockFile) : Option Nat :=
  (w.fds.find? fun d => d.self = self ∧ d.lock = lock).map Descriptor.inode

/-- Open a lock file, creating it if there is none. -/
def Workspace.openLock (w : Workspace) (self : Self) (lock : LockFile) : Workspace :=
  match w.locks lock with
  | some k => { w with fds := ⟨self, lock, k⟩ :: w.fds }
  | none =>
    { w with
      locks := Function.update w.locks lock (some (w.nextInode lock))
      nextInode := Function.update w.nextInode lock (w.nextInode lock + 1)
      fds := ⟨self, lock, w.nextInode lock⟩ :: w.fds }

/-- Lock an open lock file. -/
def Workspace.lock (w : Workspace) (self : Self) (lock : LockFile) (k : Nat) : Workspace :=
  { w with holder := Function.update w.holder lock (Function.update (w.holder lock) k (some self)) }

/-- Close a lock file, which releases its lock. -/
def Workspace.closeLock (w : Workspace) (self : Self) (lock : LockFile) : Workspace :=
  { w with
    fds := w.fds.filter fun d => ¬ (d.self = self ∧ d.lock = lock)
    holder := Function.update w.holder lock fun k => (w.holder lock k).filter (· ≠ self) }

variable (cfg : ManagerConfig)

/-- One operation on the files of a problem. -/
def CaseFiles.perform (tmpDir : Path) (c : CaseFiles) : (o : FileOp) → Pick → Option (CaseFiles × o.Reply)
  | .etagMatch remoteETag, _ => some (c, c.hasETag remoteETag)
  | .fetch, p =>
    match p.object with
    | none => some (c, false)
    | some z => some ({ c with zipTmp := some z, downloaded := z.archive :: c.downloaded }, true)
  | .renameZip, p =>
    match p.ok, c.zipTmp with
    | true, some z => some ({ c with zip := some z, zipTmp := none }, true)
    | _, _ => some (c, false)
  | .statReady, _ => some (c, (c.work.map (·.Has readyPath)).getD false)
  | .readFile f, _ => some (c, c.read f)
  | .create f, p =>
    match p.ok, c.create f with
    | true, some c => some (c, true)
    | _, _ => some (c, false)
  | .write f content, p => if p.ok then some (c.write f content, true) else some (c, false)
  | .remove f, _ => some (c.remove f, ())
  | .readDir dir, p => if ValidWalk (c.walk tmpDir dir) p.order then some (c, p.order) else none
  | .unlink dir q, _ => some (c.unlink dir q, ())
  | .mkdirTmp, p =>
    match p.ok, mkdirAll (fun _ => none) c.tmp tmpDir with
    | true, .ok t => some ({ c with tmp := t }, true)
    | _, _ => some (c, false)
  | .openZip, p =>
    match p.ok, c.zip with
    | true, some z => some (c, z.archive)
    | _, _ => some (c, .error (utf8 "open: no such file or directory"))
  | .extract f counts, p =>
    match p.broken with
    | some t => some ({ c with tmp := t }, none)
    | none =>
      match extractEntry (fun _ => none) cfg.lims tmpDir
          ⟨c.tmp, counts.totalWritten, counts.fileCount⟩ f with
      | .ok st => some ({ c with tmp := st.tree }, some ⟨st.totalWritten, st.fileCount⟩)
      | .error (t, _) => some ({ c with tmp := t }, none)
  | .rename, p =>
    match p.ok, c.rename tmpDir with
    | true, some c => some (c, true)
    | _, _ => some (c, false)

/-- One operation on a lock file. -/
def Workspace.performLock (w : Workspace) (self : Self) (lock : LockFile) :
    (o : LockOp) → Pick → Option (Workspace × o.Reply)
  | .open, p => if p.ok then some (w.openLock self lock, true) else some (w, false)
  | .lock, p =>
    match w.inode self lock with
    | none => some (w, false)
    | some k =>
      -- while another goroutine holds the lock, only the deadline ends the wait
      if w.holder lock k = none then some (w.lock self lock k, true)
      else if p.ok then none
      else some (w, false)
  | .close, _ => some (w.closeLock self lock, ())
  | .remove, _ => some ({ w with locks := Function.update w.locks lock none }, ())

/-- One operation of a goroutine; `none` while it blocks. -/
def perform (w : Workspace) (self : Self) : (o : Op) → Pick → Option (Workspace × o.Reply)
  | .flight _, p => some (w, p.joined)
  | .statObject _, p => some (w, p.etag)
  | .file pid o, p =>
    match (w.files pid).perform cfg (cfg.tmpDir pid) o p with
    | some (c, r) => some (w.setFiles pid c, r)
    | none => none
  | .lock lock o, p => w.performLock self lock o p
  | .touch pid etag zipPath workDir, p =>
    if w.cacheMu self.proc = none then
      let r := touchCache cfg.cache p.now p.sizeOf pid etag zipPath workDir (w.caches self.proc)
      some ({ w with
        caches := Function.update w.caches self.proc r.2
        cacheMu := Function.update w.cacheMu self.proc (some self) }, r.1)
    else none
  | .unlock, _ => some ({ w with cacheMu := Function.update w.cacheMu self.proc none }, ())
  | .ret pid how, _ =>
    if how = .fromReady then
      some ({ w with answers := (pid, (w.files pid).work) :: w.answers }, ())
    else some (w, ())
  | .glob _, p => some (w, p.cases)
  | .runCase _, p => some (w, p.ok)
  | .done _, _ => some (w, ())

/-- The process of the goroutine has not been killed. -/
def Live (w : Workspace) (self : Self) : Prop := w.epochs self.proc = self.epoch

instance (w : Workspace) (self : Self) : Decidable (Live w self) := inferInstanceAs (Decidable (_ = _))

/-- One operation; a goroutine of a process that was killed does nothing more. -/
def sem (w : Workspace) (e : Self × Op) (p : Pick) : Option (Workspace × e.2.Reply) :=
  if Live w e.1 then perform cfg w e.1 e.2 p else none

/-- What happens to the workers from outside. -/
inductive Event where
  /-- A task for this problem starts. -/
  | start (self : Self) (problemID : Nat)
  /-- The process is killed, and started again. -/
  | crash (proc : Nat)
  deriving DecidableEq, Repr

/-- The process loses its memory and its descriptors. -/
def Workspace.crash (w : Workspace) (proc : Nat) : Workspace :=
  { w with
    fds := w.fds.filter (·.self.proc ≠ proc)
    holder := fun lock k => (w.holder lock k).filter (·.proc ≠ proc)
    caches := Function.update w.caches proc []
    cacheMu := Function.update w.cacheMu proc none
    epochs := Function.update w.epochs proc (w.epochs proc + 1) }

/-- An event. A goroutine is a new one of a living process. -/
def happen (w : Workspace) : Event → Option (Workspace × List (FileProgram Unit))
  | .start self pid =>
    if w.epochs self.proc = self.epoch ∧ w.nextSerial ≤ self.serial then
      some ({ w with nextSerial := self.serial + 1 }, [executeTask self pid])
    else none
  | .crash proc => some (w.crash proc, [])

/-- The workers as an interleaving machine. -/
def workers : Machine Workspace (Self × Op) (fun e => e.2.Reply) Pick Event where
  sem := sem cfg
  forks _ := []
  env := happen

/-- The workers before their first task, on an empty workspace. -/
def start : Config Workspace (Self × Op) (fun e => e.2.Reply) := ⟨{}, []⟩

end DeepOj.Worker.TestCases
