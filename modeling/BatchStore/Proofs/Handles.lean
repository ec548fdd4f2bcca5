import BatchStore.Proofs.Closing
import BatchStore.Proofs.Locks

/-!
# One handle for a directory

In a host that opens, uses, closes and drops databases the files that are locked are
the lock files of the databases that have not been dropped, one for each. So no
directory has two of them, a directory that has one cannot be opened, and an opening
that fails leaves no lock that a later one could meet.
-/

namespace BatchStore

open Directory (lockName journalName orderName)

/-- What every call of a session on its device keeps, a write keeps. -/
theorem Database.write_preserves {δ : Type} [LogDevice δ] {p : δ → Prop}
    (happend : ∀ {log} data, p log → p (LogDevice.append log data).2)
    (hflush : ∀ {log}, p log → p (LogDevice.flush log).2)
    (hsync : ∀ {log}, p log → p (LogDevice.sync log).2) {log : δ} (h : p log) (db : Database)
    (settings : WriteSettings) (batch : Batch) : p (db.write log settings batch).log := by
  -- a device is in step with itself on the states that have the property
  have hdevice : LogDevice.InStep fun first second : δ => first = second ∧ p first := by
    refine ⟨?_, ?_, ?_⟩
    · rintro log _ ⟨rfl, hlog⟩ data
      exact ⟨rfl, rfl, happend data hlog⟩
    · rintro log _ ⟨rfl, hlog⟩
      exact ⟨rfl, rfl, hflush hlog⟩
    · rintro log _ ⟨rfl, hlog⟩
      exact ⟨rfl, rfl, hsync hlog⟩
  obtain ⟨-, -, -, -, hafter⟩ := Database.write_agree hdevice ⟨rfl, h⟩ db settings batch
  exact hafter

theorem Database.directory_write {δ : Type} [LogDevice δ] (db : Database) (log : δ)
    (settings : WriteSettings) (batch : Batch) :
    (db.write log settings batch).database.directory = db.directory := by
  have houtcome := db.write_outcome log settings batch
  generalize db.write log settings batch = written at houtcome ⊢
  cases houtcome <;> rfl

open FileSystem (SameTree)

namespace Mounted

variable {files : FileSystem}

theorem sameTree_append {mounted : Mounted} (h : files.SameTree mounted.files) (data : Bytes) :
    files.SameTree (LogDevice.append mounted data).2.files := by
  obtain ⟨tree, log⟩ := mounted
  cases log with
  | memory log => exact h
  | file log =>
    show files.SameTree (FileLog.append ⟨tree, log⟩ data).files
    unfold FileLog.append
    split
    · exact h
    · exact h.setContent _ _

/-- Appending to a log of a host changes what its file holds. -/
theorem sameTree_append_monitored {log : Monitored Mounted} (h : files.SameTree log.device.files)
    (data : Bytes) : files.SameTree (LogDevice.append log data).2.device.files := by
  rcases log.append_cases data with ⟨torn, -, hdevice⟩ | ⟨-, hdevice⟩
  · rw [hdevice]
    exact sameTree_append h _
  · rw [hdevice]
    exact sameTree_append h data

/-- Handing on what is buffered, and making it durable, leave the files. -/
theorem files_settle (log : Monitored Mounted) :
    (LogDevice.flush log).2.device.files = log.device.files ∧
      (LogDevice.sync log).2.device.files = log.device.files := by
  have hmounted (mounted : Mounted) : (LogDevice.flush mounted).2.files = mounted.files ∧
      (LogDevice.sync mounted).2.files = mounted.files := by
    obtain ⟨files, log⟩ := mounted
    cases log <;> exact ⟨rfl, rfl⟩
  constructor
  · rcases (log.record .flush).device_call .flush LogDevice.flush with hsame | hflushed
    · exact congrArg Mounted.files hsame
    · exact (congrArg Mounted.files hflushed).trans (hmounted log.device).1
  · rcases (log.record .sync).device_call .sync LogDevice.sync with hsame | hsynced
    · exact congrArg Mounted.files hsame
    · exact (congrArg Mounted.files hsynced).trans (hmounted log.device).2

theorem sameTree_write (log : Monitored Mounted) (db : Database) (settings : WriteSettings)
    (batch : Batch) : log.device.files.SameTree (db.write log settings batch).log.device.files := by
  refine Database.write_preserves
    (p := fun after : Monitored Mounted => log.device.files.SameTree after.device.files)
    (fun data h => sameTree_append_monitored h data) ?_ ?_ (.refl _) db settings batch
  · intro after h
    rw [(files_settle after).1]
    exact h
  · intro after h
    rw [(files_settle after).2]
    exact h

theorem files_close (log : Monitored Mounted) (db : Database) :
    (db.close log).2.2.device.files = log.device.files := by
  obtain ⟨-, -, hlog⟩ := db.close_effect log
  rcases hlog with hsame | hsynced
  · rw [hsame]
  · rw [hsynced]
    exact (files_settle log).2

end Mounted

namespace Monitored

variable {δ ε : Type} {f : δ → ε}

theorem strike_map (log : Monitored δ) (f : δ → ε) (operation : LogOperation) :
    (log.map f).strike operation = ((log.strike operation).1, (log.strike operation).2.map f) := by
  unfold strike map
  cases log.faults.find? (·.operation = operation) with
  | none => rfl
  | some fault =>
    simp only
    split <;> rfl

theorem agree_call_map {α : Type} {act : δ → Except DeviceError α × δ}
    {actual : ε → Except DeviceError α × ε}
    (h : ∀ device, Agree (fun first second => second = f first) (act device) (actual (f device)))
    (log : Monitored δ) (operation : LogOperation) :
    Agree (fun first second => second = first.map f) (log.call operation act)
      ((log.map f).call operation actual) := by
  unfold call
  rw [strike_map]
  rcases log.strike operation with ⟨fault, after⟩
  cases fault with
  | some fault => exact ⟨rfl, rfl⟩
  | none =>
    obtain ⟨hanswer, hlater⟩ := h after.device
    exact ⟨hanswer, congrArg (Monitored.mk · after.calls after.faults) hlater⟩

/-- Devices whose states belong together by a map are in step under monitors too. -/
theorem inStep_map [LogDevice δ] [LogDevice ε]
    (h : LogDevice.InStep fun (first : δ) (second : ε) => second = f first) :
    LogDevice.InStep fun (first : Monitored δ) (second : Monitored ε) =>
      second = first.map f where
  append := by
    rintro first _ rfl data
    show Agree _ ((first.record (.append data.length)).append data)
      (((first.record (.append data.length)).map f).append data)
    unfold append
    rw [strike_map]
    rcases (first.record (.append data.length)).strike .append with ⟨fault, after⟩
    cases fault with
    | some fault =>
      obtain ⟨-, hlater⟩ := h.append (rfl : f after.device = _) (data.take fault.torn)
      exact ⟨rfl, congrArg (Monitored.mk · after.calls after.faults) hlater⟩
    | none =>
      obtain ⟨hanswer, hlater⟩ := h.append (rfl : f after.device = _) data
      exact ⟨hanswer, congrArg (Monitored.mk · after.calls after.faults) hlater⟩
  flush := by
    rintro first _ rfl
    exact agree_call_map (fun device => h.flush rfl) (first.record .flush) .flush
  sync := by
    rintro first _ rfl
    exact agree_call_map (fun device => h.sync rfl) (first.record .sync) .sync

end Monitored

/-- The log in a tree with other names. -/
def Mounted.rename (nodes : List (List String × Node)) (mounted : Mounted) : Mounted :=
  ⟨{ mounted.files with nodes }, mounted.log⟩

/-- An open log does not go by its name. -/
theorem Mounted.inStep_rename (nodes : List (List String × Node)) :
    LogDevice.InStep fun first second : Mounted => second = first.rename nodes where
  append := by
    rintro ⟨files, log⟩ _ rfl data
    cases log with
    | memory log => exact ⟨rfl, rfl⟩
    | file log =>
      refine ⟨rfl, ?_⟩
      show Mounted.mk (FileLog.append ⟨{ files with nodes }, log⟩ data).files
        (.file (FileLog.append ⟨{ files with nodes }, log⟩ data).log) =
        Mounted.mk { (FileLog.append ⟨files, log⟩ data).files with nodes }
          (.file (FileLog.append ⟨files, log⟩ data).log)
      unfold FileLog.append
      split <;> rfl
  flush := by
    rintro ⟨files, log⟩ _ rfl
    cases log <;> exact ⟨rfl, rfl⟩
  sync := by
    rintro ⟨files, log⟩ _ rfl
    cases log <;> exact ⟨rfl, rfl⟩

/-- The use of one database of a host. -/
def Host.session (host : Host) (hosted : HostedDatabase) (held : List HeldSnapshot) :
    Session (Monitored Mounted) :=
  ⟨hosted.database, (host.log hosted.log).map fun log => ⟨host.files, log⟩, held⟩

/-- Names that come or go make no difference to an open database. -/
theorem Host.session_rename (host : Host) (nodes : List (List String × Node))
    (hosted : HostedDatabase) (held : List HeldSnapshot) (actions : List Action) :
    let before := (host.session hosted held).run actions
    let behind := (({ host with files := { host.files with nodes } } : Host).session hosted
      held).run actions
    behind.1.map Event.reply = before.1.map Event.reply ∧
      behind.2.database = before.2.database := by
  intro before behind
  have hsame : (host.session hosted held).InStep
      (fun first second => second = first.map (Mounted.rename nodes))
      (({ host with files := { host.files with nodes } } : Host).session hosted held) :=
    ⟨rfl, rfl, rfl⟩
  obtain ⟨hreplies, hend⟩ :=
    Session.inStep_run (Monitored.inStep_map (Mounted.inStep_rename nodes)) hsame actions
  exact ⟨hreplies.symm, hend.database.symm⟩

namespace Host

/-- The directory of a database that has not been dropped. -/
def directory? (host : Host) (number : Nat) : Option Directory :=
  (host.database? number).bind (·.directory)

/-- What can be done with the databases of a host. -/
inductive Call where
  | openDirectory (settings : Settings) (path : Path)
  | write (number : Nat) (settings : WriteSettings) (batch : Batch)
  | takeSnapshot (number : Nat)
  | releaseSnapshot (number : Nat)
  | close (number : Nat)
  | drop (number : Nat)

def serve (host : Host) : Call → Host
  | .openDirectory settings path => (host.openDirectory settings path).2
  | .write number settings batch => (host.write number settings batch).2.2
  | .takeSnapshot number => (host.takeSnapshot number).2
  | .releaseSnapshot number => host.releaseSnapshot number
  | .close number => (host.close number).2
  | .drop number => host.drop number

def run (host : Host) (calls : List Call) : Host := calls.foldl serve host

/-- The lock files of the databases that have not been dropped are what is locked, and
each of them is locked by one. -/
structure Guarded (host : Host) : Prop where
  wellFormed : host.files.WellFormed
  named : ∀ {number directory}, host.directory? number = some directory →
    host.files.lookup (directory.path.names ++ [lockName]) = some (.file directory.lock)
  locked : ∀ {lock}, lock ∈ host.files.locked ↔
    ∃ number directory, host.directory? number = some directory ∧ directory.lock = lock
  single : ∀ {number other directory found}, host.directory? number = some directory →
    host.directory? other = some found → directory.lock = found.lock → number = other

theorem guarded_initial {files : FileSystem} (h : files.WellFormed) (hfree : files.locked = []) :
    (initial files).Guarded := by
  have hnone (number : Nat) : (initial files).directory? number = none := rfl
  refine ⟨h, ?_, ?_, ?_⟩
  · intro number directory hdirectory
    cases (hnone number).symm.trans hdirectory
  · intro lock
    show lock ∈ files.locked ↔ _
    rw [hfree]
    simp [hnone]
  · intro number other directory found hdirectory
    cases (hnone number).symm.trans hdirectory

/-- What keeps the lock files and the directories of the databases keeps the guard. -/
theorem Guarded.of_keeps {host after : Host} (h : host.Guarded)
    (hkeeps : host.files.KeepsLocks after.files) (hsame : after.directory? = host.directory?) :
    after.Guarded where
  wellFormed := hkeeps.wellFormed h.wellFormed
  named := fun hdirectory => hkeeps.named (h.named (hsame ▸ hdirectory))
  locked := by
    intro lock
    rw [hkeeps.locked, hsame]
    exact h.locked
  single := by
    rw [hsame]
    exact h.single

section SetDatabase

variable {host : Host} {number : Nat}

theorem directory?_setDatabase {db : Database} (hsame : ∀ hosted,
    host.databases[number]?.join = some hosted → db.directory = hosted.database.directory) :
    (host.setDatabase number db).directory? = host.directory? := by
  funext other
  unfold directory? database? setDatabase
  rw [List.getElem?_modify]
  split
  · next heq =>
    subst heq
    rcases hfound : host.databases[number]? with _ | _ | hosted
    · rfl
    · rfl
    · exact hsame hosted (by rw [hfound]; rfl)
  · cases host.databases[other]? <;> rfl

/-- A database is put back in place, and the files differ in what they hold. -/
theorem Guarded.setDatabase {after : Host} {db : Database} (h : host.Guarded)
    (hdatabases : after.databases = host.databases) (htree : host.files.SameTree after.files)
    (hsame : ∀ hosted, host.databases[number]?.join = some hosted →
      db.directory = hosted.database.directory) : (after.setDatabase number db).Guarded := by
  refine h.of_keeps htree.keepsLocks ?_
  rw [directory?_setDatabase (hdatabases ▸ hsame)]
  unfold directory? database?
  rw [hdatabases]

end SetDatabase

theorem guarded_write {host : Host} (h : host.Guarded) (number : Nat) (settings : WriteSettings)
    (batch : Batch) : (host.write number settings batch).2.2.Guarded := by
  unfold write
  cases hhosted : host.databases[number]?.join with
  | none => exact h
  | some hosted =>
    let log : Monitored Mounted := (host.log hosted.log).map fun log => ⟨host.files, log⟩
    let written := hosted.database.write log settings batch
    show (({ host with files := written.log.device.files }.setLog hosted.log
      (written.log.map Mounted.log)).setDatabase number written.database).Guarded
    refine h.setDatabase rfl (Mounted.sameTree_write log hosted.database settings batch) ?_
    intro found hfound
    obtain rfl := Option.some.inj (hhosted.symm.trans hfound)
    exact hosted.database.directory_write log settings batch

/-- Closing a database leaves the files and the directories of all databases. -/
theorem close_leaves (host : Host) (number : Nat) :
    (host.close number).2.files = host.files ∧
      (host.close number).2.directory? = host.directory? := by
  unfold close
  cases hhosted : host.databases[number]?.join with
  | none => exact ⟨rfl, rfl⟩
  | some hosted =>
    let log : Monitored Mounted := (host.log hosted.log).map fun log => ⟨host.files, log⟩
    let after := (hosted.database.close log).2.2
    refine ⟨Mounted.files_close log hosted.database, ?_⟩
    show (({ host with files := after.device.files }.setLog hosted.log
      (after.map Mounted.log)).setDatabase number (hosted.database.close log).2.1).directory? = _
    refine directory?_setDatabase fun found hfound => ?_
    obtain rfl := Option.some.inj (hhosted.symm.trans hfound)
    obtain ⟨isOpen, hdatabase, -⟩ := hosted.database.close_effect log
    rw [hdatabase]

theorem guarded_close {host : Host} (h : host.Guarded) (number : Nat) :
    (host.close number).2.Guarded := by
  obtain ⟨hfiles, hsame⟩ := host.close_leaves number
  exact h.of_keeps (hfiles ▸ .refl _) hsame

/-- Snapshots come and go without a look at files and directories. -/
theorem Guarded.setSnapshots {host after : Host} {number : Nat} {db found : Database}
    (h : host.Guarded) (hfound : host.database? number = some found)
    (hdirectory : db.directory = found.directory) (hdatabases : after.databases = host.databases)
    (hfiles : after.files = host.files) : (after.setDatabase number db).Guarded := by
  refine h.setDatabase hdatabases (hfiles ▸ .refl _) fun hosted hhosted => ?_
  unfold database? at hfound
  rw [hhosted] at hfound
  obtain rfl := Option.some.inj hfound
  exact hdirectory

theorem guarded_takeSnapshot {host : Host} (h : host.Guarded) (number : Nat) :
    (host.takeSnapshot number).2.Guarded := by
  unfold takeSnapshot
  cases hdatabase : host.database? number with
  | none => exact h
  | some db =>
    simp only
    cases hopen : db.isOpen with
    | false =>
      rw [Database.takeSnapshot_closed hopen]
      exact h
    | true =>
      rw [Database.takeSnapshot_open hopen]
      let after : Host := { host with snapshots := host.snapshots ++ [⟨⟨db.id, db.last⟩, 1⟩] }
      show (after.setDatabase number
        { db with snapshots := db.snapshots.acquire db.last }).Guarded
      exact h.setSnapshots hdatabase rfl rfl rfl

theorem guarded_releaseSnapshot {host : Host} (h : host.Guarded) (number : Nat) :
    (host.releaseSnapshot number).Guarded := by
  unfold releaseSnapshot
  cases hheld : host.snapshots[number]? with
  | none => exact h
  | some held =>
    let after : Host :=
      { host with snapshots := host.snapshots.modify number HeldSnapshot.leave }
    have hafter : after.Guarded := h.of_keeps (.refl _) rfl
    simp only
    split
    · cases hdatabase : after.database? held.snapshot.database with
      | none => exact hafter
      | some db => exact hafter.setSnapshots hdatabase rfl rfl rfl
    · exact hafter

/-- A dropped database has no directory any more; the others keep theirs. -/
theorem directory?_drop (host : Host) (number other : Nat) :
    (host.drop number).directory? other =
      if other = number then none else host.directory? other := by
  have hsame := congrFun (host.close_leaves number).2 other
  unfold directory? database? at hsame ⊢
  unfold drop
  simp only [List.getElem?_set]
  by_cases heq : number = other
  · subst heq
    rw [if_pos rfl, if_pos rfl]
    split <;> rfl
  · rw [if_neg heq, if_neg (Ne.symm heq)]
    exact hsame

theorem files_drop_eq (host : Host) (number : Nat) :
    (host.drop number).files = match host.directory? number with
      | some directory => directory.release host.files
      | none => host.files := by
  unfold drop
  simp only [(host.close_leaves number).1]
  rfl

/-- Dropping a database gives its lock back, and no other. -/
theorem guarded_drop {host : Host} (h : host.Guarded) (number : Nat) :
    (host.drop number).Guarded := by
  have hfiles := host.files_drop_eq number
  have hdirectory := host.directory?_drop number
  cases hnumber : host.directory? number with
  | none =>
    rw [hnumber] at hfiles
    refine h.of_keeps (hfiles ▸ .refl _) (funext fun other => ?_)
    rw [hdirectory]
    split
    · next heq => rw [heq, hnumber]
    · rfl
  | some directory =>
    rw [hnumber] at hfiles
    simp only at hfiles
    have hunlocked := FileSystem.becomes_of_eq h.wellFormed
      (rfl : (directory.release host.files).nodes = host.files.nodes) rfl
    have hlookup : (host.drop number).files.lookup = host.files.lookup := by
      rw [hfiles]
      rfl
    refine ⟨hfiles ▸ hunlocked.wellFormed, fun {other found} hother => ?_, fun {lock} => ?_,
      fun {other another found second} hother hanother => ?_⟩
    · rw [hdirectory] at hother
      split at hother
      · cases hother
      · rw [hlookup]
        exact h.named hother
    · rw [hfiles]
      show lock ∈ host.files.locked.filter (· ≠ directory.lock) ↔ _
      rw [List.mem_filter, h.locked, decide_eq_true_iff]
      constructor
      · rintro ⟨⟨other, found, hother, rfl⟩, hne⟩
        refine ⟨other, found, ?_, rfl⟩
        rw [hdirectory, if_neg]
        · exact hother
        · rintro rfl
          obtain rfl := Option.some.inj (hnumber.symm.trans hother)
          exact hne rfl
      · rintro ⟨other, found, hother, rfl⟩
        rw [hdirectory] at hother
        split at hother
        · cases hother
        · next hne =>
          exact ⟨⟨other, found, hother, rfl⟩, fun hlock => hne (h.single hother hnumber hlock)⟩
    · rw [hdirectory] at hother hanother
      split at hother
      · cases hother
      · split at hanother
        · cases hanother
        · exact h.single hother hanother

theorem directory?_nextDatabase (host : Host) : host.directory? host.nextDatabase = none := by
  unfold directory? database? nextDatabase
  rw [List.getElem?_eq_none (Nat.le_refl _)]
  rfl

theorem directory?_addDatabase (host : Host) (db : Database) (log number : Nat) :
    (host.addDatabase db log).directory? number =
      if number = host.nextDatabase then db.directory else host.directory? number := by
  unfold directory? database? addDatabase nextDatabase
  rw [List.getElem?_append]
  split
  · next hlt => rw [if_neg (Nat.ne_of_lt hlt)]
  · next hle =>
    split
    · next heq =>
      rw [heq, Nat.sub_self]
      rfl
    · next hne =>
      rw [List.getElem?_eq_none (Nat.not_lt.mp hle), List.getElem?_eq_none]
      show 1 ≤ number - host.databases.length
      omega

/-- The new database has the number that no other has, and a lock that was free. -/
theorem guarded_openDirectory {host : Host} (h : host.Guarded) (settings : Settings)
    (path : Path) : (host.openDirectory settings path).2.Guarded := by
  have hlocking := Database.openDirectory_locking h.wellFormed host.nextDatabase settings path
  unfold openDirectory
  simp only
  generalize Database.openDirectory host.nextDatabase settings host.files path = opening
    at hlocking ⊢
  cases hlocking with
  | refused hrefused => exact h.of_keeps hrefused.keeps rfl
  | @opened db log lock after hbelongs htakes =>
    let logged : Host := ({ host with files := after }.addLog (.file log)).2
    show (logged.addDatabase db host.logs.length).Guarded
    have hdirectory (number : Nat) :
        (logged.addDatabase db host.logs.length).directory? number =
          if number = host.nextDatabase then some ⟨path, lock⟩ else host.directory? number := by
      rw [← hbelongs]
      exact logged.directory?_addDatabase db host.logs.length number
    have hfresh {number : Nat} {directory : Directory}
        (hold : host.directory? number = some directory) : directory.lock ≠ lock :=
      fun heq => htakes.free (h.locked.mpr ⟨number, directory, hold, heq⟩)
    refine ⟨htakes.wellFormed, fun {number directory} hnumber => ?_, fun {other} => ?_,
      fun {number other directory found} hnumber hother hsame => ?_⟩
    · rw [hdirectory] at hnumber
      split at hnumber
      · obtain rfl := Option.some.inj hnumber
        exact htakes.file
      · exact htakes.named (h.named hnumber)
    · show other ∈ after.locked ↔ _
      rw [htakes.locked, List.mem_cons, h.locked]
      constructor
      · rintro (rfl | ⟨number, directory, hold, rfl⟩)
        · exact ⟨host.nextDatabase, ⟨path, other⟩, by rw [hdirectory, if_pos rfl], rfl⟩
        · refine ⟨number, directory, ?_, rfl⟩
          rw [hdirectory, if_neg]
          · exact hold
          · rintro rfl
            cases (host.directory?_nextDatabase).symm.trans hold
      · rintro ⟨number, directory, hnumber, rfl⟩
        rw [hdirectory] at hnumber
        split at hnumber
        · obtain rfl := Option.some.inj hnumber
          exact .inl rfl
        · exact .inr ⟨number, directory, hnumber, rfl⟩
    · rw [hdirectory] at hnumber hother
      split at hnumber
      · split at hother
        · next hleft hright => exact hleft.trans hright.symm
        · obtain rfl := Option.some.inj hnumber
          exact absurd hsame.symm (hfresh hother)
      · split at hother
        · obtain rfl := Option.some.inj hother
          exact absurd hsame (hfresh hnumber)
        · exact h.single hnumber hother hsame

theorem guarded_serve {host : Host} (h : host.Guarded) (call : Call) :
    (host.serve call).Guarded := by
  cases call with
  | openDirectory settings path => exact guarded_openDirectory h settings path
  | write number settings batch => exact guarded_write h number settings batch
  | takeSnapshot number => exact guarded_takeSnapshot h number
  | releaseSnapshot number => exact guarded_releaseSnapshot h number
  | close number => exact guarded_close h number
  | drop number => exact guarded_drop h number

theorem guarded_run {host : Host} (h : host.Guarded) (calls : List Call) :
    (host.run calls).Guarded := by
  induction calls generalizing host with
  | nil => exact h
  | cons call calls ih => exact ih (guarded_serve h call)

section Guarded

variable {host : Host} (h : host.Guarded)

include h

/-- Two databases in one directory are one. -/
theorem Guarded.number_eq {number other : Nat} {directory found : Directory}
    (hnumber : host.directory? number = some directory)
    (hother : host.directory? other = some found)
    (hnames : directory.path.names = found.path.names) : number = other := by
  have hlock := (h.named hnumber).symm.trans (hnames ▸ h.named hother)
  exact h.single hnumber hother (Node.file.inj (Option.some.inj hlock))

/-- A directory with a handle cannot be opened, and the handle works on as before. -/
theorem Guarded.denied {number : Nat} {directory : Directory} {path : Path}
    (hnumber : host.directory? number = some directory) (hnames : path.names = directory.path.names)
    (settings : Settings) :
    ∃ error after,
      host.openDirectory settings path = (.error error, { host with files := after }) ∧
      Database.Denied settings host.files path error after ∧
      ∀ hosted held actions,
        let before := (host.session hosted held).run actions
        let behind := (({ host with files := after } : Host).session hosted held).run actions
        behind.1.map Event.reply = before.1.map Event.reply ∧
          behind.2.database = before.2.database := by
  have hlock : host.files.lookup (path.names ++ [lockName]) = some (.file directory.lock) :=
    hnames ▸ h.named hnumber
  have hheld : directory.lock ∈ host.files.locked :=
    h.locked.mpr ⟨number, directory, hnumber, rfl⟩
  obtain ⟨error, after, hopen, hdenied⟩ :=
    Database.openDirectory_held h.wellFormed hlock hheld host.nextDatabase settings
  refine ⟨error, after, ?_, hdenied, fun hosted held actions => ?_⟩
  · unfold openDirectory
    simp only [hopen]
  · obtain ⟨nodes, rfl⟩ := hdenied.nodes
    exact host.session_rename nodes hosted held actions

/-- An opening that fails leaves the locks, and those of databases are the only ones that
it can find held. -/
theorem Guarded.refused {settings : Settings} {path : Path} {error : StoreError} {after : Host}
    (hopen : host.openDirectory settings path = (.error error, after)) :
    after.files.locked = host.files.locked ∧
      (error = .locked → ∃ number directory, host.directory? number = some directory ∧
        directory.path.names = path.names) := by
  have hlocking := Database.openDirectory_locking h.wellFormed host.nextDatabase settings path
  unfold openDirectory at hopen
  simp only at hopen
  generalize Database.openDirectory host.nextDatabase settings host.files path = opening
    at hlocking hopen
  cases hlocking with
  | opened => cases (Prod.mk.inj hopen).1
  | @refused refusal left hrefused =>
    obtain ⟨herror, rfl⟩ := Prod.mk.inj hopen
    obtain rfl := Except.error.inj herror
    refine ⟨hrefused.keeps.locked, fun heq => ?_⟩
    obtain ⟨lock, hheld, hfound⟩ := hrefused.held heq
    obtain ⟨number, directory, hnumber, rfl⟩ := h.locked.mp hheld
    have hnames := (hrefused.keeps.wellFormed h.wellFormed).single
      (hrefused.keeps.named (h.named hnumber)) hfound
    exact ⟨number, directory, hnumber, List.append_cancel_right hnames⟩

end Guarded

/-- From files of which none is locked, whatever databases are opened, used, closed and
dropped, with whatever settings and at whatever paths: a directory has at most one
handle. An opening where there is one, be it closed, fails and leaves the files and the
handle as they were, and with settings that are valid it is for the lock that it fails,
or because the path of the lock file is longer than the system takes. An opening that
fails takes no lock, and only where there is a handle does it fail for the lock. -/
theorem one_handle_per_directory {files : FileSystem} (h : files.WellFormed)
    (hfree : files.locked = []) (calls : List Call) :
    let host := (initial files).run calls
    (∀ number other directory found, host.directory? number = some directory →
      host.directory? other = some found → directory.path.names = found.path.names →
      number = other) ∧
    (∀ number directory, host.directory? number = some directory →
      ∀ settings path, path.names = directory.path.names →
      ∃ error after,
        host.openDirectory settings path = (.error error, { host with files := after }) ∧
        Database.Denied settings host.files path error after ∧
        ∀ hosted held actions,
          let before := (host.session hosted held).run actions
          let behind := (({ host with files := after } : Host).session hosted held).run actions
          behind.1.map Event.reply = before.1.map Event.reply ∧
            behind.2.database = before.2.database) ∧
    (∀ settings path error after, host.openDirectory settings path = (.error error, after) →
      after.files.locked = host.files.locked ∧
        (error = .locked → ∃ number directory, host.directory? number = some directory ∧
          directory.path.names = path.names)) := by
  intro host
  have hguarded : host.Guarded := guarded_run (guarded_initial h hfree) calls
  exact ⟨fun number other directory found hnumber hother => hguarded.number_eq hnumber hother,
    fun number directory hnumber settings path hnames => hguarded.denied hnumber hnames settings,
    fun settings path error after hopen => hguarded.refused hopen⟩

/-- A closed database keeps its directory, also from a path that leads there by a
directory that is made for it. When it is dropped an opening fails behind the lock, and
the next one succeeds. -/
theorem one_handle_per_directory_closed :
    let path : Path := ⟨["d"]⟩
    let around : Path := ⟨["e", "..", "d"]⟩
    let opening : List Call := [.openDirectory { createIfMissing := true } path, .close 0]
    let closed := (initial .empty).run opening
    let dropped := (initial .empty).run (opening ++ [.drop 0])
    closed.openDirectory {} path = (.error .locked, closed) ∧
      (∃ after, closed.openDirectory { createIfMissing := true } around =
        (.error .locked, { closed with files := after }) ∧ after.file? = closed.files.file?) ∧
      (dropped.openDirectory { errorIfExists := true } path).2.files.locked = [] ∧
      ((dropped.serve (.openDirectory { errorIfExists := true } path)).openDirectory {} path).1 =
        .ok 1 := by
  intro path around opening closed dropped
  have hempty := FileSystem.wellFormed_empty
  obtain ⟨-, hdenied, -⟩ := one_handle_per_directory hempty rfl opening
  obtain ⟨-, -, hrefused⟩ := one_handle_per_directory hempty rfl (opening ++ [.drop 0])
  have hnumber : closed.directory? 0 = some ⟨path, 0⟩ := by decide +kernel
  refine ⟨?_, ?_, ?_, by decide +kernel⟩
  · obtain ⟨error, after, hopen, hdenied, -⟩ := hdenied 0 _ hnumber {} path rfl
    have hthere : closed.files.isDirectory path = true := by decide +kernel
    have hsame : after = closed.files := hdenied.unchanged hthere
    have hlocked : error = .locked :=
      (hdenied.locked rfl (hsame ▸ hthere)).trans (by decide +kernel)
    rw [hopen, hlocked, hsame]
  · obtain ⟨error, after, hopen, hdenied, -⟩ :=
      hdenied 0 _ hnumber { createIfMissing := true } around (by decide)
    have hthere : (closed.openDirectory { createIfMissing := true } around).2.files.isDirectory
        around = true := by decide +kernel
    rw [show closed.openDirectory _ around = _ from hopen] at hthere
    have hlocked : error = .locked := (hdenied.locked rfl hthere).trans (by decide +kernel)
    refine ⟨after, ?_, hdenied.file?⟩
    rw [hopen, hlocked]
  · have hfails : (dropped.openDirectory { errorIfExists := true } path).1.isOk = false := by
      decide +kernel
    rcases hopen : dropped.openDirectory { errorIfExists := true } path with ⟨result, after⟩
    rw [hopen] at hfails
    cases result with
    | ok number => cases hfails
    | error error =>
      have hfree : dropped.files.locked = [] := by decide +kernel
      obtain ⟨hlocked, -⟩ := hrefused { errorIfExists := true } path error after hopen
      rw [hlocked, hfree]

end Host

end BatchStore
