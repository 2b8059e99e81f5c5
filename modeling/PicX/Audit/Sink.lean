import PicX.Audit.Verify
import PicX.Base.Program

/-!
# The file sink (`FileAuditSink`)

The sink as a program over a world: the directory, the file it holds open, and the history of the
lines it wrote. Every operation on the file system is an `Op`; whether it is done, fails or never
comes about because the process died is decided from outside, operation by operation. The clock,
the key ring and the order in which a directory lists its entries are inputs of each call.

`writeln!` reaches the file as two writes, the line and the line feed, and `fs::write` as the
creation of an empty file and a write; both can stop in between. The lock is not modelled: calls
are taken one after the other, and nothing in them panics while holding it. Neither are
permissions, nor the events sent to the log stream.
-/

namespace PicX.Audit

open PicX Program

/-- How a sink is configured. `retention` counts whole seconds. -/
structure FileAuditSink where
  directory : String
  serviceName : String
  serviceVersion : String
  retention : Nat
  deriving DecidableEq, Repr

/-- The file currently being appended to. -/
structure Open where
  day : Int
  seq : Nat
  previous : String
  deriving DecidableEq, Repr

/-- What a sink acts on. -/
structure World where
  /-- The directory, when there is one. -/
  directory : Option Directory
  opened : Option Open
  /-- Every record whose whole line reached its file, with the day of that file. -/
  written : List (Int × Record)

/-- The operations of a sink on the file system. -/
inductive Op where
  | createDir
  | restrictDir
  | readDir
  | readDirEntry (name : String)
  | removeDay (name : String)
  | removeSeal (name : String)
  | createSeal
  | writeSeal
  | restrictSeal
  | listDays
  | listDaysEntry (name : String)
  | openTail
  | readTail
  | openDay
  | restrictDay
  | writeLine
  | writeNewline
  | syncData
  | syncAll
  deriving DecidableEq, Repr

/-- What the clock can read, in seconds. -/
def Reading := { s : Int // 0 ≤ s ∧ s < 2 ^ 63 }

/-- What one call is given from outside. -/
structure Moment where
  now : Reading
  /-- The second reading, when a seal is made. -/
  sealedAt : Reading
  /-- The key ring, when one is composed. -/
  sign : Option (Bytes → Except String Signature)
  /-- The order in which the directory lists its entries. -/
  order : List String → List String
  order_perm : ∀ names, (order names).Perm names

/-- The day a call is made on. -/
def Moment.day (m : Moment) : Int := Civil.dayOf m.now.val

abbrev Action (α : Type) := Program Op World AuditError α

def notFound : String := "No such file or directory (os error 2)"

def isADirectory : String := "Is a directory (os error 21)"

/-! ## Steps on the directory -/

/-- Change the directory, when there is one. -/
def World.onDirectory (w : World) (g : Directory → Directory) : World :=
  { w with directory := w.directory.map g }

def World.lookup (w : World) (name : String) : Option Node := w.directory.bind (·.lookup name)

/-- An operation that leaves the world as it is. -/
def check (o : Op) (refuse : String → AuditError) : Action Unit :=
  perform o (fun w => .ok () w) (fun _ reason w => .error (refuse reason) w)

/-- `fs::create_dir_all` of the directory. -/
def createDirAll (sink : FileAuditSink) : Action Unit :=
  perform .createDir
    (fun w => .ok () { w with directory := some (w.directory.getD ∅) })
    (fun _ reason w =>
      .error (.backend ("creating " ++ sink.directory ++ ": " ++ reason)) w)

def restrict (o : Op) (path : String) : Action Unit :=
  check o fun reason => .backend ("restricting " ++ path ++ ": " ++ reason)

/-! ## Expiry -/

/-- The oldest day that is kept on a given day. -/
def oldestKept (sink : FileAuditSink) (today : Int) : Int := today - (sink.retention / 86400 : Nat)

/-- `fs::remove_file` of a day of records. -/
def removeDay (sink : FileAuditSink) (name : String) : Action Unit :=
  let refuse (reason : String) : AuditError :=
    .backend ("removing " ++ join sink.directory name ++ ": " ++ reason)
  perform (.removeDay name)
    (fun w => match w.lookup name with
      | some (.file _) => .ok () (w.onDirectory (·.erase name))
      | some .directory => .error (refuse isADirectory) w
      | none => .error (refuse notFound) w)
    (fun _ reason w => .error (refuse reason) w)

/-- `fs::remove_file` of the seal of the day in the file `name`, whatever comes of it. -/
def removeSeal (name : String) (day : Int) : Action Unit :=
  perform (.removeSeal name)
    (fun w => match w.lookup (sealName day) with
      | some (.file _) => .ok () (w.onDirectory (·.erase (sealName day)))
      | _ => .ok () w)
    (fun _ _ w => .ok () w)

/-- The loop over the entries of the directory; one that cannot be read ends the listing. -/
def expireEntries (sink : FileAuditSink) (oldest : Int) : List String → Nat → Action Nat
  | [], removed => pure removed
  | name :: rest, removed => do
    let more ← perform (.readDirEntry name) (fun w => .ok true w) (fun _ _ w => .ok false w)
    if more then
      match dayOfFile name with
      | none => expireEntries sink oldest rest removed
      | some day =>
        if oldest ≤ day then expireEntries sink oldest rest removed
        else do
          removeDay sink name
          removeSeal name day
          expireEntries sink oldest rest (removed + 1)
    else pure removed

/-- Removes every day of records older than the retention allows. -/
def expire (sink : FileAuditSink) (m : Moment) (today : Int) : Action Nat := do
  check .readDir .unavailable
  let w ← get
  match w.directory with
  | none => pure 0
  | some d => expireEntries sink (oldestKept sink today) (m.order d.keys) 0

/-- Prepares the directory and drops whatever is past its retention. -/
def prepare (sink : FileAuditSink) (m : Moment) : Action Unit := do
  createDirAll sink
  restrict .restrictDir sink.directory
  let _ ← expire sink m m.day

/-! ## Sealing -/

/-- The seal of a day: what it attests to, signed when a key ring is there and ready. -/
def sealOf (c : Crates) (m : Moment) (day : Int) (records : Nat) (head : String) : Seal :=
  let body : SealBody :=
    { day := (Civil.dateOf day).toIso, time := Civil.toRfc3339 m.sealedAt.val, records, head }
  let signed := m.sign.bind fun sign => (sign (c.sealBodyToVec body)).toOption
  { body
    kid := signed.map Signature.keyId
    algorithm := signed.map Signature.algorithm
    signature := signed.map fun s => hex s.bytes }

/-- `fs::write` of a seal. -/
def writeSealFile (sink : FileAuditSink) (day : Int) (text : String) : Action Unit := do
  let refuse (reason : String) : AuditError :=
    .backend ("writing " ++ join sink.directory (sealName day) ++ ": " ++ reason)
  perform .createSeal
    (fun w => match w.directory, w.lookup (sealName day) with
      | none, _ => .error (refuse notFound) w
      | _, some .directory => .error (refuse isADirectory) w
      | _, _ => .ok () (w.onDirectory (·.insert (sealName day) (.file []))))
    (fun _ reason w => .error (refuse reason) w)
  perform .writeSeal
    (fun w => .ok () (w.onDirectory (·.insert (sealName day) (.file (utf8 text)))))
    (fun n reason w => .error (refuse reason)
      (w.onDirectory (·.insert (sealName day) (.file ((utf8 text).take n)))))

/-- Attests to where the chain stood at the end of `day`. -/
def FileAuditSink.seal (c : Crates) (sink : FileAuditSink) (m : Moment) (day : Int) (records : Nat)
    (head : String) : Action Unit := do
  writeSealFile sink day (c.sealToStringPretty (sealOf c m day records head))
  restrict .restrictSeal (join sink.directory (sealName day))

/-! ## Opening -/

/-- The entries of the directory, up to one that cannot be read. -/
def listEntries : List String → Action (List String)
  | [] => pure []
  | name :: rest => do
    let more ← perform (.listDaysEntry name) (fun w => .ok true w) (fun _ _ w => .ok false w)
    if more then
      let names ← listEntries rest
      pure (name :: names)
    else pure []

/-- Every day the directory holds records for, oldest first. -/
def days (m : Moment) : Action (List Int) := do
  check .listDays .unavailable
  let w ← get
  match w.directory with
  | none => pure []
  | some d =>
    let names ← listEntries (m.order d.keys)
    pure (daysOf names)

/-- The last line of a file that has something on it, `read` lines of it being read. -/
def lastLine (content : Bytes) (read : Nat) : Option String :=
  ((((lines content).take read).takeWhile Option.isSome).filterMap fun line =>
    line.filter fun text => !blank text).getLast?

/-- The last line of the file of a day. A directory in its place opens, and reads as nothing. -/
def readLast (day : Int) : Action (Option String) := do
  perform .openTail
    (fun w => match w.lookup (fileName day) with
      | none => .error (.unavailable notFound) w
      | some _ => .ok () w)
    (fun _ reason w => .error (.unavailable reason) w)
  perform .readTail
    (fun w => match w.lookup (fileName day) with
      | some (.file content) => .ok (lastLine content (lines content).length) w
      | _ => .ok none w)
    (fun n _ w => match w.lookup (fileName day) with
      | some (.file content) => .ok (lastLine content n) w
      | _ => .ok none w)

/-- Where the chain left off: the sequence and digest of the last record written. -/
def tail (c : Crates) (m : Moment) : Action (Option (Nat × String)) := do
  let days ← days m
  match days.getLast? with
  | none => pure none
  | some latest =>
    let last ← readLast latest
    match last with
    | none => pure none
    | some text => match c.recordFromStr text with
      | .error e => throw (.backend ("reading the last record of the trail: " ++ e))
      | .ok record => pure (some (record.body.seq, record.digest))

/-- `OpenOptions::open` with `create` and `append`. -/
def openDay (sink : FileAuditSink) (day : Int) : Action Unit :=
  let refuse (reason : String) : AuditError :=
    .backend ("opening " ++ join sink.directory (fileName day) ++ ": " ++ reason)
  perform .openDay
    (fun w => match w.directory, w.lookup (fileName day) with
      | none, _ => .error (refuse notFound) w
      | _, some .directory => .error (refuse isADirectory) w
      | _, some (.file _) => .ok () w
      | _, none => .ok () (w.onDirectory (·.insert (fileName day) (.file []))))
    (fun _ reason w => .error (refuse reason) w)

/-- Whether the file of `day` is the one being written. -/
def current (opened : Option Open) (day : Int) : Bool := opened.any fun o => o.day = day

/-- Where the chain continues from: the last record of whatever was being written, or, on a cold
start, the last record of the most recent day on disk. -/
def continueFrom (c : Crates) (m : Moment) : Option Open → Action (Option (Nat × String))
  | some o => pure (some (o.seq, o.previous))
  | none => tail c m

/-- Opens the file for `day`, or rolls over to it, as needed. -/
def openFor (c : Crates) (sink : FileAuditSink) (m : Moment) (day : Int) : Action Unit := do
  let w ← get
  if current w.opened day then pure ()
  else
    let tail ← continueFrom c m w.opened
    createDirAll sink
    openDay sink day
    restrict .restrictDay (join sink.directory (fileName day))
    let (seq, previous) := tail.getD (0, GENESIS)
    modify fun w => { w with opened := some { day, seq, previous } }

/-! ## Recording -/

/-- The body of the next record. -/
def bodyOf (sink : FileAuditSink) (m : Moment) (event : AuditEvent)
    (policy : Option (String → String)) (o : Open) : Body where
  seq := o.seq + 1
  time := Civil.toRfc3339 m.now.val
  prev := o.previous
  action := event.action
  subject := event.subject.render policy
  subjectKind := event.subject.kind
  subjectSensitivity := event.subject.sensitivity.asStr
  target := event.target
  continuityId := event.continuityId
  continuityPosition := event.continuityPosition
  service := sink.serviceName
  version := sink.serviceVersion

/-- Bytes appended to the open file, as long as the directory still has it. -/
def World.append (w : World) (day : Int) (bytes : Bytes) : World :=
  match w.lookup (fileName day) with
  | some (.file content) => w.onDirectory (·.insert (fileName day) (.file (content ++ bytes)))
  | _ => w

/-- A record whose line is in the file. -/
def World.wrote (w : World) (day : Int) (record : Record) : World :=
  match w.lookup (fileName day) with
  | some (.file _) => { w with written := w.written ++ [(day, record)] }
  | _ => w

/-- `writeln!` of the line of a record, and the flush after it. -/
def appendRecord (c : Crates) (day : Int) (record : Record) : Action Unit := do
  let refuse (reason : String) : AuditError := .backend ("appending a record: " ++ reason)
  let line := utf8 (c.recordToString record)
  perform .writeLine
    (fun w => .ok () ((w.append day line).wrote day record))
    (fun n reason w => .error (refuse reason) (w.append day (line.take n)))
  perform .writeNewline
    (fun w => .ok () (w.append day [10]))
    (fun n reason w => .error (refuse reason) (w.append day ([10].take n)))
  check .syncData fun reason => .backend ("flushing a record: " ++ reason)

/-- The seal of the day that is closing, when there is one. A failure to seal does not stop the
record being written. -/
def sealClosing (c : Crates) (sink : FileAuditSink) (m : Moment) (rolled : Bool) :
    Option Open → Action Unit
  | some closing => if rolled then do
      let _ ← attempt (FileAuditSink.seal c sink m closing.day closing.seq closing.previous)
    else pure ()
  | none => pure ()

/-- A new day is the moment to drop the oldest one. -/
def expireRolled (sink : FileAuditSink) (m : Moment) (rolled : Bool) : Action Unit :=
  if rolled then do
    let _ ← expire sink m m.day
  else pure ()

/-- The next record, in the file that is open. -/
def writeNext (c : Crates) (sink : FileAuditSink) (m : Moment) (event : AuditEvent)
    (policy : Option (String → String)) : Option Open → Action Unit
  | none => throw (.backend "the audit file was not opened")
  | some o => do
    let body := bodyOf sink m event policy o
    let digest := expectedDigest c body
    appendRecord c o.day { body, digest }
    modify fun w => { w with opened := some { o with seq := o.seq + 1, previous := digest } }

/-- Records an event. -/
def record (c : Crates) (sink : FileAuditSink) (m : Moment) (event : AuditEvent)
    (policy : Option (String → String)) : Action Unit := do
  let w ← get
  let rolled := !current w.opened m.day
  sealClosing c sink m rolled w.opened
  openFor c sink m m.day
  expireRolled sink m rolled
  let w ← get
  writeNext c sink m event policy w.opened

/-- Flushes what is open, then seals it. -/
def closeOpen (c : Crates) (sink : FileAuditSink) (m : Moment) : Option Open → Action Unit
  | some o => do
    check .syncAll fun reason => .backend ("closing the trail: " ++ reason)
    let _ ← attempt (FileAuditSink.seal c sink m o.day o.seq o.previous)
  | none => pure ()

/-- Flushes and seals what is open, and closes it. -/
def shutdown (c : Crates) (sink : FileAuditSink) (m : Moment) : Action Unit := do
  let w ← get
  closeOpen c sink m w.opened
  modify fun w => { w with opened := none }

/-! ## Runs -/

/-- What can be asked of a sink; `restart` puts a new sink over the same directory. -/
inductive Call where
  | prepare
  | record (event : AuditEvent) (policy : Option (String → String))
  | shutdown
  | restart

/-- One call: on which sink, at which moment, and how each operation turns out. -/
structure Step where
  sink : FileAuditSink
  moment : Moment
  call : Call
  outcome : Op → Outcome

def Step.action (c : Crates) (s : Step) : Action Unit :=
  match s.call with
  | .prepare => Audit.prepare s.sink s.moment
  | .record event policy => Audit.record c s.sink s.moment event policy
  | .shutdown => Audit.shutdown c s.sink s.moment
  | .restart => modify fun w => { w with opened := none }

/-- What a process that died leaves: the memory is gone. -/
def afterwards : Ending World AuditError Unit → World
  | .ok _ w | .error _ w => w
  | .crash w => { w with opened := none }

/-- The world after a call. -/
def Step.run (c : Crates) (s : Step) (w : World) : World :=
  afterwards (s.action c s.outcome w)

/-- The worlds reached from `start` by steps that all satisfy `ok`, with the last reading of a
clock that never goes back. -/
inductive Run (c : Crates) (ok : World → Step → Prop) (start : World) : Int → World → Prop
  | start : Run c ok start 0 start
  | step {t : Int} {w : World} (s : Step) : Run c ok start t w → t ≤ s.moment.now.val → ok w s →
      Run c ok start s.moment.now.val (s.run c w)

end PicX.Audit
