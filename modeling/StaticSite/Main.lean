import StaticSite.Command.Run
import StaticSite.Config.Standard
import StaticSite.Tree.Change
import StaticSite.Value.Clock

/-!
# The program

Reads the files below the working directory and below the directories that options name, answers the
command line on the tree of these files, and writes back what changed.
-/

namespace StaticSite.Program

/-- The variables of an environment, from the bytes in which the system keeps them. -/
def variablesOf (block : ByteArray) : List (String × String) :=
  let text := (Text.decode block).toOption.getD ""
  (Text.splitAt '\x00' text.toList).filterMap fun entry =>
    (Text.cut? ['='] entry).map fun (name, value) => (String.ofList name, String.ofList value)

/-- The directories whose files a request may need. -/
def roots (place : Place) (r : Command.Request) : List Path :=
  let named (s : Option String) : List Path := (s.map fun s => Path.absolute place s none).toList
  match r with
  | .run _ o =>
    place.cwd :: named o.root ++ (named o.config).map Path.parent ++
      (named o.logFile).map Path.parent
  | _ => []

/-- Puts directories into a tree at a location and at all above it. -/
def withDirectories (t : Tree) (l : Location) : Tree :=
  (List.range l.length).foldl (fun t n =>
    let above := l.take (n + 1)
    if (t.at? above).isSome then t else t.put above .directory) t

/-- Reads what stands at a location into a tree, and what lies up to `depth` levels below it. Links
and what cannot be read are left out. -/
def load : (depth : Nat) → Location → Tree → IO Tree
  | 0, _, t => return t
  | depth + 1, l, t => do
    let path := (← IO.currentDir) / Tree.locationText l
    match ← path.symlinkMetadata.toBaseIO with
    | .error _ => return t
    | .ok m =>
      match m.type with
      | .dir =>
        let mut t := withDirectories t l
        if let .ok entries ← path.readDir.toBaseIO then
          for e in entries do
            t ← load depth (l ++ [e.fileName]) t
        return t
      | .file =>
        match ← (IO.FS.readBinFile path).toBaseIO with
        | .ok bytes =>
            return t.put l
              (.file bytes (.given (m.modified.sec * 1000000000 + m.modified.nsec.toNat)))
        | .error _ => return t
      | _ => return t

/-- Takes away what stands at a location. -/
def clear (l : Location) : IO Unit := do
  let path := (← IO.currentDir) / Tree.locationText l
  if ← path.isDir then IO.FS.removeDirAll path
  else if ← path.pathExists then IO.FS.removeFile path

/-- Makes a change in the files of the system. -/
def apply (l : Location) : Tree.Change → IO Unit
  | .gone => clear l
  | .directory => do
    let path := (← IO.currentDir) / Tree.locationText l
    unless ← path.isDir do
      clear l
      IO.FS.createDirAll path
  | .file bytes => do
    let path := (← IO.currentDir) / Tree.locationText l
    if ← path.isDir then clear l
    IO.FS.writeBinFile path bytes

/-- A moment as log lines show it: with milliseconds after a comma. -/
def logTime (m : Moment) : String :=
  Moment.iso " " { m with micro := 0 } ++ "," ++ padded 3 (m.micro / 1000)

/-- The home directories in the text of the system's list of users: the names and the directories
are the first and sixth parts of its lines. -/
def usersOf (text : String) : List (String × String) :=
  (Text.splitAt '\n' text.toList).filterMap fun line =>
    match Text.splitAt ':' line with
    | name :: _ :: _ :: _ :: _ :: home :: _ => some (String.ofList name, String.ofList home)
    | _ => none

/-- The bytes of a file, or none if it cannot be read. -/
def bytesAt (file : String) : IO ByteArray := do
  match ← (IO.FS.readBinFile file).toBaseIO with
  | .ok bytes => return bytes
  | .error _ => return ByteArray.empty

/-- Answers a command line; the answer is the status. -/
def run (args : List String) : IO UInt32 := do
  let here ← IO.currentDir
  let environment := variablesOf (← bytesAt "/proc/self/environ")
  let users := usersOf ((Text.decode (← bytesAt "/etc/passwd")).toOption.getD "")
  let place : Place :=
    ⟨Path.ofString here.toString, ⟨(environment.lookup "HOME").getD "/", users⟩, .usual⟩
  let clock := (← (here / "/proc/self/stat").metadata).modified
  let now := Moment.ofSeconds clock.sec.toNat (clock.nsec.toNat / 1000)
  let request := Command.Request.ofArguments args
  let before ← (roots place request).foldlM (fun t p => load pathLimit p.names t) Tree.empty
  let session : Session Unit := Session.start before place now.date ()
  let (outcome, after) :=
    (Command.answer request ⟨environment, now.iso "T", logTime now, .standard⟩).perform session
  for (l, change) in Tree.changes before after.tree do
    apply l change
  match outcome with
  | .ok o =>
    IO.print o.out
    IO.eprint o.err
    return o.status.toUInt32
  | .error fault =>
    IO.eprintln fault.message
    return 1

end StaticSite.Program

/-- Answers the command line. -/
def main (args : List String) : IO UInt32 := StaticSite.Program.run args
