import HouseStyle.CommandLine.Run

/-!
# The program

The command line over the real file system. The files that directories hold are named on the
standard input, one path on each line, so that the program searches what the caller lets it see;
files that are arguments, and configuration files above the first path, are looked up by
themselves. The formatter is not started from here, which counts as an attempt that failed.
-/

namespace HouseStyle

open CommandLine

/-- The paths named on the standard input; none if a person sits there. -/
def namedPaths : IO (List SourcePath) := do
  let input ← IO.getStdin
  if ← input.isTty then return []
  let rec read (limit : Nat) (done : List SourcePath) : IO (List SourcePath) :=
    match limit with
    | 0 => return done
    | limit + 1 => do
      let line ← input.getLine
      if line.isEmpty then return done
      else read limit (SourcePath.ofString line.trimAscii.toString :: done)
  read 1000000 []

/-- Adds the file at a path to a tree, if it is one that can be read. Where there is no such file there is none in
the tree either. -/
def addFile (base : SourcePath) (t : FileTree) (p : SourcePath) : IO FileTree := do
  let place := SourcePath.resolve base p
  try
    let bytes ← IO.FS.readBinFile place.toString
    return t.set place (.file bytes.toList)
  catch
    | .noFileOrDirectory .. => return t.remove place
    | _ => return t

/-- The paths that a request needs besides those that are named. -/
def neededPaths (base : SourcePath) : Request → List SourcePath
  | .check _ o =>
    let paths := (if o.paths.isEmpty then ["."] else o.paths).map SourcePath.ofString
    let above := (SourcePath.resolve base (paths.headD SourcePath.here)).withParents
    paths ++ (o.configFile.map SourcePath.ofString).toList ++
      above.flatMap fun dir => [dir.child configFileName, dir.child sharedFileName]
  | _ => []

/-- The world as a request sees it. -/
def worldFor (base : SourcePath) (r : Request) : IO World := do
  let needed := neededPaths base r
  let named ← if needed.isEmpty then pure [] else namedPaths
  let here : FileTree := FileTree.set {} (SourcePath.resolve base .here) .directory
  let tree ← (needed ++ named).foldlM (addFile base) here
  return { base, tree, clock := fun _ => .whole 0
           spawn := fun _ _ => .failed "programs are not started" }

/-- A reading of the clock, in seconds. -/
def reading : IO Quantity := do
  return .real (.ofRatio false (← IO.monoMsNow) 1000)

/-- A check that reads the clock before the turn of each file. -/
def timedCheck (w : World) (verbosity : Verbosity) (o : CheckOptions) :
    IO (Except Failure Output) := do
  match target w o with
  | .error e => return .error e
  | .ok (.error output) => return .ok output
  | .ok (.ok t) =>
    match t.files w, t.deadline (← reading) with
    | .error f, _ => return .error (.fault f)
    | _, .error f => return .error (.fault f)
    | .ok found, .ok deadline =>
      let outcomes ← found.mapM fun p => do
        return t.turn w.base w.tree (decide (1 < found.length)) deadline (← reading) p
      return .ok (present w.base verbosity (t.conclude w (fixMode o) outcomes))

/-- Writes the files of a tree that differ from those of another one. -/
def writeChanges (before after : FileTree) : IO Unit :=
  after.entries.forM fun (p, e) =>
    match e with
    | .file bytes =>
      if before.entry? p == some e then pure ()
      else IO.FS.writeBinFile p.toString (ByteArray.mk bytes.toArray)
    | .directory => pure ()

/-- Writes the output of a command, and gives its exit code. -/
def finish (before : FileTree) : Except Failure Output → IO UInt32
  | .ok output => do
    (output.tree.map (writeChanges before)).getD (pure ())
    IO.print output.stdout
    IO.eprint output.stderr
    return UInt32.ofNat output.exit
  | .error (.usage e) => do
    IO.eprintln ("Error: " ++ e.message)
    return 2
  | .error (.fault _) => do
    IO.eprintln "Error: the run cannot start."
    return 1

end HouseStyle

/-- Runs the program. -/
def main (args : List String) : IO UInt32 := do
  let base := HouseStyle.SourcePath.ofString (toString (← IO.currentDir))
  match HouseStyle.CommandLine.request args with
  | .error e => HouseStyle.finish {} (.error (.usage e))
  | .ok request =>
    let w ← HouseStyle.worldFor base request
    match request with
    | .check verbosity o => HouseStyle.finish w.tree (← HouseStyle.timedCheck w verbosity o)
    | _ => HouseStyle.finish w.tree (HouseStyle.CommandLine.run w args)
