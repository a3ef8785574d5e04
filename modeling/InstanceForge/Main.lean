import InstanceForge.Command.Line

/-!
# The program

Runs a command line on the files of the machine. Whatever is there and is no directory counts as a
file.
-/

namespace InstanceForge

namespace Machine

/-- The number of an error of the system, which some operations report as its negative. -/
def errorNumber (code : UInt32) : Nat :=
  if code.toNat < 0x80000000 then code.toNat else 0x100000000 - code.toNat

def faultOf : IO.Error -> FileFault
  | .noFileOrDirectory _ _ _ => .notFound
  | .noSuchThing _ _ _ => .notFound
  | .alreadyExists _ _ _ => .alreadyExists
  | .inappropriateType _ code text =>
      match errorNumber code with
      | 20 => .notDirectory
      | 21 => .isDirectory
      | _ => .other text
  | .invalidArgument _ code text =>
      if errorNumber code = 36 then .nameTooLong else .other text
  | .permissionDenied _ code text =>
      if errorNumber code = 13 then .other "Permission denied (os error 13)" else .other text
  | e => .other (toString e)

/-- Does something with a path, unless the path itself is refused. -/
def attempt {α : Type} (path : String) (act : IO α) : IO (Except FileFault α) := do
  match Path.fault? path with
  | some fault => pure (.error fault)
  | none =>
      try
        pure (.ok (<- act))
      catch e => pure (.error (faultOf e))

def contentOf (path : String) : IO (Except FileFault FileContent) :=
  attempt path do pure (.ofBytes (<- IO.FS.readBinFile path).toList)

/-- Whether a path leads to anything. It is looked up only, so the entry need not be readable. -/
def isPresent (path : String) : IO Bool := do
  match <- attempt path (IO.FS.realPath path) with
  | .ok _ => pure true
  | .error _ => pure false

/-- Only a directory has an entry for itself. -/
def isDirectory (path : String) : IO Bool :=
  isPresent (path ++ "/.")

instance : FileReader IO where
  currentPath := do pure (<- IO.currentDir).toString
  isFile path := do pure ((<- isPresent path) && !(<- isDirectory path))
  isPresent := isPresent
  readText path := do
    match <- contentOf path with
    | .ok (.text s) => pure (.ok s)
    | .ok (.bytes _) => pure (.error .notText)
    | .error fault => pure (.error fault)

/-- What making a directory comes to: it does no harm to fail where one is. -/
def settle (path : String) : Except FileFault Unit -> IO (Except FileFault Unit)
  | .ok () => pure (.ok ())
  | .error fault => do
      if <- isDirectory path then pure (.ok ()) else pure (.error fault)

/-- Makes the first of some directories, and before it those after it that are missing. -/
def makeChain : List String -> IO (Except FileFault Unit)
  | [] => pure (.error .notFound)
  | path :: above =>
      if path = "" then pure (.ok ())
      else do
        match <- attempt path (IO.FS.createDir path) with
        | .error .notFound =>
            match <- makeChain above with
            | .error fault => pure (.error fault)
            | .ok () => settle path (<- attempt path (IO.FS.createDir path))
        | made => settle path made

def change : FileChange -> IO (Except FileFault Unit)
  | .makeDirectories path => makeChain (Path.ancestors path)
  | .write path text => attempt path (IO.FS.writeFile path text)
  | .create path text =>
      attempt path do
        let file <- IO.FS.Handle.mk path .writeNew
        file.putStr text

def changeAll : List FileChange -> IO (Option FileFault)
  | [] => pure none
  | c :: rest => do
      match <- change c with
      | .error fault => pure (some fault)
      | .ok () => changeAll rest

end Machine

end InstanceForge

def main (args : List String) : IO UInt32 := do
  let stderr <- IO.getStderr
  let plan <- (InstanceForge.CommandLine.plan (<- stderr.isTty) args : IO InstanceForge.Plan)
  let outcome := plan.outcome (<- InstanceForge.Machine.changeAll plan.changes)
  IO.print outcome.stdout
  stderr.putStr outcome.stderr
  pure outcome.exit.toUInt32
