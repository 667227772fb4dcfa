import DoWhile.CommandLine

/-!
# The command

Reads the file that the arguments ask for, measures the time that the outcome takes, and prints what
the command line of the library makes of both: `run`, on a reader that has the file, with the time
that was measured.
-/

set_option autoImplicit false

namespace DoWhile.CommandLine

/-- A duration in milliseconds with two decimal places, rounded to the nearest. -/
def milliseconds (nanoseconds : Nat) : String :=
  let hundredths := (nanoseconds + 5000) / 10000
  let places := toString (hundredths % 100)
  toString (hundredths / 100) ++ "." ++ (if places.length < 2 then "0" ++ places else places)

/-- The failure that the operating system reported. -/
def failureOf : IO.Error → ReadFailure
  | .noFileOrDirectory _ code details => ⟨code.toNat, details, true⟩
  | .inappropriateType _ code details => ⟨code.toNat, details, true⟩
  | .permissionDenied _ code details => ⟨code.toNat, details, true⟩
  | .otherError code details => ⟨code.toNat, details, true⟩
  | e => ⟨5, toString e, false⟩

/-- What the operating system gives for the one path that the arguments ask for. -/
def readerFor (args : List String) : IO Reader := do
  match request args with
  | .ok (some p) =>
    try
      let bytes ← IO.FS.readBinFile p.text
      return fun _ => .ok bytes
    catch e =>
      return fun _ => .error (failureOf e)
  | _ => return fun _ => .error default

/-- Does some work, and gives the text of the time that it took. -/
def timed {α : Type} (work : Unit → α) : IO (α × String) := do
  let started ← IO.monoNanosNow
  let result ← IO.lazyPure work
  let ended ← IO.monoNanosNow
  return (result, milliseconds (ended - started))

/-- Writes what a run left behind and gives its exit code; a fault is reported. -/
def finish : Except Fault Console → IO UInt32
  | .ok c => do
    (← IO.getStdout).putStr c.stdout
    (← IO.getStderr).putStr c.stderr
    return UInt32.ofNat c.exit
  | .error f => do
    (← IO.getStderr).putStrLn (f.message.getD "the file is not valid UTF-8")
    return 1

end DoWhile.CommandLine

open DoWhile.CommandLine in

/-- Runs the command: reads the file, analyses it while the clock runs, prints what there is to say
and exits. -/
def main (args : List String) : IO UInt32 := do
  let reader ← readerFor args
  let (result, elapsed) ← timed fun _ => outcome reader args
  finish (conclude elapsed result)
