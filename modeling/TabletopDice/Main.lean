import TabletopDice.CommandLine
import TabletopDice.Generator

/-!
# The program

The outer layer of the command line: it asks and reads, seeds the generator, prints the report and
hands over the exit code. What is printed is decided in `TabletopDice.CommandLine`.
-/

set_option autoImplicit false

namespace TabletopDice.CommandLine

/-- More faces than any roll can list. -/
def allowance : Nat := 1 <<< 62

/-- The bytes up to the end of the first line, the line end included. -/
def readLine (stream : IO.FS.Stream) : IO ByteArray := do
  let mut read := ByteArray.empty
  for _ in [0:allowance] do
    let byte ← stream.read 1
    read := read ++ byte
    if byte.isEmpty || byte.toList = [10] then break
  return read

/-- One run of the program, with a seed from the system. -/
def perform (args : List String) : IO UInt32 := do
  let output ← IO.getStdout
  if args.isEmpty then
    output.putStr (String.ofList prompt)
    output.flush
  let bytes ← if args.isEmpty then readLine (← IO.getStdin) else pure .empty
  let seed := (← IO.getRandomBytes 8).toList.foldl (fun n b => n * 256 + b.toNat) 0
  let report := answer Generator.source (allowance, UInt64.ofNat seed) (input args bytes.toList)
  output.putStr (String.ofList report.printed)
  output.flush
  if let some failure := report.failure? then
    (← IO.getStderr).putStrLn failure.message
  return report.exitCode

end TabletopDice.CommandLine

def main (args : List String) : IO UInt32 := TabletopDice.CommandLine.perform args
