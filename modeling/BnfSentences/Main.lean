import BnfSentences.CommandLine.Run

/-!
# The program

`main` finds the file that the command line names, holds the session if there is
one, and writes what `Options.start` and `Session.react` say.
-/

namespace BnfSentences

def fileAt (path : Text) : IO FileContent := do
  try
    return .bytes (← IO.FS.readBinFile (String.ofList path)).toList
  catch
    | .noFileOrDirectory .. => return .missing
    | .inappropriateType _ 21 _ => return .directory
    | e => throw e

def Report.write (r : Report) : IO UInt32 := do
  IO.print (String.ofList r.stdout)
  IO.eprint (String.ofList r.stderr)
  return UInt32.ofNat r.status

/-- The octets of the next line with the newline that ends it; none at the end. -/
partial def nextLine (input : IO.FS.Stream) (line : ByteArray) : IO ByteArray := do
  let octet ← input.read 1
  if octet.isEmpty || octet[0]? == some Utf8.newline then return line ++ octet
  else nextLine input (line ++ octet)

partial def hold (input : IO.FS.Stream) (s : Session ChaCha) : IO UInt32 := do
  (← IO.getStdout).flush
  let line := (← nextLine input .empty).toList
  if line.isEmpty then return ← (Report.ofConversation [] .finished).write
  match s.react .ample line with
  | .stop ending => (Report.ofConversation [] ending).write
  | .go output next =>
    IO.print (String.ofList output)
    hold input next

end BnfSentences

open BnfSentences in
/-- The program. A generator without a seed starts from 32 octets of the system. -/
def main (arguments : List String) : IO UInt32 := do
  match Options.parse (arguments.map String.toList) with
  | .error stop => (Report.ofStop stop).write
  | .ok o =>
    let octets := (← IO.getRandomBytes 32).toList
    let fresh := (ChaCha.Key.ofBytes? octets).getD (Vector.replicate 8 0)
    match o.start .ample fresh (← fileAt o.file) with
    | .inl report => report.write
    | .inr session =>
      IO.print (String.ofList (Session.opening session.generator.grammar))
      hold (← IO.getStdin) session
