import Fileblock.Go.Runes
import Fileblock.Mount.Octal

/-! `ParseMountInfo`: the lines of a mountinfo file and the fields of a line. -/
namespace Fileblock.Mount
open Go

structure MountInfo where
  majorMinor : Bytes
  mountPoint : Bytes
  mountOptions : List Bytes
  fsType : Bytes
  source : Bytes
  superOptions : List Bytes
  deriving DecidableEq

/-- `fault` is a crash, which no input leads to. -/
inductive ParseError where
  | malformed (line : Bytes)
  | tokenTooLong
  | fault (f : Fault)
  deriving DecidableEq

def maxTokenSize : ℕ := 1024 * 1024

/-- The lines of a file; what follows the last newline is one only if there is something. -/
def rawLines (s : Bytes) : List Bytes :=
  let pieces := s.splitOn 10
  if pieces.getLast? = some [] then pieces.dropLast else pieces

/-- `bufio.ScanLines` takes a carriage return off the end of a line. -/
def dropCR (line : Bytes) : Bytes := if line.getLast? = some 13 then line.dropLast else line

def parseFields (line : Bytes) (f : List Bytes) : Except ParseError MountInfo :=
  let sep := f.idxOf [45]
  if sep = f.length ∨ sep < 6 ∨ f.length < sep + 4 then .error (.malformed line)
  else do
    let mountPoint ← (unescapeOctal (f.getD 4 [])).mapError .fault
    let source ← (unescapeOctal (f.getD (sep + 2) [])).mapError .fault
    pure ⟨f.getD 2 [], mountPoint, (f.getD 5 []).splitOn 44, f.getD (sep + 1) [], source,
      (f.getD (sep + 3) []).splitOn 44⟩

/-- Lines are read one by one; the first that is too long ends the scan, the first that
is malformed the parse. -/
def parseLines : (out : List MountInfo) → List Bytes → List MountInfo × Option ParseError
  | out, [] => (out, none)
  | out, raw :: lines =>
    if maxTokenSize ≤ raw.length then (out, some .tokenTooLong)
    else
      let line := dropCR raw
      if fields line = [] then parseLines out lines
      else
        match parseFields line (fields line) with
        | .error e => ([], some e)
        | .ok info => parseLines (out ++ [info]) lines

def parseMountInfo (s : Bytes) : List MountInfo × Option ParseError := parseLines [] (rawLines s)

end Fileblock.Mount
