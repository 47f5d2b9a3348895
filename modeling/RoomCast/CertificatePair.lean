import RoomCast.FileTree
import RoomCast.LossyText

namespace RoomCast

def sectionBegin : List Char := "-----BEGIN ".toList

def sectionDashes : List Char := "-----".toList

def sectionEnd (label : List Char) : List Char := "-----END ".toList ++ label ++ sectionDashes

def withoutTrailingBlanks (line : List Char) : List Char :=
  (line.reverse.dropWhile fun c => c = ' ' || c = '\r').reverse

/-- The label of the section that a line begins. -/
def sectionLabel? (line : List Char) : Option (List Char) :=
  if sectionBegin.isPrefixOf line then
    let rest := withoutTrailingBlanks (line.drop sectionBegin.length)
    if sectionDashes.isSuffixOf rest then some (rest.take (rest.length - sectionDashes.length))
    else none
  else none

/-- The labels of the sections that are ended, with the one that has begun. -/
def sectionLabels : Option (List Char) → List (List Char) → List String
  | _, [] => []
  | begun, line :: lines =>
    match sectionLabel? line with
    | some label => sectionLabels (some label) lines
    | none =>
      match begun with
      | none => sectionLabels none lines
      | some label =>
        if (sectionEnd label).isPrefixOf line then String.ofList label :: sectionLabels none lines
        else sectionLabels (some label) lines

def textLines : List Char → List (List Char)
  | [] => [[]]
  | c :: cs =>
    match textLines cs with
    | [] => [[c]]
    | line :: lines => if c = '\n' then [] :: line :: lines else (c :: line) :: lines

def fileSections (content : ByteArray) : List String :=
  sectionLabels none (textLines (lossyText content.toList).toList)

def keyLabels : List String := ["PRIVATE KEY", "RSA PRIVATE KEY", "EC PRIVATE KEY"]

def certificateLabel : String := "CERTIFICATE"

def readCause (path cause : String) : String := "failed to read from file `" ++ path ++ "`: " ++ cause

def readWhole (look : String → FileEntry) (path : String) : Except String ByteArray :=
  match look path with
  | .file content => .ok content
  | .directory => .error (readCause path "Is a directory (os error 21)")
  | .absent => .error (readCause path "No such file or directory (os error 2)")

/-- Loads a certificate and its key, or gives the cause why they do not make a pair. The loading is that
of a library and part of the outer layer: a server takes its answer from `Outside.pair`, whatever gives it. -/
def loadPair (look : String → FileEntry) (certificate key : String) : Except String Unit := do
  let certificate ← readWhole look certificate
  let key ← readWhole look key
  if ((fileSections key).filter (· ∈ keyLabels)).length ≠ 1 then
    throw "private key format not supported"
  if certificateLabel ∉ fileSections certificate then
    throw "peer sent no certificates"

end RoomCast
