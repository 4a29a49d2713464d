import Overlay.Crypto.KeyPair
import Overlay.Files

/-!
# Key files

The document of a key pair is kept as one line of hexadecimal text.
-/

namespace Overlay.KeyFile

/-- Reads the key pair of a file.  Blanks around the text are dropped. -/
def load (files : Files) (path : String) : Except NetError Crypto.KeyPair :=
  match files.readText path with
  | .error fault => .error (.crypto (.unreadable path fault.text))
  | .ok text =>
    let trimmed := String.ofList (Text.trimBlank text.toList)
    match Text.Hex.decode (Bytes.ofText trimmed) with
    | .error fault => .error (.crypto (.notHex path fault))
    | .ok document => Crypto.KeyPair.load document

/-- Writes the key pair to a file, and makes the directories that it lies in.  They stay if the file
cannot be written. -/
def save (files : Files) (path : String) (pair : Crypto.KeyPair) : Except NetError Unit × Files :=
  let directory := (Path.parent? path).getD ""
  match files.makeDirectories directory.length directory with
  | .error fault => (.error (.io s!"Failed to create {directory}: {fault.text}"), files)
  | .ok files =>
    match files.write path (Bytes.ofText (Text.Hex.encode pair.document)) with
    | .error fault => (.error (.io s!"Failed to write {path}: {fault.text}"), files)
    | .ok files => (.ok (), files)

/-- The key pair of a file; if nothing is there, a new one of random bytes. -/
def loadOrGenerate (files : Files) (path : String) (entropy : Bytes) :
    Except NetError Crypto.KeyPair × Files :=
  if files.exists? path then (load files path, files)
  else
    let pair := Crypto.KeyPair.generate entropy
    let (saved, files) := save files path pair
    (saved.map fun _ => pair, files)

end Overlay.KeyFile
