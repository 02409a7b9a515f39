import WidthTrace.Analysis.Report
import WidthTrace.Manifest.Document
import WidthTrace.SymbolTable.Text

/-!
# Analysing files

The inputs of an analysis as files: an image, and optionally symbols and a
manifest. The image is looked at first, then the symbols, then the manifest, and
the first fault ends the analysis.
-/

namespace WidthTrace

/-- What became of reading a file. -/
inductive FileContents where
  | missing
  | bytes (contents : ByteArray)

namespace FileContents

def bytes? : FileContents → Option ByteArray
  | .missing => none
  | .bytes contents => some contents

/-- The text of a file that is there and holds valid UTF-8. -/
def text? (file : FileContents) : Option String :=
  file.bytes?.bind String.fromUTF8?

end FileContents

inductive LoadError where
  | imageUnreadable
  | imageEmpty
  | symbolsUnreadable
  | manifestUnreadable
  | manifestInvalid
deriving DecidableEq, Repr

/-- The words for a fault of the contents themselves; those for a file that cannot be read belong to
the system. -/
def LoadError.message? : LoadError → Option String
  | .imageEmpty => some "ROM error: ROM image is empty"
  | _ => none

namespace Report

def loadImage (file : FileContents) (mapping : Mapping) : Except LoadError Image :=
  match file.bytes? with
  | none => .error .imageUnreadable
  | some bytes => if bytes.isEmpty then .error .imageEmpty else .ok ⟨bytes, mapping⟩

def loadSymbols : Option FileContents → Except LoadError SymbolTable
  | none => .ok .empty
  | some file =>
      match file.text? with
      | none => .error .symbolsUnreadable
      | some text => .ok (.ofText text)

def loadManifest : Option FileContents → Except LoadError (Option Manifest)
  | none => .ok none
  | some file =>
      match file.text? with
      | none => .error .manifestUnreadable
      | some text =>
          match Manifest.ofText? text with
          | none => .error .manifestInvalid
          | some manifest => .ok (some manifest)

def ofFiles (image : FileContents) (symbols manifest : Option FileContents) (config : Config) :
    Except LoadError Report := do
  let image ← loadImage image config.mapping
  let symbols ← loadSymbols symbols
  let manifest ← loadManifest manifest
  return ofImage image config symbols manifest

end Report

end WidthTrace
