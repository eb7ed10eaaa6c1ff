import Optical.Text.Quoted

/-!
# Errors

Why an image cannot be read, by cause, and the sentence that reports each cause.

* MediumFault is a failure of the medium beneath or of a read that does not fit it; its kind groups
  the causes for callers that only ask how to go on.
* FormatFault is a UDF structure that cannot be understood.
* Error joins these with the failures of a whole request.
-/

namespace Optical

/-- How a failure of the medium is grouped. -/
inductive FaultKind where
  | unexpectedEnd
  | invalidInput
  | permissionDenied
  | writeZero
  | other
deriving DecidableEq, Repr

/-- A failure of the medium or of a single read. -/
inductive MediumFault where
  /-- The medium ends inside the bytes asked for. -/
  | shortRead (offset wanted got : Nat)
  /-- The medium ends inside a UDF descriptor. -/
  | shortDescriptor (sector wanted got : Nat)
  /-- A file identifier is longer than what is left of its directory. -/
  | shortIdentifier (sector : Nat)
  /-- The medium ends inside the window of a stream. -/
  | shortWindow (missing : Nat)
  /-- A stream ends before a buffer is full. -/
  | unfilledBuffer
  /-- A file does not fit into the buffer given for it. -/
  | smallBuffer (available size : Nat)
  /-- A seek leads to a position below zero or above every 64-bit number. -/
  | unreachablePosition
  /-- A seek leads past the end of a window. -/
  | seekOutOfRange (offset length : Nat)
  /-- The receiver of a transfer takes no more bytes. -/
  | fullSink
  /-- The medium refuses a read for a reason of its own. -/
  | refused (kind : FaultKind) (reason : String)
  /-- Any other error, as seen by a reader that knows only faults. -/
  | wrapped (message : String)
deriving DecidableEq, Repr

/-- A UDF structure that cannot be understood. -/
inductive FormatFault where
  | noAnchor
  | unknownDescriptor (tag : UInt16) (sector : Nat)
  | unexpectedTag (expected found : UInt16) (sector : Nat)
  | unsupportedFileType (fileType : UInt8) (sector : Nat)
  | unknownPartition (number : UInt16)
  | noFileSet
  | descriptorLoop (sector : Nat)
deriving DecidableEq, Repr

/-- Why a request fails. -/
inductive Error where
  | medium (fault : MediumFault)
  /-- A block device fails; the block is counted from the start of the device. -/
  | blockDevice (lba : Nat) (reason : String)
  | noFileSystem
  | invalidSettings (text : String)
  | tableOutOfRange (index count : Nat)
  | noRootDirectory (index : Nat)
  | directoryCycle (sector : Nat)
  | directoryTooDeep
  | seekOutOfRange (offset length : Nat)
  | invalidFingerprint (text : String)
  | format (fault : FormatFault)
deriving DecidableEq, Repr

/-- The deepest level of directories below the root. -/
def maxDirectoryDepth : Nat := 64

/-- The sentence for a seek past the end of a window. -/
def seekMessage (offset length : Nat) : String :=
  s!"seek to {offset} beyond extent length {length}"

namespace MediumFault

/-- The group of a fault. -/
def kind : MediumFault → FaultKind
  | shortRead .. | shortDescriptor .. | shortIdentifier .. | shortWindow .. | unfilledBuffer =>
      .unexpectedEnd
  | smallBuffer .. | unreachablePosition | seekOutOfRange .. => .invalidInput
  | fullSink => .writeZero
  | refused kind _ => kind
  | wrapped _ => .other

/-- The sentence for a fault. -/
def message : MediumFault → String
  | shortRead offset wanted got =>
      s!"short read at offset {offset}: wanted {wanted} bytes, got {got}"
  | shortDescriptor sector wanted got =>
      s!"descriptor at sector {sector} needs {wanted} bytes, image has {got}"
  | shortIdentifier sector =>
      s!"file identifier at sector {sector} runs past its directory"
  | shortWindow missing =>
      s!"image ends {missing} bytes before the end of the extent"
  | unfilledBuffer => "failed to fill whole buffer"
  | smallBuffer available size =>
      s!"buffer of {available} bytes too small for {size} byte file"
  | unreachablePosition => "seek before start of extent"
  | seekOutOfRange offset length => seekMessage offset length
  | fullSink => "failed to write whole buffer"
  | refused _ reason => reason
  | wrapped message => message

end MediumFault

namespace FormatFault

/-- The sentence for a fault. -/
def message : FormatFault → String
  | noAnchor => "no valid anchor volume descriptor pointer"
  | unknownDescriptor tag sector => s!"unknown descriptor tag {tag} at sector {sector}"
  | unexpectedTag expected found sector =>
      s!"expected tag {expected} at sector {sector}, found {found}"
  | unsupportedFileType fileType sector =>
      s!"unsupported file type {fileType} at sector {sector}"
  | unknownPartition number => s!"reference to unknown partition {number}"
  | noFileSet => "no file set descriptor found"
  | descriptorLoop sector => s!"descriptor sequence loops at sector {sector}"

end FormatFault

namespace Error

/-- The sentence for an error. -/
def message : Error → String
  | medium fault => "I/O error reading image: " ++ fault.message
  | blockDevice lba reason =>
      s!"block device read failed at LBA {lba}: " ++ Text.quote reason
  | noFileSystem => "no UDF or ISO9660 file system found in image"
  | invalidSettings text => "invalid settings string: " ++ Text.quote text
  | tableOutOfRange index count => s!"table of contents {index} out of range ({count} found)"
  | noRootDirectory index => s!"volume descriptor {index} has no root directory"
  | directoryCycle sector => s!"directory cycle detected at sector {sector}"
  | directoryTooDeep => s!"directory nesting exceeds {maxDirectoryDepth} levels"
  | seekOutOfRange offset length => seekMessage offset length
  | invalidFingerprint text => "invalid fingerprint: " ++ Text.quote text
  | format fault => "UDF format error: " ++ fault.message

/-- An error as a fault of the medium, for a reader that knows only faults. -/
def toFault : Error → MediumFault
  | medium fault => fault
  | seekOutOfRange offset length => .seekOutOfRange offset length
  | error => .wrapped error.message

/-- The medium ends before the bytes that are needed. -/
def isUnexpectedEnd : Error → Bool
  | medium fault => fault.kind == .unexpectedEnd
  | _ => false

end Error
end Optical
