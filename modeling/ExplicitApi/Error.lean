import ExplicitApi.FileTree.Basic
import ExplicitApi.Glob.Basic
import ExplicitApi.Mismatch
import ExplicitApi.Path

/-! Why an operation on sources, configuration or cache fails, and the words for it. -/
namespace ExplicitApi

/-- Why a pattern for paths is refused; the pattern is given without its mark. -/
structure PatternError where
  pattern : String
  cause : Glob.Error
  deriving DecidableEq, Repr

def PatternError.message (e : PatternError) : String :=
  "Invalid pattern '" ++ e.pattern ++ "': " ++ e.cause.message

inductive ConfigError where
  | unreadableFile (path : Path) (cause : IoError)
  | unreadableIgnoreFile (path : Path) (cause : IoError)
  | malformed
  /-- A value of the wrong shape, with the fields that lead to it. -/
  | mismatch (place : String) (cause : Mismatch)
  | unsupportedVersion (version : String)
  | noExtension
  | emptyExtension (number : Nat)
  | invalidPattern (pattern : String) (cause : Glob.Error)
  | invalidFilter (cause : PatternError)
  deriving DecidableEq, Repr

namespace ConfigError

def message : ConfigError → String
  | unreadableFile path cause =>
    "Failed to read config file '" ++ path.spelling ++ "': " ++ cause.message
  | unreadableIgnoreFile path cause =>
    "Failed to read ignore file '" ++ path.spelling ++ "': " ++ cause.message
  | malformed => "Failed to parse config"
  | mismatch place cause =>
    "Failed to parse config: " ++ (if place.isEmpty then "" else place ++ ": ") ++ cause.message
  | unsupportedVersion version =>
    "Unsupported configuration version: " ++ version ++ ". Supported versions: 1.0"
  | noExtension => "At least one file extension must be configured"
  | emptyExtension number => "Extension #" ++ toString number ++ " is empty"
  | invalidPattern pattern cause => "Invalid path pattern '" ++ pattern ++ "': " ++ cause.message
  | invalidFilter cause => "Failed to create path filter: Pattern error: " ++ cause.message

end ConfigError

/-- What could not be done to a source file. -/
inductive ProcessingError where
  | unreadable (cause : IoError)
  | unwritable (cause : IoError)
  deriving DecidableEq, Repr

namespace ProcessingError

def message : ProcessingError → String
  | unreadable cause => "Failed to read file: " ++ cause.message
  | unwritable cause => "Failed to write file: " ++ cause.message

end ProcessingError

inductive CacheError where
  | unreadable (path : Path) (cause : IoError)
  | malformed
  | mismatch (path : Path) (cause : Mismatch)
  | unsupportedVersion (version : UInt32) (path : Path)
  | directoryNotMade (cause : IoError)
  /-- A recorded modification time lies before 1970. -/
  | timeBeforeEpoch
  | unwritable (cause : IoError)
  | notRemoved (cause : IoError)
  | noStatus (path : Path) (cause : IoError)
  | noHash (path : Path) (cause : IoError)
  deriving DecidableEq, Repr

namespace CacheError

def message : CacheError → String
  | unreadable path cause =>
    "Failed to read cache file '" ++ path.spelling ++ "': " ++ cause.message
  | malformed => "Failed to parse cache file"
  | mismatch path cause =>
    "Failed to parse cache file '" ++ path.spelling ++ "': " ++ cause.message
  | unsupportedVersion version path =>
    "Unsupported cache version " ++ toString version.toNat ++ " in '" ++ path.spelling ++
      "'; delete the file to rebuild it"
  | directoryNotMade cause => "Failed to create cache directory: " ++ cause.message
  | timeBeforeEpoch =>
    "Failed to serialize cache: SystemTime must be later than UNIX_EPOCH"
  | unwritable cause => "Failed to write cache file: " ++ cause.message
  | notRemoved cause => "Failed to remove cache file: " ++ cause.message
  | noStatus path cause => "Failed to stat " ++ path.spelling ++ ": " ++ cause.message
  | noHash path cause => "Failed to hash " ++ path.spelling ++ ": " ++ cause.message

end CacheError

inductive Error where
  | configuration (cause : ConfigError)
  | pattern (cause : PatternError)
  | processing (file : Path) (cause : ProcessingError)
  | cache (cause : CacheError)
  deriving DecidableEq, Repr

namespace Error

def message : Error → String
  | configuration cause => "Configuration error: " ++ cause.message
  | pattern cause => "Pattern error: " ++ cause.message
  | processing file cause => "Failed to process " ++ file.spelling ++ ": " ++ cause.message
  | cache cause => "Cache error: " ++ cause.message

end Error

end ExplicitApi
