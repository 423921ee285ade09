import ExplicitApi.Digest
import ExplicitApi.Qualify.Basic
import ExplicitApi.Selection.Pattern

/-!
Configurations: which files are selected and which rules apply. A configuration is named by a hash of
all that matters about it.
-/
namespace ExplicitApi

structure Config where
  version : String := "1.0"
  /-- Suffixes of the paths that are selected. -/
  extensions : List String := [".kt"]
  patterns : List String := []
  /-- The name of the ignore files; none or an empty one means that there are none. -/
  ignoreFile : Option String := some ".visibilityignore"
  rules : Rules := {}
  deriving DecidableEq, Repr, Inhabited

namespace Config

/-- Names of configuration files, looked for in this order. -/
def fileNames : List String :=
  ["visibility_fixer.yaml", "visibility_fixer.yml", ".visibility_fixer.yaml"]

def supportedVersions : List String := ["1.0"]

def isBlankText (s : String) : Bool := s.toList.all Text.isBlank

/-- The number, from one, of the first extension that is blank. -/
def blankExtension? (c : Config) : Option Nat := (c.extensions.findIdx? isBlankText).map (· + 1)

def checkPattern (pattern : String) : Except ConfigError Unit :=
  match PathPattern.compileSource (PathPattern.splitMark pattern).2 with
  | .ok _ => .ok ()
  | .error cause => .error (.invalidPattern pattern cause)

/-- Refuses other versions, blank extensions and patterns that do not compile. -/
def check (c : Config) : Except ConfigError Unit := do
  if c.version ∉ supportedVersions then throw (.unsupportedVersion c.version)
  if c.extensions = [] then throw .noExtension
  match c.blankExtension? with
  | some number => throw (.emptyExtension number)
  | none => pure ()
  c.patterns.forM checkPattern

def IsValid (c : Config) : Prop := c.check = .ok ()

instance (c : Config) : Decidable c.IsValid :=
  match h : c.check with
  | .ok () => isTrue h
  | .error _ => isFalse fun valid => by simp [IsValid, h] at valid

/-- One step in building a configuration from the default one. -/
inductive Setting where
  | extensions (extensions : List String)
  | pattern (pattern : String)
  | ignoreFile (name : String)
  | rule (kind : Declaration) (value : Bool)
  deriving DecidableEq, Repr

def set (c : Config) : Setting → Config
  | .extensions extensions => { c with extensions }
  | .pattern pattern => { c with patterns := c.patterns ++ [pattern] }
  | .ignoreFile name => { c with ignoreFile := some name }
  | .rule .type value => { c with rules := { c.rules with types := value } }
  | .rule .function value => { c with rules := { c.rules with functions := value } }

/-- Applies settings to the default configuration and checks the result. -/
def ofSettings (settings : List Setting) : Except Error Config := do
  let c := settings.foldl set {}
  match c.check with
  | .ok () => return c
  | .error cause => throw (.configuration cause)

/-- The bytes of a text and a byte that no text has. -/
def textBytes (s : String) : List UInt8 := s.toUTF8.toList ++ [0xff]

def countBytes (n : Nat) : List UInt8 := Digest.littleEndian 8 n

def listBytes (l : List String) : List UInt8 := countBytes l.length ++ l.flatMap textBytes

def optionBytes : Option String → List UInt8
  | none => countBytes 0
  | some s => countBytes 1 ++ textBytes s

def boolBytes (b : Bool) : List UInt8 := [if b then 1 else 0]

def sortTexts (l : List String) : List String := l.mergeSort fun a b => compare a.toList b.toList != .gt

/-- What is hashed; the order of the extensions does not matter, that of the patterns does. -/
def fingerprintBytes (c : Config) : List UInt8 :=
  textBytes c.version ++ listBytes (sortTexts c.extensions) ++ listBytes c.patterns ++
    optionBytes c.ignoreFile ++ boolBytes c.rules.types ++ boolBytes c.rules.functions

def fingerprint (c : Config) : String :=
  Digest.numberText (Digest.Sip.hash c.fingerprintBytes)

end Config

end ExplicitApi
