import ExplicitApi.Json.Basic
import ExplicitApi.Mismatch

/-! Reading typed values out of JSON values, in the order in which they are written. -/
namespace ExplicitApi.Json

def found : Json → Found
  | .null => .null
  | .bool b => .boolean b
  | .number (.natural n) => .integer n.toNat
  | .number (.negative n) => .integer (-n)
  | .number (.real isNegative x) => .real (Number.real isNegative x).text
  | .string s => .string s
  | .array _ => .sequence
  | .object _ => .map

abbrev Decoder (α : Type) := Json → Except Mismatch α

def decodeString : Decoder String
  | .string s => .ok s
  | v => .error (.wrongType v.found .string)

def decodeBool : Decoder Bool
  | .bool b => .ok b
  | v => .error (.wrongType v.found .boolean)

/-- A number of at most `bits` bits. -/
def decodeUnsigned (bits : Nat) : Decoder Nat
  | .number (.natural n) =>
    if n.toNat < Nat.pow 2 bits then .ok n.toNat
    else .error (.wrongValue (.integer n.toNat) (.unsigned bits))
  | .number (.negative n) => .error (.wrongValue (.integer (-n)) (.unsigned bits))
  | v => .error (.wrongType v.found (.unsigned bits))

def decodeList (item : Decoder α) : Decoder (List α)
  | .array items => items.mapM item
  | v => .error (.wrongType v.found .sequence)

/-- A value that may be null. -/
def decodeOption (value : Decoder α) : Decoder (Option α)
  | .null => .ok none
  | v => (value v).map some

def decodeTime : Decoder Time.Instant
  | .string s => (Time.Instant.parse s).mapError .unreadableTime
  | v => .error (.wrongType v.found .time)

/-- How one field of a record is read into the parts `σ` that are read so far. -/
structure Field (σ : Type) where
  name : String
  isRead : σ → Bool
  read : Json → σ → Except Mismatch σ

/-- A field that fills an optional part of `σ`. -/
def Field.ofDecoder (name : String) (get : σ → Option α) (set : σ → α → σ) (value : Decoder α) :
    Field σ :=
  ⟨name, fun s => (get s).isSome, fun v s => (value v).map (set s)⟩

/-- The fields of a record and what is said of values that do not fit it. -/
structure Record (σ : Type) where
  name : String
  fields : List (Field σ)
  /-- What an array with too few items is told is wanted. -/
  wholeArray : Wanted
  /-- Whether unknown members are refused rather than skipped. -/
  isClosed : Bool := false

/--
Reads a record from the members of an object, each at most once, or from an array of its fields.
-/
def decodeRecord (record : Record σ) (start : σ) : Decoder σ
  | .object members =>
    members.foldlM
      (fun s (name, v) =>
        match record.fields.find? fun f => f.name == name with
        | some f => if f.isRead s then .error (.duplicateField name) else f.read v s
        | none =>
          if record.isClosed then .error (.unknownField name (record.fields.map (·.name)))
          else .ok s)
      start
  | .array items => do
    let s ← (record.fields.zip items).foldlM (fun s (f, v) => f.read v s) start
    if items.length < record.fields.length then
      throw (.wrongLength items.length record.wholeArray)
    if record.fields.length < items.length then throw .tooManyItems
    return s
  | v => .error (.wrongType v.found (.record record.name))

def required (name : String) : Option α → Except Mismatch α
  | some v => .ok v
  | none => .error (.missingField name)

end ExplicitApi.Json
