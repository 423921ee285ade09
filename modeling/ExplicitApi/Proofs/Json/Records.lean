import ExplicitApi.Json.Decode
import ExplicitApi.Proofs.Time.RoundTrip

/-!
Reading typed values. Main statements: a record takes up the members of an object one after another,
and one that is open skips the members that it has no field for.
-/
namespace ExplicitApi.Json

variable {σ α β : Type} {record : Record σ} {s : σ}

/-- A member whose value fits its field fills the part that it is for. -/
theorem decodeRecord_cons {name : String} {get : σ → Option α} {set : σ → α → σ}
    {value : Decoder α} {v : Json} {members : List (String × Json)} {x : α}
    (hfield : record.fields.find? (fun f => f.name == name) =
      some (.ofDecoder name get set value))
    (hget : get s = none) (hvalue : value v = .ok x) :
    decodeRecord record s (.object ((name, v) :: members)) =
      decodeRecord record (set s x) (.object members) := by
  rw [decodeRecord, List.foldlM_cons]
  simp only [hfield, Field.ofDecoder, hget, hvalue, Option.isSome_none, Bool.false_eq_true,
    if_false]
  rfl

/-- What is kept through the fields of a record is kept when it is read. -/
theorem of_decodeRecord {P : σ → Prop} {s' : σ} {v : Json} (h : decodeRecord record s v = .ok s') (hs : P s)
    (hfield : ∀ f ∈ record.fields, ∀ v s s', P s → f.read v s = .ok s' → P s') : P s' := by
  cases v with
  | object members =>
    refine of_foldlM (P := P) h hs fun m _ s s' hs hstep => ?_
    dsimp only at hstep
    split at hstep
    · next f hf =>
      split at hstep
      · cases hstep
      · exact hfield f (List.mem_of_find?_eq_some hf) _ _ _ hs hstep
    · split at hstep
      · cases hstep
      · cases hstep
        exact hs
  | array items =>
    obtain ⟨found, hfound, h⟩ := bind_eq_ok_iff.1 h
    have hkept : P found := of_foldlM (P := P) hfound hs fun m hm s s' hs hstep =>
      hfield m.1 (List.of_mem_zip hm).1 _ _ _ hs hstep
    dsimp only at h
    by_cases hshort : items.length < record.fields.length
    · rw [if_pos hshort] at h
      cases h
    · by_cases hlong : record.fields.length < items.length
      · rw [if_neg hshort, if_pos hlong] at h
        cases h
      · rw [if_neg hshort, if_neg hlong] at h
        cases h
        exact hkept
  | null | bool _ | number _ | string _ => cases h

theorem Field.exists_of_read {name : String} {get : σ → Option α} {set : σ → α → σ}
    {value : Decoder α} {v : Json} {s' : σ} (h : (Field.ofDecoder name get set value).read v s = .ok s') :
    ∃ x, value v = .ok x ∧ s' = set s x := by
  cases hvalue : value v with
  | error m =>
    simp only [ofDecoder, hvalue] at h
    cases h
  | ok x =>
    simp only [ofDecoder, hvalue] at h
    cases h
    exact ⟨x, rfl, rfl⟩

theorem eq_of_required {name : String} {part : Option α} {x : α}
    (h : required name part = .ok x) : part = some x := by
  cases part with
  | none => cases h
  | some y =>
    cases h
    rfl

/-- Whether a reader pays no regard to the members of an object that have other names. -/
def SkipsOthers (value : Decoder α) (names : List String) : Prop :=
  ∀ (front : List (String × Json)) (name : String) (v : Json) (back : List (String × Json)),
    name ∉ names → value (.object (front ++ (name, v) :: back)) = value (.object (front ++ back))

theorem skipsOthers_decodeRecord (record : Record σ) (hopen : record.isClosed = false) (s : σ) :
    SkipsOthers (decodeRecord record s) (record.fields.map (·.name)) := by
  intro front name v back hname
  have hnone : record.fields.find? (fun f => f.name == name) = none := by
    rw [List.find?_eq_none]
    intro f hf heq
    exact hname (eq_of_beq heq ▸ List.mem_map_of_mem hf)
  simp only [decodeRecord, List.foldlM_append, List.foldlM_cons, hnone, hopen, Bool.false_eq_true,
    if_false, ok_bind]

theorem SkipsOthers.bind {value : Decoder α} {names : List String} (h : SkipsOthers value names)
    (f : α → Except Mismatch β) : SkipsOthers (fun v => value v >>= f) names := by
  intro front name v back hname
  simp only [h front name v back hname]

theorem decodeUnsigned_ofUInt64 {bits : Nat} {n : UInt64} (h : n.toNat < 2 ^ bits) :
    decodeUnsigned bits (.ofUInt64 n) = .ok n.toNat := by
  have hpow : n.toNat < Nat.pow 2 bits := h
  rw [ofUInt64, decodeUnsigned, if_pos hpow]

theorem decodeOption_ofOption (s : Option String) :
    decodeOption decodeString (.ofOption s) = .ok s := by
  cases s <;> rfl

theorem decodeTime_text (t : Time.Moment) : decodeTime (.string (t.text "Z")) = .ok t.settle := by
  rw [decodeTime, ← t.text_settle, t.settle.parse_text]
  rfl

/-- A time in front of an offset is the one that is meant, if there is one. -/
theorem decodeTime_text_offset (t : Time.Instant) (offset : Time.Offset) :
    decodeTime (.string (t.text offset.text)) =
      match Time.Instant.ofParts? (t.seconds - offset.seconds) t.nanoseconds with
      | some instant => .ok instant
      | none => .error (.unreadableTime .impossible) := by
  rw [decodeTime, offset.parse_text]
  cases Time.Instant.ofParts? (t.seconds - offset.seconds) t.nanoseconds <;> rfl

def ReadsBack (read : Decoder α) (write : α → Json) : Prop := ∀ a, read (write a) = .ok a

theorem ReadsBack.list {read : Decoder α} {write : α → Json} (h : ReadsBack read write) :
    ReadsBack (decodeList read) fun l => .array (l.map write) := by
  intro l
  rw [decodeList]
  induction l with
  | nil => rfl
  | cons a l ih =>
    rw [List.map_cons, List.mapM_cons, h a, ih]
    rfl

def without (name : String) : Json → Json
  | .object members => .object (members.filter fun m => m.1 != name)
  | v => v

/-- An object whose members of a name have another value. -/
def replaced (name : String) : Json → Json → Json
  | .object members, value =>
    .object (members.map fun m => if m.1 = name then (name, value) else m)
  | v, _ => v

end ExplicitApi.Json
