import ExplicitApi.Json.Parser
import ExplicitApi.Json.Printer
import Mathlib.Data.List.Basic

/-!
Reading back what was printed. Main statement: an indented text of a value whose numbers are natural
is read as that value.
-/
namespace ExplicitApi.Json

def EndsNumber (s : List Char) : Prop :=
  ∀ c ∈ s.head?, c.isDigit = false ∧ c ≠ '.' ∧ c ≠ 'e' ∧ c ≠ 'E'

/-- Decimal digits have no leading zero. -/
theorem head?_toDigits_ne_zero {n : Nat} (hn : 0 < n) : (Nat.toDigits 10 n).head? ≠ some '0' := by
  induction n using Nat.strongRecOn with
  | ind n ih =>
    have hdigit : ∀ m < 10, 0 < m → m.digitChar ≠ '0' := by decide
    rw [Nat.toDigits_eq_if (by decide)]
    split
    · next hlt => simpa using hdigit n hlt hn
    · rw [List.head?_append_of_ne_nil _ Nat.toDigits_ne_nil]
      exact ih (n / 10) (by omega) (by omega)

theorem digits_append {ds rest : List Char} (hds : ∀ c ∈ ds, c.isDigit = true)
    (hrest : EndsNumber rest) : digits (ds ++ rest) = (ds, rest) := by
  have htake : rest.takeWhile Char.isDigit = [] ∧ rest.dropWhile Char.isDigit = rest := by
    cases rest with
    | nil => exact ⟨rfl, rfl⟩
    | cons c rest =>
      have hc := (hrest c rfl).1
      simp [hc]
  rw [digits, List.takeWhile_append_of_pos hds, List.dropWhile_append_of_pos hds, htake.1, htake.2,
    List.append_nil]

theorem wholePart_toDigits (n : Nat) {rest : List Char} (hrest : EndsNumber rest) :
    wholePart (Nat.toDigits 10 n ++ rest) = some (Nat.toDigits 10 n, rest) := by
  have hdigit : ∀ c ∈ Nat.toDigits 10 n, c.isDigit = true := fun c hc =>
    Nat.isDigit_of_mem_toDigits (by decide) (by decide) hc
  have hdigits := digits_append hdigit hrest
  unfold wholePart
  rw [hdigits]
  split
  · next hnil => exact absurd (congrArg Prod.fst hnil) Nat.toDigits_ne_nil
  · next d t s hzero =>
    have hlist : Nat.toDigits 10 n = '0' :: d :: t := congrArg Prod.fst hzero
    rcases Nat.eq_zero_or_pos n with rfl | hn
    · simp at hlist
    · exact absurd (by rw [hlist]; rfl) (head?_toDigits_ne_zero hn)
  · next whole s _ _ hpair =>
    cases hpair
    rfl

theorem fractionPart_of_endsNumber {s : List Char} (hs : EndsNumber s) :
    fractionPart s = some (none, s) := by
  unfold fractionPart
  split
  · next t => exact absurd rfl (hs '.' rfl).2.1
  · rfl

theorem exponentPart_of_endsNumber {s : List Char} (hs : EndsNumber s) :
    exponentPart s = some (none, s) := by
  unfold exponentPart
  split
  · next t => exact absurd rfl (hs 'e' rfl).2.2.1
  · next t => exact absurd rfl (hs 'E' rfl).2.2.2
  · rfl

theorem exists_toDigits_eq_cons (n : Nat) :
    ∃ c t, Nat.toDigits 10 n = c :: t ∧ c.isDigit = true := by
  obtain ⟨c, t, hd⟩ := List.exists_cons_of_ne_nil (Nat.toDigits_ne_nil (n := n) (b := 10))
  have hmem : c ∈ Nat.toDigits 10 n := hd ▸ List.mem_cons_self
  exact ⟨c, t, hd, Nat.isDigit_of_mem_toDigits (by decide) (by decide) hmem⟩

theorem numberValue_natural (n : UInt64) {rest : List Char} (hrest : EndsNumber rest) :
    numberValue (Nat.toDigits 10 n.toNat ++ rest) = some (.natural n, rest) := by
  have hwhole := wholePart_toDigits n.toNat hrest
  have hvalue : Number.ofParts? false (Nat.toDigits 10 n.toNat) none none = some (.natural n) := by
    have hlt := n.toNat_lt
    simp [Number.ofParts?, UInt64.size, hlt]
  unfold numberValue
  split
  next isNegative s heq =>
  have hplain : (isNegative, s) = (false, Nat.toDigits 10 n.toNat ++ rest) := by
    obtain ⟨c, t, hd, hc⟩ := exists_toDigits_eq_cons n.toNat
    rw [← heq, hd]
    split
    · next hminus =>
      cases hminus
      exact absurd hc (by decide)
    · rfl
  cases hplain
  simp [hwhole, fractionPart_of_endsNumber hrest, exponentPart_of_endsNumber hrest, hvalue]

theorem charOfCode?_toNat (c : Char) : charOfCode? c.toNat = some c := by
  have hvalid : c.toNat.isValidChar := c.valid
  unfold charOfCode?
  rw [dif_pos hvalid]
  rfl

/-- The digits of an escaped control character spell its code. -/
theorem hex4_control {n : Nat} (hn : n < 0x20) (rest : List Char) :
    hex4 ('0' :: '0' :: (if n < 0x10 then '0' else '1') :: Nat.digitChar (n % 16) :: rest) =
      some (n, rest) := by
  have hfirst : ∀ n < 0x20, hexValue? (if n < 0x10 then '0' else '1') = some (n / 16) := by decide
  have hlast : ∀ d < 16, hexValue? d.digitChar = some d := by decide
  have hzero : hexValue? '0' = some 0 := rfl
  simp only [hex4, hzero, hfirst n hn, hlast (n % 16) (by omega), Option.bind_eq_bind,
    Option.bind_some, Option.pure_def, Option.some.injEq, Prod.mk.injEq, and_true]
  omega

theorem escaped_control {c : Char} (hc : c.toNat < 0x20) (rest : List Char) :
    escaped ('u' :: '0' :: '0' :: (if c.toNat < 0x10 then '0' else '1') ::
      Nat.digitChar (c.toNat % 16) :: rest) = some (c, rest) := by
  have hsurrogate : ¬(0xD800 ≤ c.toNat ∧ c.toNat < 0xDC00) := by omega
  simp only [escaped, hex4_control hc, Option.bind_eq_bind, Option.bind_some, if_neg hsurrogate,
    charOfCode?_toNat, Option.pure_def]

/-- One escaped character is read as that character. -/
theorem stringChars_escape (fuel : Nat) (c : Char) (rest : List Char) :
    stringChars (fuel + 1) (escape c ++ rest) =
      (stringChars fuel rest).map fun p => (c :: p.1, p.2) := by
  have hread : ∀ code : List Char, escaped (code ++ rest) = some (c, rest) →
      stringChars (fuel + 1) ('\\' :: code ++ rest) =
        (stringChars fuel rest).map fun p => (c :: p.1, p.2) := by
    intro code hcode
    rw [List.cons_append, stringChars, hcode, Option.bind_eq_bind, Option.bind_some]
    cases hrest : stringChars fuel rest <;> simp [hrest]
  unfold escape
  split
  · next heq => exact hread ['"'] (by rw [heq]; rfl)
  split
  · next heq => exact hread ['\\'] (by rw [heq]; rfl)
  split
  · next heq => exact hread ['b'] (by rw [heq]; rfl)
  split
  · next heq => exact hread ['f'] (by rw [heq]; rfl)
  split
  · next heq => exact hread ['n'] (by rw [heq]; rfl)
  split
  · next heq => exact hread ['r'] (by rw [heq]; rfl)
  split
  · next heq => exact hread ['t'] (by rw [heq]; rfl)
  split
  · next hcontrol => exact hread _ (escaped_control hcontrol rest)
  · next hquote hslash _ _ _ _ _ hcontrol =>
    rw [List.cons_append, List.nil_append, stringChars, if_neg hcontrol]
    · cases stringChars fuel rest <;> simp
    · exact hquote
    · exact hslash

theorem stringChars_flatMap_escape (fuel : Nat) {cs : List Char} (hfuel : cs.length < fuel)
    (rest : List Char) : stringChars fuel (cs.flatMap escape ++ '"' :: rest) = some (cs, rest) := by
  induction cs generalizing fuel with
  | nil =>
    obtain ⟨fuel, rfl⟩ := Nat.exists_eq_add_one_of_ne_zero (Nat.ne_of_gt hfuel)
    rfl
  | cons c cs ih =>
    obtain ⟨fuel, rfl⟩ := Nat.exists_eq_add_one_of_ne_zero (by omega : fuel ≠ 0)
    rw [List.flatMap_cons, List.append_assoc, stringChars_escape,
      ih fuel (by simpa using hfuel)]
    rfl

theorem length_le_flatMap_escape (cs : List Char) : cs.length ≤ (cs.flatMap escape).length := by
  have hescape : ∀ c, 1 ≤ (escape c).length := by
    intro c
    unfold escape
    split_ifs <;> simp
  induction cs with
  | nil => exact Nat.le_refl 0
  | cons c cs ih =>
    have hc := hescape c
    simp only [List.flatMap_cons, List.length_append, List.length_cons]
    omega

/-- The text of a string behind its opening quote. -/
theorem stringTail_stringText (s : String) (rest : List Char) :
    stringTail (s.toList.flatMap escape ++ '"' :: rest) = some (s, rest) := by
  have hlength : s.toList.length < (s.toList.flatMap escape ++ '"' :: rest).length + 1 := by
    have hle := length_le_flatMap_escape s.toList
    rw [List.length_append]
    omega
  have hchars := stringChars_flatMap_escape _ hlength rest
  simp only [stringTail, hchars, Option.map_some, String.ofList_toList]

mutual

/-- Whether all numbers of a value are natural ones. -/
def HasNaturals : Json → Prop
  | .number n => ∃ k, n = .natural k
  | .array items => ItemsHaveNaturals items
  | .object members => MembersHaveNaturals members
  | _ => True

def ItemsHaveNaturals : List Json → Prop
  | [] => True
  | v :: items => v.HasNaturals ∧ ItemsHaveNaturals items

def MembersHaveNaturals : List (String × Json) → Prop
  | [] => True
  | (_, v) :: members => v.HasNaturals ∧ MembersHaveNaturals members

end

theorem membersHaveNaturals_iff {members : List (String × Json)} :
    MembersHaveNaturals members ↔ ∀ m ∈ members, m.2.HasNaturals := by
  induction members with
  | nil => exact ⟨fun _ => nofun, fun _ => trivial⟩
  | cons m members ih =>
    obtain ⟨name, v⟩ := m
    rw [MembersHaveNaturals, ih, List.forall_mem_cons]

theorem hasNaturals_object {members : List (String × Json)}
    (h : ∀ m ∈ members, m.2.HasNaturals) : HasNaturals (.object members) := by
  rw [HasNaturals]
  exact membersHaveNaturals_iff.2 h

theorem itemsHaveNaturals_iff {items : List Json} :
    ItemsHaveNaturals items ↔ ∀ v ∈ items, v.HasNaturals := by
  induction items with
  | nil => exact ⟨fun _ => nofun, fun _ => trivial⟩
  | cons v items ih => rw [ItemsHaveNaturals, ih, List.forall_mem_cons]

theorem hasNaturals_array {items : List Json} (h : ∀ v ∈ items, v.HasNaturals) :
    HasNaturals (.array items) := by
  rw [HasNaturals]
  exact itemsHaveNaturals_iff.2 h

theorem hasNaturals_bool (b : Bool) : HasNaturals (.bool b) := by simp [HasNaturals]

theorem hasNaturals_string (s : String) : HasNaturals (.string s) := by simp [HasNaturals]

theorem hasNaturals_ofUInt64 (n : UInt64) : HasNaturals (.ofUInt64 n) := by
  simp [ofUInt64, HasNaturals]

theorem hasNaturals_ofOption (s : Option String) : HasNaturals (.ofOption s) := by
  cases s <;> simp [ofOption, HasNaturals]

theorem skipBlanks_cons {c : Char} (hc : isBlank c = false) (s : List Char) :
    skipBlanks (c :: s) = c :: s := List.dropWhile_cons_of_neg (by simp [hc])

theorem skipBlanks_space (s : List Char) : skipBlanks (' ' :: s) = skipBlanks s :=
  List.dropWhile_cons_of_pos rfl

theorem skipBlanks_newLine (level : Nat) {c : Char} (hc : isBlank c = false) (s : List Char) :
    skipBlanks (newLine level ++ c :: s) = c :: s := by
  have hblank : ∀ b ∈ newLine level, isBlank b = true := by
    intro b hb
    rcases List.mem_cons.1 hb with rfl | hb
    · rfl
    · rw [List.eq_of_mem_replicate hb]
      rfl
  rw [skipBlanks, List.dropWhile_append_of_pos hblank, List.dropWhile_cons_of_neg (by simp [hc])]

/-- A value starts with a character that ends blanks and closes no array. -/
theorem exists_prettyAt_eq_cons (level : Nat) {v : Json} (hv : v.HasNaturals) :
    ∃ c s, prettyAt level v = c :: s ∧ isBlank c = false ∧ c ≠ ']' := by
  cases v with
  | null => exact ⟨'n', _, rfl, rfl, by decide⟩
  | bool b => cases b <;> exact ⟨_, _, rfl, rfl, by decide⟩
  | string s => exact ⟨'"', _, rfl, rfl, by decide⟩
  | array items => cases items <;> exact ⟨'[', _, rfl, rfl, by decide⟩
  | object members => cases members <;> exact ⟨'\x7b', _, rfl, rfl, by decide⟩
  | number n =>
    rw [HasNaturals] at hv
    obtain ⟨k, rfl⟩ := hv
    obtain ⟨c, s, hd, hc⟩ := exists_toDigits_eq_cons k.toNat
    have hplain : ∀ c : Char, c.isDigit = true → isBlank c = false ∧ c ≠ ']' := by
      intro c hc
      refine ⟨?_, ?_⟩
      · simp only [isBlank, Bool.or_eq_false_iff, beq_eq_false_iff_ne]
        refine ⟨⟨⟨?_, ?_⟩, ?_⟩, ?_⟩ <;> rintro rfl <;> exact absurd hc (by decide)
      · rintro rfl
        exact absurd hc (by decide)
    exact ⟨c, s, by simpa [prettyAt, Number.text] using hd, hplain c hc⟩

theorem endsNumber_prettyItems (level : Nat) (items : List Json) (rest : List Char) :
    EndsNumber (prettyItems level items ++ rest) := by
  cases items <;> rintro c ⟨⟩ <;> decide

theorem endsNumber_prettyMembers (level : Nat) (members : List (String × Json))
    (rest : List Char) : EndsNumber (prettyMembers level members ++ rest) := by
  cases members <;> rintro c ⟨⟩ <;> decide

theorem value_toDigits (fuel : Nat) (n : UInt64) {rest : List Char} (hrest : EndsNumber rest) :
    value (fuel + 1) (Nat.toDigits 10 n.toNat ++ rest) = some (.number (.natural n), rest) := by
  obtain ⟨c, s, hd, hc⟩ := exists_toDigits_eq_cons n.toNat
  have hnumber := numberValue_natural n hrest
  rw [hd] at hnumber ⊢
  rw [List.cons_append] at hnumber ⊢
  unfold value
  split
  case h_7 => rw [hnumber]; rfl
  all_goals
    next heq =>
    obtain ⟨rfl, -⟩ := List.cons.inj heq
    exact absurd hc (by decide)

def memberText (level : Nat) (name : String) (v : Json) (members : List (String × Json)) :
    List Char :=
  stringText name ++ [':', ' '] ++ prettyAt (level + 1) v ++ prettyMembers level members

theorem value_array {fuel level : Nat} {v : Json} {items : List Json} {rest : List Char}
    (hv : v.HasNaturals)
    (hread : Json.items fuel (prettyAt (level + 1) v ++ (prettyItems level items ++ rest)) =
      some (v :: items, rest)) :
    value (fuel + 1) (prettyAt level (.array (v :: items)) ++ rest) =
      some (.array (v :: items), rest) := by
  have htext : prettyAt level (.array (v :: items)) ++ rest = '[' :: (newLine (level + 1) ++
      (prettyAt (level + 1) v ++ (prettyItems level items ++ rest))) := by simp [prettyAt]
  obtain ⟨c, s, hcons, hblank, hclose⟩ := exists_prettyAt_eq_cons (level + 1) hv
  rw [hcons, List.cons_append] at hread
  rw [htext, value, hcons, List.cons_append, skipBlanks_newLine _ hblank]
  split
  · next heq => exact absurd (List.cons.inj heq).1 hclose
  · rw [hread]
    rfl

theorem value_object {fuel level : Nat} {name : String} {v : Json}
    {members : List (String × Json)} {rest : List Char}
    (hread : Json.members fuel (memberText level name v members ++ rest) =
      some ((name, v) :: members, rest)) :
    value (fuel + 1) (prettyAt level (.object ((name, v) :: members)) ++ rest) =
      some (.object ((name, v) :: members), rest) := by
  have htext : prettyAt level (.object ((name, v) :: members)) ++ rest =
      '\x7b' :: (newLine (level + 1) ++ (memberText level name v members ++ rest)) := by
    simp [prettyAt, memberText]
  have hquote : ∃ s, memberText level name v members ++ rest = '"' :: s := ⟨_, rfl⟩
  obtain ⟨s, hs⟩ := hquote
  rw [hs] at hread
  rw [htext, value, hs, skipBlanks_newLine _ rfl]
  split
  · next heq => exact absurd (List.cons.inj heq).1 (by decide)
  · rw [hread]
    rfl

theorem items_last {fuel level : Nat} {v : Json} {rest : List Char}
    (hvalue : value fuel (prettyAt (level + 1) v ++ (prettyItems level [] ++ rest)) =
      some (v, prettyItems level [] ++ rest)) :
    Json.items (fuel + 1) (prettyAt (level + 1) v ++ (prettyItems level [] ++ rest)) =
      some ([v], rest) := by
  have htext : prettyItems level [] ++ rest = newLine level ++ ']' :: rest := by
    simp [prettyItems]
  rw [Json.items, hvalue]
  simp only [htext, skipBlanks_newLine level (c := ']') rfl, Option.bind_eq_bind, Option.bind_some,
    Option.pure_def]

theorem items_cons {fuel level : Nat} {v w : Json} {items : List Json} {rest : List Char}
    (hw : w.HasNaturals)
    (hvalue : value fuel (prettyAt (level + 1) v ++ (prettyItems level (w :: items) ++ rest)) =
      some (v, prettyItems level (w :: items) ++ rest))
    (hread : Json.items fuel (prettyAt (level + 1) w ++ (prettyItems level items ++ rest)) =
      some (w :: items, rest)) :
    Json.items (fuel + 1) (prettyAt (level + 1) v ++ (prettyItems level (w :: items) ++ rest)) =
      some (v :: w :: items, rest) := by
  have htext : prettyItems level (w :: items) ++ rest = ',' :: (newLine (level + 1) ++
      (prettyAt (level + 1) w ++ (prettyItems level items ++ rest))) := by simp [prettyItems]
  obtain ⟨c, s, hcons, hblank, _⟩ := exists_prettyAt_eq_cons (level + 1) hw
  rw [hcons, List.cons_append] at hread
  rw [Json.items, hvalue]
  simp only [htext, hcons, List.cons_append, skipBlanks_cons (c := ',') rfl,
    skipBlanks_newLine _ hblank, hread, Option.bind_eq_bind, Option.bind_some, Option.pure_def]

theorem memberText_append (level : Nat) (name : String) (v : Json)
    (members : List (String × Json)) (rest : List Char) :
    memberText level name v members ++ rest = '"' :: (name.toList.flatMap escape ++
      '"' :: ':' :: ' ' :: (prettyAt (level + 1) v ++ (prettyMembers level members ++ rest))) := by
  simp [memberText, stringText]

section Members

variable {fuel level : Nat} {name : String} {v : Json} {members : List (String × Json)}
  {rest s : List Char}

theorem members_last (hv : v.HasNaturals)
    (hvalue : value fuel (prettyAt (level + 1) v ++ (prettyMembers level members ++ rest)) =
      some (v, prettyMembers level members ++ rest))
    (hbehind : skipBlanks (prettyMembers level members ++ rest) = '\x7d' :: s) :
    Json.members (fuel + 1) (memberText level name v members ++ rest) = some ([(name, v)], s) := by
  obtain ⟨c, t, hcons, hblank, _⟩ := exists_prettyAt_eq_cons (level + 1) hv
  rw [hcons, List.cons_append] at hvalue
  rw [memberText_append, Json.members, stringTail_stringText, hcons]
  simp only [List.cons_append, skipBlanks_cons (c := ':') rfl, skipBlanks_space,
    skipBlanks_cons hblank, hvalue, hbehind, Option.bind_eq_bind, Option.bind_some,
    Option.pure_def]

theorem members_cons {more : List (String × Json)} (hv : v.HasNaturals)
    (hvalue : value fuel (prettyAt (level + 1) v ++ (prettyMembers level members ++ rest)) =
      some (v, prettyMembers level members ++ rest))
    (hbehind : skipBlanks (prettyMembers level members ++ rest) = ',' :: s)
    (hread : Json.members fuel (skipBlanks s) = some (more, rest)) :
    Json.members (fuel + 1) (memberText level name v members ++ rest) =
      some ((name, v) :: more, rest) := by
  obtain ⟨c, t, hcons, hblank, _⟩ := exists_prettyAt_eq_cons (level + 1) hv
  rw [hcons, List.cons_append] at hvalue
  rw [memberText_append, Json.members, stringTail_stringText, hcons]
  simp only [List.cons_append, skipBlanks_cons (c := ':') rfl, skipBlanks_space,
    skipBlanks_cons hblank, hvalue, hbehind, hread, Option.bind_eq_bind, Option.bind_some,
    Option.pure_def]

end Members

mutual

theorem value_prettyAt : ∀ (v : Json) (fuel level : Nat) (rest : List Char), v.HasNaturals →
    EndsNumber rest → (prettyAt level v).length ≤ fuel + 1 →
    value (fuel + 1) (prettyAt level v ++ rest) = some (v, rest)
  | .null, _, _, _, _, _, _ => rfl
  | .bool true, _, _, _, _, _, _ => rfl
  | .bool false, _, _, _, _, _, _ => rfl
  | .number n, fuel, level, rest, hv, hrest, _ => by
    rw [HasNaturals] at hv
    obtain ⟨k, rfl⟩ := hv
    have htext : prettyAt level (.number (.natural k)) = Nat.toDigits 10 k.toNat := by
      simp [prettyAt, Number.text]
    rw [htext]
    exact value_toDigits fuel k hrest
  | .string s, fuel, level, rest, _, _, _ => by
    have htext : prettyAt level (.string s) ++ rest =
        '"' :: (s.toList.flatMap escape ++ '"' :: rest) := by simp [prettyAt, stringText]
    rw [htext, value, stringTail_stringText]
    rfl
  | .array [], _, _, _, _, _, _ => rfl
  | .array (v :: items), fuel, level, rest, hv, _, hfuel => by
    rw [HasNaturals, ItemsHaveNaturals] at hv
    simp only [prettyAt, newLine, List.length_append, List.length_cons] at hfuel
    obtain ⟨fuel, rfl⟩ : ∃ n, fuel = n + 1 := ⟨fuel - 1, by omega⟩
    exact value_array hv.1 (items_prettyItems v items fuel level rest hv.1 hv.2 (by omega))
  | .object [], _, _, _, _, _, _ => rfl
  | .object ((name, v) :: members), fuel, level, rest, hv, _, hfuel => by
    rw [HasNaturals, MembersHaveNaturals] at hv
    simp only [prettyAt, newLine, List.length_append, List.length_cons] at hfuel
    obtain ⟨fuel, rfl⟩ : ∃ n, fuel = n + 1 := ⟨fuel - 1, by omega⟩
    exact value_object (members_prettyMembers name v members fuel level rest hv.1 hv.2 (by omega))
termination_by v => sizeOf v

theorem items_prettyItems : ∀ (v : Json) (items : List Json) (fuel level : Nat) (rest : List Char),
    v.HasNaturals → ItemsHaveNaturals items →
    (prettyAt (level + 1) v).length + (prettyItems level items).length ≤ fuel + 1 →
    Json.items (fuel + 1) (prettyAt (level + 1) v ++ (prettyItems level items ++ rest)) =
      some (v :: items, rest)
  | v, [], fuel, level, rest, hv, _, hfuel => by
    simp only [prettyItems, newLine, List.length_append, List.length_cons] at hfuel
    obtain ⟨fuel, rfl⟩ : ∃ n, fuel = n + 1 := ⟨fuel - 1, by omega⟩
    exact items_last (value_prettyAt v fuel (level + 1) _ hv
      (endsNumber_prettyItems level [] rest) (by omega))
  | v, w :: items, fuel, level, rest, hv, hitems, hfuel => by
    rw [ItemsHaveNaturals] at hitems
    simp only [prettyItems, newLine, List.length_append, List.length_cons] at hfuel
    obtain ⟨fuel, rfl⟩ : ∃ n, fuel = n + 1 := ⟨fuel - 1, by omega⟩
    exact items_cons hitems.1
      (value_prettyAt v fuel (level + 1) _ hv (endsNumber_prettyItems level (w :: items) rest)
        (by omega))
      (items_prettyItems w items fuel level rest hitems.1 hitems.2 (by omega))
termination_by v items => 1 + sizeOf v + sizeOf items

theorem members_prettyMembers : ∀ (name : String) (v : Json) (members : List (String × Json))
    (fuel level : Nat) (rest : List Char), v.HasNaturals → MembersHaveNaturals members →
    (prettyAt (level + 1) v).length + (prettyMembers level members).length ≤ fuel + 1 →
    Json.members (fuel + 1) (memberText level name v members ++ rest) =
      some ((name, v) :: members, rest)
  | name, v, [], fuel, level, rest, hv, _, hfuel => by
    have hbehind : skipBlanks (prettyMembers level [] ++ rest) = '\x7d' :: rest := by
      rw [← skipBlanks_newLine level (c := '\x7d') rfl]
      simp [prettyMembers]
    simp only [prettyMembers, newLine, List.length_append, List.length_cons] at hfuel
    obtain ⟨fuel, rfl⟩ : ∃ n, fuel = n + 1 := ⟨fuel - 1, by omega⟩
    have hvalue := value_prettyAt v fuel (level + 1) _ hv (endsNumber_prettyMembers level [] rest)
      (by omega)
    exact members_last hv hvalue hbehind
  | name, v, (next, w) :: members, fuel, level, rest, hv, hmembers, hfuel => by
    have hbehind : skipBlanks (prettyMembers level ((next, w) :: members) ++ rest) =
        ',' :: (newLine (level + 1) ++ (memberText level next w members ++ rest)) := by
      rw [← skipBlanks_cons (c := ',') rfl]
      simp [prettyMembers, memberText]
    rw [MembersHaveNaturals] at hmembers
    simp only [prettyMembers, newLine, List.length_append, List.length_cons] at hfuel
    obtain ⟨fuel, rfl⟩ : ∃ n, fuel = n + 1 := ⟨fuel - 1, by omega⟩
    have hvalue := value_prettyAt v fuel (level + 1) _ hv
      (endsNumber_prettyMembers level ((next, w) :: members) rest) (by omega)
    have hread := members_prettyMembers next w members fuel level rest hmembers.1 hmembers.2
      (by omega)
    refine members_cons hv hvalue hbehind ?_
    rwa [memberText_append, skipBlanks_newLine _ rfl, ← memberText_append]
termination_by _ v members => 1 + sizeOf v + sizeOf members

end

/-- A value whose numbers are natural is read back from its indented text. -/
theorem parse?_pretty {v : Json} (hv : v.HasNaturals) : parse? v.pretty = some v := by
  obtain ⟨c, s, hcons, hblank, _⟩ := exists_prettyAt_eq_cons 0 hv
  have hread := value_prettyAt v (prettyAt 0 v).length 0 [] hv nofun (Nat.le_succ _)
  rw [List.append_nil] at hread
  have hskip : skipBlanks (prettyAt 0 v) = prettyAt 0 v := by
    rw [hcons]
    exact skipBlanks_cons hblank s
  have hnil : skipBlanks [] = [] := rfl
  simp [parse?, pretty, hskip, hread, hnil]

/-- Values whose numbers are natural are told apart by their indented texts. -/
theorem eq_of_pretty_eq {v w : Json} (hv : v.HasNaturals) (hw : w.HasNaturals)
    (h : v.pretty = w.pretty) : v = w := by
  have hread := parse?_pretty hv
  rw [h, parse?_pretty hw] at hread
  exact (Option.some.inj hread).symm

end ExplicitApi.Json
