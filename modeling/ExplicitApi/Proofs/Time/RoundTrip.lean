import ExplicitApi.Proofs.Results
import ExplicitApi.Proofs.Time.Calendar
import ExplicitApi.Time.Text

/-!
Reading back points in time. Main statements: the text of every point in time, leap seconds and years
of any sign and length included, is read as that point; in front of an offset it is read as the point
that is meant, if there is one.
-/
namespace ExplicitApi.Time

section Digits

theorem isDigit_of_mem_padded {width n : Nat} {c : Char} (hc : c ∈ padded width n) :
    c.isDigit = true := by
  rcases List.mem_append.1 hc with hzero | hdigit
  · rw [List.eq_of_mem_replicate hzero]
    rfl
  · exact Nat.isDigit_of_mem_toDigits (by decide) (by decide) hdigit

theorem padded_ne_nil (width n : Nat) : padded width n ≠ [] :=
  List.append_ne_nil_of_right_ne_nil _ Nat.toDigits_ne_nil

theorem length_padded {width n : Nat} (hwidth : 0 < width) (hn : n < 10 ^ width) :
    (padded width n).length = width := by
  have hlength := (Nat.length_toDigits_le_iff (b := 10) (by decide) hwidth).2 hn
  rw [padded, List.length_append, List.length_replicate]
  omega

theorem ofDigitChars_padded (width n : Nat) : Nat.ofDigitChars 10 (padded width n) 0 = n := by
  rw [padded, Nat.ofDigitChars_append, Nat.ofDigitChars_replicate_zero, Nat.mul_zero,
    Nat.ofDigitChars_ten_toDigits]

def EndsDigits (s : List Char) : Prop := ∀ c ∈ s.head?, c.isDigit = false

theorem endsDigits_cons {c : Char} (hc : c.isDigit = false) (s : List Char) :
    EndsDigits (c :: s) := by
  intro d hd
  cases hd
  exact hc

theorem digits_append {width : Option Nat} {run rest : List Char} (hne : run ≠ [])
    (hrun : ∀ c ∈ run, c.isDigit = true) (hwidth : ∀ w ∈ width, run.length ≤ w)
    (hrest : EndsDigits rest) (hlt : Nat.ofDigitChars 10 run 0 < UInt64.size / 2) :
    digits width (run ++ rest) = .ok (Nat.ofDigitChars 10 run 0, rest) := by
  have htake : (run ++ rest).takeWhile Char.isDigit = run := by
    rw [List.takeWhile_append_of_pos hrun]
    cases rest with
    | nil => simp
    | cons c rest => simp [hrest c rfl]
  have hcut : (width.map run.take).getD run = run := by
    cases width with
    | none => rfl
    | some w => exact List.take_of_length_le (hwidth w rfl)
  obtain ⟨c, s, hs⟩ := List.exists_cons_of_ne_nil (List.append_ne_nil_of_left_ne_nil hne rest)
  have hc : c.isDigit = true := by
    obtain ⟨d, more, rfl⟩ := List.exists_cons_of_ne_nil hne
    obtain ⟨rfl, -⟩ := List.cons_eq_cons.1 hs
    exact hrun d List.mem_cons_self
  rw [hs] at htake ⊢
  simp only [digits, hc, htake, hcut, hlt, Bool.not_true, Bool.false_eq_true, if_false, if_true]
  rw [← hs, List.drop_left]

theorem digits_padded {width n : Nat} {limit : Option Nat} {rest : List Char}
    (hlimit : ∀ w ∈ limit, (padded width n).length ≤ w) (hrest : EndsDigits rest)
    (hlt : n < UInt64.size / 2) : digits limit (padded width n ++ rest) = .ok (n, rest) := by
  have hvalue := ofDigitChars_padded width n
  have hread := digits_append (padded_ne_nil width n) (fun _ => isDigit_of_mem_padded) hlimit hrest
    (by rwa [hvalue])
  rwa [hvalue] at hread

end Digits

section Blanks

theorem not_isBlank_of_isDigit {c : Char} (hc : c.isDigit = true) : Text.isBlank c = false := by
  have hrange : 48 ≤ c.toNat ∧ c.toNat ≤ 57 := by
    simpa [Char.isDigit, UInt32.le_iff_toNat_le] using hc
  simp only [Text.isBlank, Bool.or_eq_false_iff, Bool.and_eq_false_iff, decide_eq_false_iff_not,
    beq_eq_false_iff_ne]
  omega

theorem trimStart_cons {c : Char} (hc : Text.isBlank c = false) (s : List Char) :
    Text.trimStart (c :: s) = c :: s := by
  rw [Text.trimStart, List.dropWhile_cons_of_neg (by simp [hc])]

theorem trimStart_padded (width n : Nat) (rest : List Char) :
    Text.trimStart (padded width n ++ rest) = padded width n ++ rest := by
  obtain ⟨c, s, hs⟩ := List.exists_cons_of_ne_nil (padded_ne_nil width n)
  have hc : c.isDigit = true := isDigit_of_mem_padded (hs ▸ List.mem_cons_self)
  rw [hs, List.cons_append]
  exact trimStart_cons (not_isBlank_of_isDigit hc) _

theorem mark_cons {c : Char} (hc : Text.isBlank c = false) (s : List Char) :
    mark c (c :: s) = .ok ((), s) := by
  rw [mark, trimStart_cons hc]
  simp

end Blanks

section Fields

theorem field_padded {n first last : Nat} {rest : List Char} (hn : n < 100)
    (hrange : first ≤ n ∧ n ≤ last) (hrest : EndsDigits rest) :
    field (some 2) first last (padded 2 n ++ rest) = .ok (n, rest) := by
  have hlength : (padded 2 n).length = 2 := length_padded (by decide) hn
  have hsmall : n < UInt64.size / 2 := hn.trans (by decide)
  have hread : digits (some 2) (padded 2 n ++ rest) = .ok (n, rest) :=
    digits_padded (by simp [hlength]) hrest hsmall
  rw [field, trimStart_padded, hread]
  simp [bind, Except.bind, hrange, pure, Except.pure]

theorem ne_sign_of_isDigit {c : Char} (hc : c.isDigit = true) : c ≠ '-' ∧ c ≠ '+' ∧ c ≠ '.' := by
  refine ⟨?_, ?_, ?_⟩ <;>
    · rintro rfl
      cases hc

theorem digits_year {n : Nat} (hn : n ≤ 2147483648) {limit : Option Nat} {rest : List Char}
    (hlimit : ∀ w ∈ limit, (padded 4 n).length ≤ w) (hrest : EndsDigits rest) :
    digits limit (padded 4 n ++ rest) = .ok (n, rest) :=
  digits_padded hlimit hrest (Nat.lt_of_le_of_lt hn (by decide))

theorem yearField_padded {n : Nat} (hn : n ≤ 9999) {rest : List Char} (hrest : EndsDigits rest) :
    yearField (padded 4 n ++ rest) = .ok ((n : Int), rest) := by
  have hlength : (padded 4 n).length = 4 := length_padded (by decide) (by omega)
  have hread : digits (some 4) (padded 4 n ++ rest) = .ok (n, rest) :=
    digits_year (by omega) (by simp [hlength]) hrest
  have hrange : -2147483648 ≤ (n : Int) ∧ (n : Int) < 2147483648 := by omega
  obtain ⟨c, s, hs⟩ := List.exists_cons_of_ne_nil (padded_ne_nil 4 n)
  have hmem : c ∈ padded 4 n := by
    rw [hs]
    exact List.mem_cons_self
  obtain ⟨hminus, hplus, -⟩ := ne_sign_of_isDigit (isDigit_of_mem_padded hmem)
  rw [yearField, trimStart_padded, hs, List.cons_append]
  split
  · next heq => exact absurd (List.cons_eq_cons.1 heq).1 hminus
  · next heq => exact absurd (List.cons_eq_cons.1 heq).1 hplus
  · rw [← List.cons_append, ← hs, hread]
    simp only [ok_bind, pure_bind]
    rw [if_pos hrange]
    rfl

theorem yearField_minus {n : Nat} (hn : n ≤ 2147483648) {rest : List Char}
    (hrest : EndsDigits rest) :
    yearField ('-' :: padded 4 n ++ rest) = .ok (-(n : Int), rest) := by
  have hread : digits none (padded 4 n ++ rest) = .ok (n, rest) := digits_year hn nofun hrest
  have hrange : -2147483648 ≤ -(n : Int) ∧ -(n : Int) < 2147483648 := by omega
  rw [List.cons_append, yearField, trimStart_cons (by decide)]
  simp only [hread, ok_bind, pure_bind]
  rw [if_pos hrange]
  rfl

theorem yearField_plus {n : Nat} (hn : n < 2147483648) {rest : List Char}
    (hrest : EndsDigits rest) :
    yearField ('+' :: padded 4 n ++ rest) = .ok ((n : Int), rest) := by
  have hread : digits none (padded 4 n ++ rest) = .ok (n, rest) := digits_year hn.le nofun hrest
  have hrange : -2147483648 ≤ (n : Int) ∧ (n : Int) < 2147483648 := by omega
  rw [List.cons_append, yearField, trimStart_cons (by decide)]
  simp only [hread, ok_bind, pure_bind]
  rw [if_pos hrange]
  rfl

theorem yearField_yearText {year : Int} (h : -2147483648 ≤ year ∧ year < 2147483648)
    {rest : List Char} (hrest : EndsDigits rest) :
    yearField (yearText year ++ rest) = .ok (year, rest) := by
  unfold yearText
  split
  · next hplain =>
    have hyear : (year.toNat : Int) = year := Int.toNat_of_nonneg hplain.1
    rw [yearField_padded (by omega) hrest, hyear]
  · split
    · next hneg =>
      have hyear : -(year.natAbs : Int) = year := by omega
      rw [yearField_minus (by omega) hrest, hyear]
    · next hneg =>
      have hyear : (year.natAbs : Int) = year := by omega
      rw [yearField_plus (by omega) hrest, hyear]

theorem fractionField_padded {width k : Nat} (hpos : 0 < width) (hle : width ≤ 9)
    (hk : k < 10 ^ width) {rest : List Char} (hrest : EndsDigits rest) :
    fractionField ('.' :: padded width k ++ rest) = .ok (k * 10 ^ (9 - width), rest) := by
  have hlength := length_padded hpos hk
  have hsmall : k < UInt64.size / 2 :=
    (hk.trans_le (Nat.pow_le_pow_right (by decide) hle)).trans (by decide)
  have hread : digits (some 9) (padded width k ++ rest) = .ok (k, rest) :=
    digits_padded (by simpa [hlength]) hrest hsmall
  have hrun : (padded width k ++ rest).length - rest.length = width := by
    rw [List.length_append, hlength, Nat.add_sub_cancel]
  have hdrop : rest.dropWhile Char.isDigit = rest := by
    cases rest with
    | nil => rfl
    | cons c rest => exact List.dropWhile_cons_of_neg (by simp [hrest c rfl])
  rw [List.cons_append, fractionField]
  simp only [hread, ok_bind, hrun, hdrop]
  rfl

theorem fractionField_fractionText {n : Nat} (hn : n < nanosPerSecond) {rest : List Char}
    (hrest : EndsDigits rest) (hpoint : rest.head? ≠ some '.') :
    fractionField (fractionText n ++ rest) = .ok (n, rest) := by
  have hn : n < 1000000000 := hn
  unfold fractionText
  split_ifs with hzero hmilli hmicro
  · rw [hzero, List.nil_append]
    unfold fractionField
    split
    · exact absurd rfl hpoint
    · rfl
  · have hvalue : n / 1000000 * 10 ^ (9 - 3) = n := by omega
    rw [fractionField_padded (by decide) (by decide) (by omega) hrest, hvalue]
  · have hvalue : n / 1000 * 10 ^ (9 - 6) = n := by omega
    rw [fractionField_padded (by decide) (by decide) (by omega) hrest, hvalue]
  · have hvalue : n * 10 ^ (9 - 9) = n := by omega
    rw [fractionField_padded (by decide) (by decide) (by omega) hrest, hvalue]

end Fields

namespace Moment

variable (t : Moment)

theorem secondOfDay_spec : t.seconds = t.seconds / 86400 * 86400 + t.secondOfDay ∧
    t.secondOfDay < 86400 := by
  have hday : (t.secondOfDay : Int) = t.seconds % 86400 := Int.toNat_of_nonneg (by omega)
  omega

theorem year_bounds : -2147483648 ≤ t.date.year ∧ t.date.year < 2147483648 := by
  have hrange := t.inRange
  have hfirst : firstSecond = -8334601228800 := rfl
  have hlast : lastSecond = 8210266876799 := rfl
  rw [hfirst, hlast] at hrange
  have hyear := @Date.year_ofDays_bounds (t.seconds / 86400) (by omega)
  rw [date]
  omega

theorem toList_text (zone : String) : (t.text zone).toList =
    yearText t.date.year ++ '-' :: (padded 2 t.date.month ++ '-' :: (padded 2 t.date.day ++
      'T' :: (padded 2 t.hour ++ ':' :: (padded 2 t.minute ++ ':' :: (padded 2 t.second ++
        (fractionText t.fraction ++ zone.toList)))))) := by
  simp [text, dateText, clockText]

theorem not_isSettled_iff :
    ¬t.IsSettled ↔ nanosPerSecond ≤ t.nanoseconds ∧ t.seconds % 60 ≠ 59 := by
  rw [IsSettled, not_or, Nat.not_lt]

theorem next_bounds (h : ¬t.IsSettled) :
    (firstSecond ≤ t.seconds + 1 ∧ t.seconds + 1 ≤ lastSecond) ∧
      t.nanoseconds - nanosPerSecond < nanosPerSecond := by
  have hleap := t.not_isSettled_iff.1 h
  have hrange := t.inRange
  have hsub := t.subsecond
  -- the last second of all ends its minute
  have hlast : lastSecond = 8210266876799 := rfl
  omega

/-- The point in time that the text of a moment tells. -/
def settle (t : Moment) : Instant :=
  if h : t.IsSettled then ⟨t, h⟩
  else
    ⟨⟨t.seconds + 1, t.nanoseconds - nanosPerSecond, (t.next_bounds h).1,
      (t.next_bounds h).2.trans (by decide)⟩, .inl (t.next_bounds h).2⟩

theorem settle_of_isSettled (h : t.IsSettled) : t.settle.toMoment = t := by
  rw [settle, dif_pos h]

theorem settle_eq_iff : t.settle.toMoment = t ↔ t.IsSettled := by
  constructor
  · intro h
    rw [← h]
    exact t.settle.isSettled
  · exact t.settle_of_isSettled

theorem text_settle (utc : String) : t.settle.text utc = t.text utc := by
  by_cases h : t.IsSettled
  · rw [t.settle_of_isSettled h]
  · have hleap := t.not_isSettled_iff.1 h
    have hsub := t.subsecond
    have hnanos : nanosPerSecond = 1000000000 := rfl
    let next := t.settle.toMoment
    have hnext : next.seconds = t.seconds + 1 ∧
        next.nanoseconds = t.nanoseconds - nanosPerSecond := by
      simp only [next, settle, dif_neg h, and_self]
    have hdays : next.seconds / 86400 = t.seconds / 86400 := by omega
    have hday : next.secondOfDay = t.secondOfDay + 1 ∧ t.secondOfDay % 60 ≠ 59 := by
      rw [secondOfDay, secondOfDay]
      omega
    have hdate : next.date = t.date := congrArg Date.ofDays hdays
    have hclock : clockText next = clockText t := by
      have hhour : next.hour = t.hour := by
        rw [hour, hour]
        omega
      have hminute : next.minute = t.minute := by
        rw [minute, minute]
        omega
      have hsecond : next.second = t.second := by
        rw [second, second, hnanos]
        omega
      rw [clockText, clockText, hhour, hminute, hsecond]
    have hfraction : next.fraction = t.fraction := by
      rw [fraction, fraction, hnanos]
      omega
    change next.text utc = t.text utc
    rw [text, text, hdate, hclock, hfraction]

end Moment

namespace Instant

variable (t : Instant)

theorem settle_toMoment : t.settle = t := by
  rw [Moment.settle, dif_pos t.isSettled]

/-- Only a leap second is the sixtieth of its minute. -/
theorem second_spec : (t.nanoseconds < nanosPerSecond ∧ t.second = t.secondOfDay % 60 ∨
    nanosPerSecond ≤ t.nanoseconds ∧ t.nanoseconds < 2 * nanosPerSecond ∧ t.second = 60 ∧
      t.secondOfDay % 60 = 59) := by
  have hday := t.secondOfDay_spec
  have hnanos : nanosPerSecond = 1000000000 := rfl
  have hsub := t.subsecond
  have hsettled : t.nanoseconds < nanosPerSecond ∨ t.seconds % 60 = 59 := t.isSettled
  rw [Moment.second, hnanos]
  omega

theorem seconds_eq : t.date.toDays * 86400 +
    (t.hour * 3600 + t.minute * 60 + min t.second 59 : Nat) = t.seconds := by
  have hday := t.secondOfDay_spec
  have hsecond : min t.second 59 = t.secondOfDay % 60 := by
    rcases t.second_spec with ⟨-, hplain⟩ | ⟨-, -, hleap, hlast⟩ <;> omega
  rw [Moment.date, Date.toDays_ofDays, hsecond, Moment.hour, Moment.minute]
  omega

theorem nanoseconds_eq :
    t.fraction + (if t.second = 60 then nanosPerSecond else 0) = t.nanoseconds := by
  rw [Moment.fraction]
  rcases t.second_spec with ⟨hlt, hplain⟩ | ⟨hle, hlt, hleap, -⟩
  · rw [if_neg (by omega), Nat.mod_eq_of_lt hlt, Nat.add_zero]
  · rw [if_pos hleap, Nat.mod_eq_sub_mod hle, Nat.mod_eq_of_lt (by omega), Nat.sub_add_cancel hle]

theorem ofParts?_eq : ofParts? t.seconds t.nanoseconds = some t := by
  rw [ofParts?, dif_pos ⟨t.inRange, t.subsecond, t.isSettled⟩]

theorem endsDigits_fractionText {zone : List Char} (hzone : EndsDigits zone) (n : Nat) :
    EndsDigits (fractionText n ++ zone) := by
  unfold fractionText
  split_ifs
  · exact hzone
  all_goals exact endsDigits_cons rfl _

theorem clock_le : t.hour ≤ 23 ∧ t.minute ≤ 59 ∧ t.second ≤ 60 := by
  have hday := t.secondOfDay_spec
  have hsecond : t.second ≤ 60 := by
    rcases t.second_spec with ⟨-, hplain⟩ | ⟨-, -, hleap, -⟩ <;> omega
  rw [Moment.hour, Moment.minute]
  omega

/-- What the text of a point in time is read as when it stands in front of an offset. -/
theorem parse_text_zone {zone : String} {offset : Int} (hend : EndsDigits zone.toList)
    (hpoint : zone.toList.head? ≠ some '.') (hzone : zoneField zone.toList = .ok (offset, []))
    (hoffset : -86400 < offset ∧ offset < 86400) :
    parse (t.text zone) = match ofParts? (t.seconds - offset) t.nanoseconds with
      | some instant => .ok instant
      | none => .error .impossible := by
  have hdate : t.date.IsValid := Date.isValid_ofDays _
  have hday : t.date.day ≤ 31 := hdate.2.2.2.trans (Date.daysInMonth_le _ _)
  obtain ⟨hmonth, hmonth', hday', -⟩ := id hdate
  obtain ⟨hhour, hminute, hsecond⟩ := t.clock_le
  have hfraction : t.fraction < nanosPerSecond := Nat.mod_lt _ (by decide)
  have hdash := fun s => endsDigits_cons (c := '-') rfl s
  have hcolon := fun s => endsDigits_cons (c := ':') rfl s
  have hbetween := fun s => endsDigits_cons (c := 'T') rfl s
  -- the fields one after another
  rw [parse, Moment.toList_text, yearField_yearText t.year_bounds (hdash _)]
  simp only [ok_bind]
  rw [mark_cons (by decide), ok_bind, field_padded (by omega) ⟨hmonth, hmonth'⟩ (hdash _)]
  simp only [ok_bind]
  rw [mark_cons (by decide), ok_bind, field_padded (by omega) ⟨hday', hday⟩ (hbetween _)]
  simp only [ok_bind, pure_bind]
  rw [field_padded (by omega) ⟨Nat.zero_le _, hhour⟩ (hcolon _)]
  simp only [ok_bind]
  rw [mark_cons (by decide), ok_bind, field_padded (by omega) ⟨Nat.zero_le _, hminute⟩ (hcolon _)]
  simp only [ok_bind]
  rw [mark_cons (by decide), ok_bind, field_padded (by omega) ⟨Nat.zero_le _, hsecond⟩
    (endsDigits_fractionText hend _)]
  simp only [ok_bind]
  rw [fractionField_fractionText hfraction hend hpoint]
  simp only [ok_bind]
  rw [hzone]
  simp only [ok_bind]
  -- and the point that they make up
  have hseconds := t.seconds_eq
  have hnanoseconds := t.nanoseconds_eq
  have hdate' : (⟨t.date.year, t.date.month, t.date.day⟩ : Date) = t.date := rfl
  have hrange : ¬(t.seconds < firstSecond ∨ lastSecond < t.seconds) := by
    have := t.inRange
    omega
  have hday : ¬(offset ≤ -86400 ∨ 86400 ≤ offset) := by omega
  rw [hdate', hseconds, hnanoseconds, if_neg hrange]
  rw [if_neg (by simp [Text.trimStart]), if_neg (by simpa using hdate), if_neg hday]
  cases ofParts? (t.seconds - offset) t.nanoseconds <;> rfl

/-- The text of a point in time is read as that point. -/
theorem parse_text : parse (t.text "Z") = .ok t := by
  have hend : EndsDigits "Z".toList := endsDigits_cons rfl []
  have hzone : zoneField "Z".toList = .ok (0, []) := rfl
  have hparts := t.ofParts?_eq
  rw [t.parse_text_zone hend (by decide) hzone (by decide), Int.sub_zero, hparts]

/-- Points in time are told apart by their texts, whatever stands for universal time in them. -/
theorem text_injective {t t' : Instant} {utc : String} (h : t.text utc = t'.text utc) : t = t' := by
  have hchars := congrArg String.toList h
  simp only [Moment.text, String.toList_ofList] at hchars
  have hplain : t.text "Z" = t'.text "Z" := by
    rw [Moment.text, Moment.text, List.append_cancel_right hchars]
  have hread := t.parse_text
  rw [hplain, t'.parse_text] at hread
  exact (Except.ok.inj hread).symm

end Instant

/-- Two moments have one text just when it tells the same point in time of both. -/
theorem Moment.text_eq_iff {t t' : Moment} {utc : String} :
    t.text utc = t'.text utc ↔ t.settle = t'.settle := by
  constructor
  · intro h
    rw [← t.text_settle, ← t'.text_settle] at h
    exact Instant.text_injective h
  · intro h
    rw [← t.text_settle, h, t'.text_settle]

/-- How far a place is from universal time: hours and minutes, to the east or to the west. -/
structure Offset where
  isWest : Bool
  hours : Nat
  minutes : Nat
  hours_lt : hours < 24
  minutes_lt : minutes < 60
  deriving DecidableEq, Repr

namespace Offset

def seconds (o : Offset) : Int :=
  (if o.isWest then -1 else 1) * (o.hours * 3600 + o.minutes * 60 : Nat)

def text (o : Offset) : String :=
  String.ofList ((if o.isWest then '-' else '+') :: (padded 2 o.hours ++ ':' :: padded 2 o.minutes))

theorem twoDigits_padded {n last : Nat} (hn : n < 100) (hlast : n ≤ last) (rest : List Char) :
    twoDigits last (padded 2 n ++ rest) = .ok (n, rest) := by
  have hvalue := ofDigitChars_padded 2 n
  have hdigit : ∀ c ∈ padded 2 n, c.isDigit = true := fun c => isDigit_of_mem_padded
  obtain ⟨a, b, hab⟩ := List.length_eq_two.1 (length_padded (n := n) (by decide) hn)
  rw [hab] at hvalue hdigit ⊢
  have ha : a.isDigit = true := hdigit a (by simp)
  have hb : b.isDigit = true := hdigit b (by simp)
  simp only [List.cons_append, List.nil_append, twoDigits, ha, hb, Bool.and_self, if_true, hvalue,
    hlast]

theorem toList_text (o : Offset) : o.text.toList =
    (if o.isWest then '-' else '+') :: (padded 2 o.hours ++ ':' :: padded 2 o.minutes) := by
  rw [text, String.toList_ofList]

theorem amount_padded (o : Offset) (sign : Int) :
    offsetField.amount sign (padded 2 o.hours ++ ':' :: padded 2 o.minutes) =
      .ok (sign * (o.hours * 3600 + o.minutes * 60 : Nat), []) := by
  have hhours := o.hours_lt
  have hminutes := o.minutes_lt
  have hskip : (':' :: padded 2 o.minutes).dropWhile (fun c => c == ':' || Text.isBlank c) =
      padded 2 o.minutes := by
    obtain ⟨c, s, hs⟩ := List.exists_cons_of_ne_nil (padded_ne_nil 2 o.minutes)
    have hc : c.isDigit = true := isDigit_of_mem_padded (hs ▸ List.mem_cons_self)
    have hcolon : c ≠ ':' := by
      rintro rfl
      cases hc
    rw [hs, List.dropWhile_cons_of_pos (by rfl),
      List.dropWhile_cons_of_neg (by simp [hcolon, not_isBlank_of_isDigit hc])]
  have hread := @twoDigits_padded o.minutes 59 (by omega) (by omega) []
  rw [List.append_nil] at hread
  rw [offsetField.amount, twoDigits_padded (by omega) (by omega)]
  simp only [ok_bind, hskip, hread]
  rfl

theorem zoneField_text (o : Offset) : zoneField o.text.toList = .ok (o.seconds, []) := by
  have hamount := o.amount_padded
  have hhours : (padded 2 o.hours).length = 2 :=
    length_padded (by decide) (o.hours_lt.trans (by decide))
  obtain ⟨a, b, hab⟩ := List.length_eq_two.1 hhours
  rw [toList_text, seconds]
  rw [hab] at hamount ⊢
  cases o.isWest with
  | false =>
    rw [zoneField, if_neg Bool.false_ne_true, if_neg Bool.false_ne_true, trimStart_cons (by decide)]
    exact hamount 1
  | true =>
    rw [zoneField, if_pos rfl, if_pos rfl, trimStart_cons (by decide)]
    exact hamount (-1)

theorem parse_text (o : Offset) (t : Instant) :
    Instant.parse (t.text o.text) =
      match Instant.ofParts? (t.seconds - o.seconds) t.nanoseconds with
      | some instant => .ok instant
      | none => .error .impossible := by
  have hhours := o.hours_lt
  have hminutes := o.minutes_lt
  have hbounds : -86400 < o.seconds ∧ o.seconds < 86400 := by
    unfold seconds
    split_ifs <;> omega
  refine t.parse_text_zone ?_ ?_ o.zoneField_text hbounds
  · rw [toList_text]
    cases o.isWest <;> exact endsDigits_cons rfl _
  · rw [toList_text]
    cases o.isWest <;> simp

end Offset

end ExplicitApi.Time
