import ExplicitApi.Digest
import Mathlib.Algebra.Group.Nat.Defs
import Mathlib.Tactic.SplitIfs

/-!
What is known from bytes and digits. Main statement: texts are told apart by their bytes, none of
which has all its bits set, and numbers by their bytes as well as by their digits.
-/
namespace ExplicitApi

section Bytes

theorem toList_loop_eq (b : ByteArray) (i : Nat) (read : List UInt8) :
    ByteArray.toList.loop b i read = read.reverse ++ b.data.toList.drop i := by
  fun_induction ByteArray.toList.loop b i read with
  | case1 i read h ih =>
    have hi : i < b.data.toList.length := h
    have hget : b.get! i = b.data.toList[i] := by
      rw [ByteArray.get!, getElem!_pos b.data i h]
      rfl
    rw [ih, List.drop_eq_getElem_cons hi, hget, List.reverse_cons, List.append_assoc]
    rfl
  | case2 i read h =>
    have hi : b.data.toList.length ≤ i := Nat.le_of_not_lt h
    rw [List.drop_eq_nil_of_le hi, List.append_nil]

theorem toList_eq_data (b : ByteArray) : b.toList = b.data.toList := by
  rw [ByteArray.toList, toList_loop_eq]
  rfl

theorem toList_toUTF8 (s : String) : s.toUTF8.toList = s.toList.flatMap String.utf8EncodeChar := by
  rw [toList_eq_data, String.toUTF8_eq_toByteArray, ← String.utf8Encode_toList, List.utf8Encode,
    List.toList_data_toByteArray]

theorem eq_of_toList_toUTF8 {s s' : String} (h : s.toUTF8.toList = s'.toUTF8.toList) : s = s' := by
  rw [toList_eq_data, toList_eq_data] at h
  exact String.toByteArray_inj.1 (ByteArray.ext (Array.toList_inj.1 h))

theorem ofNat_ne_ff {n : Nat} (h : n < 255) : (0xff : UInt8) ≠ .ofNat n := by
  intro heq
  have hvalue := congrArg UInt8.toNat heq
  rw [UInt8.toNat_ofNat_of_lt' (Nat.lt_succ_of_lt h)] at hvalue
  exact absurd hvalue.symm (Nat.ne_of_lt h)

/-- No byte of a character has all its bits set. -/
theorem ff_notMem_utf8EncodeChar (c : Char) : 0xff ∉ String.utf8EncodeChar c := by
  unfold String.utf8EncodeChar
  dsimp only
  split_ifs with h1 h2 h3
  · rw [List.mem_singleton]
    exact ofNat_ne_ff (by omega)
  all_goals
    simp only [List.mem_cons, List.not_mem_nil, or_false, not_or]
    refine ⟨ofNat_ne_ff (by omega), ?_⟩
  · exact ofNat_ne_ff (by omega)
  · exact ⟨ofNat_ne_ff (by omega), ofNat_ne_ff (by omega)⟩
  · exact ⟨ofNat_ne_ff (by omega), ofNat_ne_ff (by omega), ofNat_ne_ff (by omega)⟩

theorem ff_notMem_toUTF8 (s : String) : 0xff ∉ s.toUTF8.toList := by
  rw [toList_toUTF8, List.mem_flatMap]
  rintro ⟨c, -, hc⟩
  exact ff_notMem_utf8EncodeChar c hc

/-- A byte that is in neither text ends both. -/
theorem append_cons_inj {a : UInt8} {x y z w : List UInt8} (hx : a ∉ x) (hy : a ∉ y)
    (h : x ++ a :: z = y ++ a :: w) : x = y ∧ z = w := by
  rcases List.append_eq_append_iff.1 h with ⟨c, rfl, hc⟩ | ⟨c, rfl, hc⟩
  · cases c with
    | nil => exact ⟨(List.append_nil x).symm, (List.cons.inj hc).2⟩
    | cons b c =>
      rw [(List.cons.inj hc).1] at hy
      exact absurd (List.mem_append_right x List.mem_cons_self) hy
  · cases c with
    | nil => exact ⟨List.append_nil y, ((List.cons.inj hc).2).symm⟩
    | cons b c =>
      rw [(List.cons.inj hc).1] at hx
      exact absurd (List.mem_append_right y List.mem_cons_self) hx

end Bytes

namespace Digest

theorem littleEndian_succ (size n : Nat) :
    littleEndian (size + 1) n = .ofNat (n % 256) :: littleEndian size (n / 256) := by
  unfold littleEndian
  rw [List.range_succ_eq_map, List.map_cons, List.map_map]
  congr 1
  · simp
  · refine List.map_congr_left fun i _ => ?_
    have hpow : Nat.pow 256 (i + 1) = 256 * Nat.pow 256 i := by
      rw [Nat.pow_eq, Nat.pow_eq, Nat.pow_succ, Nat.mul_comm]
    simp only [Function.comp_apply, Nat.succ_eq_add_one, hpow, Nat.div_div_eq_div_mul]

theorem length_littleEndian (size n : Nat) : (littleEndian size n).length = size := by
  simp [littleEndian]

theorem ofLittleEndian_littleEndian (size n : Nat) :
    ofLittleEndian (littleEndian size n) = n % 256 ^ size := by
  induction size generalizing n with
  | zero => simp [littleEndian, ofLittleEndian, Nat.mod_one]
  | succ size ih =>
    have hlow : (UInt8.ofNat (n % 256)).toNat = n % 256 :=
      UInt8.toNat_ofNat_of_lt' (Nat.mod_lt n (by decide))
    have hrest : ofLittleEndian (littleEndian size (n / 256)) = n / 256 % 256 ^ size := ih (n / 256)
    rw [littleEndian_succ, ofLittleEndian, List.foldr_cons, hlow]
    change n % 256 + 256 * ofLittleEndian (littleEndian size (n / 256)) = _
    rw [hrest, Nat.pow_succ, Nat.mul_comm (256 ^ size), Nat.mod_mul]

theorem littleEndian_inj {size m n : Nat} (hm : m < 256 ^ size) (hn : n < 256 ^ size)
    (h : littleEndian size m = littleEndian size n) : m = n := by
  have hvalue := congrArg ofLittleEndian h
  rwa [ofLittleEndian_littleEndian, ofLittleEndian_littleEndian, Nat.mod_eq_of_lt hm,
    Nat.mod_eq_of_lt hn] at hvalue

theorem digitChar_injOn : ∀ m < 16, ∀ n < 16, Nat.digitChar m = Nat.digitChar n → m = n := by
  decide

theorem toDigits_injective : Function.Injective (Nat.toDigits 16) := by
  intro m n h
  induction m using Nat.strongRecOn generalizing n with
  | ind m ih =>
    rw [Nat.toDigits_eq_if (by decide), Nat.toDigits_eq_if (n := n) (by decide)] at h
    split at h
    · next hm =>
      split at h
      · next hn => exact digitChar_injOn m hm n hn (List.singleton_inj.1 h)
      · have hlength := congrArg List.length h
        have hpos : 0 < (Nat.toDigits 16 (n / 16)).length := Nat.length_toDigits_pos
        simp at hlength
    · next hm =>
      split at h
      · have hlength := congrArg List.length h
        have hpos : 0 < (Nat.toDigits 16 (m / 16)).length := Nat.length_toDigits_pos
        simp at hlength
      · obtain ⟨hfront, hlast⟩ := List.append_inj' h rfl
        have hdiv := ih (m / 16) (by omega) hfront
        have hmod := digitChar_injOn _ (Nat.mod_lt m (by decide)) _ (Nat.mod_lt n (by decide))
          (List.singleton_inj.1 hlast)
        omega

theorem numberText_injective : Function.Injective numberText := by
  intro m n h
  exact UInt64.toNat_inj.1 (toDigits_injective (String.ofList_injective h))

end Digest

end ExplicitApi
