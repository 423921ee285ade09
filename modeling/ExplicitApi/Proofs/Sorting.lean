import ExplicitApi.OrderedMap
import Mathlib.Data.List.Perm.Basic
import Mathlib.Data.List.Sort

/-!
Lists put in the order of a key. Main statements: the order that a list had before matters only to
elements of one key, and those stay in the order they had.
-/
namespace ExplicitApi.Sorting

variable {α κ : Type} [Ord κ] [Std.TransOrd κ]

theorem not_after_trans (key : α → κ) (a b c : α) (hab : (compare (key a) (key b) != .gt) = true)
    (hbc : (compare (key b) (key c) != .gt) = true) :
    (compare (key a) (key c) != .gt) = true := by
  have hle : ∀ o : Ordering, (o != .gt) = o.isLE := by decide
  rw [hle] at hab hbc ⊢
  exact Std.TransCmp.isLE_trans hab hbc

theorem not_after_total (key : α → κ) (a b : α) :
    (compare (key a) (key b) != .gt || compare (key b) (key a) != .gt) = true := by
  have hswap : compare (key b) (key a) = (compare (key a) (key b)).swap :=
    Std.OrientedCmp.eq_swap
  rw [hswap]
  cases compare (key a) (key b) <;> rfl

theorem pairwise_mergeSort (key : α → κ) (l : List α) :
    (l.mergeSort fun a b => compare (key a) (key b) != .gt).Pairwise
      fun a b => (compare (key a) (key b) != .gt) = true :=
  List.pairwise_mergeSort (not_after_trans key) (not_after_total key) l

/-- Elements of one key stay in the order they had. -/
theorem filter_mergeSort (key : α → κ) (l : List α) {p : α → Bool}
    (hp : ∀ a b, p a = true → p b = true → compare (key a) (key b) = .eq) :
    (l.mergeSort fun a b => compare (key a) (key b) != .gt).filter p = l.filter p := by
  have hordered : (l.filter p).Pairwise fun a b => (compare (key a) (key b) != .gt) = true := by
    refine List.pairwise_of_forall_mem_list fun a ha b hb => ?_
    rw [hp a b (List.mem_filter.1 ha).2 (List.mem_filter.1 hb).2]
    rfl
  have hsublist := (List.sublist_mergeSort (not_after_trans key) (not_after_total key) hordered
    List.filter_sublist).filter p
  rw [List.filter_filter] at hsublist
  simp only [Bool.and_self] at hsublist
  have hperm := (List.mergeSort_perm l fun a b => compare (key a) (key b) != .gt).filter p
  exact (hsublist.eq_of_length hperm.length_eq.symm).symm

/-- Lists in strict order are told by their members. -/
theorem eq_of_mem_iff {l l' : List κ} (h : l.Pairwise fun a b => compare a b = .lt)
    (h' : l'.Pairwise fun a b => compare a b = .lt) (hmem : ∀ a, a ∈ l ↔ a ∈ l') : l = l' := by
  have hirrefl : Std.Irrefl fun a b : κ => compare a b = .lt := ⟨fun a => by simp⟩
  have hantisymm : Std.Antisymm fun a b : κ => compare a b = .lt :=
    ⟨fun a b hab hba => absurd (Std.TransCmp.lt_trans hab hba) (hirrefl.irrefl a)⟩
  exact List.Pairwise.eq_of_mem_iff h h' hmem

variable [Std.LawfulEqOrd κ] {l l' : List α}

theorem eq_of_compare_ne_gt {a b : κ} (hab : (compare a b != .gt) = true)
    (hba : (compare b a != .gt) = true) : a = b := by
  have hswap : compare b a = (compare a b).swap := Std.OrientedCmp.eq_swap
  cases hcompare : compare a b with
  | lt => simp [hswap, hcompare] at hba
  | eq => exact Std.LawfulEqOrd.eq_of_compare hcompare
  | gt => simp [hcompare] at hab

theorem mergeSort_eq_of_perm (key : α → κ) (h : l'.Perm l)
    (hkey : ∀ a ∈ l, ∀ b ∈ l, key a = key b → a = b) :
    (l'.mergeSort fun a b => compare (key a) (key b) != .gt) =
      l.mergeSort fun a b => compare (key a) (key b) != .gt := by
  refine List.Perm.eq_of_pairwise (fun a b ha hb hab hba => ?_) (pairwise_mergeSort key l')
    (pairwise_mergeSort key l) ?_
  · have ha : a ∈ l := h.subset (List.mem_mergeSort.1 ha)
    exact hkey a ha b (List.mem_mergeSort.1 hb) (eq_of_compare_ne_gt hab hba)
  · exact (List.mergeSort_perm l' _).trans (h.trans (List.mergeSort_perm l _).symm)

/-- Whatever order a list had, the keys come out in one order. -/
theorem map_mergeSort_eq_of_perm (key : α → κ) (h : l'.Perm l) :
    (l'.mergeSort fun a b => compare (key a) (key b) != .gt).map key =
      (l.mergeSort fun a b => compare (key a) (key b) != .gt).map key := by
  have hmap : ∀ l : List α, (l.mergeSort fun a b => compare (key a) (key b) != .gt).map key =
      (l.map key).mergeSort fun a b => compare a b != .gt :=
    fun l => List.map_mergeSort fun _ _ _ _ => rfl
  rw [hmap, hmap]
  exact mergeSort_eq_of_perm id (h.map key) fun _ _ _ _ heq => heq

end ExplicitApi.Sorting
