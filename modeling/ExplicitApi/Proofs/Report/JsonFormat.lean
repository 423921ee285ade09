import ExplicitApi.Error
import ExplicitApi.Proofs.Json.RoundTrip
import ExplicitApi.Proofs.Time.RoundTrip
import ExplicitApi.Report.Format

/-!
What the JSON format of a report tells. Main statement: everything, except whether the run stopped,
and of its time the text.
-/
namespace ExplicitApi

theorem Declaration.ruleName_injective : Function.Injective Declaration.ruleName := by
  intro a b h
  cases a <;> cases b <;> simp_all [ruleName]

namespace Report

section Injective

theorem insertionJson_injective : Function.Injective insertionJson := by
  rintro ⟨kind, line, keyword, name⟩ ⟨kind', line', keyword', name'⟩ h
  simp only [insertionJson, Json.ofUInt32, Json.object.injEq, Json.string.injEq, Json.number.injEq,
    Json.Number.natural.injEq, UInt32.toUInt64_inj, List.cons.injEq, Prod.mk.injEq, true_and,
    and_true] at h
  obtain ⟨rfl, rfl, rfl, hkind⟩ := h
  rw [Declaration.ruleName_injective hkind]

theorem outcomeJson_injective : Function.Injective outcomeJson := by
  rintro ⟨⟨path⟩, insertions, written⟩ ⟨⟨path'⟩, insertions', written'⟩ h
  simp only [outcomeJson, Json.object.injEq, Json.string.injEq, Json.array.injEq, Json.bool.injEq,
    insertionJson_injective.list_map.eq_iff, List.cons.injEq, Prod.mk.injEq, true_and,
    and_true] at h
  obtain ⟨rfl, rfl, rfl⟩ := h
  rfl

theorem failureJson_injective : Function.Injective failureJson := by
  rintro ⟨⟨path⟩, message⟩ ⟨⟨path'⟩, message'⟩ h
  simp only [failureJson, Json.object.injEq, Json.string.injEq, List.cons.injEq, Prod.mk.injEq,
    true_and, and_true] at h
  obtain ⟨rfl, rfl⟩ := h
  rfl

theorem ofOption_injective : Function.Injective Json.ofOption := by
  intro a b h
  cases a <;> cases b <;> simp_all [Json.ofOption]

/-- The format leaves out whether the run stopped, and of the time it has the text. -/
theorem summaryJson_eq_iff {s s' : Summary} :
    summaryJson s = summaryJson s' ↔
      s = { s' with aborted := s.aborted, processedAt := s.processedAt } ∧
        s.processedAt.text "+00:00" = s'.processedAt.text "+00:00" := by
  constructor
  · intro h
    simp only [summaryJson, Json.ofUInt64, Json.object.injEq, Json.string.injEq,
      Json.number.injEq, Json.Number.natural.injEq, Json.bool.injEq, List.cons.injEq,
      Prod.mk.injEq, true_and, and_true] at h
    obtain ⟨hqualified, hdry, htime, hcached, hfailed, hmodified, hprocessed, hat⟩ := h
    rw [Summary.mk.injEq]
    exact ⟨⟨hprocessed, hmodified, hqualified, hcached, hfailed, hdry, rfl, htime, rfl⟩, hat⟩
  · rintro ⟨h, hat⟩
    rw [h, summaryJson, summaryJson]
    simp only [hat]

end Injective

section Naturals

theorem hasNaturals_insertionJson (i : Insertion) : (insertionJson i).HasNaturals := by
  refine Json.hasNaturals_object ?_
  simp [Json.ofUInt32, Json.HasNaturals]

theorem hasNaturals_outcomeJson (o : Change) : (outcomeJson o).HasNaturals := by
  refine Json.hasNaturals_object ?_
  simp only [List.forall_mem_cons, List.not_mem_nil, false_imp_iff, implies_true, and_true]
  refine ⟨Json.hasNaturals_string _, Json.hasNaturals_array ?_, Json.hasNaturals_bool _⟩
  exact List.forall_mem_map.2 fun i _ => hasNaturals_insertionJson i

theorem hasNaturals_failureJson (f : Failure) : (failureJson f).HasNaturals := by
  refine Json.hasNaturals_object ?_
  simp [Json.HasNaturals]

theorem hasNaturals_summaryJson (s : Summary) : (summaryJson s).HasNaturals := by
  refine Json.hasNaturals_object ?_
  simp [Json.ofUInt64, Json.HasNaturals]

theorem hasNaturals_json (style : Style) (r : Report) : (json style r).HasNaturals := by
  refine Json.hasNaturals_object ?_
  simp only [List.forall_mem_cons, List.not_mem_nil, false_imp_iff, implies_true, and_true]
  refine ⟨Json.hasNaturals_ofOption _, Json.hasNaturals_array ?_, Json.hasNaturals_array ?_,
    hasNaturals_summaryJson _⟩
  · exact List.forall_mem_map.2 fun f _ => hasNaturals_failureJson f
  · exact List.forall_mem_map.2 fun o _ => hasNaturals_outcomeJson o

end Naturals

/--
Reports have one text just when they agree, but for the stop and for times that have one text.
-/
theorem json_carries (style style' : Style) (r s : Report) :
    (r.format { style with maxFiles := none } .json =
        s.format { style' with maxFiles := none } .json ↔
      r = { s with summary := { s.summary with
            aborted := r.summary.aborted, processedAt := r.summary.processedAt } } ∧
        r.summary.processedAt.text "+00:00" = s.summary.processedAt.text "+00:00") ∧
    (r.summary.processedAt.text "+00:00" = s.summary.processedAt.text "+00:00" ↔
      r.summary.processedAt.settle = s.summary.processedAt.settle) := by
  refine ⟨⟨fun h => ?_, ?_⟩, Time.Moment.text_eq_iff⟩
  · have hjson := Json.eq_of_pretty_eq (hasNaturals_json _ r) (hasNaturals_json _ s) h
    simp only [json, listed, Json.object.injEq, Json.array.injEq, List.cons.injEq, Prod.mk.injEq,
      true_and, and_true, outcomeJson_injective.list_map.eq_iff,
      failureJson_injective.list_map.eq_iff, ofOption_injective.eq_iff] at hjson
    obtain ⟨hfingerprint, hfailures, hfiles, hsummary⟩ := hjson
    obtain ⟨hsame, hat⟩ := summaryJson_eq_iff.1 hsummary
    rw [Report.mk.injEq]
    exact ⟨⟨hfiles, hfailures, hsame, hfingerprint⟩, hat⟩
  · rintro ⟨h, hat⟩
    have hsummary : summaryJson r.summary = summaryJson s.summary :=
      summaryJson_eq_iff.2 ⟨congrArg summary h, hat⟩
    have hjson : json { style with maxFiles := none } r = json { style' with maxFiles := none } s := by
      rw [json, json, hsummary, h]
      rfl
    exact congrArg Json.pretty hjson

/-- A run that stopped at a failure has the JSON text of one that noted it and went on. -/
theorem json_hides_stop :
    let failure : Failure := ⟨⟨"b/Bad.kt"⟩, (ProcessingError.unreadable .invalidUtf8).message⟩
    let stopped := (Report.start .write .epoch).stopAt failure
    let complete := (Report.start .write .epoch).add (.failed failure)
    stopped.format {} .json = complete.format {} .json ∧
      stopped.summary.aborted = true ∧ complete.summary.aborted = false :=
  ⟨rfl, rfl, rfl⟩

end Report

end ExplicitApi
