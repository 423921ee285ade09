import ExplicitApi.Proofs.Json.Records
import ExplicitApi.Report.Codec

/-!
Reading back stored reports. Main statement: a report is read back from the value that it is stored
as, its time as the point in time that the text of it tells, and whatever is read as a report is read
as the same when it is stored again.
-/
namespace ExplicitApi

open Json (ReadsBack decodeRecord decodeRecord_cons)

section ReadBack

theorem decodeUInt64_ofUInt64 (n : UInt64) : decodeUInt64 (.ofUInt64 n) = .ok n := by
  rw [decodeUInt64, Json.decodeUnsigned_ofUInt64 n.toNat_lt]
  exact congrArg Except.ok UInt64.ofNat_toNat

theorem decodeUInt32_ofUInt32 (n : UInt32) : decodeUInt32 (.ofUInt32 n) = .ok n := by
  have hlt : n.toUInt64.toNat < 2 ^ 32 := by
    rw [UInt32.toNat_toUInt64]
    exact n.toNat_lt
  rw [decodeUInt32, Json.ofUInt32, ← Json.ofUInt64, Json.decodeUnsigned_ofUInt64 hlt,
    UInt32.toNat_toUInt64]
  exact congrArg Except.ok UInt32.ofNat_toNat

theorem Declaration.ofJson_name (kind : Declaration) : ofJson (.string kind.name) = .ok kind := by
  cases kind <;> rfl

theorem Insertion.readsBack : ReadsBack ofJson toJson := by
  rintro ⟨kind, line, keyword, name⟩
  have hkind := kind.ofJson_name
  have hline := decodeUInt32_ofUInt32 line
  rw [ofJson, toJson, decodeRecord_cons rfl rfl hkind, decodeRecord_cons rfl rfl hline,
    decodeRecord_cons rfl rfl (x := keyword) rfl, decodeRecord_cons rfl rfl (x := name) rfl]
  rfl

theorem Change.readsBack : ReadsBack ofJson toJson := by
  rintro ⟨path, insertions, written⟩
  have hinsertions := Insertion.readsBack.list insertions
  rw [ofJson, toJson, decodeRecord_cons rfl rfl (x := path) rfl,
    decodeRecord_cons rfl rfl hinsertions, decodeRecord_cons rfl rfl (x := written) rfl]
  rfl

theorem Failure.readsBack : ReadsBack ofJson toJson := by
  rintro ⟨path, message⟩
  rw [ofJson, toJson, decodeRecord_cons rfl rfl (x := path) rfl,
    decodeRecord_cons rfl rfl (x := message) rfl]
  rfl

/-- The summary with the point in time that the text of its time tells. -/
def Summary.settled (s : Summary) : Summary := { s with processedAt := s.processedAt.settle.toMoment }

def Report.settled (r : Report) : Report := { r with summary := r.summary.settled }

theorem Report.settled_eq_iff {r : Report} : r.settled = r ↔ r.summary.processedAt.IsSettled := by
  obtain ⟨files, failures, summary, fingerprint⟩ := r
  obtain ⟨processed, modified, qualified, cached, failed, dryRun, aborted, duration, time⟩ := summary
  simp [settled, Summary.settled, Time.Moment.settle_eq_iff]

/-- A summary is read whatever form its time has, and need not say that the run did not stop. -/
theorem Summary.ofJson_object {s : Summary} {saysAborted : Bool} {time : Json} {t : Time.Instant}
    (haborted : saysAborted = false → s.aborted = false)
    (htime : Json.decodeTime time = .ok t) :
    ofJson (.object ([("files_processed", .ofUInt64 s.filesProcessed),
        ("files_modified", .ofUInt64 s.filesModified),
        ("declarations_qualified", .ofUInt64 s.declarationsQualified),
        ("files_cached", .ofUInt64 s.filesCached), ("files_failed", .ofUInt64 s.filesFailed),
        ("dry_run", .bool s.dryRun)] ++
        (if saysAborted then [("aborted", .bool s.aborted)] else []) ++
        [("execution_time_ms", .ofUInt64 s.executionTime), ("processed_at", time)])) =
      .ok { s with processedAt := t.toMoment } := by
  have hcount := decodeUInt64_ofUInt64
  have hduration := hcount s.executionTime
  simp only [List.cons_append, List.nil_append]
  rw [ofJson, decodeRecord_cons rfl rfl (hcount s.filesProcessed),
    decodeRecord_cons rfl rfl (hcount s.filesModified),
    decodeRecord_cons rfl rfl (hcount s.declarationsQualified),
    decodeRecord_cons rfl rfl (hcount s.filesCached),
    decodeRecord_cons rfl rfl (hcount s.filesFailed), decodeRecord_cons rfl rfl (x := s.dryRun) rfl]
  cases saysAborted with
  | false =>
    obtain ⟨processed, modified, qualified, cached, failed, dryRun, aborted, duration, at'⟩ := s
    obtain rfl : aborted = false := haborted rfl
    rw [if_neg Bool.false_ne_true, List.nil_append, decodeRecord_cons rfl rfl hduration,
      decodeRecord_cons rfl rfl htime]
    rfl
  | true =>
    rw [if_pos rfl, List.singleton_append, decodeRecord_cons rfl rfl (x := s.aborted) rfl,
      decodeRecord_cons rfl rfl hduration, decodeRecord_cons rfl rfl htime]
    rfl

theorem Summary.ofJson_toJson (s : Summary) : ofJson s.toJson = .ok s.settled :=
  @ofJson_object s true _ _ nofun (Json.decodeTime_text s.processedAt)

theorem Report.ofJson_toJson (r : Report) : ofJson r.toJson = .ok r.settled := by
  obtain ⟨files, failures, summary, fingerprint⟩ := r
  have hfiles := Change.readsBack.list files
  have hfailures := Failure.readsBack.list failures
  have hsummary := summary.ofJson_toJson
  have hfingerprint := Json.decodeOption_ofOption fingerprint
  rw [ofJson, toJson, decodeRecord_cons rfl rfl hfiles, decodeRecord_cons rfl rfl hfailures,
    decodeRecord_cons rfl rfl hsummary, decodeRecord_cons rfl rfl hfingerprint]
  rfl

theorem Report.ofJson_toJson_eq_iff {r : Report} :
    ofJson r.toJson = .ok r ↔ r.summary.processedAt.IsSettled := by
  rw [r.ofJson_toJson, Except.ok.injEq, settled_eq_iff]

end ReadBack

section Accepted

variable {v : Json}

theorem Summary.isSettled_of_ofJson {s : Summary} (h : ofJson v = .ok s) :
    s.processedAt.IsSettled := by
  unfold ofJson at h
  obtain ⟨p, -, h⟩ := bind_eq_ok_iff.1 h
  obtain ⟨processed, -, h⟩ := bind_eq_ok_iff.1 h
  obtain ⟨modified, -, h⟩ := bind_eq_ok_iff.1 h
  obtain ⟨qualified, -, h⟩ := bind_eq_ok_iff.1 h
  obtain ⟨cached, -, h⟩ := bind_eq_ok_iff.1 h
  obtain ⟨failed, -, h⟩ := bind_eq_ok_iff.1 h
  obtain ⟨dryRun, -, h⟩ := bind_eq_ok_iff.1 h
  obtain ⟨duration, -, h⟩ := bind_eq_ok_iff.1 h
  obtain ⟨time, -, h⟩ := bind_eq_ok_iff.1 h
  cases h
  exact time.isSettled

/-- Only texts of points in time are read. -/
theorem Report.isSettled_of_ofJson {r : Report} (h : ofJson v = .ok r) :
    r.summary.processedAt.IsSettled := by
  unfold ofJson at h
  obtain ⟨p, hp, h⟩ := bind_eq_ok_iff.1 h
  obtain ⟨files, -, h⟩ := bind_eq_ok_iff.1 h
  obtain ⟨failures, -, h⟩ := bind_eq_ok_iff.1 h
  obtain ⟨summary, hsummary, h⟩ := bind_eq_ok_iff.1 h
  cases h
  have hstart : ∀ s ∈ (none : Option Summary), s.processedAt.IsSettled :=
    fun s hs => absurd hs (Option.not_mem_none s)
  refine Json.of_decodeRecord (P := fun p : Parts => ∀ s ∈ p.summary, s.processedAt.IsSettled) hp
    hstart ?_ summary (Json.eq_of_required hsummary)
  intro f hf v s s' hs hread
  simp only [fields, List.mem_cons, List.not_mem_nil, or_false] at hf
  rcases hf with rfl | rfl | rfl | rfl
  · obtain ⟨_, -, rfl⟩ := Json.Field.exists_of_read hread
    exact hs
  · obtain ⟨_, -, rfl⟩ := Json.Field.exists_of_read hread
    exact hs
  · obtain ⟨summary, hsummary, rfl⟩ := Json.Field.exists_of_read hread
    intro s hs
    obtain rfl : summary = s := Option.some.inj hs
    exact Summary.isSettled_of_ofJson hsummary
  · obtain ⟨_, -, rfl⟩ := Json.Field.exists_of_read hread
    exact hs

end Accepted

section Variants

theorem Summary.ofJson_without_aborted (s : Summary) :
    ofJson (s.toJson.without "aborted") = .ok { s.settled with aborted := false } :=
  @ofJson_object { s with aborted := false } false _ _ (fun _ => rfl)
    (Json.decodeTime_text s.processedAt)

/-- A time in front of an offset is read as the point that is meant. -/
theorem Summary.ofJson_offset {s : Summary} {place : Time.Instant} {offset : Time.Offset}
    (hseconds : place.seconds = s.processedAt.settle.seconds + offset.seconds)
    (hnanoseconds : place.nanoseconds = s.processedAt.settle.nanoseconds) :
    ofJson (s.toJson.replaced "processed_at" (.string (place.text offset.text))) =
      .ok s.settled := by
  have htime : Json.decodeTime (.string (place.text offset.text)) = .ok s.processedAt.settle := by
    have hmeant : place.seconds - offset.seconds = s.processedAt.settle.seconds := by omega
    have hparts := s.processedAt.settle.ofParts?_eq
    rw [Json.decodeTime_text_offset, hmeant, hnanoseconds, hparts]
  exact @ofJson_object s true _ _ nofun htime

theorem Report.ofJson_without_fingerprint (r : Report) :
    ofJson (r.toJson.without "config_fingerprint") =
      .ok { r.settled with fingerprint := none } := by
  obtain ⟨files, failures, summary, fingerprint⟩ := r
  have hmembers : (toJson ⟨files, failures, summary, fingerprint⟩).without "config_fingerprint" =
      .object [("files", .array (files.map Change.toJson)),
        ("failures", .array (failures.map Failure.toJson)), ("summary", summary.toJson)] := rfl
  rw [hmembers, ofJson, decodeRecord_cons rfl rfl (Change.readsBack.list files),
    decodeRecord_cons rfl rfl (Failure.readsBack.list failures),
    decodeRecord_cons rfl rfl summary.ofJson_toJson]
  rfl

end Variants

/--
What a stored report may look like besides: with other members, without a fingerprint or stop, and
with the time of a place.
-/
structure Report.Tolerates : Prop where
  report : Json.SkipsOthers Report.ofJson (Report.fields.map (·.name))
  change : Json.SkipsOthers Change.ofJson (Change.fields.map (·.name))
  insertion : Json.SkipsOthers Insertion.ofJson (Insertion.fields.map (·.name))
  failure : Json.SkipsOthers Failure.ofJson (Failure.fields.map (·.name))
  summary : Json.SkipsOthers Summary.ofJson (Summary.fields.map (·.name))
  fingerprint : ∀ r : Report, Report.ofJson (r.toJson.without "config_fingerprint") =
    .ok { r.settled with fingerprint := none }
  aborted : ∀ s : Summary, Summary.ofJson (s.toJson.without "aborted") =
    .ok { s.settled with aborted := false }
  offset : ∀ (s : Summary) (place : Time.Instant) (offset : Time.Offset),
    place.seconds = s.processedAt.settle.seconds + offset.seconds →
    place.nanoseconds = s.processedAt.settle.nanoseconds →
    Summary.ofJson (s.toJson.replaced "processed_at" (.string (place.text offset.text))) =
      .ok s.settled

theorem Report.tolerates : Tolerates where
  report := (Json.skipsOthers_decodeRecord _ rfl _).bind _
  change := (Json.skipsOthers_decodeRecord _ rfl _).bind _
  insertion := (Json.skipsOthers_decodeRecord _ rfl _).bind _
  failure := (Json.skipsOthers_decodeRecord _ rfl _).bind _
  summary := (Json.skipsOthers_decodeRecord _ rfl _).bind _
  fingerprint := ofJson_without_fingerprint
  aborted := Summary.ofJson_without_aborted
  offset _ _ _ := Summary.ofJson_offset

/--
A report is read back as it was stored, but for a leap second inside a minute, which is read as the
next second.
-/
theorem Report.stored_exact :
    (∀ r : Report, ofJson r.toJson = .ok r ↔ r.summary.processedAt.IsSettled) ∧
      (∀ r : Report, ofJson r.toJson = .ok r.settled) ∧
      (∀ v : Json, (ofJson v >>= fun r => ofJson r.toJson) = ofJson v) ∧ Tolerates := by
  refine ⟨fun r => ofJson_toJson_eq_iff, ofJson_toJson, fun v => ?_, tolerates⟩
  cases hread : ofJson v with
  | error e => rfl
  | ok r => exact ofJson_toJson_eq_iff.2 (isSettled_of_ofJson hread)

/-- A report of a leap second, with a member of another name and the time of a place to the east. -/
theorem Report.stored_exact_leapSecond :
    let r := (Report.start .write ⟨⟨1483228799, 1500000000, by decide, by decide⟩, by decide⟩).add
      (.failed ⟨⟨"A.kt"⟩, "Failed to read file"⟩)
    let place : Time.Instant := ⟨⟨1483235999, 1500000000, by decide, by decide⟩, by decide⟩
    let east : Time.Offset := ⟨false, 2, 0, by decide, by decide⟩
    ofJson r.toJson = .ok r ∧
      ofJson (.object [("tool", .null), ("files", .array []),
        ("failures", .array (r.failures.map Failure.toJson)), ("summary", r.summary.toJson)]) =
          .ok r ∧
      place.seconds = r.summary.processedAt.seconds + east.seconds ∧
      place.nanoseconds = r.summary.processedAt.nanoseconds ∧
      Summary.ofJson (r.summary.toJson.replaced "processed_at" (.string (place.text east.text))) =
        .ok r.summary := by
  intro r place east
  obtain ⟨hstored, -, -, htolerates⟩ := stored_exact
  have hskip := htolerates.report [] "tool" .null
    [("files", .array []), ("failures", .array (r.failures.map Failure.toJson)),
      ("summary", r.summary.toJson)] (by decide)
  have hsettled : r.summary.processedAt.IsSettled := .inr (by decide)
  have hsame : r.settled = r := settled_eq_iff.2 hsettled
  have hseconds : place.seconds = r.summary.processedAt.seconds + east.seconds := by decide
  have hoffset := htolerates.offset r.summary place east
  have hfingerprint := htolerates.fingerprint r
  rw [r.summary.processedAt.settle_of_isSettled hsettled] at hoffset
  rw [hsame] at hfingerprint
  refine ⟨(hstored r).2 hsettled, hskip.trans hfingerprint, hseconds, rfl, ?_⟩
  rw [hoffset hseconds rfl]
  exact congrArg (Except.ok ∘ Report.summary) hsame

/-- A count of nanoseconds beyond a second inside a minute is read back as the next second. -/
theorem Report.stored_nextSecond :
    let r := (Report.start .write .epoch).withProcessedAt
      ⟨1704067204, 1333333333, by decide, by decide⟩
    let next := r.withProcessedAt ⟨1704067205, 333333333, by decide, by decide⟩
    r.summary.processedAt.text "Z" = "2024-01-01T00:00:05.333333333Z" ∧
      ofJson r.toJson = .ok next ∧ ofJson r.toJson ≠ .ok r := by
  intro r next
  have hlater : ¬r.summary.processedAt.IsSettled := by decide
  have hsettle : r.summary.processedAt.settle.toMoment = next.summary.processedAt := by
    rw [Time.Moment.settle, dif_neg hlater]
    exact (Time.Moment.mk.injEq ..).mpr ⟨by decide, by decide⟩
  have hnext : ofJson r.toJson = .ok next := by
    rw [ofJson_toJson, settled, Summary.settled, hsettle]
    rfl
  exact ⟨by decide, hnext, mt ofJson_toJson_eq_iff.1 hlater⟩

end ExplicitApi
