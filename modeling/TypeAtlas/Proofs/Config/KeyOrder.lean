import TypeAtlas.Proofs.Agreement
import TypeAtlas.Proofs.Config.Tables

namespace TypeAtlas

open ConfigTable

namespace Setting

variable {entries entries' : Toml.Entries}

theorem lastValue?_eq_none_iff {setting : Setting} :
    setting.lastValue? entries = none ↔ ∀ e ∈ entries, ¬ setting.IsNamedBy e.1 := by
  simp [lastValue?]

theorem exists_of_lastValue?_eq_some {setting : Setting} {v : Data}
    (h : setting.lastValue? entries = some v) :
    ∃ e ∈ entries, setting.IsNamedBy e.1 ∧ e.2 = v := by
  obtain ⟨e, hfind, hv⟩ := Option.map_eq_some_iff.mp h
  have hnamed := List.find?_some hfind
  exact ⟨e, List.mem_reverse.mp (List.mem_of_find?_eq_some hfind), of_decide_eq_true hnamed, hv⟩

/-- Entries that name one setting are one entry. -/
def Distinguishes (entries : Toml.Entries) : Prop :=
  ∀ setting : Setting, ∀ e ∈ entries, ∀ e' ∈ entries,
    setting.IsNamedBy e.1 → setting.IsNamedBy e'.1 → e = e'

theorem lastValue?_eq_of_perm (h : entries.Perm entries') (hdistinct : Distinguishes entries)
    (setting : Setting) : setting.lastValue? entries = setting.lastValue? entries' := by
  cases hvalue' : setting.lastValue? entries' with
  | none =>
    rw [lastValue?_eq_none_iff] at hvalue' ⊢
    exact fun e he => hvalue' e (h.mem_iff.mp he)
  | some v' =>
    obtain ⟨e', he', hnamed', rfl⟩ := exists_of_lastValue?_eq_some hvalue'
    cases hvalue : setting.lastValue? entries with
    | none => exact absurd hnamed' (lastValue?_eq_none_iff.mp hvalue e' (h.mem_iff.mpr he'))
    | some v =>
      obtain ⟨e, he, hnamed, rfl⟩ := exists_of_lastValue?_eq_some hvalue
      rw [hdistinct setting e he e' (h.mem_iff.mpr he') hnamed hnamed']

theorem inForce_eq_of_perm (h : entries.Perm entries') (hdistinct : Distinguishes entries) :
    inForce entries = inForce entries' := by
  funext setting
  rw [inForce, inForce, lastValue?_eq_of_perm h hdistinct]

end Setting

namespace Config

variable {source : Text} {entries entries' : Toml.Entries}

theorem exists_ofSource_eq_error_iff (source : Text) :
    (∃ report, ofSource source entries = .error report) ↔ ¬ IsInOrder entries := by
  rw [← exists_ofSource_eq_ok_iff source]
  cases ofSource source entries with
  | ok c => simp
  | error report => simp

/-- Two tables come to the same if both are out of order, or if both are in order and put the same
values in force. -/
theorem agree_ofSource_iff :
    Agree Eq (ofSource source entries) (ofSource source entries') ↔
      ¬ IsInOrder entries ∧ ¬ IsInOrder entries' ∨ IsInOrder entries ∧ IsInOrder entries' ∧
        Setting.inForce entries = Setting.inForce entries' := by
  constructor
  · intro h
    cases hleft : ofSource source entries with
    | error report =>
      cases hright : ofSource source entries' with
      | error report' =>
        exact .inl ⟨(exists_ofSource_eq_error_iff source).mp ⟨_, hleft⟩,
          (exists_ofSource_eq_error_iff source).mp ⟨_, hright⟩⟩
      | ok c' =>
        rw [hleft, hright] at h
        cases h
    | ok c =>
      obtain ⟨c', hright, rfl⟩ := h.exists_ok_left hleft
      obtain ⟨horder, hvalues⟩ := ofSource_eq_ok_iff.mp hleft
      obtain ⟨horder', hvalues'⟩ := ofSource_eq_ok_iff.mp hright
      exact .inr ⟨horder, horder', hvalues.symm.trans hvalues'⟩
  · rintro (⟨hnot, hnot'⟩ | ⟨horder, horder', hvalues⟩)
    · obtain ⟨report, hleft⟩ := (exists_ofSource_eq_error_iff source).mpr hnot
      obtain ⟨report', hright⟩ := (exists_ofSource_eq_error_iff source).mpr hnot'
      rw [hleft, hright]
      exact .error
    · obtain ⟨c, hleft⟩ := (exists_ofSource_eq_ok_iff source).mpr horder
      have hvalue := (ofSource_eq_ok_iff.mp hleft).2
      have hright : ofSource source entries' = .ok c :=
        ofSource_eq_ok_iff.mpr ⟨horder', hvalue.trans hvalues⟩
      rw [hleft, hright]
      exact .ok rfl

/-- Two orders of a table come to the same just where an entry does not fit, where the same values
are in force with both, or where what is in force is acceptable with neither. -/
theorem agree_ofSource_iff_of_perm (h : entries.Perm entries') :
    Agree Eq (ofSource source entries) (ofSource source entries') ↔
      (∃ e ∈ entries, ¬ Fits e) ∨ Setting.inForce entries = Setting.inForce entries' ∨
        ¬ Setting.IsAcceptable (Setting.inForce entries) ∧
          ¬ Setting.IsAcceptable (Setting.inForce entries') := by
  have hfits : (∀ e ∈ entries', Fits e) ↔ ∀ e ∈ entries, Fits e := by simp only [h.mem_iff]
  rw [agree_ofSource_iff, isInOrder_iff, isInOrder_iff, hfits]
  by_cases hall : ∀ e ∈ entries, Fits e
  · have hnone : ¬ ∃ e ∈ entries, ¬ Fits e := fun ⟨e, he, hnot⟩ => hnot (hall e he)
    by_cases hvalues : Setting.inForce entries = Setting.inForce entries'
    · rw [hvalues]
      grind
    · grind
  · have hsome : ∃ e ∈ entries, ¬ Fits e := by simpa using hall
    exact iff_of_true (.inl ⟨fun hboth => hall hboth.1, fun hboth => hall hboth.1⟩) (.inl hsome)

/-- What is at fault with a table can be shown if all its values can be. -/
theorem isShowable_of_isAtFault {fault : TableFault} (h : IsAtFault entries fault)
    (hshowable : ∀ e ∈ entries, e.2.IsShowable) : fault.IsShowable := by
  cases h with
  | misfit hfirst =>
    obtain ⟨before, e, after, rfl, -, hmisfits⟩ := hfirst
    cases hmisfits with
    | unknownKey => trivial
    | @badValue key value => exact hshowable (key, value) (by simp)
  | invalid _ hunacceptable =>
    cases hunacceptable with
    | noPoint => trivial
    | @notPositive n hlimit =>
      rw [Setting.inForce] at hlimit
      cases hlast : Setting.maxConcurrency.lastValue? entries with
      | none =>
        rw [hlast] at hlimit
        cases hlimit
      | some v =>
        obtain ⟨e, he, -, rfl⟩ := Setting.exists_of_lastValue?_eq_some hlast
        rw [hlast, Option.getD_some] at hlimit
        exact hshowable e he n (by simp [hlimit, Data.integers])

/-- If all values of a table can be shown, it makes a configuration or is reported with its
source. -/
theorem exists_report_of_ofSource (hshowable : ∀ e ∈ entries, e.2.IsShowable)
    {failure : Option Diagnostic} (h : ofSource source entries = .error failure) :
    ∃ report, failure = some report ∧ report.kind = .config ∧ report.givenPath = source := by
  obtain ⟨fault, hfault, rfl⟩ := ofSource_eq_error_iff.mp h
  have hmessage := fault.isSome_message?_iff.mpr (isShowable_of_isAtFault hfault hshowable)
  obtain ⟨message, hmessage⟩ := Option.isSome_iff_exists.mp hmessage
  exact ⟨_, by rw [hmessage, Option.map_some], rfl, rfl⟩

/-- The order of the entries of a table does not count as long as no two of them name one setting.
If some do, the last one counts: then two orders come to the same just where an entry does not fit,
where the same values are in force with both, or where what is in force is acceptable with
neither. A failure is reported with either order if all values can be shown. -/
theorem agree_ofSource_of_perm (source : Text) {entries entries' : Toml.Entries}
    (h : entries.Perm entries') :
    (Setting.Distinguishes entries →
        Agree Eq (ofSource source entries) (ofSource source entries')) ∧
      (Agree Eq (ofSource source entries) (ofSource source entries') ↔
        (∃ e ∈ entries, ¬ Fits e) ∨ Setting.inForce entries = Setting.inForce entries' ∨
          ¬ Setting.IsAcceptable (Setting.inForce entries) ∧
            ¬ Setting.IsAcceptable (Setting.inForce entries')) ∧
      ((∀ e ∈ entries, e.2.IsShowable) → ∀ failure,
        ofSource source entries = .error failure ∨ ofSource source entries' = .error failure →
          ∃ report, failure = some report ∧ report.kind = .config ∧
            report.givenPath = source) := by
  refine ⟨fun hdistinct => ?_, agree_ofSource_iff_of_perm h, fun hshowable failure hfailed => ?_⟩
  · have hvalues := Setting.inForce_eq_of_perm h hdistinct
    exact (agree_ofSource_iff_of_perm h).mpr (.inr (.inl hvalues))
  · obtain hleft | hright := hfailed
    · exact exists_report_of_ofSource hshowable hleft
    · exact exists_report_of_ofSource (fun e he => hshowable e (h.mem_iff.mpr he)) hright

/-- A ceiling and an extension, the ceiling spelled with a hyphen. -/
def ceilingAndExtension : Toml.Entries :=
  [("max-concurrency", .integer 4), ("source_extension", .text ".kt")]

theorem agree_ofSource_of_perm_ceilingAndExtension :
    ceilingAndExtension.Perm ceilingAndExtension.reverse ∧
      Setting.Distinguishes ceilingAndExtension ∧
        Agree Eq (ofSource noConfigFile ceilingAndExtension)
          (ofSource noConfigFile ceilingAndExtension.reverse) := by
  have hperm : ceilingAndExtension.Perm ceilingAndExtension.reverse :=
    (List.reverse_perm ceilingAndExtension).symm
  have hceiling : Setting.maxConcurrency.IsNamedBy "max-concurrency" := by decide
  have hextension : Setting.sourceExtension.IsNamedBy "source_extension" := by decide
  have hdistinct : Setting.Distinguishes ceilingAndExtension := by
    intro setting e he e' he' hnamed hnamed'
    obtain rfl | rfl := List.mem_pair.mp he <;> obtain rfl | rfl := List.mem_pair.mp he'
    · rfl
    · cases (hceiling.unique hnamed).trans (hextension.unique hnamed').symm
    · cases (hceiling.unique hnamed').trans (hextension.unique hnamed).symm
    · rfl
  exact ⟨hperm, hdistinct, (agree_ofSource_of_perm noConfigFile hperm).1 hdistinct⟩

/-- Two ceilings, under two keys that both name it. -/
def twoSpellings : Toml.Entries :=
  [("max-concurrency", .integer 1), ("max_concurrency", .integer 2)]

/-- With two keys for one setting the order of a table counts. -/
theorem not_agree_twoSpellings :
    (twoSpellings.map (·.1)).Nodup ∧ twoSpellings.Perm twoSpellings.reverse ∧
      ¬ Agree Eq (ofSource noConfigFile twoSpellings)
        (ofSource noConfigFile twoSpellings.reverse) := by
  refine ⟨by decide, (List.reverse_perm twoSpellings).symm, fun h => ?_⟩
  have hfirst : ofSource noConfigFile twoSpellings = .ok { maxConcurrency := some 2 } := rfl
  have hsecond : ofSource noConfigFile twoSpellings.reverse = .ok { maxConcurrency := some 1 } :=
    rfl
  rw [hfirst, hsecond] at h
  cases h with
  | ok heq => cases congrArg (·.maxConcurrency) heq

end Config

end TypeAtlas
