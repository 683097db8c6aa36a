import TypeAtlas.Config.Lookup
import TypeAtlas.Proofs.Config.Overrides
import TypeAtlas.Proofs.Config.Showing

namespace TypeAtlas

namespace Setting

/-- A key names a setting if it is the key of the setting once every hyphen is an underscore. -/
def IsNamedBy (setting : Setting) (key : Text) : Prop :=
  key.map (fun c => if c = '-'.toNat then '_'.toNat else c) = setting.key

instance (setting : Setting) (key : Text) : Decidable (setting.IsNamedBy key) :=
  inferInstanceAs (Decidable (_ = _))

/-- The values that a setting takes: a ceiling is an integer, whether failures cancel is true or
false, and all else is text. -/
def Takes : Setting → Data → Prop
  | .maxConcurrency, v => ∃ n, v = .integer n
  | .cancelOnFailure, v => ∃ b, v = .bool b
  | _, v => ∃ t, v = .text t

/-- The value of the last entry that names a setting. -/
def lastValue? (setting : Setting) (entries : Toml.Entries) : Option Data :=
  (entries.reverse.find? fun e => setting.IsNamedBy e.1).map (·.2)

/-- The value that a setting has with the entries of a table: the last that they give it, or else
the default one. -/
def inForce (entries : Toml.Entries) (setting : Setting) : Data :=
  (setting.lastValue? entries).getD (Settings.value {} setting)

theorem ofKey?_eq_some_iff {setting : Setting} {key : Text} :
    ofKey? key = some setting ↔ setting.IsNamedBy key := by
  constructor
  · intro h
    have hkey := List.find?_some h
    exact (of_decide_eq_true hkey).symm
  · intro h
    have hfind : ofKey? key =
        all.find? fun s => Text.ofString s.key = Text.ofString setting.key := by
      rw [ofKey?, h]
    rw [hfind]
    cases setting <;> decide

theorem ofKey?_eq_none_iff {key : Text} :
    ofKey? key = none ↔ ∀ setting : Setting, ¬ setting.IsNamedBy key := by
  simp only [Option.eq_none_iff_forall_ne_some, ne_eq, ofKey?_eq_some_iff]

/-- A key names one setting at most. -/
theorem IsNamedBy.unique {setting setting' : Setting} {key : Text} (h : setting.IsNamedBy key)
    (h' : setting'.IsNamedBy key) : setting = setting' :=
  Option.some.inj ((ofKey?_eq_some_iff.mpr h).symm.trans (ofKey?_eq_some_iff.mpr h'))

theorem lastValue?_nil (setting : Setting) : setting.lastValue? [] = none :=
  rfl

/-- A later entry wins over the first. -/
theorem lastValue?_cons (setting : Setting) (e : Text × Data) (entries : Toml.Entries) :
    setting.lastValue? (e :: entries) =
      (setting.lastValue? entries).or (if setting.IsNamedBy e.1 then some e.2 else none) := by
  rw [lastValue?, lastValue?, List.reverse_cons, List.find?_append, Option.map_or]
  by_cases h : setting.IsNamedBy e.1
  · rw [List.find?_singleton, if_pos (decide_eq_true h), if_pos h, Option.map_some]
  · rw [List.find?_singleton, if_neg (by simpa using h), if_neg h, Option.map_none]

/-- Values that can be in force: a ceiling is positive if there is one, and an extension starts with
a point. -/
structure IsAcceptable (value : Setting → Data) : Prop where
  positive : value .maxConcurrency = .null ∨ ∃ n, value .maxConcurrency = .integer n ∧ 1 ≤ n
  pointed : ∃ rest, value .sourceExtension = .text ('.'.toNat :: rest)

/-- What is reported of values that cannot be in force. A ceiling comes before an extension. -/
inductive IsUnacceptable (value : Setting → Data) : SettingsFault → Prop
  | notPositive {n : Int} :
      value .maxConcurrency = .integer n → n < 1 → IsUnacceptable value (.notPositive n)
  | noPoint {extension : Text} :
      (∀ n, value .maxConcurrency = .integer n → 1 ≤ n) →
        value .sourceExtension = .text extension → (∀ rest, extension ≠ '.'.toNat :: rest) →
          IsUnacceptable value (.noPoint extension)

namespace IsUnacceptable

variable {value : Setting → Data} {fault fault' : SettingsFault}

theorem not_isAcceptable (h : IsUnacceptable value fault) : ¬ IsAcceptable value := by
  rintro ⟨hpositive, rest, hpointed⟩
  cases h with
  | notPositive hlimit hlt =>
    obtain hnull | ⟨n, hn, hle⟩ := hpositive
    · cases hlimit.symm.trans hnull
    · obtain rfl := Data.integer.inj (hlimit.symm.trans hn)
      omega
  | noPoint _ hextension hnone =>
    exact hnone rest (Data.text.inj (hextension.symm.trans hpointed))

theorem unique (h : IsUnacceptable value fault) (h' : IsUnacceptable value fault') :
    fault = fault' := by
  cases h with
  | notPositive hlimit hlt =>
    cases h' with
    | notPositive hlimit' => rw [Data.integer.inj (hlimit.symm.trans hlimit')]
    | noPoint hpositive =>
      have hle := hpositive _ hlimit
      omega
  | noPoint hpositive hextension =>
    cases h' with
    | notPositive hlimit hlt =>
      have hle := hpositive _ hlimit
      omega
    | noPoint _ hextension' => rw [Data.text.inj (hextension.symm.trans hextension')]

end IsUnacceptable

end Setting

namespace ConfigTable

/-- An entry that gives a setting a value which it takes. -/
def Fits (e : Text × Data) : Prop :=
  ∃ setting : Setting, setting.IsNamedBy e.1 ∧ setting.Takes e.2

/-- What is reported of an entry that does not fit. -/
inductive Misfits : Text × Data → TableFault → Prop
  | unknownKey {key : Text} {value : Data} :
      (∀ setting : Setting, ¬ setting.IsNamedBy key) → Misfits (key, value) (.unknownKey key)
  | badValue {key : Text} {value : Data} {setting : Setting} :
      setting.IsNamedBy key → ¬ setting.Takes value → Misfits (key, value) (.badValue key value)

theorem Misfits.not_fits {e : Text × Data} {fault : TableFault} (h : Misfits e fault) :
    ¬ Fits e := by
  rintro ⟨setting, hnamed, htakes⟩
  cases h with
  | unknownKey hunknown => exact hunknown setting hnamed
  | badValue hnamed' hnot =>
    obtain rfl := hnamed.unique hnamed'
    exact hnot htakes

/-- What one entry comes to is reported in one way. -/
theorem Misfits.unique {e : Text × Data} {fault fault' : TableFault} (h : Misfits e fault)
    (h' : Misfits e fault') : fault = fault' := by
  cases h with
  | unknownKey hunknown =>
    cases h' with
    | unknownKey => rfl
    | badValue hnamed => exact absurd hnamed (hunknown _)
  | badValue hnamed =>
    cases h' with
    | unknownKey hunknown => exact absurd hnamed (hunknown _)
    | badValue => rfl

/-- What is reported of the first entry that does not fit. -/
def IsFirstMisfit (entries : Toml.Entries) (fault : TableFault) : Prop :=
  ∃ before e after, entries = before ++ e :: after ∧ (∀ e ∈ before, Fits e) ∧ Misfits e fault

theorem not_isFirstMisfit_nil (fault : TableFault) : ¬ IsFirstMisfit [] fault := by
  rintro ⟨before, e, after, heq, _⟩
  exact List.append_ne_nil_of_right_ne_nil before (List.cons_ne_nil e after) heq.symm

theorem isFirstMisfit_cons_iff {e : Text × Data} {entries : Toml.Entries} {fault : TableFault} :
    IsFirstMisfit (e :: entries) fault ↔
      Misfits e fault ∨ Fits e ∧ IsFirstMisfit entries fault := by
  constructor
  · rintro ⟨before, e', after, heq, hbefore, hmisfits⟩
    cases before with
    | nil =>
      obtain ⟨rfl, _⟩ := List.cons.inj heq
      exact .inl hmisfits
    | cons e₁ before =>
      obtain ⟨rfl, rfl⟩ := List.cons.inj heq
      obtain ⟨hfits, hrest⟩ := List.forall_mem_cons.mp hbefore
      exact .inr ⟨hfits, before, e', after, rfl, hrest, hmisfits⟩
  · rintro (hmisfits | ⟨hfits, before, e', after, rfl, hbefore, hmisfits⟩)
    · exact ⟨[], e, entries, rfl, by simp, hmisfits⟩
    · exact ⟨e :: before, e', after, rfl, List.forall_mem_cons.mpr ⟨hfits, hbefore⟩, hmisfits⟩

theorem IsFirstMisfit.not_forall_fits {entries : Toml.Entries} {fault : TableFault}
    (h : IsFirstMisfit entries fault) : ¬ ∀ e ∈ entries, Fits e := by
  obtain ⟨before, e, after, rfl, _, hmisfits⟩ := h
  exact fun hall => hmisfits.not_fits (hall e (by simp))

/-- All entries of a table fit, and what they put in force is acceptable. -/
structure IsInOrder (entries : Toml.Entries) : Prop where
  fits : ∀ e ∈ entries, Fits e
  isAcceptable : Setting.IsAcceptable (Setting.inForce entries)

theorem isInOrder_iff {entries : Toml.Entries} :
    IsInOrder entries ↔ (∀ e ∈ entries, Fits e) ∧ Setting.IsAcceptable (Setting.inForce entries) :=
  ⟨fun h => ⟨h.fits, h.isAcceptable⟩, fun h => ⟨h.1, h.2⟩⟩

/-- What is reported of a table: the first of its entries that does not fit, or else what cannot be
in force. -/
inductive IsAtFault (entries : Toml.Entries) : TableFault → Prop
  | misfit {fault : TableFault} : IsFirstMisfit entries fault → IsAtFault entries fault
  | invalid {fault : SettingsFault} :
      (∀ e ∈ entries, Fits e) → Setting.IsUnacceptable (Setting.inForce entries) fault →
        IsAtFault entries (.invalid fault)

end ConfigTable

open ConfigTable

namespace Overrides

theorem exists_set?_of_takes (o : Overrides) {setting : Setting} {v : Data}
    (h : setting.Takes v) : ∃ o', o.set? setting v = some o' ∧
      ∀ t, o'.value? t = if t = setting then some v else o.value? t := by
  cases setting <;> obtain ⟨_, rfl⟩ := h <;> exact ⟨_, rfl, fun t => by cases t <;> rfl⟩

theorem set?_eq_none_of_not_takes (o : Overrides) {setting : Setting} {v : Data}
    (h : ¬ setting.Takes v) : o.set? setting v = none := by
  cases setting <;> cases v <;> first | rfl | exact absurd ⟨_, rfl⟩ h

/-- The first entry of a table sets what it names, or it is all that is reported. -/
theorem ofEntries_cons_cases (o : Overrides) (e : Text × Data) (entries : Toml.Entries) :
    (Fits e ∧ ∃ o' : Overrides, o.ofEntries (e :: entries) = o'.ofEntries entries ∧
      ∀ t : Setting, o'.value? t = if t.IsNamedBy e.1 then some e.2 else o.value? t) ∨
    ∃ fault, Misfits e fault ∧ o.ofEntries (e :: entries) = .error fault := by
  obtain ⟨key, v⟩ := e
  rw [ofEntries]
  cases hkey : Setting.ofKey? key with
  | none => exact .inr ⟨_, .unknownKey (Setting.ofKey?_eq_none_iff.mp hkey), rfl⟩
  | some setting =>
    have hnamed := Setting.ofKey?_eq_some_iff.mp hkey
    by_cases htakes : setting.Takes v
    · obtain ⟨o', hset, hvalue⟩ := o.exists_set?_of_takes htakes
      refine .inl ⟨⟨setting, hnamed, htakes⟩, o', by simp only [hset], fun t => ?_⟩
      have hiff : t = setting ↔ t.IsNamedBy key :=
        ⟨fun h => h ▸ hnamed, fun h => h.unique hnamed⟩
      rw [hvalue]
      exact if_congr hiff rfl rfl
    · exact .inr ⟨_, .badValue hnamed htakes, by simp only [o.set?_eq_none_of_not_takes htakes]⟩

/-- Where the entries of a table are taken, all of them fit, and for each setting the last one
counts. -/
theorem fits_and_value?_of_ofEntries {o o' : Overrides} {entries : Toml.Entries}
    (h : o.ofEntries entries = .ok o') :
    (∀ e ∈ entries, Fits e) ∧
      ∀ setting, o'.value? setting = (setting.lastValue? entries).or (o.value? setting) := by
  induction entries generalizing o with
  | nil =>
    obtain rfl := Except.ok.inj h
    simp [Setting.lastValue?_nil]
  | cons e entries ih =>
    obtain ⟨hfits, o₁, hrest, hvalue⟩ | ⟨fault, _, herror⟩ := o.ofEntries_cons_cases e entries
    · obtain ⟨hall, hlast⟩ := ih (hrest.symm.trans h)
      refine ⟨List.forall_mem_cons.mpr ⟨hfits, hall⟩, fun setting => ?_⟩
      rw [hlast, hvalue, Setting.lastValue?_cons, Option.or_assoc]
      congr 1
      split <;> rfl
    · cases herror.symm.trans h

/-- Where they are not, the first entry that does not fit is reported. -/
theorem ofEntries_eq_error_iff (o : Overrides) {entries : Toml.Entries} {fault : TableFault} :
    o.ofEntries entries = .error fault ↔ IsFirstMisfit entries fault := by
  induction entries generalizing o with
  | nil => exact iff_of_false nofun (not_isFirstMisfit_nil fault)
  | cons e entries ih =>
    rw [isFirstMisfit_cons_iff]
    obtain ⟨hfits, o₁, hrest, _⟩ | ⟨fault', hmisfits, herror⟩ := o.ofEntries_cons_cases e entries
    · rw [hrest, ih]
      constructor
      · exact fun h => .inr ⟨hfits, h⟩
      · rintro (hmisfits | ⟨_, hlater⟩)
        · exact absurd hfits hmisfits.not_fits
        · exact hlater
    · rw [herror, Except.error.injEq]
      constructor
      · rintro rfl
        exact .inl hmisfits
      · rintro (hmisfits' | ⟨hfits, _⟩)
        · exact hmisfits.unique hmisfits'
        · exact absurd hfits hmisfits.not_fits

/-- Entries that fit are taken. -/
theorem exists_ofEntries_eq_ok {entries : Toml.Entries} (h : ∀ e ∈ entries, Fits e)
    (o : Overrides) : ∃ o', o.ofEntries entries = .ok o' := by
  cases hentries : o.ofEntries entries with
  | ok o' => exact ⟨o', rfl⟩
  | error fault =>
    exact absurd h ((ofEntries_eq_error_iff o).mp hentries).not_forall_fits

end Overrides

namespace Settings

theorem value_maxConcurrency_eq_integer_iff {s : Settings} {n : Int} :
    s.value .maxConcurrency = .integer n ↔ s.maxConcurrency = some n := by
  rw [value]
  cases s.maxConcurrency with
  | none => simp
  | some m => simp

theorem isPointed_iff {extension : Text} :
    ['.'.toNat].isPrefixOf extension = true ↔ ∃ rest, extension = '.'.toNat :: rest := by
  rw [List.isPrefixOf_iff_prefix]
  exact exists_congr fun rest => eq_comm

theorem isValid_iff (s : Settings) : s.IsValid ↔ Setting.IsAcceptable s.value := by
  constructor
  · rintro ⟨hpositive, hpointed⟩
    obtain ⟨rest, hrest⟩ := isPointed_iff.mp hpointed
    refine ⟨?_, rest, congrArg Data.text hrest⟩
    cases hlimit : s.maxConcurrency with
    | none => exact .inl (congrArg (Option.elim · Data.null Data.integer) hlimit)
    | some n =>
      exact .inr ⟨n, value_maxConcurrency_eq_integer_iff.mpr hlimit, hpositive n hlimit⟩
  · rintro ⟨hpositive, rest, hpointed⟩
    refine ⟨fun n hlimit => ?_, isPointed_iff.mpr ⟨rest, Data.text.inj hpointed⟩⟩
    have hvalue := value_maxConcurrency_eq_integer_iff.mpr hlimit
    obtain hnull | ⟨m, hm, hle⟩ := hpositive
    · cases hvalue.symm.trans hnull
    · obtain rfl := Data.integer.inj (hvalue.symm.trans hm)
      exact hle

end Settings

namespace Config

theorem isUnacceptable_of_ofSettings {s : Settings} {fault : SettingsFault}
    (h : ofSettings s = .error fault) : Setting.IsUnacceptable s.value fault := by
  have hnot : ¬ s.IsValid := fun hvalid => by
    rw [ofSettings, dif_pos hvalid] at h
    cases h
  have hpoint (hpositive : ∀ n, s.maxConcurrency = some n → 1 ≤ n) :
      Setting.IsUnacceptable s.value (.noPoint s.sourceExtension) :=
    .noPoint (fun n hn => hpositive n (Settings.value_maxConcurrency_eq_integer_iff.mp hn)) rfl
      fun rest hrest => hnot ⟨hpositive, Settings.isPointed_iff.mpr ⟨rest, hrest⟩⟩
  rw [ofSettings, dif_neg hnot] at h
  cases hlimit : s.maxConcurrency with
  | none =>
    obtain rfl := Except.error.inj (hlimit ▸ h)
    exact hpoint fun n hn => by cases hlimit.symm.trans hn
  | some n =>
    simp only [hlimit] at h
    by_cases hlt : n < 1
    · obtain rfl := Except.error.inj ((if_pos hlt).symm.trans h)
      exact .notPositive (Settings.value_maxConcurrency_eq_integer_iff.mpr hlimit) hlt
    · obtain rfl := Except.error.inj ((if_neg hlt).symm.trans h)
      refine hpoint fun m hm => ?_
      obtain rfl := Option.some.inj (hlimit.symm.trans hm)
      omega

/-- Settings that are not valid are reported by the first value that cannot be in force. -/
theorem ofSettings_eq_error_iff {s : Settings} {fault : SettingsFault} :
    ofSettings s = .error fault ↔ Setting.IsUnacceptable s.value fault := by
  refine ⟨isUnacceptable_of_ofSettings, fun h => ?_⟩
  cases hsettings : ofSettings s with
  | ok c =>
    have hvalid := (ofSettings_eq_ok_iff.mp hsettings).1
    exact absurd (s.isValid_iff.mp hvalid) h.not_isAcceptable
  | error fault' => rw [h.unique (isUnacceptable_of_ofSettings hsettings)]

end Config

/-- The settings that the entries of a table make have the values that these put in force. -/
theorem Settings.value_override_of_ofEntries {entries : Toml.Entries} {o : Overrides}
    (h : Overrides.ofEntries {} entries = .ok o) :
    (Settings.override {} o).value = Setting.inForce entries := by
  funext setting
  have hvalue := (Overrides.fits_and_value?_of_ofEntries h).2 setting
  have hnone : Overrides.value? {} setting = none := by cases setting <;> rfl
  rw [value_override, hvalue, hnone, Option.or_none]
  rfl

namespace Config

theorem ofTable_eq_of_ofEntries {entries : Toml.Entries} {o : Overrides}
    (h : Overrides.ofEntries {} entries = .ok o) :
    ofTable entries = (ofSettings (Settings.override {} o)).mapError .invalid := by
  rw [ofTable, h, ok_bind, ofOverrides]

theorem ofTable_eq_ok_iff {entries : Toml.Entries} {c : Config} :
    ofTable entries = .ok c ↔ IsInOrder entries ∧ c.toSettings.value = Setting.inForce entries := by
  constructor
  · intro h
    obtain ⟨o, ho, _⟩ := bind_eq_ok_iff.mp h
    have hvalue := Settings.value_override_of_ofEntries ho
    rw [ofTable_eq_of_ofEntries ho] at h
    obtain ⟨hvalid, hsettings⟩ := ofSettings_eq_ok_iff.mp (mapError_eq_ok_iff.mp h)
    rw [Settings.isValid_iff, hvalue] at hvalid
    exact ⟨⟨(Overrides.fits_and_value?_of_ofEntries ho).1, hvalid⟩, hsettings ▸ hvalue⟩
  · rintro ⟨⟨hfits, hacceptable⟩, hvalue⟩
    obtain ⟨o, ho⟩ := Overrides.exists_ofEntries_eq_ok hfits {}
    have hsettings : c.toSettings = Settings.override {} o :=
      Settings.eq_of_value_eq fun setting =>
        congrFun (hvalue.trans (Settings.value_override_of_ofEntries ho).symm) setting
    rw [ofTable_eq_of_ofEntries ho, ofSettings_eq_ok_iff.mpr ⟨hsettings ▸ c.isValid, hsettings⟩]
    rfl

theorem ofTable_eq_error_iff {entries : Toml.Entries} {fault : TableFault} :
    ofTable entries = .error fault ↔ IsAtFault entries fault := by
  cases ho : Overrides.ofEntries {} entries with
  | error fault' =>
    have hfirst := (Overrides.ofEntries_eq_error_iff {}).mp ho
    rw [ofTable, ho, error_bind, Except.error.injEq]
    constructor
    · rintro rfl
      exact .misfit hfirst
    · intro h
      cases h with
      | misfit hfirst' =>
        have ho' := (Overrides.ofEntries_eq_error_iff {}).mpr hfirst'
        exact Except.error.inj (ho.symm.trans ho')
      | invalid hfits => exact absurd hfits hfirst.not_forall_fits
  | ok o =>
    have hfits := (Overrides.fits_and_value?_of_ofEntries ho).1
    rw [ofTable_eq_of_ofEntries ho, mapError_eq_error_iff]
    simp only [ofSettings_eq_error_iff, Settings.value_override_of_ofEntries ho]
    constructor
    · rintro ⟨fault', hunacceptable, rfl⟩
      exact .invalid hfits hunacceptable
    · intro h
      cases h with
      | misfit hfirst => exact absurd hfits hfirst.not_forall_fits
      | invalid _ hunacceptable => exact ⟨_, hunacceptable, rfl⟩

theorem exists_ofTable_eq_ok_iff {entries : Toml.Entries} :
    (∃ c, ofTable entries = .ok c) ↔ IsInOrder entries := by
  constructor
  · rintro ⟨c, hc⟩
    exact (ofTable_eq_ok_iff.mp hc).1
  · rintro ⟨hfits, hacceptable⟩
    obtain ⟨o, ho⟩ := Overrides.exists_ofEntries_eq_ok hfits {}
    have hvalid : (Settings.override {} o).IsValid := by
      rw [Settings.isValid_iff, Settings.value_override_of_ofEntries ho]
      exact hacceptable
    have hsettings : ofSettings (Settings.override {} o) = .ok ⟨Settings.override {} o, hvalid⟩ :=
      ofSettings_eq_ok_iff.mpr ⟨hvalid, rfl⟩
    exact ⟨_, by rw [ofTable_eq_of_ofEntries ho, hsettings, mapError_ok]⟩

theorem ofSource_eq_ok_iff {source : Text} {entries : Toml.Entries} {c : Config} :
    ofSource source entries = .ok c ↔
      IsInOrder entries ∧ c.toSettings.value = Setting.inForce entries :=
  mapError_eq_ok_iff.trans ofTable_eq_ok_iff

theorem exists_ofSource_eq_ok_iff (source : Text) {entries : Toml.Entries} :
    (∃ c, ofSource source entries = .ok c) ↔ IsInOrder entries :=
  (exists_congr fun _ => mapError_eq_ok_iff).trans exists_ofTable_eq_ok_iff

/-- A table that makes no configuration is reported by what is at fault with it, if that can be
shown. -/
theorem ofSource_eq_error_iff {source : Text} {entries : Toml.Entries}
    {report : Option Diagnostic} :
    ofSource source entries = .error report ↔ ∃ fault, IsAtFault entries fault ∧
      report = fault.message?.map (Failure.ofSettings source) := by
  rw [ofSource, mapError_eq_error_iff]
  simp only [ofTable_eq_error_iff]
  exact exists_congr fun fault => and_congr_right fun _ => eq_comm

theorem ofSource_eq_error_some_iff {source : Text} {entries : Toml.Entries}
    {report : Diagnostic} :
    ofSource source entries = .error (some report) ↔ ∃ fault message, IsAtFault entries fault ∧
      fault.message? = some message ∧
        report = { kind := .config, givenPath := source, message } := by
  rw [ofSource_eq_error_iff]
  refine exists_congr fun fault => ?_
  rw [eq_comm, Option.map_eq_some_iff, ← exists_and_left]
  refine exists_congr fun message => and_congr_right fun _ => and_congr_right fun _ => ?_
  exact eq_comm

theorem ofSource_eq_error_none_iff {source : Text} {entries : Toml.Entries} :
    ofSource source entries = .error none ↔
      ∃ fault, IsAtFault entries fault ∧ ¬ fault.IsShowable := by
  rw [ofSource_eq_error_iff]
  refine exists_congr fun fault => and_congr_right fun _ => ?_
  rw [eq_comm, Option.map_eq_none_iff, ← fault.isSome_message?_iff, Bool.not_eq_true,
    Option.isSome_eq_false_iff, Option.isNone_iff_eq_none]

/-- A table makes a configuration just where its entries fit and put in force what is acceptable,
and for each setting the configuration has the value of the last entry that names it, or the
default one if there is none. Every other table is at fault by the first entry that does not fit, or
else by what cannot be in force, and that is reported with its source. There is a failure without a
report only where what is at fault holds an integer with too many digits to be shown. -/
theorem ofSource_eq_ok_iff_and_eq_error_iff (source : Text) (entries : Toml.Entries) :
    ((∃ c, ofSource source entries = .ok c) ↔ IsInOrder entries) ∧
      (∀ c : Config, ofSource source entries = .ok c ↔
        IsInOrder entries ∧
          ∀ setting, c.toSettings.value setting = Setting.inForce entries setting) ∧
      (∀ report, ofSource source entries = .error (some report) ↔
        ∃ fault message, IsAtFault entries fault ∧ fault.message? = some message ∧
          report = { kind := .config, givenPath := source, message }) ∧
      (ofSource source entries = .error none ↔
        ∃ fault, IsAtFault entries fault ∧ ¬ fault.IsShowable) := by
  refine ⟨exists_ofSource_eq_ok_iff source, fun c => ?_, fun report => ofSource_eq_error_some_iff,
    ofSource_eq_error_none_iff⟩
  rw [ofSource_eq_ok_iff, funext_iff]

/-- An integer that base sixteen writes with four thousand digits. -/
def longInteger : Int :=
  Int.ofNat (Nat.pow 16 4000 - 1)

theorem not_isShort_longInteger : Text.isShort longInteger = false := by decide +kernel

/-- A table that gives a folder an integer for its name. -/
def longRootName : Toml.Entries :=
  [("source_root_name", .integer longInteger)]

/-- Not every table makes a configuration or is reported. -/
theorem not_reported_longRootName :
    ¬ ((∃ c, ofSource noConfigFile longRootName = .ok c) ∨
      ∃ report, ofSource noConfigFile longRootName = .error (some report)) := by
  have hnamed : Setting.sourceRootName.IsNamedBy "source_root_name" := by decide
  have hnot : ¬ Setting.sourceRootName.Takes (.integer longInteger) := by rintro ⟨t, ⟨⟩⟩
  have hfault : IsAtFault longRootName (.badValue "source_root_name" (.integer longInteger)) :=
    .misfit ⟨[], _, [], rfl, by simp, .badValue hnamed hnot⟩
  have hnone : ofSource noConfigFile longRootName = .error none := by
    refine ofSource_eq_error_none_iff.mpr ⟨_, hfault, fun hshowable => ?_⟩
    have hshort := hshowable longInteger List.mem_cons_self
    rw [not_isShort_longInteger] at hshort
    cases hshort
  rw [hnone]
  rintro (⟨c, ⟨⟩⟩ | ⟨report, ⟨⟩⟩)

end Config

/-- Where a look-up reads a table in a file, it makes of it what is made of a table with the path of
the file for its source. -/
theorem mapError_configOf_table (path : Path) (entries : Toml.Entries) :
    (configOf path (.table entries)).mapError Failure.diagnostic? =
      Config.ofSource path.text entries := by
  rw [configOf, tableOf, ok_bind, Config.ofSource]
  cases Config.ofTable entries with
  | ok c => rfl
  | error fault => rfl

end TypeAtlas
