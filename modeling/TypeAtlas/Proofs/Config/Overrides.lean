import TypeAtlas.Config.Table
import TypeAtlas.Proofs.Except

namespace TypeAtlas

/-- The new value of a setting, if it gets one. -/
def Overrides.value? (o : Overrides) : Setting → Option Data
  | .sourceRootName => o.sourceRootName.map .text
  | .entryPointName => o.entryPointName.map .text
  | .defaultPackage => o.defaultPackage.map .text
  | .sourceExtension => o.sourceExtension.map .text
  | .implicitPrefix => o.implicitPrefix.map .text
  | .maxConcurrency => o.maxConcurrency.map .integer
  | .cancelOnFailure => o.cancelOnFailure.map .bool

theorem Data.elim_integer_inj {m n : Option Int}
    (h : m.elim Data.null Data.integer = n.elim Data.null Data.integer) : m = n := by
  cases m with
  | none =>
    cases n with
    | none => rfl
    | some n => cases h
  | some m =>
    cases n with
    | none => cases h
    | some n => rw [Data.integer.inj h]

/-- Settings are known by the values that they give. -/
theorem Settings.eq_of_value_eq {s s' : Settings}
    (h : ∀ setting, s.value setting = s'.value setting) : s = s' := by
  have hsource := Data.text.inj (h .sourceRootName)
  have hentry := Data.text.inj (h .entryPointName)
  have hpackage := Data.text.inj (h .defaultPackage)
  have hextension := Data.text.inj (h .sourceExtension)
  have hprefix := Data.text.inj (h .implicitPrefix)
  have hlimit := Data.elim_integer_inj (h .maxConcurrency)
  have hcancel := Data.bool.inj (h .cancelOnFailure)
  cases s
  cases s'
  simp only at hsource hentry hpackage hextension hprefix hlimit hcancel
  subst hsource hentry hpackage hextension hprefix hlimit hcancel
  rfl

/-- An override wins over what was set. -/
theorem Settings.value_override (s : Settings) (o : Overrides) (setting : Setting) :
    (s.override o).value setting = (o.value? setting).getD (s.value setting) := by
  cases setting with
  | maxConcurrency => cases h : o.maxConcurrency <;> simp [value, override, Overrides.value?, h]
  | _ => exact (Option.getD_map _ _ _).symm

/-- Of two overrides of a setting the later wins. -/
theorem Overrides.value?_merge (earlier later : Overrides) (setting : Setting) :
    (earlier.merge later).value? setting = (later.value? setting).or (earlier.value? setting) := by
  cases setting <;> simp [value?, merge, Option.map_or]

/-- To override settings twice is to override them once with the merged overrides. -/
theorem Settings.override_override (s : Settings) (o o' : Overrides) :
    (s.override o).override o' = s.override (o.merge o') := by
  refine eq_of_value_eq fun setting => ?_
  rw [value_override, value_override, value_override, Overrides.value?_merge]
  cases o'.value? setting with
  | none => rfl
  | some v => rfl

namespace Config

theorem eq_of_toSettings_eq {c c' : Config} (h : c.toSettings = c'.toSettings) : c = c' := by
  cases c
  cases c'
  simp only at h
  subst h
  rfl

/-- Settings make a configuration just where they are valid, and it is the one that has them. -/
theorem ofSettings_eq_ok_iff {s : Settings} {c : Config} :
    ofSettings s = .ok c ↔ s.IsValid ∧ c.toSettings = s := by
  rw [ofSettings]
  by_cases h : s.IsValid
  · rw [dif_pos h, Except.ok.injEq]
    constructor
    · rintro rfl
      exact ⟨h, rfl⟩
    · rintro ⟨_, heq⟩
      exact eq_of_toSettings_eq heq.symm
  · rw [dif_neg h]
    refine iff_of_false (fun hok => ?_) fun hvalid => h hvalid.1
    split at hok
    · split at hok <;> cases hok
    · cases hok

/-- Where new values are taken, later ones can be asked for together with them. -/
theorem replace_replace {c c' : Config} {o : Overrides} (h : c.replace o = .ok c')
    (o' : Overrides) : c'.replace o' = c.replace (o.merge o') := by
  obtain ⟨_, hsettings⟩ := ofSettings_eq_ok_iff.mp h
  rw [replace, replace, hsettings, Settings.override_override]

/-- Where no new values are asked for, nothing changes. -/
theorem replace_empty (c : Config) : c.replace {} = .ok c := by
  have hsame : c.toSettings.override {} = c.toSettings :=
    Settings.eq_of_value_eq fun setting => by
      rw [Settings.value_override]
      cases setting <;> rfl
  rw [replace, hsame]
  exact ofSettings_eq_ok_iff.mpr ⟨c.isValid, rfl⟩

/-- The configuration after new values were asked for. If they are not taken, it is the same. -/
def tryReplace (c : Config) (o : Overrides) : Config :=
  match c.replace o with
  | .ok c' => c'
  | .error _ => c

/-- The configuration after new values were asked for one time after another. -/
def afterAll (c : Config) (os : List Overrides) : Config :=
  os.foldl tryReplace c

/-- All new values that are taken where they are asked for one time after another. -/
def taken (c : Config) : List Overrides → Overrides
  | [] => {}
  | o :: os =>
    match c.replace o with
    | .ok c' => o.merge (c'.taken os)
    | .error _ => c.taken os

/-- However often new values are asked for, all that were taken could have been asked for at
once. -/
theorem replace_taken (c : Config) (os : List Overrides) :
    c.replace (c.taken os) = .ok (c.afterAll os) := by
  induction os generalizing c with
  | nil => exact c.replace_empty
  | cons o os ih =>
    cases h : c.replace o with
    | ok c' =>
      have hrest : (c'.afterAll os) = c.afterAll (o :: os) := by
        rw [afterAll, afterAll, List.foldl_cons, tryReplace, h]
      rw [taken, h, ← replace_replace h, ih c', hrest]
    | error fault =>
      have hrest : c.afterAll os = c.afterAll (o :: os) := by
        rw [afterAll, afterAll, List.foldl_cons, tryReplace, h]
      rw [taken, h, ih c, hrest]

/-- Settings make a configuration just where they are valid. Whatever new values are asked for one
time after another, the configuration that is reached is valid, and it is the one that all values
which were taken make at once. So a request after one that was taken comes to what both come to
together, where the later one wins. -/
theorem isValid_afterAll_and_replace_replace :
    (∀ (s : Settings) (c : Config), ofSettings s = .ok c ↔ s.IsValid ∧ c.toSettings = s) ∧
      (∀ (c : Config) (os : List Overrides),
        c.replace (c.taken os) = .ok (c.afterAll os) ∧ (c.afterAll os).toSettings.IsValid) ∧
      ∀ (c c' : Config) (o o' : Overrides), c.replace o = .ok c' →
        c'.replace o' = c.replace (o.merge o') := by
  refine ⟨fun s c => ofSettings_eq_ok_iff, fun c os => ?_, fun c c' o o' h => replace_replace h o'⟩
  have htaken := c.replace_taken os
  obtain ⟨hvalid, hsettings⟩ := ofSettings_eq_ok_iff.mp htaken
  exact ⟨htaken, hsettings ▸ hvalid⟩

/-- Four things at one time. -/
def fourAtOnce : Config := { maxConcurrency := some 4 }

/-- An extension without a point is refused after a ceiling was set as it is together with it. -/
theorem isValid_afterAll_and_replace_replace_fourAtOnce :
    (default : Config).replace { maxConcurrency := some 4 } = .ok fourAtOnce ∧
      fourAtOnce.replace { sourceExtension := some "java" } =
        (default : Config).replace
          { maxConcurrency := some 4, sourceExtension := some "java" } :=
  have htaken : (default : Config).replace { maxConcurrency := some 4 } = .ok fourAtOnce := rfl
  ⟨htaken, isValid_afterAll_and_replace_replace.2.2 _ _ _ { sourceExtension := some "java" } htaken⟩

end Config

end TypeAtlas
