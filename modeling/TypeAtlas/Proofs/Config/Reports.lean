import Mathlib
import TypeAtlas.Proofs.Config.Tables

namespace TypeAtlas

open ConfigTable

/-- Where a configuration is looked for: in a file that is named for it, in the file that a project
keeps for it, or in the one that the project shares with other tools. -/
inductive ConfigPlace
  | named
  | own
  | shared
  deriving DecidableEq, Repr

def Data.IsTable (v : Data) : Prop :=
  ∃ entries, v = .table entries

namespace Data

/-- A value is a table, and what is at fault with it, if anything is, can be shown. -/
def IsReportable (v : Data) : Prop :=
  ∃ entries, v = .table entries ∧ ∀ fault, IsAtFault entries fault → fault.IsShowable

theorem isReportable_table_iff {entries : Toml.Entries} :
    (Data.table entries).IsReportable ↔ ∀ fault, IsAtFault entries fault → fault.IsShowable := by
  constructor
  · rintro ⟨_, ⟨⟩, h⟩
    exact h
  · exact fun h => ⟨entries, rfl, h⟩

end Data

/-- `LooksIn d project named place path` says that the configuration is looked for in the file at
`path`: in the one that is named, or else in the first that the project has. -/
inductive LooksIn (d : Disk) : Option Path → Option Path → ConfigPlace → Path → Prop
  | named {project : Option Path} {path : Path} : LooksIn d project (some path) .named path
  | own {project : Path} :
      d.isPresent (project.child ownConfigFile) = .ok true →
        LooksIn d (some project) none .own (project.child ownConfigFile)
  | shared {project : Path} :
      d.isPresent (project.child ownConfigFile) = .ok false →
        d.isPresent (project.child sharedConfigFile) = .ok true →
          LooksIn d (some project) none .shared (project.child sharedConfigFile)

/-- The look-up ends with a valid configuration, or with a report on the file that it looked in. -/
def IsAnswered (d : Disk) (project named : Option Path) : Except Failure Config → Prop
  | .ok c => c.toSettings.IsValid
  | .error f => ∃ place path diagnostic, LooksIn d project named place path ∧
      f.diagnostic? = some diagnostic ∧ diagnostic.kind = .config ∧
        diagnostic.givenPath = path.text

/-- The path of a file can be asked for, and what the file holds is text. The file may be missing,
and the text may be no TOML, but its reading does not stop at an integer with too many digits. -/
structure Disk.HoldsText (d : Disk) (path : Path) : Prop where
  askable : ∀ fault, d.contents path = .error fault → fault.number?.isSome = true
  isText : ∀ bytes, d.contents path = .ok bytes → ∃ t, Text.decode bytes = .ok t
  readable : ∀ bytes t fault, d.contents path = .ok bytes → Text.decode bytes = .ok t →
    Toml.parse t.toString = .error fault → fault.problem.isOfSyntax = true

/-- What a file has in the place of the table of the configuration. In a named file its own table
comes first, then the one in that of all tools, then all of the file. -/
inductive IsRead (document : Toml.Entries) : ConfigPlace → Data → Prop
  | own {v : Data} : Data.lookup document "javadeps" = some v → IsRead document .own v
  | shared {tool : Toml.Entries} {v : Data} :
      Data.lookup document "tool" = some (.table tool) → Data.lookup tool "javadeps" = some v →
        IsRead document .shared v
  | namedOwn {v : Data} : Data.lookup document "javadeps" = some v → IsRead document .named v
  | namedTool {tool : Toml.Entries} {v : Data} :
      Data.lookup document "javadeps" = none → Data.lookup document "tool" = some (.table tool) →
        Data.lookup tool "javadeps" = some v → IsRead document .named v
  | namedWhole :
      Data.lookup document "javadeps" = none →
        (∀ tool, Data.lookup document "tool" = some (.table tool) →
          Data.lookup tool "javadeps" = none) →
        IsRead document .named (.table document)

/-- Wherever a table is looked for in a file, there is one or nothing at all. In a named file the
table of all tools is looked for even if the file has a table of its own. -/
structure HasTables (document : Toml.Entries) (place : ConfigPlace) : Prop where
  ofTools : place ≠ .own → ∀ v, Data.lookup document "tool" = some v → v.IsTable
  ofConfig : ∀ v, IsRead document place v → v.IsTable

/-- What is at fault with the table of the configuration, if anything is, can be shown. -/
def ShowsFaults (document : Toml.Entries) (place : ConfigPlace) : Prop :=
  ∀ entries fault, IsRead document place (.table entries) → IsAtFault entries fault →
    fault.IsShowable

/-- What a look-up relies on: it can be told which files a project has, and the file that is looked
in holds text, has tables where they belong, and nothing that cannot be shown is at fault in it. -/
structure ConfigInOrder (d : Disk) (project named : Option Path) : Prop where
  ownKnown : named = none → ∀ p, project = some p →
    ∃ b, d.isPresent (p.child ownConfigFile) = .ok b
  sharedKnown : named = none → ∀ p, project = some p →
    d.isPresent (p.child ownConfigFile) = .ok false →
      ∃ b, d.isPresent (p.child sharedConfigFile) = .ok b
  holdsText : ∀ place path, LooksIn d project named place path → d.HoldsText path
  hasTables : ∀ place path document, LooksIn d project named place path →
    readToml d path = .ok document → HasTables document place
  showsFaults : ∀ place path document, LooksIn d project named place path →
    readToml d path = .ok document → ShowsFaults document place

/-- The tables of a file are in order just if all that is read as one can be reported on. -/
theorem hasTables_and_showsFaults_iff {document : Toml.Entries} {place : ConfigPlace} :
    HasTables document place ∧ ShowsFaults document place ↔
      (place ≠ .own → ∀ v, Data.lookup document "tool" = some v → v.IsTable) ∧
        ∀ v, IsRead document place v → v.IsReportable := by
  constructor
  · rintro ⟨⟨htools, hconfig⟩, hshows⟩
    refine ⟨htools, fun v hread => ?_⟩
    obtain ⟨entries, rfl⟩ := hconfig v hread
    exact ⟨entries, rfl, fun fault => hshows entries fault hread⟩
  · rintro ⟨htools, hread⟩
    refine ⟨⟨htools, fun v hv => ?_⟩, fun entries fault hv => ?_⟩
    · obtain ⟨entries, hentries, -⟩ := hread v hv
      exact ⟨entries, hentries⟩
    · exact Data.isReportable_table_iff.mp (hread _ hv) fault

/-- A step of the look-up goes on, or ends with a report on the file at `path`. -/
def Reports {α : Type} (path : Path) (r : Except Failure α) : Prop :=
  ∀ f, r = .error f → ∃ diagnostic, f.diagnostic? = some diagnostic ∧ diagnostic.kind = .config ∧
    diagnostic.givenPath = path.text

variable {α β : Type} {path : Path}

theorem reports_ok (a : α) : Reports path (.ok a) := by
  rintro f ⟨⟩

theorem reports_error_iff {f : Failure} :
    Reports path (.error f : Except Failure α) ↔
      ∃ diagnostic, f.diagnostic? = some diagnostic ∧ diagnostic.kind = .config ∧
        diagnostic.givenPath = path.text := by
  constructor
  · exact fun h => h f rfl
  · rintro h _ ⟨⟩
    exact h

/-- A failure without a diagnostic is not reported. -/
theorem not_reports_error {f : Failure} (h : f.diagnostic? = none) :
    ¬ Reports path (.error f : Except Failure α) := by
  intro hreports
  obtain ⟨_, hsome, _⟩ := reports_error_iff.mp hreports
  rw [h] at hsome
  cases hsome

theorem reports_bind_iff {x : Except Failure α} {g : α → Except Failure β} :
    Reports path (x >>= g) ↔ Reports path x ∧ ∀ a, x = .ok a → Reports path (g a) := by
  cases x with
  | error f =>
    rw [error_bind, reports_error_iff, reports_error_iff]
    simp
  | ok a =>
    rw [ok_bind]
    simp [reports_ok]

/-- What is at fault with a table is reported just if it can be shown. -/
theorem reports_badTable_iff {fault : TableFault} :
    Reports path (.error (.badTable path fault) : Except Failure α) ↔ fault.IsShowable := by
  rw [reports_error_iff, ← fault.isSome_message?_iff, Failure.diagnostic?]
  cases fault.message? with
  | none => simp
  | some message => exact iff_of_true ⟨_, rfl, rfl, rfl⟩ rfl

theorem diagnostic?_cannotReadConfig (path : Path) (fault : FileFault) :
    (Failure.cannotReadConfig path fault).diagnostic? =
      if fault.number?.isSome then
        some
          { kind := .config, givenPath := path.text
            message := "Could not read configuration" ++ " (" ++ fault.message ++ ")" }
      else none := by
  cases fault <;> rfl

/-- What stops the reading of a document is reported just if it makes the document no TOML. -/
theorem reports_notToml_iff {fault : Toml.Fault} :
    Reports path (.error (.notToml path fault) : Except Failure α) ↔
      fault.problem.isOfSyntax = true := by
  rw [reports_error_iff, Failure.diagnostic?]
  split
  · rename_i hsyntax
    exact iff_of_true ⟨_, rfl, rfl, rfl⟩ hsyntax
  · rename_i hnot
    exact iff_of_false (by simp) hnot

/-- A file can be read, or there is a report on it, just where its path can be asked for and it
holds text in which no integer has too many digits. -/
theorem reports_readToml_iff (d : Disk) (path : Path) :
    Reports path (readToml d path) ↔ d.HoldsText path := by
  rw [readToml, reports_bind_iff]
  cases hcontents : d.contents path with
  | error fault =>
    rw [mapError_error, reports_error_iff, diagnostic?_cannotReadConfig]
    constructor
    · rintro ⟨⟨diagnostic, hsome, _⟩, _⟩
      refine ⟨fun fault' h => ?_, fun bytes h => ?_, fun bytes _ _ h => ?_⟩
      · obtain rfl := Except.error.inj (hcontents.symm.trans h)
        by_contra hnone
        rw [if_neg hnone] at hsome
        cases hsome
      · cases hcontents.symm.trans h
      · cases hcontents.symm.trans h
    · intro h
      refine ⟨⟨_, if_pos (h.askable fault hcontents), rfl, rfl⟩, ?_⟩
      rintro a ⟨⟩
  | ok bytes =>
    simp only [mapError_ok, Except.ok.injEq, forall_eq', reports_ok, true_and, reports_bind_iff]
    cases hdecode : Text.decode bytes with
    | error fault =>
      constructor
      · rintro ⟨h, _⟩
        exact absurd h (not_reports_error rfl)
      · intro h
        obtain ⟨t, ht⟩ := h.isText bytes hcontents
        cases hdecode.symm.trans ht
    | ok t =>
      have hreads : Reports path ((Toml.parse t.toString).mapError (Failure.notToml path)) ↔
          ∀ fault, Toml.parse t.toString = .error fault → fault.problem.isOfSyntax = true := by
        cases hparse : Toml.parse t.toString with
        | ok entries => simp [mapError_ok, reports_ok]
        | error fault => simp [mapError_error, reports_notToml_iff]
      simp only [mapError_ok, Except.ok.injEq, forall_eq', reports_ok, true_and, hreads]
      constructor
      · intro h
        refine ⟨fun fault hfault => ?_, fun bytes' h' => ?_, fun bytes' t' fault h' ht' => ?_⟩
        · cases hcontents.symm.trans hfault
        · obtain rfl := Except.ok.inj (hcontents.symm.trans h')
          exact ⟨t, hdecode⟩
        · obtain rfl := Except.ok.inj (hcontents.symm.trans h')
          obtain rfl := Except.ok.inj (hdecode.symm.trans ht')
          exact h fault
      · exact fun h fault => h.readable bytes t fault hcontents hdecode

theorem reports_tableOf_iff {key : Text} {v : Data} :
    Reports path (tableOf path key v) ↔ v.IsTable := by
  cases v with
  | table entries => exact ⟨fun _ => ⟨entries, rfl⟩, fun _ => reports_ok entries⟩
  | null | bool | integer | real | text | date | time | moment | list =>
    constructor
    · exact fun h => absurd h (not_reports_error rfl)
    · rintro ⟨_, ⟨⟩⟩

theorem reports_configOf_iff {v : Data} :
    Reports path (configOf path v) ↔ v.IsReportable := by
  rw [configOf, reports_bind_iff, reports_tableOf_iff]
  constructor
  · rintro ⟨⟨entries, rfl⟩, h⟩
    refine ⟨entries, rfl, fun fault hfault => ?_⟩
    have hreports := h entries rfl
    rwa [Config.ofTable_eq_error_iff.mpr hfault, mapError_error, reports_badTable_iff] at hreports
  · rintro ⟨entries, rfl, h⟩
    refine ⟨⟨entries, rfl⟩, ?_⟩
    rintro _ ⟨⟩
    cases htable : Config.ofTable entries with
    | ok c => exact reports_ok c
    | error fault =>
      exact reports_badTable_iff.mpr (h fault (Config.ofTable_eq_error_iff.mp htable))

theorem reports_elim_configOf_iff {o : Option Data} :
    Reports path (o.elim (.ok default) (configOf path)) ↔ ∀ v, o = some v → v.IsReportable := by
  cases o with
  | none => simp [reports_ok]
  | some v => simp [reports_configOf_iff]

theorem reports_toolEntries_iff {document : Toml.Entries} :
    Reports path (toolEntries path document) ↔
      ∀ v, Data.lookup document "tool" = some v → v.IsTable := by
  rw [toolEntries]
  cases Data.lookup document "tool" with
  | none => simp [reports_ok]
  | some v => simp [reports_tableOf_iff]

/-- The entries for the tools are those of their table; without it there are none. -/
theorem toolEntries_eq_ok_iff {document tool : Toml.Entries} :
    toolEntries path document = .ok tool ↔
      Data.lookup document "tool" = some (.table tool) ∨
        Data.lookup document "tool" = none ∧ tool = [] := by
  rw [toolEntries]
  cases Data.lookup document "tool" with
  | none => simp [eq_comm]
  | some v => cases v <;> simp [tableOf]

theorem exists_toolEntries_eq_ok {document : Toml.Entries} (path : Path)
    (h : ∀ v, Data.lookup document "tool" = some v → v.IsTable) :
    ∃ tool, toolEntries path document = .ok tool := by
  cases hlookup : Data.lookup document "tool" with
  | none => exact ⟨[], toolEntries_eq_ok_iff.mpr (.inr ⟨hlookup, rfl⟩)⟩
  | some v =>
    obtain ⟨tool, rfl⟩ := h v hlookup
    exact ⟨tool, toolEntries_eq_ok_iff.mpr (.inl hlookup)⟩

section Read

variable {document tool : Toml.Entries} {v : Data}

theorem isRead_own_iff : IsRead document .own v ↔ Data.lookup document "javadeps" = some v :=
  ⟨fun h => by cases h with | own h => exact h, .own⟩

theorem isRead_shared_iff (htool : toolEntries path document = .ok tool) :
    IsRead document .shared v ↔ Data.lookup tool "javadeps" = some v := by
  obtain hlookup | ⟨hlookup, rfl⟩ := toolEntries_eq_ok_iff.mp htool
  · constructor
    · intro h
      cases h with
      | shared htool' hv =>
        obtain rfl := Data.table.inj (Option.some.inj (hlookup.symm.trans htool'))
        exact hv
    · exact .shared hlookup
  · constructor
    · intro h
      cases h with
      | shared htool' => cases hlookup.symm.trans htool'
    · rintro ⟨⟩

theorem isRead_named_iff (htool : toolEntries path document = .ok tool) :
    IsRead document .named v ↔ v = (Data.lookup document "javadeps").getD
      ((Data.lookup tool "javadeps").getD (.table document)) := by
  have htools (tool' : Toml.Entries) (h : Data.lookup document "tool" = some (.table tool')) :
      tool' = tool := by
    obtain hlookup | ⟨hlookup, -⟩ := toolEntries_eq_ok_iff.mp htool
    · exact Data.table.inj (Option.some.inj (h.symm.trans hlookup))
    · cases h.symm.trans hlookup
  constructor
  · intro h
    cases h with
    | namedOwn hown => rw [hown, Option.getD_some]
    | namedTool hown htool' hv =>
      obtain rfl := htools _ htool'
      rw [hown, hv, Option.getD_none, Option.getD_some]
    | namedWhole hown hnone =>
      have hv : Data.lookup tool "javadeps" = none := by
        obtain hlookup | ⟨-, rfl⟩ := toolEntries_eq_ok_iff.mp htool
        · exact hnone tool hlookup
        · rfl
      rw [hown, hv, Option.getD_none, Option.getD_none]
  · rintro rfl
    cases hown : Data.lookup document "javadeps" with
    | some v => exact .namedOwn hown
    | none =>
      rw [Option.getD_none]
      cases hv : Data.lookup tool "javadeps" with
      | some v =>
        obtain hlookup | ⟨-, rfl⟩ := toolEntries_eq_ok_iff.mp htool
        · exact .namedTool hown hlookup hv
        · cases hv
      | none =>
        refine .namedWhole hown fun tool' htool' => ?_
        obtain rfl := htools tool' htool'
        exact hv

end Read

theorem outcome_liftM_bind (x : Except Failure α) (g : α → Analysis β) :
    (Analysis.outcome (liftM x >>= g)).1 = x >>= fun a => (g a).outcome.1 := by
  cases x <;> rfl

/-- A note does not change the outcome of a step that takes none. -/
theorem outcome_note_bind_liftM (n : Note) (x : Except Failure α) :
    (Analysis.outcome (Analysis.note n >>= fun _ => liftM x)).1 = x := by
  cases x <;> rfl

/-- A named file is answered for just where it holds text and its tables are in order. -/
theorem reports_loadNamedConfig_iff (d : Disk) (path : Path) :
    Reports path (loadNamedConfig d path).outcome.1 ↔
      d.HoldsText path ∧ ∀ document, readToml d path = .ok document →
        HasTables document .named ∧ ShowsFaults document .named := by
  simp only [loadNamedConfig, outcome_liftM_bind, outcome_note_bind_liftM, reports_bind_iff,
    reports_readToml_iff, reports_toolEntries_iff, reports_configOf_iff,
    hasTables_and_showsFaults_iff]
  refine and_congr_right fun _ => forall₂_congr fun document _ => ?_
  constructor
  · rintro ⟨htools, hconfig⟩
    refine ⟨fun _ => htools, fun v hread => ?_⟩
    obtain ⟨tool, htool⟩ := exists_toolEntries_eq_ok path htools
    rw [(isRead_named_iff htool).mp hread]
    exact hconfig tool htool
  · rintro ⟨htools, hconfig⟩
    exact ⟨htools (by decide), fun tool htool => hconfig _ ((isRead_named_iff htool).mpr rfl)⟩

/-- Without a file of its own, a project has the configuration in the file that it shares. -/
theorem outcome_loadProjectConfig_of_shared {d : Disk} {project : Path}
    (hown : d.isPresent (project.child ownConfigFile) = .ok false) :
    (loadProjectConfig d project).outcome.1 =
      (d.isPresent (project.child sharedConfigFile)).mapError
        (Failure.cannotFindConfig (project.child sharedConfigFile)) >>= fun isShared =>
      if isShared = true then
        readToml d (project.child sharedConfigFile) >>= fun document =>
          toolEntries (project.child sharedConfigFile) document >>= fun tool =>
            (Data.lookup tool "javadeps").elim (.ok default)
              (configOf (project.child sharedConfigFile))
      else .ok default := by
  simp only [loadProjectConfig, outcome_liftM_bind, hown, mapError_ok, ok_bind,
    Bool.false_eq_true, if_false]
  congr! 2 with isShared
  cases isShared with
  | false => rfl
  | true =>
    simp only [if_true, outcome_liftM_bind]
    congr! 4 with document tool
    cases Data.lookup tool "javadeps" with
    | none => rfl
    | some value => exact outcome_note_bind_liftM _ _

/-- A project with a file of its own has the configuration in its table, or the default one. -/
theorem outcome_loadProjectConfig_of_own {d : Disk} {project : Path}
    (hown : d.isPresent (project.child ownConfigFile) = .ok true) :
    (loadProjectConfig d project).outcome.1 =
      readToml d (project.child ownConfigFile) >>= fun document =>
        configOf (project.child ownConfigFile)
          ((Data.lookup document "javadeps").getD (.table [])) := by
  simp only [loadProjectConfig, outcome_liftM_bind, hown, mapError_ok, ok_bind, if_true,
    outcome_note_bind_liftM]

/-- A table without entries makes a configuration. -/
theorem isReportable_nil : (Data.table []).IsReportable := by
  refine Data.isReportable_table_iff.mpr fun fault hfault => ?_
  cases Config.ofTable_eq_error_iff.mpr hfault

/-- A file of its own of a project is answered for just where it holds text and its table is in
order. -/
theorem reports_own_iff (d : Disk) (project : Path)
    (hown : d.isPresent (project.child ownConfigFile) = .ok true) :
    Reports (project.child ownConfigFile) (loadProjectConfig d project).outcome.1 ↔
      d.HoldsText (project.child ownConfigFile) ∧
        ∀ document, readToml d (project.child ownConfigFile) = .ok document →
          HasTables document .own ∧ ShowsFaults document .own := by
  rw [outcome_loadProjectConfig_of_own hown]
  simp only [reports_bind_iff, reports_readToml_iff, reports_configOf_iff,
    hasTables_and_showsFaults_iff, isRead_own_iff]
  refine and_congr_right fun _ => forall₂_congr fun document _ => ?_
  cases Data.lookup document "javadeps" with
  | none => simp [isReportable_nil]
  | some v => simp

/-- A file that a project shares is answered for just where it holds text and its tables are in
order. -/
theorem reports_shared_iff (d : Disk) (project : Path)
    (hown : d.isPresent (project.child ownConfigFile) = .ok false)
    (hshared : d.isPresent (project.child sharedConfigFile) = .ok true) :
    Reports (project.child sharedConfigFile) (loadProjectConfig d project).outcome.1 ↔
      d.HoldsText (project.child sharedConfigFile) ∧
        ∀ document, readToml d (project.child sharedConfigFile) = .ok document →
          HasTables document .shared ∧ ShowsFaults document .shared := by
  rw [outcome_loadProjectConfig_of_shared hown, hshared, mapError_ok, ok_bind, if_pos rfl]
  simp only [reports_bind_iff, reports_readToml_iff, reports_toolEntries_iff,
    reports_elim_configOf_iff, hasTables_and_showsFaults_iff]
  refine and_congr_right fun _ => forall₂_congr fun document _ => ?_
  constructor
  · rintro ⟨htools, hconfig⟩
    refine ⟨fun _ => htools, fun v hread => ?_⟩
    obtain ⟨tool, htool⟩ := exists_toolEntries_eq_ok (project.child sharedConfigFile) htools
    exact hconfig tool htool v ((isRead_shared_iff htool).mp hread)
  · rintro ⟨htools, hconfig⟩
    exact ⟨htools (by decide), fun tool htool v hv =>
      hconfig v ((isRead_shared_iff htool).mpr hv)⟩

theorem LooksIn.unique {d : Disk} {project named : Option Path} {place place' : ConfigPlace}
    {path path' : Path} (h : LooksIn d project named place path)
    (h' : LooksIn d project named place' path') : place = place' ∧ path = path' := by
  cases h with
  | named => cases h'; exact ⟨rfl, rfl⟩
  | own hown =>
    cases h' with
    | own => exact ⟨rfl, rfl⟩
    | shared hown' => rw [hown] at hown'; cases hown'
  | shared hown =>
    cases h' with
    | own hown' => rw [hown] at hown'; cases hown'
    | shared => exact ⟨rfl, rfl⟩

/-- Where there is a file to look in, an answer is a configuration or a report on it. -/
theorem LooksIn.isAnswered_iff {d : Disk} {project named : Option Path} {place : ConfigPlace}
    (h : LooksIn d project named place path) {r : Except Failure Config} :
    IsAnswered d project named r ↔ Reports path r := by
  cases r with
  | ok c => exact iff_of_true c.isValid (reports_ok c)
  | error f =>
    rw [reports_error_iff]
    constructor
    · rintro ⟨place', path', diagnostic, h', hdiagnostic⟩
      obtain ⟨_, rfl⟩ := h.unique h'
      exact ⟨diagnostic, hdiagnostic⟩
    · rintro ⟨diagnostic, hdiagnostic⟩
      exact ⟨place, path, diagnostic, h, hdiagnostic⟩

/-- Where there is a file to look in, all that counts is what it holds. -/
theorem LooksIn.configInOrder_iff {d : Disk} {project named : Option Path} {place : ConfigPlace}
    (h : LooksIn d project named place path) :
    ConfigInOrder d project named ↔
      d.HoldsText path ∧ ∀ document, readToml d path = .ok document →
        HasTables document place ∧ ShowsFaults document place := by
  constructor
  · exact fun horder => ⟨horder.holdsText place path h, fun document hread =>
      ⟨horder.hasTables place path document h hread,
        horder.showsFaults place path document h hread⟩⟩
  · rintro ⟨hholds, htables⟩
    refine ⟨?_, ?_, ?_, ?_, ?_⟩
    · rintro rfl p rfl
      cases h with
      | own hown => exact ⟨true, hown⟩
      | shared hown _ => exact ⟨false, hown⟩
    · rintro rfl p rfl hown
      cases h with
      | own hown' => rw [hown] at hown'; cases hown'
      | shared _ hshared => exact ⟨true, hshared⟩
    · intro place' path' h'
      obtain ⟨_, rfl⟩ := h.unique h'
      exact hholds
    · intro place' path' document h' hread
      obtain ⟨rfl, rfl⟩ := h.unique h'
      exact (htables document hread).1
    · intro place' path' document h' hread
      obtain ⟨rfl, rfl⟩ := h.unique h'
      exact (htables document hread).2

/-- Where there is no file to look in and that can be told, everything is in order. -/
theorem configInOrder_of_nowhere {d : Disk} {project named : Option Path}
    (hnowhere : ∀ place path, ¬ LooksIn d project named place path)
    (hown : named = none → ∀ p, project = some p →
      ∃ b, d.isPresent (p.child ownConfigFile) = .ok b)
    (hshared : named = none → ∀ p, project = some p →
      d.isPresent (p.child ownConfigFile) = .ok false →
        ∃ b, d.isPresent (p.child sharedConfigFile) = .ok b) :
    ConfigInOrder d project named where
  ownKnown := hown
  sharedKnown := hshared
  holdsText place path h := absurd h (hnowhere place path)
  hasTables place path _ h := absurd h (hnowhere place path)
  showsFaults place path _ h := absurd h (hnowhere place path)

theorem configInOrder_of_absent {d : Disk} {project : Path}
    (hown : d.isPresent (project.child ownConfigFile) = .ok false)
    (hshared : d.isPresent (project.child sharedConfigFile) = .ok false) :
    ConfigInOrder d (some project) none := by
  refine configInOrder_of_nowhere (fun place path h => ?_) ?_ ?_
  · cases h with
    | own hown' => rw [hown] at hown'; cases hown'
    | shared _ hshared' => rw [hshared] at hshared'; cases hshared'
  · rintro _ p ⟨⟩
    exact ⟨false, hown⟩
  · rintro _ p ⟨⟩ _
    exact ⟨false, hshared⟩

/-- A failure without a diagnostic is no answer. -/
theorem not_isAnswered_error {d : Disk} {project named : Option Path} {f : Failure}
    (h : f.diagnostic? = none) : ¬ IsAnswered d project named (.error f) := by
  rintro ⟨_, _, diagnostic, _, hsome, _⟩
  rw [h] at hsome
  cases hsome

theorem isAnswered_loadProjectConfig_iff (d : Disk) (project : Path) :
    IsAnswered d (some project) none (loadProjectConfig d project).outcome.1 ↔
      ConfigInOrder d (some project) none := by
  cases hown : d.isPresent (project.child ownConfigFile) with
  | error fault =>
    have houtcome : (loadProjectConfig d project).outcome.1 =
        .error (.cannotFindConfig (project.child ownConfigFile) fault) := by
      simp only [loadProjectConfig, outcome_liftM_bind, hown, mapError_error, error_bind]
    rw [houtcome]
    refine iff_of_false (not_isAnswered_error rfl) fun horder => ?_
    obtain ⟨b, hknown⟩ := horder.ownKnown rfl project rfl
    rw [hown] at hknown
    cases hknown
  | ok isOwn =>
    cases isOwn with
    | true =>
      have h : LooksIn d (some project) none .own (project.child ownConfigFile) := .own hown
      rw [h.isAnswered_iff, h.configInOrder_iff, reports_own_iff d project hown]
    | false =>
      cases hshared : d.isPresent (project.child sharedConfigFile) with
      | error fault =>
        have houtcome : (loadProjectConfig d project).outcome.1 =
            .error (.cannotFindConfig (project.child sharedConfigFile) fault) := by
          rw [outcome_loadProjectConfig_of_shared hown, hshared, mapError_error, error_bind]
        rw [houtcome]
        refine iff_of_false (not_isAnswered_error rfl) fun horder => ?_
        obtain ⟨b, hknown⟩ := horder.sharedKnown rfl project rfl hown
        rw [hshared] at hknown
        cases hknown
      | ok isShared =>
        cases isShared with
        | true =>
          have h : LooksIn d (some project) none .shared (project.child sharedConfigFile) :=
            .shared hown hshared
          rw [h.isAnswered_iff, h.configInOrder_iff, reports_shared_iff d project hown hshared]
        | false =>
          have houtcome : (loadProjectConfig d project).outcome.1 = .ok default := by
            rw [outcome_loadProjectConfig_of_shared hown, hshared]
            rfl
          rw [houtcome]
          exact iff_of_true (default : Config).isValid (configInOrder_of_absent hown hshared)

/-- A configuration that is looked for is found and valid, or there is a report on the file that it
is looked for in, just where all is in order: there is a failure without a report if the system
does not say whether there is a file or cannot be asked for it, if the file holds no text or has
something else in place of a table, and if an integer with too many digits has to be read, or has to
be shown because it is at fault. -/
theorem isAnswered_loadConfig_iff (d : Disk) (project named : Option Path) :
    IsAnswered d project named (loadConfig d project named).outcome.1 ↔
      ConfigInOrder d project named := by
  cases named with
  | some path =>
    have h : LooksIn d project (some path) .named path := .named
    rw [h.isAnswered_iff, h.configInOrder_iff]
    exact reports_loadNamedConfig_iff d path
  | none =>
    cases project with
    | some project => exact isAnswered_loadProjectConfig_iff d project
    | none =>
      refine iff_of_true (default : Config).isValid (configInOrder_of_nowhere ?_ ?_ ?_)
      · rintro place path ⟨⟩
      · rintro _ p ⟨⟩
      · rintro _ p ⟨⟩

/-- A project whose configuration starts with a byte that starts no character. -/
def brokenConfigDisk : Disk where
  root := .folder [(ownConfigFile, .file [0xFF])]
  here := []

/-- Bytes that are no text end a look-up without a report. -/
theorem not_isAnswered_brokenConfigDisk :
    ¬ IsAnswered brokenConfigDisk (some (.ofText ".")) none
      (loadConfig brokenConfigDisk (some (.ofText ".")) none).outcome.1 := by
  have houtcome : (loadConfig brokenConfigDisk (some (.ofText ".")) none).outcome.1 =
      .error (.notUnicode (.ofText ownConfigFile) ⟨.badStart, 0, [0xFF]⟩) := by cbv
  rw [houtcome]
  exact not_isAnswered_error rfl

end TypeAtlas
