import TypeAtlas.Command.Choice
import TypeAtlas.Proofs.Analysis.Orphans
import TypeAtlas.Proofs.Crew.Closing

namespace TypeAtlas

open Concurrency

/-- What is to be done on a path that is given with a mode. -/
def modeJob (d : Disk) (c : Settings) (path : Path) : Mode → AnalysisJob
  | .project => projectJob d c path
  | .package => packageJob d c path
  | .sourceFile => classJob d c path

/-- In an analysis that asks nobody to give up for the failure of others, nobody does so before it
has ended. Whoever has not finished by then is told to give up all the same, and does. -/
theorem isPatient_analyses (c : Config) (hpatient : c.cancelOnFailure = false) (d : Disk)
    (path : Path) (mode : Mode) :
    (crewFor c.toSettings (modeJob d c.toSettings path mode)).IsPatient c.toSettings.slotCount := by
  rw [crewFor, hpatient]
  exact Crew.isPatient_start c.slotCount_ne_zero _

/-- The first file has failed, and the first worker has heard of it. -/
def patientCrewEnded : Crew Note Failure Finding :=
  patientCrew.run [[], [], [0], [0, 0], [0, 0], [0, 0], [0, 1], [0], []]

/-- That failure is its own end. -/
theorem outcome?_patientCrewEnded :
    patientCrewEnded.root.outcome? = some (.failure
      (.badSource (.ofText "A.java") (.lexical (.malformed .notAToken [35] 1 [])))) := by
  have hstage : patientCrewEnded.root.stage = .ended (.failure
      (.badSource (.ofText "A.java") (.lexical (.malformed .notAToken [35] 1 [])))) := by cbv
  rw [Worker.outcome?, hstage]

/-- The second file is still being read. -/
theorem outcomeAt?_patientCrewEnded : patientCrewEnded.root.outcomeAt? [0, 1] = some none := by
  cbv

theorem isPatient_patientCrew :
    patientCrew.IsPatient none ∧ patientCrewEnded.root.outcome? ≠ none ∧
      patientCrewEnded.root.outcomeAt? [0, 1] = some none := by
  have hended : patientCrewEnded.root.outcome? ≠ none := by simp [outcome?_patientCrewEnded]
  exact ⟨isPatient_analyses { cancelOnFailure := false } rfl halfBrokenDisk (.ofText ".") .package,
    hended, outcomeAt?_patientCrewEnded⟩

/-- The analysis of the second file is not let finish. -/
theorem not_letsAllFinish_patientCrew : ¬ patientCrew.LetsAllFinish := by
  intro hall
  have hlimit : (none : Option Nat) ≠ some 0 := (Option.some_ne_none 0).symm
  have hpatient : patientCrew.IsPatient none := Crew.isPatient_start hlimit _
  have hended : patientCrewEnded.root.outcome? ≠ none := by simp [outcome?_patientCrewEnded]
  obtain ⟨t, hcloses⟩ := hpatient.closes _ hended
  have hgone : t.root.outcomeAt? [0, 1] = some (some .cancelled) := by
    rw [hpatient.outcomes _ t hcloses, ← patientCrewEnded, outcomeAt?_patientCrewEnded]
    rfl
  exact hall _ t hcloses [0, 1] hgone

end TypeAtlas
