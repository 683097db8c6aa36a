import Mathlib
import TypeAtlas.Proofs.Analysis.Progress
import TypeAtlas.Proofs.Crew.Orphans

namespace TypeAtlas

open Concurrency

/-- No analysis leaves work behind without having told those at it to give up, unless they are to go
on when others fail. Whatever it leaves, nothing goes on for ever, and all slots are free again. -/
theorem leavesNoOrphans_analyses (c : Config) :
    (∀ d path, (crewFor c.toSettings (packageJob d c.toSettings path)).LeavesNoOrphans
      c.toSettings.slotCount) ∧
    (∀ d project, (crewFor c.toSettings (projectJob d c.toSettings project)).LeavesNoOrphans
      c.toSettings.slotCount) ∧
    ∀ {α : Type} (j : Job Note Failure α),
      (crewFor c.toSettings j).LeavesNoOrphans c.toSettings.slotCount := by
  have hany : ∀ {α : Type} (j : Job Note Failure α),
      (crewFor c.toSettings j).LeavesNoOrphans c.toSettings.slotCount :=
    fun j => Crew.leavesNoOrphans_start c.slotCount_ne_zero j _
  exact ⟨fun d path => hany _, fun d project => hany _, hany⟩

/-- A folder with a file that is no source and another that is empty. -/
def halfBrokenDisk : Disk where
  root := .folder [("A.java", .file [35]), ("B.java", .file [])]
  here := []

/-- Someone is to analyse that folder, and nobody gives up when others fail. -/
def patientCrew : Crew Note Failure Finding :=
  crewFor { cancelOnFailure := false }
    (packageJob halfBrokenDisk { cancelOnFailure := false } (.ofText "."))

/-- The first file has failed, and then the join of the source files. Before the first worker has
heard of that, it is told to give up, and does so. -/
def patientCrewCalledOff : Crew Note Failure Finding :=
  ((patientCrew.run [[], [], [0], [0, 0], [0, 0], [0, 0], [0, 1], [0]]).callOff []).run [[]]

/-- The analysis of the second file goes on, and nobody tells it, or a join above it that has not
ended, to give up. -/
theorem not_isToldToGiveUp_patientCrewCalledOff :
    Crew.Reachable patientCrew patientCrewCalledOff ∧
    patientCrewCalledOff.root.outcome? = some .cancelled ∧
    patientCrewCalledOff.root.isCalledOff = true ∧
    (∃ w, patientCrewCalledOff.root.at? [0, 1] = some w ∧ w.outcome? = none) ∧
    ¬ patientCrewCalledOff.IsToldToGiveUp [0, 1] := by
  have hroot : patientCrewCalledOff.root.stage = .ended .cancelled := by cbv
  have hjoin : (patientCrewCalledOff.root.at? [0]).map Worker.isCalledOff = some false := by cbv
  have hfile : (patientCrewCalledOff.root.at? [0, 1]).map
      (fun w => (w.stage, w.isCalledOff)) = some (.operating, false) := by cbv
  refine ⟨((Crew.Reachable.refl.run _).callOff []).run _, ?_, by cbv, ?_, ?_⟩
  · rw [Worker.outcome?, hroot]
  · obtain ⟨w, hw, hstage⟩ := Option.map_eq_some_iff.mp hfile
    refine ⟨w, hw, ?_⟩
    rw [Worker.outcome?, (Prod.mk.inj hstage).1]
  · rintro ⟨b, w, hstart, hb, hoff, hplace⟩
    have hpath : b = [] ∨ ∃ t, b = 0 :: t ∧ (t = [] ∨ t = [1]) := by
      simpa [List.prefix_cons_iff] using hstart
    obtain rfl | ⟨_, rfl, rfl | rfl⟩ := hpath
    · obtain rfl := Option.some.inj hb
      rw [hroot] at hplace
      simp at hplace
    · rw [hb, Option.map_some, hoff] at hjoin
      cases hjoin
    · rw [hb, Option.map_some, hoff] at hfile
      simp at hfile

end TypeAtlas
