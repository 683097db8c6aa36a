import TypeAtlas.Analysis.Jobs
import TypeAtlas.Proofs.Crew.Progress

namespace TypeAtlas

open Concurrency

/-- The ceiling of a valid configuration leaves at least one slot. -/
theorem Config.slotCount_ne_zero (c : Config) : c.toSettings.slotCount ≠ some 0 := by
  intro hzero
  obtain ⟨n, hn, hcast⟩ := Option.map_eq_some_iff.mp hzero
  have hpos := c.isValid.1 n hn
  omega

/-- No analysis gets stuck, whatever the ceiling and whatever comes of its operations. -/
theorem isDeadlockFree_analyses (c : Config) :
    (∀ d path, (crewFor c.toSettings (packageJob d c.toSettings path)).IsDeadlockFree) ∧
    (∀ d project, (crewFor c.toSettings (entryPointJob d c.toSettings project)).IsDeadlockFree) ∧
    (∀ d project, (crewFor c.toSettings (projectJob d c.toSettings project)).IsDeadlockFree) ∧
    ∀ {α : Type} (j : Job Note Failure α), (crewFor c.toSettings j).IsDeadlockFree := by
  have hany : ∀ {α : Type} (j : Job Note Failure α), (crewFor c.toSettings j).IsDeadlockFree :=
    fun j => Crew.isDeadlockFree_start c.slotCount_ne_zero j _
  exact ⟨fun d path => hany _, fun d project => hany _, fun d project => hany _, hany⟩

end TypeAtlas
