import TypeAtlas.Proofs.Java.Exclusions

namespace TypeAtlas.Java

open TypeAtlas.Java.Parser TypeAtlas.Java.Tree

namespace Tree

variable {unit : Tree} {p : Text}

theorem declaredPackage_of_references {found : References} (h : unit.references p = .ok found) :
    unit.declaredPackage = .ok found.package := by
  simp only [references, bind_eq_ok_iff] at h
  obtain ⟨_, _, _, _, _, _, _, _, _, _, _, _, h⟩ := h
  split at h
  · cases h
  · obtain ⟨package, hpackage, h⟩ := bind_eq_ok_iff.mp h
    obtain rfl := pure_eq_ok_iff.mp h
    exact hpackage

/-- The name of a package is not empty where those of identifiers are not. -/
theorem IsUnit.word?_declaredPackage_ne {N : TokenKind → Text → Prop} (hN : IsProper N)
    (h : IsUnit N unit) {package : Tree} (hpackage : unit.declaredPackage = .ok package) :
    package.word? ≠ some [] := by
  obtain ⟨clause, imports, types, rfl, hclause, _, hreadable⟩ := h
  obtain rfl | ⟨parts, rfl⟩ := hclause
  · obtain rfl := Except.ok.inj hpackage
    simp [word?]
  · obtain rfl := Except.ok.inj hpackage
    have hnode := (isReadable_node_iff.mp hreadable).2 _ List.mem_cons_self
    obtain ⟨names, hne, hnames, hname⟩ := (isReadable_node_iff.mp hnode).1
    intro hempty
    have hword : some (Text.ofString (".".intercalate names)) = some [] := by
      rw [← hempty]
      exact congrArg word? hname.symm
    exact (isDeclared_path hN hne hnames).1 (Option.some.inj hword)

/-- A unit has the same names whatever the implicit prefix is, less the implied ones. -/
theorem dependencies_eq_filter {all deps : Dependencies} (hall : unit.dependencies [] = .ok all)
    (hdeps : unit.dependencies p = .ok deps) :
    deps = { declaredPackage := all.declaredPackage,
             names := all.names.filter fun n => !isImplied p n } := by
  have hnames : deps.names = all.names.filter fun n => !isImplied p n := by
    refine NameSet.ext fun n => ?_
    rw [NameSet.mem_filter, mem_names_iff_mentions hdeps, mem_names_iff_mentions hall,
      Bool.not_eq_true', and_comm]
    exact and_congr_left fun _ => (and_iff_right rfl).symm
  have hpackage : deps.declaredPackage = all.declaredPackage := by
    obtain ⟨found, hfound, heq⟩ := bind_eq_ok_iff.mp hdeps
    obtain ⟨found', hfound', heq'⟩ := bind_eq_ok_iff.mp hall
    obtain rfl := pure_eq_ok_iff.mp heq
    obtain rfl := pure_eq_ok_iff.mp heq'
    have hsame := (declaredPackage_of_references hfound).symm.trans
      (declaredPackage_of_references hfound')
    rw [Except.ok.inj hsame]
  cases deps
  cases all
  cases hnames
  cases hpackage
  rfl

end Tree

/-- What a text holds for every implicit prefix: it is refused for the same fault, or it has the same
package and the same names, less the implied ones. -/
theorem extract_prefix_cases (source : Text) :
    (∃ fault, ∀ p, extract p source = .error fault) ∨
      ∃ deps : Dependencies, deps.declaredPackage ≠ some [] ∧
        ∀ p, extract p source = .ok { deps with names := deps.names.filter (!isImplied p ·) } := by
  obtain ⟨tokens, unit, htokens, hunit, hparsed⟩ | ⟨fault, hfault, _⟩ := parse_cases source
  · have hN := isProper_isName (isWord_of_tokenize htokens)
    obtain ⟨all, hall⟩ := hparsed.exists_dependencies []
    refine .inr ⟨all, ?_, fun p => ?_⟩
    · obtain ⟨found, hfound, heq⟩ := bind_eq_ok_iff.mp hall
      obtain rfl := pure_eq_ok_iff.mp heq
      exact hparsed.word?_declaredPackage_ne hN (declaredPackage_of_references hfound)
    · obtain ⟨deps, hdeps⟩ := hparsed.exists_dependencies p
      rw [extract, hunit, ok_bind, hdeps, mapError_ok, dependencies_eq_filter hall hdeps]
  · exact .inl ⟨fault, fun p => by rw [extract, hfault, error_bind]⟩

end TypeAtlas.Java
