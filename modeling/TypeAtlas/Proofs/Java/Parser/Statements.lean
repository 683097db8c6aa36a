import TypeAtlas.Java.Parser.Statements
import TypeAtlas.Proofs.Java.Parser.Expressions

namespace TypeAtlas.Java.Parser

open TypeAtlas.Java.Tree

variable {tokens : List Token} {g : Grammar} {n : Nat}

theorem takes_blockStatement (h : g.Serves tokens n) :
    Takes tokens n (blockStatement g) (IsReadable (IsName tokens)) := by
  have hstatement := h.readable .statement
  refine (reads_see _).bindTakes fun isLabelled _ => ?_
  refine (reads_see _).bindTakes fun isLock _ => ?_
  split
  · exact hstatement
  · refine reads_get.bindTakes fun c _ => ?_
    cases statementForm false c.rest with
    | declaration => exact h.readable .typeDeclaration
    | localVariables => exact takes_localVariables h
    | statement => exact hstatement
    | variablesOrStatement =>
      exact (tries_attempt (takes_localVariables h)).bindTakes (fun _ _ _ ht => .pure ht) hstatement

theorem takes_block (h : g.ServesBelow tokens n) :
    Takes tokens n (block g) (IsReadable (IsName tokens)) := by
  refine .pass fun m hm => ?_
  refine (reads_untilM (reads_see _) (takes_blockStatement (h m hm))).bind fun ts hts => ?_
  exact .pass (.pure (isReadable_list_iff.mpr hts))

theorem takes_handlers (h : g.ServesBelow tokens n) :
    Takes tokens n (handlers g) fun ts => ∀ t ∈ ts, IsReadable (IsName tokens) t := by
  refine (takes_manyWith (reads_see _) ?_).imp fun _ hts => hts.2
  refine .pass fun m hm => ?_
  have h := h m hm
  refine .pass ?_
  refine (reads_variableModifiers (h.readable .annotationUse)).discard.bind fun _ _ => ?_
  refine (takes_manyWith (reads_accept _) takes_qualifiedName).discard.reads.bind fun _ _ => ?_
  refine takes_identifier.discard.reads.bind fun _ _ => ?_
  exact .pass (h.readable .block).reads

theorem takes_resource (h : g.Serves tokens n) :
    Takes tokens n (resource g) (IsReadable (IsName tokens)) := by
  refine (reads_variableModifiers (h.readable .annotationUse)).bindTakes fun notes hnotes => ?_
  refine (h .referenceType).bind fun m hm t ht => ?_
  have h := h.mono (Nat.le_of_lt hm)
  refine reads_brackets.bind fun dims _ => ?_
  refine takes_identifier.reads.bind fun name _ => ?_
  refine reads_brackets.bind fun more _ => ?_
  refine .pass ?_
  refine (h.readable .expression).reads.bind fun value hvalue => .pure ?_
  have htype := IsType.addBrackets ht (dims + more)
  rw [isReadable_node_iff]
  exact ⟨htype, by simpa [htype.isReadable, hvalue] using hnotes⟩

theorem takes_resources (h : g.ServesBelow tokens n) :
    Takes tokens n (resources g) fun ts => ∀ t ∈ ts, IsReadable (IsName tokens) t := by
  refine .pass fun m hm => ?_
  have hitem : Takes tokens m (do
      let r ← resource g
      unless ← see [")"] do discard <| expect ";"
      return r) (IsReadable (IsName tokens)) := by
    refine (takes_resource (h m hm)).bind fun _ _ r hr => ?_
    exact .ite (reads_see _) (.pure hr) (.pass (.pure hr))
  refine hitem.reads.bind fun first hfirst => ?_
  refine (reads_untilM (reads_accept _) hitem).bind fun rest hrest => .pure ?_
  simpa using ⟨hfirst, hrest⟩

theorem reads_tryRest (h : g.Serves tokens n) :
    Reads tokens n (tryRest g) (IsReadable (IsName tokens)) := by
  refine (reads_see _).bind fun isPlain _ => ?_
  refine .condBind (.pure (by simp)) (takes_resources h.below).reads fun opened hopened => ?_
  refine (h.readable .block).reads.bind fun body hbody => ?_
  refine (reads_see _).bind fun hasHandlers _ => ?_
  refine .condBind (takes_handlers h.below).reads (.pure (by simp)) fun caught hcaught => ?_
  refine (reads_accept _).bind fun hasEnd _ => ?_
  refine .condBind (h.readable .block).reads (.pure (by simp)) fun atEnd hatEnd => ?_
  have hdone : Reads tokens n (pure (.node .tryStatement
      [(.resources, .list opened), (.block, .list [body, .list caught, atEnd])]))
      (IsReadable (IsName tokens)) :=
    .pure (by simpa [hbody, hatEnd] using ⟨hopened, hcaught⟩)
  split
  · exact (takes_refuse _ fun _ => True).reads.bind fun _ _ => hdone
  · exact hdone

theorem reads_seeCase : Reads tokens n seeCase fun _ => True :=
  reads_seeAnyOf _

theorem takes_caseLabel (h : g.ServesBelow tokens n) :
    Takes tokens n (caseLabel g) (IsReadable (IsName tokens)) := by
  refine takes_next.bind fun m hm t _ => ?_
  have hrest (label : Tree) (hlabel : IsReadable (IsName tokens) label) :
      Reads tokens m (do discard <| expect ":"; return label) (IsReadable (IsName tokens)) :=
    .pass (.pure hlabel)
  have hnothing : Reads tokens m (pure (.row [])) (IsReadable (IsName tokens)) := .pure (by simp)
  split
  · refine .ite (reads_see _) ?_ (((h m hm).readable .expression).reads.bind hrest)
    exact takes_identifier.discard.reads.bind fun _ _ => hnothing.bind hrest
  · exact hnothing.bind hrest

theorem takes_caseGroup (h : g.Serves tokens n) :
    Takes tokens n (caseGroup g) (IsReadable (IsName tokens)) := by
  refine (takes_manyWith reads_seeCase (takes_caseLabel h.below)).bind fun m hm labels hlabels => ?_
  have hstatement := takes_blockStatement (h.mono (Nat.le_of_lt hm))
  refine (reads_untilM (reads_seeAnyOf _) hstatement).bind fun ts hts => .pure ?_
  refine isReadable_list_iff.mpr fun t ht => ?_
  obtain ht | ht := List.mem_append.mp ht
  · exact hlabels.2 t ht
  · exact hts t ht

theorem reads_unlessSee (s : String) {p : Parser Tree}
    (h : Reads tokens n p (IsReadable (IsName tokens))) :
    Reads tokens n (unlessSee s p) (IsReadable (IsName tokens)) :=
  .ite (reads_see _) (.pure (by simp)) h

theorem takes_expressionList (h : g.Serves tokens n) :
    Takes tokens n (expressionList g) (IsReadable (IsName tokens)) :=
  (takes_commaList (h.readable .expression)).bind fun _ _ _ hts =>
    .pure (isReadable_list_iff.mpr hts)

theorem takes_loopRest (h : g.ServesBelow tokens n) :
    Takes tokens n (loopRest g) (IsReadable (IsName tokens)) := by
  refine .pass fun m hm => ?_
  have h := h m hm
  refine (reads_unlessSee _ (h.readable .expression).reads).bind fun condition hcondition => ?_
  refine .pass ?_
  exact (reads_unlessSee _ (takes_expressionList h).reads).bind fun steps hsteps =>
    .pure (by simp [hcondition, hsteps])

theorem takes_loopVariables (h : g.Serves tokens n) :
    Takes tokens n (loopVariables g) (IsReadable (IsName tokens)) := by
  refine (reads_variableModifiers (h.readable .annotationUse)).bindTakes fun notes hnotes => ?_
  refine (takes_type h).bind fun m hm t ht => ?_
  have h := h.mono (Nat.le_of_lt hm)
  refine takes_identifier.reads.bind fun name _ => ?_
  refine reads_brackets.bind fun dims _ => ?_
  have hvariables {ds : List Tree} (hds : ∀ d ∈ ds, IsDeclarator (IsName tokens) d) :=
    isReadable_variables (k := .loopVariables) (by simp [Kind.isVariables]) hnotes
      (ht.addBrackets dims) hds
  have hplain : ∀ d ∈ [declarator name 0 .absent], IsDeclarator (IsName tokens) d := by
    simpa using isDeclarator_declarator name 0 isReadable_absent
  refine .ite (reads_accept _) ?_ ?_
  · refine (h.readable .expression).reads.bind fun row hrow => .pure ?_
    simp [-isReadable_node_iff, hvariables hplain, hrow]
  · have hrest (ds : List Tree) (hds : ∀ d ∈ ds, IsDeclarator (IsName tokens) d) :
        Reads tokens m (do
          return .row [.node .loopVariables [(.annotations, .list notes), (.type, t.addBrackets dims),
            (.declarators, .list ds)], ← loopRest g]) (IsReadable (IsName tokens)) :=
      (takes_loopRest h.below).reads.bind fun rest hrest => .pure (by
        simp [-isReadable_node_iff, hvariables hds, hrest])
    refine .ite (reads_see _) (hrest _ hplain) ?_
    refine (reads_optionalValue h).bind fun value hvalue => ?_
    refine (reads_moreDeclarators h).bind fun more hmore => hrest _ ?_
    simpa using ⟨isDeclarator_declarator name 0 hvalue, hmore⟩

theorem takes_loopHead (h : g.Serves tokens n) :
    Takes tokens n (loopHead g) (IsReadable (IsName tokens)) := by
  refine (tries_attempt (takes_loopVariables h)).bindTakes (fun _ _ _ ht => .pure ht) ?_
  refine (reads_unlessSee _ (takes_expressionList h).reads).bindTakes fun start hstart => ?_
  exact (takes_loopRest h.below).bind fun _ _ rest hrest => .pure (by simp [hstart, hrest])

theorem takes_jumpRest : Takes tokens n jumpRest (IsReadable (IsName tokens)) :=
  .optionally (reads_see _) takes_identifier.discard.reads
    (.pass fun _ _ => .pure (by simp))

/-- A statement starts with what is inside it when it is a block or an expression. -/
theorem takes_statement (h : g.ServesBelow tokens n)
    (hblock : Takes tokens n (g .block) (IsReadable (IsName tokens)))
    (hexpression : Takes tokens n (g .expression) (IsReadable (IsName tokens))) :
    Takes tokens n (statement g) (IsReadable (IsName tokens)) := by
  have hbelow {m : Nat} (hm : m < n) : g.ServesBelow tokens m := h.mono (Nat.le_of_lt hm)
  -- The kinds of statements in the order in which they are tried: all but blocks and expressions
  -- start with a token of their own, and what follows it has fewer left.
  refine .ite (reads_see _) hblock ?_
  refine .ifAccept (fun _ _ => .pure (by simp)) ?_
  refine .ite (reads_see _) ?_ ?_
  · refine takes_identifier.discard.bind fun m hm _ _ => ?_
    exact .pass ((h m hm).readable .statement).reads
  refine .ifAccept (fun m hm => ?_) ?_
  · refine (takes_parenthesized (hbelow hm)).reads.bind fun condition hcondition => ?_
    refine ((h m hm).readable .statement).reads.bind fun yes hyes => ?_
    refine .ite (reads_accept _) ?_ (.pure (by simp [hcondition, hyes]))
    exact ((h m hm).readable .statement).reads.bind fun no hno =>
      .pure (by simp [hcondition, hyes, hno])
  refine .ifAccept (fun m hm => ?_) ?_
  · refine ((h m hm).readable .expression).reads.bind fun condition hcondition => ?_
    refine .iteBind (reads_accept _) ((h m hm).readable .expression).reads (.pure (by simp))
      fun message hmessage => ?_
    exact .pass (.pure (by simp [hcondition, hmessage]))
  refine .ifAccept (fun m hm => ?_) ?_
  · refine (takes_parenthesized (hbelow hm)).reads.bind fun subject hsubject => ?_
    refine .pass ?_
    refine (reads_whileM reads_seeCase (takes_caseGroup (h m hm))).bind fun groups hgroups => ?_
    exact .pass (.pure (by simpa [hsubject] using hgroups))
  refine .ifAccept (fun m hm => ?_) ?_
  · refine (takes_parenthesized (hbelow hm)).reads.bind fun condition hcondition => ?_
    exact ((h m hm).readable .statement).reads.bind fun body hbody =>
      .pure (by simp [hcondition, hbody])
  refine .ifAccept (fun m hm => ?_) ?_
  · refine ((h m hm).readable .statement).reads.bind fun body hbody => ?_
    refine .pass ?_
    refine (takes_parenthesized (hbelow hm)).reads.bind fun condition hcondition => ?_
    exact .pass (.pure (by simp [hcondition, hbody]))
  refine .ifAccept (fun m hm => ?_) ?_
  · refine .pass ?_
    refine (takes_loopHead (h m hm)).reads.bind fun head hhead => ?_
    refine .pass ?_
    exact ((h m hm).readable .statement).reads.bind fun body hbody => .pure (by simp [hhead, hbody])
  refine .ifAccept (fun m hm => takes_jumpRest.reads) ?_
  refine .ifAccept (fun m hm => takes_jumpRest.reads) ?_
  refine .ifAccept (fun m hm => ?_) ?_
  · refine (reads_unlessSee _ ((h m hm).readable .expression).reads).bind fun value hvalue => ?_
    exact .pass (.pure hvalue)
  refine .ifAccept (fun m hm => ?_) ?_
  · refine ((h m hm).readable .expression).reads.bind fun value hvalue => ?_
    exact .pass (.pure hvalue)
  refine .ifAccept (fun m hm => ?_) ?_
  · refine (takes_parenthesized (hbelow hm)).reads.bind fun lock hlock => ?_
    exact ((h m hm).readable .block).reads.bind fun body hbody => .pure (by simp [hlock, hbody])
  refine .ifAccept (fun m hm => reads_tryRest (h m hm)) ?_
  refine hexpression.bind fun m _ e he => ?_
  exact .pass (.pure he)

end TypeAtlas.Java.Parser
