import TypeAtlas.Java.Parser.Expressions
import TypeAtlas.Proofs.Java.Parser.Variables

namespace TypeAtlas.Java.Parser

open TypeAtlas.Java.Tree

variable {tokens : List Token} {g : Grammar} {n : Nat}

theorem takes_arguments (h : g.ServesBelow tokens n) :
    Takes tokens n (arguments g) (IsReadable (IsName tokens)) := by
  refine .pass fun m hm => ?_
  refine .ite (reads_accept _) (.pure (by simp)) ?_
  refine (takes_commaList ((h m hm).readable .expression)).reads.bind fun row hrow => ?_
  exact .pass (.pure (isReadable_list_iff.mpr hrow))

theorem reads_ifSee (ws : List Want) {p : Parser Tree}
    (h : Reads tokens n p (IsReadable (IsName tokens))) :
    Reads tokens n (ifSee ws p) (IsReadable (IsName tokens)) :=
  .ite (reads_see _) h (.pure (by simp))

theorem takes_parenthesized (h : g.ServesBelow tokens n) :
    Takes tokens n (parenthesized g) (IsReadable (IsName tokens)) := by
  refine .pass fun m hm => ?_
  refine ((h m hm).readable .expression).reads.bind fun e he => ?_
  exact .pass (.pure he)

theorem takes_lambdaBody (h : g.ServesBelow tokens n) :
    Takes tokens n (lambdaBody g) (IsReadable (IsName tokens)) := by
  refine .pass fun m hm => ?_
  exact .ite (reads_see _) ((h m hm).readable .block).reads ((h m hm).readable .expression).reads

theorem takes_lambda (h : g.ServesBelow tokens n) :
    Takes tokens n (lambda g) (IsReadable (IsName tokens)) := by
  have hrest (parameters : List Tree) (hparameters : ∀ p ∈ parameters, IsReadable (IsName tokens) p) :
      Takes tokens n
        (do return .node .lambda [(.parameters, .list parameters), (.body, ← lambdaBody g)])
        (IsReadable (IsName tokens)) :=
    (takes_lambdaBody h).bind fun _ _ body hbody => .pure (by simpa [hbody] using hparameters)
  refine (reads_see _).bindTakes fun isNamed _ => ?_
  cases isNamed with
  | true =>
    refine (takes_expect _).discard.reads.bindTakes fun _ _ => ?_
    have hname : Takes tokens n (do discard identifier; accept [","]) fun _ => True :=
      takes_identifier.discard.bind fun _ _ _ _ => reads_accept _
    refine (reads_untilM (reads_see _) hname).discard.bindTakes fun _ _ => ?_
    exact (takes_expect _).discard.reads.bindTakes fun _ _ => hrest [] (by simp)
  | false =>
    exact (takes_formalParameters h).reads.bindTakes fun ps hps => hrest ps fun p hp => (hps p hp).1

theorem takes_cast (h : g.ServesBelow tokens n) :
    Takes tokens n (cast g) (IsReadable (IsName tokens)) := by
  refine .pass fun m hm => ?_
  refine (takes_type (h m hm)).discard.reads.bind fun _ _ => ?_
  refine .pass ?_
  exact ((h m hm).readable .operand).reads.bind fun e he => .pure (by simpa using he)

theorem takes_superRest (h : g.ServesBelow tokens n) :
    Takes tokens n (superRest g) (IsReadable (IsName tokens)) := by
  refine .ifAccept (fun m hm => ?_) (takes_arguments h)
  have h := h.mono (Nat.le_of_lt hm)
  refine .optionally (reads_see _) (takes_plainTypeArguments h).reads ?_
  refine takes_identifier.discard.reads.bind fun _ _ => ?_
  exact reads_ifSee _ (takes_arguments h).reads

theorem takes_genericCall (h : g.ServesBelow tokens n) :
    Takes tokens n (genericCall g) (IsReadable (IsName tokens)) := by
  refine .ifAccept (fun m hm => (takes_superRest (h.mono (Nat.le_of_lt hm))).reads) ?_
  exact takes_identifier.discard.reads.bindTakes fun _ _ => takes_arguments h

theorem takes_creatorRest (h : g.ServesBelow tokens n) :
    Takes tokens n (creatorRest g) (IsReadable (IsName tokens)) := by
  refine (takes_arguments h).bind fun m hm row hrow => ?_
  have hbody := (h m hm).readable .classBody
  exact .iteBind (reads_see _) hbody.reads (.pure (by simp)) fun body hbody =>
    .pure (by simp [hrow, hbody])

theorem takes_innerCreator (h : g.ServesBelow tokens n) :
    Takes tokens n (innerCreator g) (IsReadable (IsName tokens)) := by
  refine .optionally (reads_see _) (takes_plainTypeArguments h).reads ?_
  refine takes_identifier.discard.reads.bindTakes fun _ _ => ?_
  exact .optionally (reads_see _) (takes_plainTypeArgumentsOrDiamond h).reads (takes_creatorRest h)

theorem reads_arrayRest (h : g.ServesBelow tokens n) :
    Reads tokens n (arrayRest g) (IsReadable (IsName tokens)) := by
  refine .ite (reads_see _) (reads_brackets.discard.bind fun _ _ => (takes_arrayValue h).reads) ?_
  have hsized : Reads tokens n (do return (← see ["["]) && !(← see ["[", "]"])) fun _ => True :=
    (reads_see _).bind fun _ _ => (reads_see _).bind fun _ _ => .pure trivial
  have hsize : Takes tokens n (do
      discard <| expect "["
      let size ← g .expression
      discard <| expect "]"
      return size) (IsReadable (IsName tokens)) := by
    refine .pass fun m hm => ?_
    refine ((h m hm).readable .expression).reads.bind fun size hsize => ?_
    exact .pass (.pure hsize)
  refine (reads_whileM hsized hsize).bind fun sizes hsizes => ?_
  exact reads_brackets.discard.bind fun _ _ => .pure (isReadable_list_iff.mpr hsizes)

theorem takes_createdName (h : g.ServesBelow tokens n) :
    Takes tokens n (createdName g) fun _ => True := by
  have hlink : Takes tokens n (do
      discard identifier
      if ← see ["<"] then typeArgumentsOrDiamond g) fun _ => True := by
    refine takes_identifier.discard.bind fun m hm _ _ => ?_
    have h := h.mono (Nat.le_of_lt hm)
    exact .ite (reads_see _) (takes_typeArgumentsOrDiamond h).reads (.pure trivial)
  exact (takes_manyWith (reads_accept _) hlink).discard

theorem takes_creator (h : g.ServesBelow tokens n) :
    Takes tokens n (creator g) (IsReadable (IsName tokens)) := by
  refine .ite (reads_seeKind _) ?_ ?_
  · exact takes_next.discard.bind fun m hm _ _ => reads_arrayRest (h.mono (Nat.le_of_lt hm))
  · refine (reads_see _).bindTakes fun isGeneric _ => ?_
    have hrest : Takes tokens n (do
        createdName g
        if ← see ["["] then
          if isGeneric then
            refuse "Array creator not allowed with generic constructor type arguments"
          arrayRest g
        else creatorRest g) (IsReadable (IsName tokens)) := by
      refine (takes_createdName h).bind fun m hm _ _ => ?_
      have h := h.mono (Nat.le_of_lt hm)
      refine .ite (reads_see _) ?_ (takes_creatorRest h).reads
      cases isGeneric with
      | true => exact (takes_refuse _ fun _ => True).reads.bind fun _ _ => reads_arrayRest h
      | false => exact reads_arrayRest h
    cases isGeneric with
    | true => exact (takes_plainTypeArguments h).reads.bindTakes fun _ _ => hrest
    | false => exact hrest

theorem reads_nameRest (h : g.ServesBelow tokens n) :
    Reads tokens n (nameRest g) (IsReadable (IsName tokens)) := by
  have hnothing {m : Nat} : Reads tokens m (pure (.row [])) (IsReadable (IsName tokens)) :=
    .pure (by simp)
  refine .ite (reads_accept _) ?_ ?_
  · refine reads_brackets.discard.bind fun _ _ => ?_
    refine .pass ?_
    exact .pass hnothing
  refine .ite (reads_see _) (takes_arguments h).reads ?_
  refine .ite (reads_accept _) hnothing ?_
  refine .ite (reads_accept _) hnothing ?_
  refine .ite (reads_see _) ?_ ?_
  · refine takes_next.discard.reads.bind fun _ _ => ?_
    exact (takes_plainTypeArguments h).reads.bind fun _ _ => (takes_genericCall h).reads
  refine .ite (reads_accept _) (takes_innerCreator h).reads ?_
  refine .ite (reads_see _) ?_ hnothing
  refine .pass ?_
  exact .pass (takes_arguments h).reads

theorem takes_classLiteralEnd :
    Takes tokens n classLiteralEnd (IsReadable (IsName tokens)) :=
  .pass fun _ _ => .pass (.pure (by simp))

theorem takes_bare (h : g.ServesBelow tokens n) :
    Takes tokens n (bare g) (IsReadable (IsName tokens)) := by
  have hbelow {m : Nat} (hm : m < n) : g.ServesBelow tokens m := h.mono (Nat.le_of_lt hm)
  have hnext : Takes tokens n (do discard next; return .row []) (IsReadable (IsName tokens)) :=
    takes_next.discard.bind fun _ _ _ _ => .pure (by simp)
  refine .ite (reads_seeKind _) hnext ?_
  refine .ifAccept (fun m hm => reads_ifSee _ (takes_arguments (hbelow hm)).reads) ?_
  refine .ite (reads_see _) hnext ?_
  refine .ifAccept (fun m hm => (takes_superRest (hbelow hm)).reads) ?_
  refine .ifAccept (fun m hm => (takes_creator (hbelow hm)).reads) ?_
  refine .ite (reads_see _) ?_ ?_
  · refine (takes_plainTypeArguments h).bind fun m hm _ _ => ?_
    exact .ite (reads_accept _) (takes_arguments (hbelow hm)).reads
      (takes_genericCall (hbelow hm)).reads
  refine .ite (reads_seeKind _) ?_ ?_
  · refine takes_identifier.discard.bind fun m hm _ _ => ?_
    have hname : Takes tokens m (do discard next; identifier) fun name =>
        IsName tokens .identifier name :=
      takes_next.discard.reads.bindTakes fun _ _ => takes_identifier
    exact (reads_whileM (reads_see _) hname).discard.bind fun _ _ => reads_nameRest (hbelow hm)
  refine .ite (reads_seeKind _) ?_ ?_
  · refine takes_next.discard.bind fun m hm _ _ => ?_
    exact reads_brackets.discard.bind fun _ _ => takes_classLiteralEnd.reads
  exact .ifAccept (fun m hm => takes_classLiteralEnd.reads) (takes_refuse _ _)

theorem takes_primary (h : g.ServesBelow tokens n) :
    Takes tokens n (primary g) (IsReadable (IsName tokens)) :=
  .ite (reads_see _) (takes_parenthesized h)
    ((takes_bare h).bind fun _ _ own hown => .pure (by simpa [Tree.primary] using hown))

theorem takes_selector (h : g.ServesBelow tokens n) :
    Takes tokens n (selector g) (IsReadable (IsName tokens)) := by
  have hnothing {m : Nat} : Reads tokens m (pure (.row [])) (IsReadable (IsName tokens)) :=
    .pure (by simp)
  refine .ifAccept (fun m hm => ?_) (.ifAccept (fun m hm => ?_) (takes_refuse _ _))
  · refine ((h m hm).readable .expression).reads.bind fun index hindex => ?_
    exact .pass (.pure hindex)
  have h := h.mono (Nat.le_of_lt hm)
  refine .ite (reads_seeKind _) ?_ ?_
  · exact takes_next.discard.reads.bind fun _ _ => reads_ifSee _ (takes_arguments h).reads
  refine .ite (reads_see _) (takes_next.discard.reads.bind fun _ _ => hnothing) ?_
  refine .ite (reads_see _) ?_ ?_
  · exact (takes_plainTypeArguments h).reads.bind fun _ _ => (takes_genericCall h).reads
  refine .ite (reads_accept _) hnothing ?_
  refine .ite (reads_accept _) (takes_superRest h).reads ?_
  exact .ite (reads_accept _) (takes_innerCreator h).reads (takes_refuse _ _).reads

theorem reads_seeSelector : Reads tokens n seeSelector fun _ => True :=
  .ite reads_atEnd ((takes_throw (by simp) _).reads.bind fun _ (_ : True) => reads_seeAnyOf _)
    (reads_seeAnyOf _)

/-- What is read off an expression does not change with selectors after it. -/
theorem isReadable_select {N : TokenKind → Text → Prop} {selectors : List Tree} {t : Tree} (ht : IsReadable N t)
    (hselectors : ∀ s ∈ selectors, IsReadable N s) : IsReadable N (t.select selectors) := by
  unfold Tree.select
  split
  · rename_i parts
    obtain ⟨_, hparts⟩ := isReadable_node_iff.mp ht
    refine isReadable_node_iff.mpr ⟨trivial, fun entry hentry => ?_⟩
    obtain ⟨⟨p, v⟩, hold, rfl⟩ := List.mem_map.mp hentry
    split
    · exact isReadable_list_iff.mpr hselectors
    · exact hparts _ hold
  · exact ht

theorem takes_selected (h : g.ServesBelow tokens n) :
    Takes tokens n (selected g) (IsReadable (IsName tokens)) := by
  refine (takes_primary h).bind fun m hm first hfirst => ?_
  have h := h.mono (Nat.le_of_lt hm)
  refine (reads_whileM reads_seeSelector (takes_selector h)).bind fun selectors hselectors => ?_
  refine (reads_whileM (reads_seeAnyOf _) takes_next).discard.bind fun _ _ => .pure ?_
  exact isReadable_select hfirst hselectors

theorem takes_operand (h : g.ServesBelow tokens n) :
    Takes tokens n (operand g) (IsReadable (IsName tokens)) := by
  refine (reads_whileM (reads_seeAnyOf _) takes_next).discard.bindTakes fun _ _ => ?_
  refine .ite (reads_see _) ?_ (takes_selected h)
  refine (tries_attempt (takes_lambda h)).bindTakes (fun _ _ _ ht => .pure ht) ?_
  exact (tries_attempt (takes_cast h)).bindTakes (fun _ _ _ ht => .pure ht) (takes_selected h)

theorem takes_binaryOperator : Takes tokens n binaryOperator fun _ => True := by
  refine takes_next.bind fun _ _ t _ => ?_
  split
  · exact .ite (reads_accept _) (reads_accept _).discard (.pure trivial)
  · exact .pure trivial

theorem takes_binary (h : g.ServesBelow tokens n) :
    Takes tokens n (binary g) (IsReadable (IsName tokens)) := by
  refine (takes_operand h).bind fun m hm first hfirst => ?_
  have hnext : Takes tokens m (do
      if ← accept ["instanceof"] then
        discard <| type g
        return .row []
      else
        binaryOperator
        operand g) (IsReadable (IsName tokens)) := by
    refine .ifAccept (fun k hk => ?_) ?_
    · have h := (h m hm).mono (Nat.le_of_lt hk)
      exact (takes_type h).discard.reads.bind fun _ _ => .pure (by simp)
    · have h := h.mono (Nat.le_of_lt hm)
      exact takes_binaryOperator.reads.bindTakes fun _ _ => takes_operand h
  refine (reads_whileM (reads_seeAnyOf _) hnext).bind fun rest hrest => ?_
  split
  · exact .pure hfirst
  · exact .pure (by simpa using ⟨hfirst, hrest⟩)

theorem reads_methodReference (h : g.Serves tokens n) :
    Reads tokens n (methodReference g) (IsReadable (IsName tokens)) :=
  .optionally (reads_see _) (takes_plainTypeArguments h.below).reads
    (.ite (reads_accept _) (.pure (by simp)) (h.readable .expression).reads)

theorem takes_conditional (h : g.ServesBelow tokens n) :
    Takes tokens n (conditional g) (IsReadable (IsName tokens)) := by
  refine (takes_binary h).bind fun m hm e he => ?_
  have h := h m hm
  refine .ite (reads_accept _) ?_ ?_
  · refine (h.readable .expression).reads.bind fun yes hyes => ?_
    refine .pass ?_
    exact (h.readable .conditional).reads.bind fun no hno => .pure (by simp [he, hyes, hno])
  refine .ite (reads_see _) ?_ ?_
  · exact (takes_lambdaBody h.below).reads.bind fun body hbody => .pure (by simp [he, hbody])
  refine .ite (reads_accept _) ?_ (.pure he)
  exact (reads_methodReference h).bind fun member hmember => .pure (by simp [he, hmember])

theorem takes_expression (h : g.ServesBelow tokens n) :
    Takes tokens n (expression g) (IsReadable (IsName tokens)) := by
  refine (takes_conditional h).bind fun m hm e he => ?_
  refine .ite (reads_seeAnyOf _) ?_ (.pure he)
  refine takes_next.discard.reads.bind fun _ _ => ?_
  exact ((h m hm).readable .expression).reads.bind fun value hvalue => .pure (by simp [he, hvalue])

end TypeAtlas.Java.Parser
