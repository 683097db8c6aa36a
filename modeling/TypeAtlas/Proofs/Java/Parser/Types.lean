import TypeAtlas.Java.Parser.Types
import TypeAtlas.Proofs.Java.Parser.Progress

namespace TypeAtlas.Java.Parser

open TypeAtlas.Java.Tree

variable {tokens : List Token} {g : Grammar} {n : Nat}

theorem reads_brackets : Reads tokens n brackets fun _ => True :=
  (reads_whileM_accept (P := fun _ => True) (.pure trivial)).bind fun _ _ => .pure trivial

theorem takes_qualifiedName :
    Takes tokens n qualifiedName fun name => IsPath (IsName tokens) (.word name) :=
  (takes_manyWith (reads_accept _) takes_identifier).bind fun _ _ names hnames =>
    .pure ⟨names, hnames.1, hnames.2, rfl⟩

/-- A basic type whose kind has been seen, and what is made of it. -/
theorem takes_ifBasicType {α : Type} {f : Tree → Parser α} {q : Parser α} {P : α → Prop}
    (hf : ∀ m < n, ∀ t, IsType (IsName tokens) t → Reads tokens m (f t) P)
    (hq : Takes tokens n q P) :
    Takes tokens n (seeKind .basicType >>= fun x => if x = true then basicType >>= f else q) P := by
  simp only [basicType, bind_assoc, pure_bind]
  exact .ifSeeKind (fun m hm t ht hkind => hf m hm _ (.basic (n := 0) ⟨t, ht, hkind, rfl⟩)) hq

theorem isType_referenceOfLinks {N : TokenKind → Text → Prop} {links : List (String × Tree)}
    (hne : links ≠ []) (h : ∀ link ∈ links, N .identifier link.1 ∧ AreArguments N link.2) :
    IsType N (referenceOfLinks links) := by
  induction links with
  | nil => exact absurd rfl hne
  | cons link links ih =>
    obtain ⟨hname, harguments⟩ := h link List.mem_cons_self
    cases links with
    | nil => exact .last (n := 0) hname harguments
    | cons other links =>
      have hinner := ih (by simp) fun l hl => h l (List.mem_cons_of_mem link hl)
      exact .link (n := 0) hname harguments hinner

/-- A type with brackets after it. -/
theorem reads_withBrackets {t : Tree} (h : IsType (IsName tokens) t) :
    Reads tokens n (do return t.addBrackets (← brackets)) (IsType (IsName tokens)) :=
  reads_brackets.bind fun k _ => .pure (h.addBrackets k)

theorem takes_boxedType (h : g.Serves tokens n) :
    Takes tokens n (boxedType g) (IsType (IsName tokens)) := by
  refine takes_ifBasicType (fun m _ t ht => ?_) ?_
  · refine .pass ?_
    refine .pass ?_
    exact reads_brackets.bind fun k _ => .pure (ht.addBrackets _)
  · exact (h .referenceType).bind fun m _ t ht => reads_withBrackets ht

theorem takes_typeArgument (h : g.Serves tokens n) :
    Takes tokens n (typeArgument g) (IsArgument (IsName tokens)) := by
  refine .ifAccept (fun m hm => ?_) ?_
  · refine .ite (reads_seeAnyOf _) ?_ (.pure .wildcard)
    refine takes_next.reads.bind fun t _ => ?_
    have hm := h.mono (Nat.le_of_lt hm)
    exact (takes_boxedType hm).reads.bind fun type htype => .pure (.bounded htype)
  · exact (takes_boxedType h).bind fun _ _ type htype => .pure (.plain htype)

theorem takes_angled {α : Type} {item : Parser α} {P : α → Prop}
    (h : ∀ m < n, Takes tokens m item P) :
    Takes tokens n (angled item) fun found => ∀ a ∈ found, P a := by
  refine .pass fun m hm => ?_
  refine (h m hm).reads.bind fun first hfirst => ?_
  have hnext : Takes tokens m (do discard <| expect ","; item) P :=
    (takes_expect _).discard.reads.bindTakes fun _ _ => h m hm
  refine (reads_untilM (reads_accept _) hnext).bind fun rest hrest => .pure ?_
  simpa using ⟨hfirst, hrest⟩

theorem takes_typeArguments (h : g.ServesBelow tokens n) :
    Takes tokens n (typeArguments g) (AreArguments (IsName tokens)) :=
  (takes_angled fun m hm => takes_typeArgument (h m hm)).bind fun _ _ _ harguments =>
    .pure (.some harguments)

theorem takes_typeLink (h : g.ServesBelow tokens n) :
    Takes tokens n (typeLink g) fun link =>
      IsName tokens .identifier link.1 ∧ AreArguments (IsName tokens) link.2 := by
  refine takes_identifier.bind fun m hm name hname => ?_
  refine .ite (reads_see _) ?_ (.pure ⟨hname, .none⟩)
  have harguments := takes_typeArguments (h.mono (Nat.le_of_lt hm))
  exact harguments.reads.bind fun arguments harguments => .pure ⟨hname, harguments⟩

theorem takes_referenceType (h : g.ServesBelow tokens n) :
    Takes tokens n (referenceType g) (IsType (IsName tokens)) :=
  (takes_manyWith (reads_accept _) (takes_typeLink h)).bind fun _ _ _ hlinks =>
    .pure (isType_referenceOfLinks hlinks.1 hlinks.2)

theorem takes_type (h : g.Serves tokens n) :
    Takes tokens n (type g) (IsType (IsName tokens)) := by
  let bracketed (t : Tree) : Parser Tree := do return t.addBrackets (← brackets)
  -- Whether a name is seen is asked in either case, but only counts where no basic type is.
  have htype : type g = seeKind .basicType >>= fun isBasic =>
      if isBasic = true then basicType >>= bracketed
      else seeKind .identifier >>= fun isNamed =>
        if isNamed = true then g .referenceType >>= bracketed
        else refuse "Expected type" >>= bracketed := by
    funext c
    have hsee (k : TokenKind) : seeKind k c = .ok (c.rest[0]?.any (·.kind == k)) c := rfl
    rw [type, bind_of_ok (hsee _), bind_of_ok (hsee _), bind_of_ok (hsee _)]
    cases c.rest[0]?.any (·.kind == .basicType) with
    | true => rfl
    | false => rw [if_neg Bool.false_ne_true, if_neg Bool.false_ne_true, bind_of_ok (hsee _)]
  rw [htype]
  refine takes_ifBasicType (fun m _ t ht => reads_withBrackets ht) (.ite (reads_seeKind _) ?_ ?_)
  · exact (h .referenceType).bind fun _ _ t ht => reads_withBrackets ht
  · exact (takes_refuse _ fun _ => False).bind fun _ _ _ hfalse => hfalse.elim

theorem takes_typeList (h : g.Serves tokens n) :
    Takes tokens n (typeList g) fun types => ∀ t ∈ types, IsType (IsName tokens) t :=
  takes_commaList (takes_boxedType h)

theorem takes_plainTypeArguments (h : g.ServesBelow tokens n) :
    Takes tokens n (plainTypeArguments g) fun _ => True := by
  refine .pass fun m hm => ?_
  refine (takes_typeList (h m hm)).discard.reads.bind fun _ _ => ?_
  exact (takes_expect _).discard.reads

theorem takes_typeArgumentsOrDiamond (h : g.ServesBelow tokens n) :
    Takes tokens n (typeArgumentsOrDiamond g) fun _ => True :=
  .ifAccept (fun _ _ => .pure trivial) (takes_typeArguments h).discard

theorem takes_plainTypeArgumentsOrDiamond (h : g.ServesBelow tokens n) :
    Takes tokens n (plainTypeArgumentsOrDiamond g) fun _ => True :=
  .ifAccept (fun _ _ => .pure trivial) (takes_plainTypeArguments h)

theorem takes_typeParameters (h : g.ServesBelow tokens n) :
    Takes tokens n (typeParameters g) fun _ => True := by
  refine (takes_angled (P := fun _ => True) fun m hm => ?_).discard
  refine takes_identifier.discard.bind fun k hk _ _ => ?_
  refine .ite (reads_accept _) ?_ (.pure trivial)
  have hbound := (h m hm).mono (Nat.le_of_lt hk) .referenceType
  exact (takes_manyWith (reads_accept _) hbound).discard.reads

end TypeAtlas.Java.Parser
