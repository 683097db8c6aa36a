import TypeAtlas.Proofs.Java.Readable

namespace TypeAtlas.Java

/-- How the marks may change while a parse goes on from `rest`: only the innermost, which can come to
be a place farther on. -/
inductive MarksMove (rest : List Token) : List (List Token) → List (List Token) → Prop
  | same {marks : List (List Token)} : MarksMove rest marks marks
  | moved {m m' : List Token} {marks : List (List Token)} :
      m' <:+ rest → MarksMove rest (m :: marks) (m' :: marks)

/-- A parse never goes back, and falls back at most to where it started. -/
structure Cursor.GoesTo (c c' : Cursor) : Prop where
  rest : c'.rest <:+ c.rest
  marks : MarksMove c.rest c.marks c'.marks

theorem MarksMove.trans {rest rest' : List Token} {ms ms' ms'' : List (List Token)}
    (h : MarksMove rest ms ms') (hrest : rest' <:+ rest) (h' : MarksMove rest' ms' ms'') :
    MarksMove rest ms ms'' := by
  cases h' with
  | same => exact h
  | moved hm =>
    cases h with
    | same => exact .moved (hm.trans hrest)
    | moved _ => exact .moved (hm.trans hrest)

namespace Cursor

theorem GoesTo.refl (c : Cursor) : c.GoesTo c :=
  ⟨List.suffix_rfl, .same⟩

theorem GoesTo.trans {c c' c'' : Cursor} (h : c.GoesTo c') (h' : c'.GoesTo c'') : c.GoesTo c'' :=
  ⟨h'.rest.trans h.rest, h.marks.trans h.rest h'.marks⟩

theorem GoesTo.length_le {c c' : Cursor} (h : c.GoesTo c') : c'.rest.length ≤ c.rest.length :=
  h.rest.length_le

/-- The marks are left as they are while tokens are read. -/
theorem goesTo_of_suffix {c : Cursor} {rest : List Token} (h : rest <:+ c.rest) :
    c.GoesTo { c with rest } :=
  ⟨h, .same⟩

end Cursor

namespace Parser

variable {α β : Type} {tokens : List Token} {n m : Nat}

/-- `Runs tokens n p Q` says that `p`, at a place in `tokens` with at most `n` of them left, goes on
to a place and a value as `Q` has it, or stops with a fault that lies in the tokens: the bound on the
nesting depth is not to blame. -/
def Runs (tokens : List Token) (n : Nat) (p : Parser α) (Q : Cursor → α → Cursor → Prop) : Prop :=
  ∀ c : Cursor, c.rest <:+ tokens → c.rest.length ≤ n →
    (∃ a c', p c = .ok a c' ∧ c.GoesTo c' ∧ Q c a c') ∨
      ∃ e c', p c = .error e c' ∧ c.GoesTo c' ∧ e ≠ .tooDeep

/-- The value has the property `P`. -/
def Reads (tokens : List Token) (n : Nat) (p : Parser α) (P : α → Prop) : Prop :=
  Runs tokens n p fun _ a _ => P a

/-- The value has the property `P`, and at least one token is read. -/
def Takes (tokens : List Token) (n : Nat) (p : Parser α) (P : α → Prop) : Prop :=
  Runs tokens n p fun c a c' => c'.rest.length < c.rest.length ∧ P a

/-- There is no value, or it has the property `P` and at least one token is read. -/
def Tries (tokens : List Token) (n : Nat) (p : Parser (Option α)) (P : α → Prop) : Prop :=
  Runs tokens n p fun c found c' => ∀ a ∈ found, c'.rest.length < c.rest.length ∧ P a

/-- All values have the property `P`, and if there is to be another round at least one token is
read. -/
def Rounds (tokens : List Token) (n : Nat) (p : Parser (List α × Bool)) (P : α → Prop) : Prop :=
  Runs tokens n p fun c found c' =>
    (found.2 = true → c'.rest.length < c.rest.length) ∧ ∀ a ∈ found.1, P a

theorem Runs.mono {p : Parser α} {Q : Cursor → α → Cursor → Prop} (h : Runs tokens n p Q)
    (hm : m ≤ n) : Runs tokens m p Q :=
  fun c hc hlen => h c hc (Nat.le_trans hlen hm)

theorem Runs.imp {p : Parser α} {Q R : Cursor → α → Cursor → Prop} (h : Runs tokens n p Q)
    (himp : ∀ c a c', Q c a c' → R c a c') : Runs tokens n p R := by
  intro c hc hlen
  obtain ⟨a, c', hp, hgoes, hQ⟩ | hfault := h c hc hlen
  · exact .inl ⟨a, c', hp, hgoes, himp c a c' hQ⟩
  · exact .inr hfault

theorem Runs.pure {Q : Cursor → α → Cursor → Prop} {a : α} (h : ∀ c, Q c a c) :
    Runs tokens n (pure a) Q :=
  fun c _ _ => .inl ⟨a, c, rfl, .refl c, h c⟩

theorem bind_of_ok {p : Parser α} {f : α → Parser β} {c c' : Cursor} {a : α}
    (h : p c = .ok a c') : (p >>= f) c = f a c' := by
  change EStateM.bind p f c = f a c'
  rw [EStateM.bind, h]

theorem bind_of_error {p : Parser α} {f : α → Parser β} {c c' : Cursor} {e : ParseFault}
    (h : p c = .error e c') : (p >>= f) c = .error e c' := by
  change EStateM.bind p f c = .error e c'
  rw [EStateM.bind, h]

/-- What comes after a step runs with the tokens that the step has left. -/
theorem Runs.bind {p : Parser α} {f : α → Parser β} {S : Cursor → α → Cursor → Prop}
    {T : α → Cursor → β → Cursor → Prop} {Q : Cursor → β → Cursor → Prop} (hp : Runs tokens n p S)
    (hf : ∀ c a c', c.rest.length ≤ n → c.GoesTo c' → S c a c' →
      Runs tokens c'.rest.length (f a) (T a))
    (hQ : ∀ c a c' b c'', c.GoesTo c' → c'.GoesTo c'' → S c a c' → T a c' b c'' → Q c b c'') :
    Runs tokens n (p >>= f) Q := by
  intro c hc hlen
  obtain ⟨a, c', hok, hgoes, hS⟩ | ⟨e, c', herror, hgoes, he⟩ := hp c hc hlen
  · rw [bind_of_ok hok]
    obtain ⟨b, c'', hok', hgoes', hT⟩ | ⟨e, c'', herror, hgoes', he⟩ :=
      hf c a c' hlen hgoes hS c' (hgoes.rest.trans hc) (Nat.le_refl _)
    · exact .inl ⟨b, c'', hok', hgoes.trans hgoes', hQ c a c' b c'' hgoes hgoes' hS hT⟩
    · exact .inr ⟨e, c'', herror, hgoes.trans hgoes', he⟩
  · exact .inr ⟨e, c', bind_of_error herror, hgoes, he⟩

theorem Takes.reads {p : Parser α} {P : α → Prop} (h : Takes tokens n p P) : Reads tokens n p P :=
  Runs.imp h fun _ _ _ hQ => hQ.2

theorem Takes.mono {p : Parser α} {P : α → Prop} (h : Takes tokens n p P) (hm : m ≤ n) :
    Takes tokens m p P :=
  Runs.mono h hm

theorem Reads.mono {p : Parser α} {P : α → Prop} (h : Reads tokens n p P) (hm : m ≤ n) :
    Reads tokens m p P :=
  Runs.mono h hm

theorem Takes.imp {p : Parser α} {P Q : α → Prop} (h : Takes tokens n p P)
    (himp : ∀ a, P a → Q a) : Takes tokens n p Q :=
  Runs.imp h fun _ a _ hP => ⟨hP.1, himp a hP.2⟩

theorem Reads.imp {p : Parser α} {P Q : α → Prop} (h : Reads tokens n p P)
    (himp : ∀ a, P a → Q a) : Reads tokens n p Q :=
  Runs.imp h fun _ a _ hP => himp a hP

theorem Reads.pure {P : α → Prop} {a : α} (h : P a) : Reads tokens n (pure a) P :=
  Runs.pure fun _ => h

theorem Reads.bind {p : Parser α} {f : α → Parser β} {P : α → Prop} {Q : β → Prop}
    (hp : Reads tokens n p P) (hf : ∀ a, P a → Reads tokens n (f a) Q) :
    Reads tokens n (p >>= f) Q :=
  Runs.bind hp (fun _ a _ hlen hgoes hP => (hf a hP).mono (Nat.le_trans hgoes.length_le hlen))
    fun _ _ _ _ _ _ _ _ hQ => hQ

/-- A token is taken by a sequence if the second step takes one. -/
theorem Reads.bindTakes {p : Parser α} {f : α → Parser β} {P : α → Prop} {Q : β → Prop}
    (hp : Reads tokens n p P) (hf : ∀ a, P a → Takes tokens n (f a) Q) :
    Takes tokens n (p >>= f) Q :=
  Runs.bind hp (fun _ a _ hlen hgoes hP => (hf a hP).mono (Nat.le_trans hgoes.length_le hlen))
    fun _ _ _ _ _ hgoes _ _ hQ => ⟨Nat.lt_of_lt_of_le hQ.1 hgoes.length_le, hQ.2⟩

/-- A token is taken by a sequence if the first step takes one, and there are fewer for the rest. -/
theorem Takes.bind {p : Parser α} {f : α → Parser β} {P : α → Prop} {Q : β → Prop}
    (hp : Takes tokens n p P) (hf : ∀ m < n, ∀ a, P a → Reads tokens m (f a) Q) :
    Takes tokens n (p >>= f) Q :=
  Runs.bind hp (fun _ a _ hlen _ hP => hf _ (Nat.lt_of_lt_of_le hP.1 hlen) a hP.2)
    fun _ _ _ _ _ _ hgoes hP hQ => ⟨Nat.lt_of_le_of_lt hgoes.length_le hP.1, hQ⟩

/-- After a try that fails something else may take a token. -/
theorem Tries.bindTakes {p : Parser (Option α)} {f : Option α → Parser β} {P : α → Prop}
    {Q : β → Prop} (hp : Tries tokens n p P)
    (hsome : ∀ m < n, ∀ a, P a → Reads tokens m (f (some a)) Q)
    (hnone : Takes tokens n (f none) Q) : Takes tokens n (p >>= f) Q := by
  refine Runs.bind hp (T := fun found c b c' =>
    (found = none → c'.rest.length < c.rest.length) ∧ Q b) (fun c found c' hlen hgoes hP => ?_) ?_
  · cases found with
    | none =>
      exact Runs.imp (hnone.mono (Nat.le_trans hgoes.length_le hlen)) fun _ _ _ hQ => ⟨fun _ => hQ.1, hQ.2⟩
    | some a =>
      have hlt := (hP a rfl).1
      exact Runs.imp (hsome _ (Nat.lt_of_lt_of_le hlt hlen) a (hP a rfl).2) fun _ _ _ hQ =>
        ⟨nofun, hQ⟩
  · intro c found c' b c'' hgoes hgoes' hP hQ
    refine ⟨?_, hQ.2⟩
    cases found with
    | none => exact Nat.lt_of_lt_of_le (hQ.1 rfl) hgoes.length_le
    | some a => exact Nat.lt_of_le_of_lt hgoes'.length_le (hP a rfl).1

theorem Reads.discard {p : Parser α} {P : α → Prop} (h : Reads tokens n p P) :
    Reads tokens n (discard p) fun _ => True :=
  Reads.bind h fun _ _ => .pure trivial

theorem Takes.discard {p : Parser α} {P : α → Prop} (h : Takes tokens n p P) :
    Takes tokens n (discard p) fun _ => True :=
  Takes.bind h fun _ _ _ _ => .pure trivial

section Choices

variable {b : Parser Bool} {B : Bool → Prop} {p q : Parser α} {P : α → Prop}

/-- The test of a choice may read tokens. -/
theorem Runs.ite {Q : Cursor → α → Cursor → Prop} (hb : Reads tokens n b B) (hp : Runs tokens n p Q)
    (hq : Runs tokens n q Q)
    (hQ : ∀ c c' a c'', c'.rest.length ≤ c.rest.length → Q c' a c'' → Q c a c'') :
    Runs tokens n (b >>= fun x => if x = true then p else q) Q := by
  refine Runs.bind hb (T := fun _ => Q) (fun c x c' hlen hgoes _ => ?_)
    fun c x c' a c'' hgoes _ _ => hQ c c' a c'' hgoes.length_le
  have hle := Nat.le_trans hgoes.length_le hlen
  cases x
  · exact hq.mono hle
  · exact hp.mono hle

theorem Reads.ite (hb : Reads tokens n b B) (hp : Reads tokens n p P) (hq : Reads tokens n q P) :
    Reads tokens n (b >>= fun x => if x = true then p else q) P :=
  Runs.ite hb hp hq fun _ _ _ _ _ hP => hP

theorem Takes.ite (hb : Reads tokens n b B) (hp : Takes tokens n p P) (hq : Takes tokens n q P) :
    Takes tokens n (b >>= fun x => if x = true then p else q) P :=
  Runs.ite hb hp hq fun _ _ _ _ hle hP => ⟨Nat.lt_of_lt_of_le hP.1 hle, hP.2⟩

theorem Tries.ite {p q : Parser (Option α)} (hb : Reads tokens n b B) (hp : Tries tokens n p P)
    (hq : Tries tokens n q P) : Tries tokens n (b >>= fun x => if x = true then p else q) P :=
  Runs.ite hb hp hq fun _ _ _ _ hle hP a ha => ⟨Nat.lt_of_lt_of_le (hP a ha).1 hle, (hP a ha).2⟩

theorem Rounds.ite {p q : Parser (List α × Bool)} (hb : Reads tokens n b B)
    (hp : Rounds tokens n p P) (hq : Rounds tokens n q P) :
    Rounds tokens n (b >>= fun x => if x = true then p else q) P :=
  Runs.ite hb hp hq fun _ _ _ _ hle hP => ⟨fun h => Nat.lt_of_lt_of_le (hP.1 h) hle, hP.2⟩

/-- A choice that is already made, between two steps with the same continuation. -/
theorem Reads.condBind {x : Bool} {k : α → Parser β} {Q : β → Prop} (hp : Reads tokens n p P)
    (hq : Reads tokens n q P) (hk : ∀ a, P a → Reads tokens n (k a) Q) :
    Reads tokens n (if x = true then p >>= k else q >>= k) Q := by
  cases x
  · exact hq.bind hk
  · exact hp.bind hk

/-- The choice between two steps with the same continuation. -/
theorem Reads.iteBind {k : α → Parser β} {Q : β → Prop} (hb : Reads tokens n b B)
    (hp : Reads tokens n p P) (hq : Reads tokens n q P)
    (hk : ∀ a, P a → Reads tokens n (k a) Q) :
    Reads tokens n (b >>= fun x => if x = true then p >>= k else q >>= k) Q :=
  hb.bind fun _ _ => .condBind hp hq hk

theorem Takes.iteBind {k : α → Parser β} {Q : β → Prop} (hb : Reads tokens n b B)
    (hp : Reads tokens n p P) (hq : Reads tokens n q P)
    (hk : ∀ a, P a → Takes tokens n (k a) Q) :
    Takes tokens n (b >>= fun x => if x = true then p >>= k else q >>= k) Q :=
  .ite hb (hp.bindTakes hk) (hq.bindTakes hk)

/-- A step that may be left out. -/
theorem Reads.optionally {u : Parser Unit} {k : Unit → Parser β} {U : Unit → Prop} {Q : β → Prop}
    (hb : Reads tokens n b B) (hu : Reads tokens n u U) (hk : Reads tokens n (k ()) Q) :
    Reads tokens n (b >>= fun x => if x = true then u >>= k else k ()) Q :=
  .ite hb (hu.bind fun _ _ => hk) hk

theorem Takes.optionally {u : Parser Unit} {k : Unit → Parser β} {U : Unit → Prop} {Q : β → Prop}
    (hb : Reads tokens n b B) (hu : Reads tokens n u U) (hk : Takes tokens n (k ()) Q) :
    Takes tokens n (b >>= fun x => if x = true then u >>= k else k ()) Q :=
  .ite hb (hu.bindTakes fun _ _ => hk) hk

end Choices

theorem Runs.of_peek {p : Parser α} {Q : Cursor → α → Cursor → Prop}
    (h : ∀ c, ∃ a, p c = .ok a c ∧ Q c a c) : Runs tokens n p Q := by
  intro c _ _
  obtain ⟨a, hp, hQ⟩ := h c
  exact .inl ⟨a, c, hp, .refl c, hQ⟩

theorem reads_get : Reads tokens n get fun _ => True :=
  Runs.of_peek fun c => ⟨c, rfl, trivial⟩

theorem reads_look (k : Nat) : Reads tokens n (look k) fun _ => True :=
  Runs.of_peek fun _ => ⟨_, rfl, trivial⟩

theorem reads_see (ws : List Want) : Reads tokens n (see ws) fun _ => True :=
  Runs.of_peek fun _ => ⟨_, rfl, trivial⟩

theorem reads_seeKind (k : TokenKind) : Reads tokens n (seeKind k) fun _ => True :=
  Runs.of_peek fun _ => ⟨_, rfl, trivial⟩

theorem reads_atEnd : Reads tokens n atEnd fun _ => True :=
  Runs.of_peek fun _ => ⟨_, rfl, trivial⟩

theorem reads_seeAnyOf (texts : List String) : Reads tokens n (seeAnyOf texts) fun _ => True :=
  Runs.of_peek fun _ => ⟨_, rfl, trivial⟩

theorem reads_seeAnnotationUse (k : Nat) : Reads tokens n (seeAnnotationUse k) fun _ => True :=
  Runs.of_peek fun _ => ⟨_, rfl, trivial⟩

theorem takes_throw {e : ParseFault} (he : e ≠ .tooDeep) (P : α → Prop) :
    Takes tokens n (throw e) P :=
  fun c _ _ => .inr ⟨e, c, rfl, .refl c, he⟩

theorem takes_refuse (message : String) (P : α → Prop) : Takes tokens n (refuse message) P :=
  (reads_look 0).bindTakes fun _ _ => takes_throw (by simp) P

theorem takes_next : Takes tokens n next fun t => t ∈ tokens := by
  intro c hc _
  obtain ⟨rest, marks⟩ := c
  cases rest with
  | nil => exact .inr ⟨.endOfTokens, _, rfl, .refl _, by simp⟩
  | cons t rest =>
    have ht : t ∈ tokens := hc.subset List.mem_cons_self
    refine .inl ⟨t, ⟨rest, marks⟩, rfl, ⟨List.suffix_cons t rest, .same⟩, ?_, ht⟩
    simp

/-- A token whose kind has been seen is read next. -/
theorem Takes.ifSeeKind {k : TokenKind} {f : Token → Parser α} {q : Parser α} {P : α → Prop}
    (hf : ∀ m < n, ∀ t ∈ tokens, t.kind = k → Reads tokens m (f t) P) (hq : Takes tokens n q P) :
    Takes tokens n (seeKind k >>= fun x => if x = true then next >>= f else q) P := by
  intro c hc hlen
  have hsee : seeKind k c = .ok (c.rest[0]?.any (·.kind == k)) c := rfl
  rw [bind_of_ok hsee]
  cases hany : c.rest[0]?.any (·.kind == k) with
  | false => exact hq c hc hlen
  | true =>
    obtain ⟨rest, marks⟩ := c
    cases rest with
    | nil => simp at hany
    | cons t rest =>
      have hkind : t.kind = k := by simpa using hany
      have ht : t ∈ tokens := hc.subset List.mem_cons_self
      have hnext : next ⟨t :: rest, marks⟩ = .ok t ⟨rest, marks⟩ := rfl
      have hgoes : Cursor.GoesTo ⟨t :: rest, marks⟩ ⟨rest, marks⟩ :=
        Cursor.goesTo_of_suffix (List.suffix_cons t rest)
      have hlt : rest.length < n := by
        rw [List.length_cons] at hlen
        omega
      change (∃ a c', (next >>= f) ⟨t :: rest, marks⟩ = .ok a c' ∧ _) ∨
        ∃ e c', (next >>= f) ⟨t :: rest, marks⟩ = .error e c' ∧ _
      rw [bind_of_ok hnext]
      obtain ⟨a, c', hok, hgoes', ha⟩ | ⟨e, c', herror, hgoes', he⟩ :=
        hf rest.length hlt t ht hkind ⟨rest, marks⟩ (hgoes.rest.trans hc) (Nat.le_refl _)
      · refine .inl ⟨a, c', hok, hgoes.trans hgoes', ?_, ha⟩
        rw [List.length_cons]
        exact Nat.lt_succ_of_le hgoes'.length_le
      · exact .inr ⟨e, c', herror, hgoes.trans hgoes', he⟩

theorem takes_expect (w : Want) :
    Takes tokens n (expect w) fun t => t ∈ tokens ∧ w.matches (some t) = true := by
  refine takes_next.bind fun m _ t ht => ?_
  cases hw : w.matches (some t) with
  | true => exact .pure ⟨ht, hw⟩
  | false => exact (takes_refuse _ _).reads

section Due

variable {w : Want} {k : PUnit → Parser β} {Q : β → Prop}

/-- A token that is due is passed over. -/
theorem Reads.pass (h : Reads tokens n (k ⟨⟩) Q) :
    Reads tokens n (Functor.discard (expect w) >>= k) Q :=
  (takes_expect w).discard.reads.bind fun _ _ => h

theorem Takes.pass (h : ∀ m < n, Reads tokens m (k ⟨⟩) Q) :
    Takes tokens n (Functor.discard (expect w) >>= k) Q :=
  (takes_expect w).discard.bind fun m hm _ _ => h m hm

end Due

/-- A name of a kind is the text of a token of that kind. -/
def IsName (tokens : List Token) (k : TokenKind) (name : Text) : Prop :=
  ∃ t ∈ tokens, t.kind = k ∧ name = t.text

theorem takes_identifier :
    Takes tokens n identifier fun name => IsName tokens .identifier name := by
  refine (takes_expect .identifier).bind fun m _ t ht => .pure ⟨t, ht.1, ?_, rfl⟩
  simpa [Want.matches] using ht.2

theorem accept_eq (ws : List Want) (c : Cursor) :
    accept ws c =
      if ws.zipIdx.all (fun (w, k) => w.matches c.rest[k]?) = true then
        .ok true { c with rest := c.rest.drop ws.length }
      else .ok false c := by
  have hsee : see ws c = .ok (ws.zipIdx.all fun (w, k) => w.matches c.rest[k]?) c := rfl
  rw [accept, bind_of_ok hsee]
  cases ws.zipIdx.all fun (w, k) => w.matches c.rest[k]? <;> rfl

theorem Want.not_matches_none (w : Want) : w.matches none = false := by
  cases w <;> rfl

/-- What is accepted has been read, and nothing else. -/
theorem runs_accept (w : Want) (ws : List Want) :
    Runs tokens n (accept (w :: ws)) fun c found c' =>
      (found = true → c'.rest.length < c.rest.length) ∧ (found = false → c' = c) := by
  intro c _ _
  rw [accept_eq]
  split
  · rename_i hsee
    refine .inl ⟨true, _, rfl, Cursor.goesTo_of_suffix (List.drop_suffix _ _), fun _ => ?_, nofun⟩
    obtain ⟨rest, marks⟩ := c
    cases rest with
    | nil => simp [List.zipIdx_cons, Want.not_matches_none] at hsee
    | cons t rest =>
      simp only [List.length_drop, List.length_cons]
      omega
  · exact .inl ⟨false, c, rfl, .refl c, nofun, fun _ => rfl⟩

theorem reads_accept (ws : List Want) : Reads tokens n (accept ws) fun _ => True := by
  intro c _ _
  rw [accept_eq]
  split
  · exact .inl ⟨true, _, rfl, Cursor.goesTo_of_suffix (List.drop_suffix _ _), trivial⟩
  · exact .inl ⟨false, c, rfl, .refl c, trivial⟩

/-- After what is accepted there are fewer tokens. -/
theorem Runs.ifAccept {w : Want} {ws : List Want} {p q : Parser α}
    {S Q : Cursor → α → Cursor → Prop} (hp : ∀ m < n, Runs tokens m p S) (hq : Runs tokens n q Q)
    (hQ : ∀ c c' a c'', c'.rest.length < c.rest.length → c'.GoesTo c'' → S c' a c'' → Q c a c'') :
    Runs tokens n (accept (w :: ws) >>= fun x => if x = true then p else q) Q := by
  refine Runs.bind (runs_accept w ws) (T := fun found c a c' =>
    (found = true → S c a c') ∧ (found = false → Q c a c')) (fun c found c' hlen hgoes hfound => ?_) ?_
  · cases found with
    | true =>
      have hlt := Nat.lt_of_lt_of_le (hfound.1 rfl) hlen
      exact (hp _ hlt).imp fun _ _ _ hS => ⟨fun _ => hS, nofun⟩
    | false =>
      have hle := Nat.le_trans hgoes.length_le hlen
      exact (hq.mono hle).imp fun _ _ _ hQ => ⟨nofun, fun _ => hQ⟩
  · intro c found c' a c'' _ hgoes hfound ha
    cases found with
    | true => exact hQ c c' a c'' (hfound.1 rfl) hgoes (ha.1 rfl)
    | false => exact hfound.2 rfl ▸ ha.2 rfl

theorem Takes.ifAccept {w : Want} {ws : List Want} {p q : Parser α} {P : α → Prop}
    (hp : ∀ m < n, Reads tokens m p P) (hq : Takes tokens n q P) :
    Takes tokens n (accept (w :: ws) >>= fun x => if x = true then p else q) P :=
  Runs.ifAccept hp hq fun _ _ _ _ hlt hgoes hP => ⟨Nat.lt_of_le_of_lt hgoes.length_le hlt, hP⟩

theorem Tries.ifAccept {w : Want} {ws : List Want} {p q : Parser (Option α)} {P : α → Prop}
    (hp : ∀ m < n, Reads tokens m p fun found => ∀ a ∈ found, P a) (hq : Tries tokens n q P) :
    Tries tokens n (accept (w :: ws) >>= fun x => if x = true then p else q) P :=
  Runs.ifAccept hp hq fun _ _ _ _ hlt hgoes hP a ha =>
    ⟨Nat.lt_of_le_of_lt hgoes.length_le hlt, hP a ha⟩

section Loops

variable {p : Parser (List α × Bool)} {P : α → Prop}

/-- The tokens left at the start are enough rounds: each but the last reads one. -/
theorem reads_whileMore_go {Q : List α → Prop}
    (hp : Runs tokens n p fun c found c' =>
      (found.2 = true → c'.rest.length < c.rest.length) ∧ Q found.1)
    (happend : ∀ xs ys, Q xs → Q ys → Q (xs ++ ys)) (fuel : List Token) (hm : m ≤ n)
    (hfuel : m ≤ fuel.length) : Reads tokens m (whileMore.go p fuel) Q := by
  induction fuel generalizing m with
  | nil =>
    intro c hc hlen
    rw [whileMore.go]
    obtain ⟨⟨found, more⟩, c', hok, hgoes, hmore, hfound⟩ | ⟨e, c', herror, hgoes, he⟩ :=
      hp c hc (Nat.le_trans hlen hm)
    · cases more with
      | false => exact .inl ⟨found, c', bind_of_ok hok, hgoes, hfound⟩
      | true =>
        have hlt := hmore rfl
        rw [List.length_nil] at hfuel
        omega
    · exact .inr ⟨e, c', bind_of_error herror, hgoes, he⟩
  | cons t fuel ih =>
    refine Runs.bind (hp.mono hm) (T := fun _ _ found _ => Q found)
      (fun c found c' hlen hgoes hfound => ?_) fun _ _ _ _ _ _ _ _ h => h
    obtain ⟨found, more⟩ := found
    obtain ⟨hmore, hfound⟩ := hfound
    cases more with
    | false => exact Reads.pure hfound
    | true =>
      have hlt := Nat.lt_of_lt_of_le (hmore rfl) hlen
      rw [List.length_cons] at hfuel
      have hrest := ih (m := c'.rest.length) (by omega) (by omega)
      exact hrest.bind fun others hothers => .pure (happend found others hfound hothers)

theorem reads_whileMore (hp : Rounds tokens n p P) :
    Reads tokens n (whileMore p) fun found => ∀ a ∈ found, P a := by
  intro c hc hlen
  refine reads_whileMore_go (Q := fun found => ∀ a ∈ found, P a) hp
    (fun xs ys hxs hys a ha => ?_) c.rest hlen (Nat.le_refl _) c hc (Nat.le_refl _)
  obtain ha | ha := List.mem_append.mp ha
  · exact hxs a ha
  · exact hys a ha

/-- There is something if the first round gives something. -/
theorem reads_whileMore_of_ne_nil
    (hp : Takes tokens n p fun found => found.1 ≠ [] ∧ ∀ a ∈ found.1, P a) :
    Reads tokens n (whileMore p) fun found => found ≠ [] ∧ ∀ a ∈ found, P a := by
  intro c hc hlen
  refine reads_whileMore_go (Runs.imp hp fun _ _ _ h => ⟨fun _ => h.1, h.2⟩)
    (fun xs ys hxs hys => ⟨?_, fun a ha => ?_⟩) c.rest hlen (Nat.le_refl _) c hc (Nat.le_refl _)
  · simp [hxs.1]
  · obtain ha | ha := List.mem_append.mp ha
    · exact hxs.2 a ha
    · exact hys.2 a ha

theorem Takes.rounds (hp : Takes tokens n p fun found => ∀ a ∈ found.1, P a) :
    Rounds tokens n p P :=
  Runs.imp hp fun _ _ _ h => ⟨fun _ => h.1, h.2⟩

theorem reads_untilNone {p : Parser (Option α)} (hp : Tries tokens n p P) :
    Reads tokens n (untilNone p) fun found => ∀ a ∈ found, P a := by
  refine reads_whileMore (Runs.bind hp (T := fun found c more c' =>
    (more.2 = true → found.isSome = true) ∧ ∀ a ∈ more.1, a ∈ found)
    (fun c found c' hlen hgoes hfound => ?_) ?_)
  · cases found with
    | none => exact Runs.pure fun c => ⟨nofun, nofun⟩
    | some a => exact Runs.pure fun c => ⟨fun _ => rfl, by simp⟩
  · intro c found c' more c'' hgoes hgoes' hfound hmore
    refine ⟨fun h => ?_, fun a ha => (hfound a (hmore.2 a ha)).2⟩
    obtain ⟨a, rfl⟩ := Option.isSome_iff_exists.mp (hmore.1 h)
    exact Nat.lt_of_le_of_lt hgoes'.length_le (hfound a rfl).1

section Tests

variable {b : Parser Bool} {B : Bool → Prop} {p : Parser α}

theorem tries_none : Tries tokens n (pure none) P :=
  Runs.pure fun _ => nofun

theorem Takes.tries {p : Parser (Option α)} (hp : Takes tokens n p fun found => ∀ a ∈ found, P a) :
    Tries tokens n p P :=
  Runs.imp hp fun _ _ _ h a ha => ⟨h.1, h.2 a ha⟩

theorem reads_whileM (hb : Reads tokens n b B) (hp : Takes tokens n p P) :
    Reads tokens n (whileM b p) fun found => ∀ a ∈ found, P a :=
  reads_untilNone (Tries.ite hb (hp.bind fun _ _ a ha => .pure (by simpa using ha)).tries
    tries_none)

/-- What follows the tokens that are accepted need not take any. -/
theorem reads_whileM_accept {w : Want} {ws : List Want} (hp : Reads tokens n p P) :
    Reads tokens n (whileM (accept (w :: ws)) p) fun found => ∀ a ∈ found, P a := by
  refine reads_untilNone (.ifAccept (fun m hm => ?_) tries_none)
  exact (hp.mono (Nat.le_of_lt hm)).bind fun a ha => .pure (by simpa using ha)

theorem reads_not (hb : Reads tokens n b B) : Reads tokens n (not <$> b) fun _ => True :=
  hb.bind fun _ _ => .pure trivial

theorem reads_untilM (hb : Reads tokens n b B) (hp : Takes tokens n p P) :
    Reads tokens n (untilM b p) fun found => ∀ a ∈ found, P a :=
  reads_whileM (reads_not hb) hp

/-- There is at least one of many. -/
theorem takes_manyWith (hb : Reads tokens n b B) (hp : Takes tokens n p P) :
    Takes tokens n (manyWith b p) fun found => found ≠ [] ∧ ∀ a ∈ found, P a := by
  refine hp.bind fun m hm a ha => ?_
  have hle := Nat.le_of_lt hm
  refine (reads_whileM (hb.mono hle) (hp.mono hle)).bind fun rest hrest => .pure ?_
  simpa using ⟨ha, hrest⟩

theorem takes_commaList (hp : Takes tokens n p P) :
    Takes tokens n (commaList p) fun found => ∀ a ∈ found, P a :=
  (takes_manyWith (reads_accept _) hp).imp fun _ h => h.2

end Tests

end Loops

/-- On the way from a mark, that mark stays on top or is moved on, and those below it stay. -/
theorem exists_mark_of_goesTo {c c' : Cursor} {marks : List (List Token)}
    (h : Cursor.GoesTo { c with marks := c.rest :: marks } c') :
    ∃ m, m <:+ c.rest ∧ c'.marks = m :: marks := by
  obtain ⟨rest', marks'⟩ := c'
  obtain ⟨_, hmarks⟩ := h
  cases hmarks with
  | same => exact ⟨c.rest, List.suffix_rfl, rfl⟩
  | moved hm => exact ⟨_, hm, rfl⟩

theorem goesTo_keep {c c' : Cursor} {m : List Token} (hrest : c'.rest <:+ c.rest)
    (hm : m <:+ c.rest) (hmarks : c'.marks = m :: c.marks) :
    ∃ marks, keep c' = .ok () { c' with marks } ∧ c.GoesTo { c' with marks } := by
  obtain ⟨rest, marks⟩ := c
  obtain ⟨rest', _⟩ := c'
  subst hmarks
  cases marks with
  | nil => exact ⟨[], rfl, hrest, .same⟩
  | cons below marks => exact ⟨m :: marks, rfl, hrest, .moved hm⟩

theorem rewind_eq {c : Cursor} {m : List Token} {marks : List (List Token)}
    (hmarks : c.marks = m :: marks) : rewind c = .ok () { rest := m, marks } := by
  obtain ⟨rest, _⟩ := c
  subst hmarks
  rfl

/-- A try that fails goes back to where it started, or to where one inside it did that has helped. -/
theorem tries_attempt {p : Parser α} {P : α → Prop} (hp : Takes tokens n p P) :
    Tries tokens n (attempt p) P := by
  intro c hc hlen
  have hpush : (pushMark *> p) c = p { c with marks := c.rest :: c.marks } := rfl
  obtain ⟨a, c', hok, hgoes, hlt, ha⟩ | ⟨e, c', herror, hgoes, he⟩ :=
    hp { c with marks := c.rest :: c.marks } hc hlen
  · obtain ⟨m, hm, hmarks⟩ := exists_mark_of_goesTo hgoes
    obtain ⟨marks, hkeep, hkept⟩ := goesTo_keep (c := c) hgoes.rest hm hmarks
    refine .inl ⟨some a, { c' with marks }, ?_, hkept, fun b hb => ?_⟩
    · rw [attempt, hpush, hok]
      exact bind_of_ok hkeep
    · obtain rfl := Option.some.inj hb
      exact ⟨hlt, ha⟩
  · obtain ⟨m, hm, hmarks⟩ := exists_mark_of_goesTo hgoes
    have hback : c.GoesTo { rest := m, marks := c.marks } := ⟨hm, .same⟩
    have hrewind := rewind_eq hmarks
    cases e with
    | unexpected message place =>
      refine .inl ⟨none, _, ?_, hback, nofun⟩
      rw [attempt, hpush, herror]
      exact bind_of_ok hrewind
    | endOfTokens =>
      refine .inr ⟨.endOfTokens, _, ?_, hback, he⟩
      rw [attempt, hpush, herror]
      exact bind_of_ok hrewind
    | openOperand =>
      refine .inr ⟨.openOperand, _, ?_, hback, he⟩
      rw [attempt, hpush, herror]
      exact bind_of_ok hrewind
    | tooDeep => exact absurd rfl he

end Parser

/-- What a phrase is read as: a type, or a tree from which all can be read that is asked for. -/
def Phrase.Yields (tokens : List Token) : Phrase → Tree → Prop
  | .referenceType => Tree.IsType (Parser.IsName tokens)
  | _ => Tree.IsReadable (Parser.IsName tokens)

/-- A grammar has parsers that work with at most `n` tokens left. -/
def Grammar.Serves (tokens : List Token) (g : Grammar) (n : Nat) : Prop :=
  ∀ phrase, Parser.Takes tokens n (g phrase) (phrase.Yields tokens)

theorem Grammar.Serves.mono {tokens : List Token} {g : Grammar} {m n : Nat} (h : g.Serves tokens n)
    (hm : m ≤ n) : g.Serves tokens m :=
  fun phrase => (h phrase).mono hm

/-- A type is readable like any other tree. -/
theorem Grammar.Serves.readable {tokens : List Token} {g : Grammar} {n : Nat}
    (h : g.Serves tokens n) (phrase : Phrase) :
    Parser.Takes tokens n (g phrase) (Tree.IsReadable (Parser.IsName tokens)) := by
  have hserves := h phrase
  cases phrase with
  | referenceType => exact hserves.imp fun _ => Tree.IsType.isReadable
  | annotationUse | elementValue | variableValue | expression | conditional | operand | block
  | statement | typeDeclaration | classBody | enumBody | interfaceBody | annotationBody =>
    exact hserves

/-- A grammar has parsers that work with less than `n` tokens left. -/
def Grammar.ServesBelow (tokens : List Token) (g : Grammar) (n : Nat) : Prop :=
  ∀ m < n, g.Serves tokens m

theorem Grammar.Serves.below {tokens : List Token} {g : Grammar} {n : Nat}
    (h : g.Serves tokens n) : g.ServesBelow tokens n :=
  fun _ hm => h.mono (Nat.le_of_lt hm)

theorem Grammar.ServesBelow.mono {tokens : List Token} {g : Grammar} {m n : Nat}
    (h : g.ServesBelow tokens n) (hm : m ≤ n) : g.ServesBelow tokens m :=
  fun k hk => h k (Nat.lt_of_lt_of_le hk hm)

end TypeAtlas.Java
