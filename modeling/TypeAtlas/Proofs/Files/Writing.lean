import TypeAtlas.Proofs.Files.Placing

namespace TypeAtlas

namespace Disk

variable {d : Disk} {p : Path} {followsLast : Bool} {folder place : Place} {name : Text} {n : Node}
  {s t : Stage} {bytes : List UInt8}

/-- A walk that follows no link in the last place takes no step that another would not take. -/
theorem Step.following (h : d.Step false s t) : d.Step true s t := by
  cases h with
  | stay hplace hblank => exact .stay hplace hblank
  | up hplace => exact .up hplace
  | enter hplace hentry hfind hlink => exact .enter hplace hentry hfind hlink
  | follow hplace hentry hfind _ => exact .follow hplace hentry hfind (.inr rfl)

theorem Steps.following (h : d.Steps false s t) : d.Steps true s t :=
  Relation.ReflTransGen.mono (fun _ _ => Step.following) s t h

/-- Where there is no link in the last place it does not matter whether it would be followed. -/
theorem Ends.following {r : Except FileFault Spot} (h : d.Ends false s r)
    (hlink : ∀ place target, r ≠ .ok (.taken place (.link target))) : d.Ends true s r := by
  cases h with
  | arrived hplace => exact .arrived hplace
  | lost hnone => exact .lost hnone
  | blocked hplace hfolder => exact .blocked hplace hfolder
  | tooLong hplace hblank hdots hlong => exact .tooLong hplace hblank hdots hlong
  | vacant hplace hentry hfind => exact .vacant hplace hentry hfind
  | missing hplace hentry hfind hrest => exact .missing hplace hentry hfind hrest
  | atLink => exact absurd rfl (hlink _ _)
  | exhausted hplace hentry hfind _ => exact .exhausted hplace hentry hfind (.inr rfl)

theorem locate_following
    (hlink : ∀ place target, d.locate false p ≠ .ok (.taken place (.link target))) :
    d.locate true p = d.locate false p := by
  rw [locate_eq, locate_eq] at *
  cases hcheck : checkPath p with
  | error e => rfl
  | ok _ =>
    rw [hcheck] at hlink
    obtain ⟨t, hsteps, hends⟩ := d.exists_ends false (d.start p)
    exact hsteps.following.walkFrom_eq.trans (hends.following hlink).walkFrom_eq

theorem checkPath_of_locate {spot : Spot} (h : d.locate followsLast p = .ok spot) :
    checkPath p = .ok () := by
  rw [locate_eq] at h
  obtain ⟨_, hcheck, _⟩ := bind_eq_ok_iff.mp h
  exact hcheck

theorem exists_ends_of_locate {spot : Spot} (h : d.locate followsLast p = .ok spot) :
    ∃ t, d.Steps followsLast (d.start p) t ∧ d.Ends followsLast t (.ok spot) := by
  rw [locate_eq] at h
  obtain ⟨_, _, hwalk⟩ := bind_eq_ok_iff.mp h
  rw [← hwalk]
  exact d.exists_ends followsLast (d.start p)

theorem locate_of_steps {spot : Spot} (hcheck : checkPath p = .ok ())
    (hsteps : d.Steps followsLast (d.start p) t) (hends : d.Ends followsLast t (.ok spot)) :
    d.locate followsLast p = .ok spot := by
  rw [locate_eq, hcheck, ok_bind, hsteps.walkFrom_eq, hends.walkFrom_eq]

/-- What is above a folder is a folder. -/
theorem exists_entries_above {above : Place} {entries : List (Text × Node)}
    (h : d.root.at? place = some (.folder entries)) (habove : above <+: place) :
    ∃ es, d.root.at? above = some (.folder es) := by
  obtain ⟨below, rfl⟩ := habove
  rw [Node.at?_append, Option.bind_eq_some_iff] at h
  obtain ⟨m, hm, hbelow⟩ := h
  obtain ⟨es, rfl⟩ := Node.exists_entries_of_at? hbelow
  exact ⟨es, hm⟩

/-- One comes to a file by its name, from the folder in which it is. -/
theorem Step.exists_name {place : Place} {links : Nat} {names : List Text}
    (h : d.Step followsLast s ⟨links, place, names⟩) (hn : d.root.at? place = some n)
    (hfolder : ∀ entries, n ≠ .folder entries) :
    ∃ folder name entries, s = ⟨links, folder, name :: names⟩ ∧ place = folder ++ [name] ∧
      d.root.at? folder = some (.folder entries) ∧ IsEntryName name ∧
      Node.find? entries name = some n := by
  -- All steps but one lead to a folder or a place above one, where no file is.
  have hnot (above : Place) {entries : List (Text × Node)}
      (hplace : d.root.at? above = some (.folder entries)) : ¬ place <+: above := fun hbelow => by
    obtain ⟨es, hes⟩ := exists_entries_above hplace hbelow
    exact hfolder es (Option.some.inj (hn.symm.trans hes))
  generalize ht : Stage.mk links place names = t at h
  cases h with
  | stay hplace =>
    obtain ⟨rfl, rfl, rfl⟩ := Stage.mk.inj ht
    exact absurd List.prefix_rfl (hnot _ hplace)
  | up hplace =>
    obtain ⟨rfl, rfl, rfl⟩ := Stage.mk.inj ht
    exact absurd (List.dropLast_prefix _) (hnot _ hplace)
  | follow hplace =>
    obtain ⟨rfl, rfl, rfl⟩ := Stage.mk.inj ht
    refine absurd ?_ (hnot _ hplace)
    rw [linkStart]
    split
    · exact List.nil_prefix
    · exact List.prefix_rfl
  | @enter _ folder name _ entries m hplace hentry hfind =>
    obtain ⟨rfl, rfl, rfl⟩ := Stage.mk.inj ht
    refine ⟨folder, name, entries, rfl, rfl, hplace, hentry, ?_⟩
    rw [hfind, ← hn, Node.at?_append, hplace, Option.bind_some, Node.at?_cons, hfind]
    rfl

/-- A file can be written under a name in a folder: there is none of that name yet, or one. -/
structure IsWritable (d : Disk) (folder : Place) (name : Text) : Prop where
  isEntryName : IsEntryName name
  exists_entries : ∃ entries, d.root.at? folder = some (.folder entries) ∧
    ∀ n, Node.find? entries name = some n → ∃ bytes, n = .file bytes

/-- Nothing is below a place at which a file can be written. -/
theorem IsWritable.eq_of_below (h : d.IsWritable folder name) (hn : d.root.at? place = some n)
    (hbelow : folder ++ [name] <+: place) : place = folder ++ [name] ∧ ∃ bytes, n = .file bytes := by
  obtain ⟨entries, hfolder, hfile⟩ := h.exists_entries
  obtain ⟨below, rfl⟩ := hbelow
  rw [List.append_assoc, Node.at?_append, hfolder, Option.bind_some, List.singleton_append,
    Node.at?_cons, Option.bind_eq_some_iff] at hn
  obtain ⟨m, hm, hbelow⟩ := hn
  obtain ⟨bytes, rfl⟩ := hfile m hm
  cases below with
  | nil => exact ⟨List.append_nil _, bytes, (Option.some.inj hbelow).symm⟩
  | cons first below => cases hbelow

theorem IsWritable.not_below (h : d.IsWritable folder name) {entries : List (Text × Node)}
    (hplace : d.root.at? place = some (.folder entries)) : ¬ folder ++ [name] <+: place := by
  intro hbelow
  obtain ⟨_, _, heq⟩ := h.eq_of_below hplace hbelow
  cases heq

/-- Nobody who has still to look for the file that is written has looked for it before. -/
theorem IsWritable.not_isAt (h : d.IsWritable folder name) {links : Nat} {u : Stage}
    (hstep : d.Step followsLast s u) (hsteps : d.Steps followsLast u ⟨links, folder, [name]⟩) :
    ¬ s.IsAt folder name := by
  obtain ⟨links', place, names⟩ := s
  rintro ⟨rfl, hhead⟩
  obtain ⟨rest, rfl⟩ := List.head?_eq_some_iff.mp hhead
  obtain ⟨entries, hfolder, hfile⟩ := h.exists_entries
  cases hstep with
  | stay _ hblank => exact h.isEntryName.not_blank hblank
  | up => exact h.isEntryName.ne_dots rfl
  | enter hplace _ hfind =>
    -- The walk has gone into the file, and there is no way back from it.
    obtain heq | ⟨v, hnext, _⟩ := hsteps.cases_head
    · have hlength := congrArg (fun u : Stage => u.place.length) heq
      simp at hlength
    · obtain ⟨es, hes⟩ := hnext.exists_entries
      exact h.not_below hes List.prefix_rfl
  | follow hplace _ hfind =>
    obtain rfl := Node.folder.inj (Option.some.inj (hfolder.symm.trans hplace))
    obtain ⟨bytes, hlink⟩ := hfile _ hfind
    cases hlink

/-- After a file is written one comes to it as one would have come to its name before. -/
theorem IsWritable.steps_place (h : d.IsWritable folder name) {links : Nat}
    (hsteps : d.Steps followsLast s ⟨links, folder, [name]⟩) (bytes : List UInt8) :
    (d.place folder name (.file bytes)).Steps followsLast s ⟨links, folder ++ [name], []⟩ := by
  obtain ⟨entries, hfolder, _⟩ := h.exists_entries
  have hstart : ¬ folder ++ [name] <+: s.place := by
    obtain rfl | ⟨u, hstep, _⟩ := hsteps.cases_head
    · exact h.not_below hfolder
    · obtain ⟨es, hes⟩ := hstep.exists_entries
      exact h.not_below hes
  obtain ⟨hsteps', _⟩ := Steps.place (n := .file bytes) hfolder hsteps hstart
    fun u v _ hstep hrest => h.not_isAt hstep hrest
  have hplace : (d.place folder name (.file bytes)).root.at? folder =
      some (.folder (Node.setEntry entries name (.file bytes))) := by
    have habove := Node.at?_updateFolder_above hfolder [] (Node.setEntry · name (.file bytes))
    rwa [List.append_nil, Node.updateFolder] at habove
  refine hsteps'.tail (.enter (n := .file bytes) hplace h.isEntryName ?_ (by simp))
  rw [Node.find?_setEntry, if_pos rfl]

/-- A file or a link stays the same when an entry is put into a folder elsewhere. -/
theorem at?_place_of_not_prefix {m : Node} {entries : List (Text × Node)}
    (hfolder : d.root.at? folder = some (.folder entries)) (hplace : ¬ folder ++ [name] <+: place)
    (hn : ∀ entries, n ≠ .folder entries) (hat : d.root.at? place = some n) :
    (d.place folder name m).root.at? place = some n := by
  have hplaced : ((d.place folder name m).root.at? place).map Node.shape =
      (d.root.at? place).map Node.shape := Node.shape_at?_updateFolder hfolder hplace
  obtain ⟨k, hk, hshape⟩ := Node.exists_of_map_shape hplaced hat
  rw [hk]
  cases n with
  | folder es => exact absurd rfl (hn es)
  | file old => rw [Node.shape_eq_file_iff.mp hshape]
  | link target => rw [Node.shape_eq_link_iff.mp hshape]

/-- On the disk `d'` there are the bytes in the file at a path, which is at the given place, and all
other files and links of the disk `d` are as they were. -/
structure IsWritten (d d' : Disk) (p : Path) (place : Place) (bytes : List UInt8) : Prop where
  locate_eq : d'.locate false p = .ok (.taken place (.file bytes))
  contents_eq : d'.contents p = .ok bytes
  others : ∀ other n, other ≠ place → (∀ entries, n ≠ .folder entries) →
    d.root.at? other = some n → d'.root.at? other = some n

theorem IsWritable.isWritten_place (h : d.IsWritable folder name) {links : Nat}
    (hcheck : checkPath p = .ok ())
    (hsteps : d.Steps false (d.start p) ⟨links, folder, [name]⟩) (bytes : List UInt8) :
    d.IsWritten (d.place folder name (.file bytes)) p (folder ++ [name]) bytes := by
  obtain ⟨entries, hfolder, _⟩ := h.exists_entries
  have hsteps' := h.steps_place hsteps bytes
  have hfile : (d.place folder name (.file bytes)).root.at? (folder ++ [name]) =
      some (.file bytes) :=
    Node.at?_updateFolder_below hfolder name (.file bytes) []
  refine ⟨locate_of_steps hcheck hsteps' (.arrived hfile), ?_, fun other n hother hn hat => ?_⟩
  · rw [contents, stat_of_steps hcheck hfile hsteps'.following]
  · have hbelow : ¬ folder ++ [name] <+: other := fun hbelow =>
      hother (h.eq_of_below hat hbelow).1
    exact at?_place_of_not_prefix hfolder hbelow hn hat

/-- A folder that will do is there. -/
theorem stat_of_acceptFolder {e : FileFault} (h : d.acceptFolder p e = .ok ()) :
    ∃ entries, d.stat p = .ok (.folder entries) := by
  unfold acceptFolder at h
  split at h
  · exact ⟨_, ‹_›⟩
  · cases h
  · cases h

/-- One is where a path without a name leads before one takes a step. -/
theorem eq_start_of_steps (hnames : p.names = []) (hsteps : d.Steps followsLast (d.start p) t) :
    t = d.start p :=
  hsteps.eq_of_final fun u hstep => by
    have hstart : d.start p = ⟨maxLinks, (d.start p).place, []⟩ := by rw [start, hnames]
    rw [hstart] at hstep
    exact not_step_nil _ _ u hstep

theorem makeFolder_ne_ok (hnames : p.names = []) (d' : Disk) : d.makeFolder p ≠ .ok d' := by
  intro h
  unfold makeFolder at h
  split at h
  · rename_i folder name hlocate
    obtain ⟨t, hsteps, hends⟩ := exists_ends_of_locate hlocate
    have ht := congrArg Stage.names (eq_start_of_steps hnames hsteps)
    cases hends with
    | vacant => cases ht.trans hnames
  · cases h
  · cases h

theorem exists_entries_of_makeFolders (hnames : p.names = []) (h : (d.makeFolders p).1 = .ok ()) :
    ∃ entries, (d.makeFolders p).2.stat p = .ok (.folder entries) := by
  rw [makeFolders] at h ⊢
  cases hmake : d.makeFolder p with
  | ok made => exact absurd hmake (makeFolder_ne_ok hnames made)
  | error e =>
    rw [hmake] at h
    cases e with
    | notFound => simp [hnames] at h
    | _ => exact stat_of_acceptFolder h

/-- Making a folder changes no file and no link. -/
theorem at?_makeFolder {d' : Disk} (h : d.makeFolder p = .ok d')
    (hn : ∀ entries, n ≠ .folder entries) (hat : d.root.at? place = some n) :
    d'.root.at? place = some n := by
  unfold makeFolder at h
  split at h
  · rename_i folder name hlocate
    obtain rfl := Except.ok.inj h
    obtain ⟨t, _, hends⟩ := exists_ends_of_locate hlocate
    cases hends with
    | vacant hfolder _ hnone =>
      exact at?_place_of_not_prefix hfolder (not_prefix_of_at? hfolder hnone hat) hn hat
  · cases h
  · cases h

theorem at?_makeFolders (d : Disk) (p : Path) (hn : ∀ entries, n ≠ .folder entries)
    (hat : d.root.at? place = some n) : (d.makeFolders p).2.root.at? place = some n := by
  fun_induction d.makeFolders p with
  | case1 p made hmake => exact at?_makeFolder hmake hn hat
  | case2 => exact hat
  | case3 p _ _ _ e d' hparent ih =>
    rw [hparent] at ih
    exact ih
  | case4 p _ _ _ d' hparent made hmake ih =>
    rw [hparent] at ih
    exact at?_makeFolder hmake hn ih
  | case5 p _ _ _ d' hparent e _ ih =>
    rw [hparent] at ih
    exact ih
  | case6 => exact hat

/-- A walk that follows every link leads to none. -/
theorem locate_true_ne_link (hfolder : p.names = [] → ∃ entries, d.stat p = .ok (.folder entries))
    (place : Place) (target : Text) : d.locate true p ≠ .ok (.taken place (.link target)) := by
  intro hlocate
  have hstat : d.stat p = .ok (.link target) := by rw [stat, hlocate]
  obtain ⟨_, hplace, links, hsteps⟩ := exists_steps_of_locate hlocate
  obtain hstart | ⟨s, _, hstep⟩ := hsteps.cases_tail
  · obtain ⟨entries, hentries⟩ := hfolder (congrArg Stage.names hstart).symm
    cases hentries.symm.trans hstat
  · obtain ⟨folder, name, entries, rfl, rfl, hentries, hname, hfind⟩ :=
      hstep.exists_name hplace (by simp)
    generalize ht : Stage.mk links (folder ++ [name]) [] = t at hstep
    cases hstep with
    | stay _ hblank => exact hname.not_blank hblank
    | up => exact hname.ne_dots rfl
    | enter hentries' _ hfind' hnot =>
      obtain rfl := Node.folder.inj (Option.some.inj (hentries.symm.trans hentries'))
      exact hnot target (Option.some.inj (hfind'.symm.trans hfind))
    | follow =>
      have hlinks := congrArg Stage.links ht
      simp at hlinks

/-- Where bytes can be given to a file at a path that leads to no link, and is in a folder, the file
is written under its name in that folder. -/
theorem exists_isWritable_of_setContents {d' : Disk} (h : d.setContents p bytes = .ok d')
    (hfolder : p.names = [] → ∃ entries, d.stat p = .ok (.folder entries))
    (hsame : d.locate true p = d.locate followsLast p)
    (hlink : ∀ place target, d.locate followsLast p ≠ .ok (.taken place (.link target))) :
    checkPath p = .ok () ∧ ∃ links folder name,
      d.Steps followsLast (d.start p) ⟨links, folder, [name]⟩ ∧
        d.IsWritable folder name ∧ d' = d.place folder name (.file bytes) := by
  unfold setContents at h
  split at h
  · rename_i folder name hlocate
    rw [hsame] at hlocate
    refine ⟨checkPath_of_locate hlocate, ?_⟩
    obtain ⟨t, hsteps, hends⟩ := exists_ends_of_locate hlocate
    cases hends with
    | vacant hentries hname hnone =>
      refine ⟨_, folder, name, hsteps, ⟨hname, _, hentries, fun n hn => ?_⟩, (Except.ok.inj h).symm⟩
      cases hnone.symm.trans hn
  · cases h
  · rename_i place n hnot hlocate
    have hstat : d.stat p = .ok n := by rw [stat, hlocate]
    rw [hsame] at hlocate
    refine ⟨checkPath_of_locate hlocate, ?_⟩
    have hfile : ∃ old, n = .file old := by
      cases n with
      | file old => exact ⟨old, rfl⟩
      | link target => exact absurd hlocate (hlink place target)
      | folder entries => exact absurd rfl (hnot entries)
    obtain ⟨old, rfl⟩ := hfile
    obtain ⟨t, hsteps, hends⟩ := exists_ends_of_locate hlocate
    cases hends with
    | arrived hplace =>
      obtain hstart | ⟨u, hbefore, hstep⟩ := hsteps.cases_tail
      · obtain ⟨entries, hentries⟩ := hfolder (congrArg Stage.names hstart).symm
        cases hentries.symm.trans hstat
      · obtain ⟨folder, name, entries, rfl, rfl, hentries, hname, hfind⟩ :=
          hstep.exists_name hplace (by simp)
        rw [List.dropLast_concat, List.getLast?_concat, Option.getD_some] at h
        refine ⟨_, folder, name, hbefore, ⟨hname, entries, hentries, fun n hn => ⟨old, ?_⟩⟩,
          (Except.ok.inj h).symm⟩
        exact Option.some.inj (hn.symm.trans hfind)
  · cases h

/-- A delivery is made in the folder that there is for it by then. -/
theorem exists_setContents_of_deliver (h : (d.deliver p bytes).1 = .ok ()) :
    ∃ made d', d.makeFolders p.parent = (.ok (), made) ∧ made.setContents p bytes = .ok d' ∧
      (d.deliver p bytes).2 = d' ∧
        (p.names = [] → ∃ entries, made.stat p = .ok (.folder entries)) := by
  unfold deliver changeBelow at h ⊢
  rcases hmake : d.makeFolders p.parent with ⟨result, made⟩
  rw [hmake] at h
  cases result with
  | error e => cases h
  | ok _ =>
    have hfolder (hnames : p.names = []) : ∃ entries, made.stat p = .ok (.folder entries) := by
      have hparent : p.parent = p := by rw [Path.parent, hnames, List.dropLast_nil, ← hnames]
      rw [hparent] at hmake
      have hentries := exists_entries_of_makeFolders hnames (congrArg Prod.fst hmake)
      rwa [hmake] at hentries
    cases hset : made.setContents p bytes with
    | ok d' => exact ⟨made, d', rfl, hset, by simp only [hset, afterwards], hfolder⟩
    | error e =>
      simp only [hset] at h
      cases h

/-- Once a file is delivered, it holds the bytes, and no other file is changed. -/
theorem exists_isWritten_deliver (h : (d.deliver p bytes).1 = .ok ())
    (hlink : ∀ place target,
      (d.makeFolders p.parent).2.locate false p ≠ .ok (.taken place (.link target))) :
    ∃ place, d.IsWritten (d.deliver p bytes).2 p place bytes := by
  obtain ⟨made, d', hmake, hset, hdisk, hfolder⟩ := exists_setContents_of_deliver h
  rw [hmake] at hlink
  obtain ⟨hcheck, links, folder, name, hsteps, hwritable, rfl⟩ :=
    exists_isWritable_of_setContents hset hfolder (locate_following hlink) hlink
  have hwritten := hwritable.isWritten_place hcheck hsteps bytes
  rw [hdisk]
  refine ⟨folder ++ [name], hwritten.locate_eq, hwritten.contents_eq, fun other n hother hn hat => ?_⟩
  have hmade := at?_makeFolders d p.parent hn hat
  rw [hmake] at hmade
  exact hwritten.others other n hother hn hmade

/-- Once a file is delivered, be it through links, the bytes are found under its path. -/
theorem contents_deliver (h : (d.deliver p bytes).1 = .ok ()) :
    (d.deliver p bytes).2.contents p = .ok bytes := by
  obtain ⟨made, d', _, hset, hdisk, hfolder⟩ := exists_setContents_of_deliver h
  have hsame : made.locate true p = made.locate true p := rfl
  obtain ⟨hcheck, links, folder, name, hsteps, hwritable, rfl⟩ :=
    exists_isWritable_of_setContents hset hfolder hsame (locate_true_ne_link hfolder)
  obtain ⟨entries, hentries, _⟩ := hwritable.exists_entries
  have hfile : (made.place folder name (.file bytes)).root.at? (folder ++ [name]) =
      some (.file bytes) :=
    Node.at?_updateFolder_below hentries name (.file bytes) []
  rw [hdisk, contents, stat_of_steps hcheck hfile (hwritable.steps_place hsteps bytes)]

end Disk

end TypeAtlas
