import Depot.Proofs.Cache.Retry
import Depot.Proofs.FileTree.Apart
import Mathlib.Logic.Relation

/-!
# What a call leaves alone

A call with a URL asks for that URL only, and of all that is in the world it changes the record and
the file of that URL (`Confined`). It may make directories on the way to the file, and while it
works there is a file beside it, which is gone in the end however the call ends.
-/

namespace Depot.Cache

open FileTree

variable {σ α : Type} {c : Cache} {d p q : Location} {t t' : FileTree} {n name : String}
  {data : ByteArray} {mode : Nat} {w w' : World σ} {url : String}

/-! ### A file beside the others -/

/-- `t'` is `t` with a file called `name` in the directory `p`, which `d` leads to. -/
structure Waiting (t t' : FileTree) (d p : Location) (name : String) : Prop where
  leads : t.resolve true d = .ok p
  directory : t.find? p = some .directory
  plain : name ≠ ".." ∧ name ≠ "."
  fits : Fits d [name]
  free : t.find? (p ++ [name]) = none
  file : ∃ data mode, t'.find? (p ++ [name]) = some (.file data mode)
  other : ∀ q, q ≠ p ++ [name] → t'.find? q = t.find? q

namespace Waiting

variable (h : Waiting t t' d p name)

include h

theorem grows : Grows t t' := by
  obtain ⟨data, mode, hf⟩ := h.file
  exact Swapped.grows ⟨h.other, bare_of_none h.free, bare_of_file hf⟩

/-- The path to the file leads to it, followed or not. -/
theorem resolve (follow : Bool) : t'.resolve follow (d ++ [name]) = .ok (p ++ [name]) := by
  obtain ⟨data, mode, hf⟩ := h.file
  have hlink : follow → ∀ target, t'.find? (p ++ [name]) ≠ some (.link target) := fun _ target hl =>
    absurd (hf.symm.trans hl) (by simp)
  have hlead : t'.resolve true d = .ok p := resolve_true_of_grows h.grows h.leads
  rw [resolve_in follow hlead (h.grows.directory p h.directory) h.plain hlink, if_pos h.fits]

theorem insert (data : ByteArray) (mode : Nat) :
    Waiting t (t'.insert (p ++ [name]) (.file data mode)) d p name where
  leads := h.leads
  directory := h.directory
  plain := h.plain
  fits := h.fits
  free := h.free
  file := ⟨data, mode, find?_insert_self ..⟩
  other q hq := (find?_insert_of_ne hq t' _).trans (h.other q hq)

theorem find?_erase (q : Location) : (t'.erase (p ++ [name])).find? q = t.find? q := by
  rw [FileTree.find?_erase]
  split_ifs with hq
  · rw [hq.1, h.free]
  · exact h.other q fun heq => hq ⟨heq, by simp⟩

theorem remove_eq : FileTree.remove (d ++ [name]) t' = .ok () (t'.erase (p ++ [name])) := by
  obtain ⟨data, mode, hf⟩ := h.file
  rw [remove_apply, h.resolve false]
  simp only [hf]

theorem read_eq : ∃ data, t'.read (d ++ [name]) = .ok data := by
  obtain ⟨data, mode, hf⟩ := h.file
  refine ⟨data, ?_⟩
  rw [FileTree.read, lookup_eq_ok_iff.2 ⟨_, h.resolve true, hf⟩]

/-- The file takes the place of another one in the directory, or nothing happens. -/
theorem rename_cases (hn : n ≠ ".." ∧ n ≠ ".") :
    (∃ e, FileTree.rename (d ++ [name]) (d ++ [n]) t' = .error e t') ∨
      ∃ t'' data mode, FileTree.rename (d ++ [name]) (d ++ [n]) t' = .ok () t'' ∧
        t.resolve false (d ++ [n]) = .ok (p ++ [n]) ∧
        t''.find? (p ++ [n]) = some (.file data mode) ∧
        ∀ q, q ≠ p ++ [n] → t''.find? q = t.find? q := by
  obtain ⟨data, mode, hf⟩ := h.file
  have hd' := resolve_true_of_grows h.grows h.leads
  have hdest := resolve_in false hd' (h.grows.directory p h.directory) hn (by simp)
  rw [rename_apply, h.resolve false, hdest]
  by_cases hfits : Fits d [n]
  case neg =>
    left
    rw [if_neg hfits]
    exact ⟨_, rfl⟩
  simp only [if_pos hfits, hf]
  by_cases hdir : t'.find? (p ++ [n]) = some .directory
  · left
    simp only [hdir]
    exact ⟨_, rfl⟩
  right
  refine ⟨(t'.erase (p ++ [name])).insert (p ++ [n]) (.file data mode), data, mode, ?_, ?_,
    find?_insert_self .., fun q hq => ?_⟩
  · rcases hto : t'.find? (p ++ [n]) with _ | ⟨data', mode'⟩ | _ | target <;> simp_all
  · rw [resolve_in false h.leads h.directory hn (by simp), if_pos hfits]
  · rw [find?_insert_of_ne hq, h.find?_erase]

end Waiting

/-- Either there is a staging file afterwards, or there are some more directories at most. -/
theorem makeStagingFile_cases (d : Location) (n : String) (t : FileTree) :
    (∃ e t', makeStagingFile (d ++ [n]) t = .error e t' ∧ Paved d t t') ∨
      ∃ t₁ t' p name, makeStagingFile (d ++ [n]) t = .ok (d ++ [name]) t' ∧ Paved d t t₁ ∧
        Waiting t₁ t' d p name := by
  obtain ⟨t₁, hpaved, ⟨hmade, hdir⟩ | ⟨e, he⟩⟩ := makeDirectories_paved d t
  case inr =>
    left
    refine ⟨e, t₁, ?_, hpaved⟩
    rw [makeStagingFile, bind_apply, List.dropLast_concat, he]
  obtain ⟨p, hd, hdir⟩ := isDirectory_eq_true_iff.1 hdir
  obtain ⟨hfree, -⟩ := freeName_spec t₁ p n
  obtain ⟨k, hk, -⟩ := freeName_firstFree t₁ p n
  generalize hname : freeName t₁ p n 0 (t₁.nodes.length + 1) = name at *
  have hplain : name ≠ ".." ∧ name ≠ "." := hk ▸ stagingName_plain k
  have hplace : place true d t₁ = .ok p t₁ := by rw [place, hd]
  have heq : makeStagingFile (d ++ [n]) t =
      (do
        let _ ← FileTree.create (d ++ [name])
        FileTree.setMode (d ++ [name]) stagingMode
        return d ++ [name] : FileTree.Action Location) t₁ := by
    rw [makeStagingFile, bind_apply, List.dropLast_concat, List.getLast?_concat, hmade]
    simp only [bind_apply, get_apply, hplace, Option.getD_some, hname]
  have hcreate := resolve_in true hd hdir hplain (by simp [hfree])
  rw [heq, bind_apply, create_apply, hcreate]
  by_cases hfits : Fits d [name]
  case neg =>
    left
    rw [if_neg hfits]
    exact ⟨_, t₁, rfl, hpaved⟩
  right
  simp only [if_pos hfits, hfree]
  set t₂ := t₁.insert (p ++ [name]) (.file .empty newFileMode) with ht₂
  have hw : Waiting t₁ t₂ d p name :=
    ⟨hd, hdir, hplain, hfits, hfree, ⟨_, _, find?_insert_self ..⟩,
      fun q hq => find?_insert_of_ne hq t₁ _⟩
  refine ⟨t₁, _, p, name, ?_, hpaved, hw.insert .empty (permissions stagingMode)⟩
  rw [bind_apply, setMode_apply, hw.resolve true]
  simp only [ht₂, find?_insert_self]
  rfl

theorem Waiting.receive_cases (h : Waiting t w.tree d p name) (body : Body) :
    ∃ t', Waiting t t' d p name ∧ receive (d ++ [name]) body w =
      match body.failure with
      | none => .ok () { w with tree := t' }
      | some e => .error e { w with tree := t' } := by
  obtain ⟨data, mode, hf⟩ := h.file
  have h₁ := h.insert .empty mode
  refine ⟨_, h₁.insert body.data mode, ?_⟩
  rw [receive, bind_apply, onTree, bind_apply, create_apply, h.resolve true]
  simp only [hf, fill_apply, find?_insert_self]
  rcases body.failure with _ | e <;> rfl

/-- Either the body waits beside its place, or there are some more directories at most. -/
theorem stage_cases (d : Location) (n : String) (record : Record) (body : Body) (w : World σ) :
    (∃ e t₁ t', stage (d ++ [n]) record body w = .error e { w with tree := t' } ∧
        Paved d w.tree t₁ ∧ ∀ q, t'.find? q = t₁.find? q) ∨
      ∃ t₁ t' p name, stage (d ++ [n]) record body w =
          .ok (.changed ⟨d ++ [name], d ++ [n], record⟩) { w with tree := t' } ∧
        Paved d w.tree t₁ ∧ Waiting t₁ t' d p name := by
  rw [stage, bind_apply, onTree]
  rcases makeStagingFile_cases d n w.tree with
    ⟨e, t₁, he, hpaved⟩ | ⟨t₁, t₂, p, name, hok, hpaved, hw⟩
  · left
    exact ⟨.io, t₁, t₁, by rw [he], hpaved, fun _ => rfl⟩
  rw [hok]
  obtain ⟨t₃, hw₃, hrec⟩ := hw.receive_cases (w := { w with tree := t₂ }) body
  simp only [bind_apply]
  rcases hf : body.failure with _ | e <;> rw [hf] at hrec
  · right
    exact ⟨t₁, t₃, p, name, by rw [guarding_of_ok hrec]; rfl, hpaved, hw₃⟩
  · left
    refine ⟨e, t₁, _, ?_, hpaved, hw₃.find?_erase⟩
    rw [guarding_of_error hrec (.inl hw₃.remove_eq)]

/-! ### Calls -/

/-- The transport has gone from `o` to `o'` by requests for `url`. -/
def AskedOnly (t : Transport σ) (url : String) : σ → σ → Prop :=
  Relation.ReflTransGen fun o o' => ∃ conditions, (∃ a, t url conditions o = .ok a o') ∨
    ∃ e, t url conditions o = .error e o'

/-- From `w` to `w'` the transport has been asked for `url` only, and only the record of `url` and
its file have changed. Directories may have been made on the way to the file. -/
structure Confined (c : Cache) (t : Transport σ) (url : String) (w w' : World σ) : Prop where
  tree : Changed {l | c.pathFor url = .ok l} w.tree w'.tree
  records : ∀ v, v ≠ url →
    w'.database.index.records.get? v = w.database.index.records.get? v
  asked : AskedOnly t url w.origin w'.origin

namespace Confined

variable {t : Transport σ} {w'' : World σ}

theorem refl (c : Cache) (t : Transport σ) (url : String) (w : World σ) : Confined c t url w w :=
  ⟨.refl _ _, fun _ _ => rfl, .refl⟩

theorem trans (h : Confined c t url w w') (h' : Confined c t url w' w'') :
    Confined c t url w w'' :=
  ⟨h.tree.trans h'.tree, fun v hv => (h'.records v hv).trans (h.records v hv),
    h.asked.trans h'.asked⟩

theorem of_tree {t₁ : FileTree} {o : σ} (h : Changed {l | c.pathFor url = .ok l} w.tree t₁)
    (ho : AskedOnly t url w.origin o) : Confined c t url w { w with tree := t₁, origin := o } :=
  ⟨h, fun _ _ => rfl, ho⟩

end Confined

section Calls

variable {t : Transport σ} {now : Int} {o : σ}

theorem askedOnly_of_ok {conditions : Validators} {a : Response}
    (h : t url conditions w.origin = .ok a o) : AskedOnly t url w.origin o :=
  .single ⟨conditions, .inl ⟨a, h⟩⟩

theorem askedOnly_of_error {conditions : Validators} {e : Error}
    (h : t url conditions w.origin = .error e o) : AskedOnly t url w.origin o :=
  .single ⟨conditions, .inr ⟨e, h⟩⟩

theorem pathFor_of_nameOf? (hn : c.nameOf? url = some n) :
    c.pathFor url = .ok (c.bucket url ++ [n]) :=
  pathFor_eq_ok_iff.2 ⟨n, hn, List.append_assoc ..⟩

/-- A new body is beside its place, and everything else is as if there were none. -/
structure Delivered (c : Cache) (t : Transport σ) (url : String) (w : World σ) (s : Staged)
    (w' : World σ) : Prop where
  isOpen : w'.isOpen
  database : w'.database = w.database
  asked : AskedOnly t url w.origin w'.origin
  record : s.record.url = url
  place : ∃ n t₁ p name, c.nameOf? url = some n ∧ s.dest = c.bucket url ++ [n] ∧
    s.temp = c.bucket url ++ [name] ∧ Paved (c.bucket url) w.tree t₁ ∧
    Waiting t₁ w'.tree (c.bucket url) p name

/-- Before there is a body beside its place, a download is confined. -/
theorem download_confined (c : Cache) (t : Transport σ) (now : Int) (url : String) (w : World σ) :
    (∃ e w', c.download t now url w = .error e w' ∧ Confined c t url w w') ∨
      (∃ dest w', c.download t now url w = .ok (.unchanged dest) w' ∧ Confined c t url w w') ∨
      ∃ s w', c.download t now url w = .ok (.changed s) w' ∧ Delivered c t url w s w' := by
  rcases hp : c.pathFor url with e | dest
  · refine .inl ⟨e, w, ?_, .refl c t url w⟩
    rw [download, bind_apply, hp]
    rfl
  by_cases ho : w.isOpen
  case neg => exact .inl ⟨.database, w, download_of_closed t now hp ho, .refl c t url w⟩
  rcases hk : w.database.index.record? url with e | known
  · refine .inl ⟨e, w, ?_, .refl c t url w⟩
    rw [download, bind_apply, hp]
    simp only [check, bind_apply, record?_of_open ho, hk]
  rw [download_eq t now hp ho hk]
  rcases ht : t url (conditionsOf known) w.origin with ⟨_ | ⟨v, body⟩, o⟩ | ⟨e, o⟩
  · have hconfined : Confined c t url w { w with origin := o } :=
      .of_tree (.refl _ _) (askedOnly_of_ok ht)
    by_cases hf : w.tree.isFile dest
    · exact .inr (.inl ⟨dest, _, if_pos hf, hconfined⟩)
    · exact .inl ⟨_, _, if_neg hf, hconfined⟩
  · obtain ⟨n, hn, -⟩ := pathFor_eq_ok_iff.1 hp
    obtain rfl : c.bucket url ++ [n] = dest := Except.ok.inj ((pathFor_of_nameOf? hn).symm.trans hp)
    have hasked := askedOnly_of_ok ht
    rcases stage_cases (c.bucket url) n ⟨url, v, now⟩ body { w with origin := o } with
      ⟨e, t₁, t', he, hpaved, hsame⟩ | ⟨t₁, t', p, name, hok, hpaved, hwait⟩
    · have hchanged : Changed {l | c.pathFor url = .ok l} w.tree t₁ :=
        hpaved.changed hp (List.prefix_append ..)
      exact .inl ⟨e, _, he, .of_tree (hchanged.congr hsame) hasked⟩
    · exact .inr (.inr ⟨_, _, hok, ho, rfl, hasked, rfl,
        n, t₁, p, name, hn, rfl, rfl, hpaved, hwait⟩)
  · exact .inl ⟨e, _, rfl, .of_tree (.refl _ _) (askedOnly_of_error ht)⟩

/-- Work on a staged body that fails at once or settles is confined. -/
theorem Delivered.confined {s : Staged} {w₁ : World σ} (h : Delivered c t url w s w₁)
    (work : Work σ α) (hwork : (∃ e, work w₁ = .error e w₁) ∨
      ∃ draft a, (∀ v, v ≠ url → draft.records.get? v = w.database.index.records.get? v) ∧
        work w₁ = settle (fun _ => false) s draft a w₁) :
    Confined c t url w (worldOf (guarding s.temp work w₁)) := by
  obtain ⟨n, t₁, p, name, hn, hdest, htemp, hpaved, hwait⟩ := h.place
  have hp := pathFor_of_nameOf? (c := c) hn
  have hpaved : Changed {l | c.pathFor url = .ok l} w.tree t₁ :=
    hpaved.changed hp (List.prefix_append ..)
  have hquiet : ∀ {e}, work w₁ = .error e w₁ →
      Confined c t url w (worldOf (guarding s.temp work w₁)) := fun he => by
    rw [htemp, guarding_of_error he (.inl hwait.remove_eq)]
    exact ⟨hpaved.congr hwait.find?_erase, fun v _ => by rw [worldOf, h.database], h.asked⟩
  rcases hwork with ⟨e, he⟩ | ⟨draft, a, hdraft, hsettle⟩
  · exact hquiet he
  rw [settle_apply _ _ _ _ h.isOpen, htemp, hdest] at hsettle
  rcases hwait.rename_cases (nameOf?_plain hn) with ⟨e, he⟩ |
    ⟨t₂, data, mode, hok, hlead, hfile, hother⟩
  · simp only [he] at hsettle
    exact hquiet hsettle
  · simp only [hok, Bool.false_eq_true, if_false] at hsettle
    rw [guarding_of_ok hsettle]
    exact ⟨hpaved.trans (changed_of_file hp hlead hother hfile), hdraft, h.asked⟩

theorem get?_upsert_of_ne {i : Index} {r : Record} {v : String} (hv : v ≠ r.url) :
    (i.upsert r).records.get? v = i.records.get? v :=
  Table.get?_set_of_ne hv ..

theorem fetch_confined (c : Cache) (t : Transport σ) (now : Int) (url : String) (w : World σ) :
    Confined c t url w (worldOf (c.fetch t now url w)) := by
  rw [fetch, fetchUntil, bind_apply]
  rcases download_confined c t now url w with ⟨e, w', he, h⟩ | ⟨dest, w', hok, h⟩ |
    ⟨s, w', hok, h⟩
  · rw [he]
    exact h
  · rw [hok]
    exact h
  rw [hok]
  refine h.confined (takeFile (fun _ => false) s)
    (.inr ⟨w'.database.index.upsert s.record, ⟨true, s.dest⟩, fun v hv => ?_, ?_⟩)
  · rw [get?_upsert_of_ne (h.record ▸ hv), h.database]
  · rw [takeFile_apply _ _ h.isOpen, if_neg (by simp)]

theorem refresh_confined (c : Cache) (t : Transport σ) (now : Int) (w : World σ) :
    Confined c t c.manifestUrl w (worldOf (c.refresh t now w)) := by
  rw [refresh]
  rcases download_confined c t now c.manifestUrl w with ⟨e, w', he, h⟩ | ⟨dest, w', hok, h⟩ |
    ⟨s, w', hok, h⟩
  · rw [refreshUntil, bind_apply, he]
    exact h
  · rw [refreshUntil, bind_apply, hok]
    exact h
  rw [refreshUntil_of_download _ hok]
  refine h.confined _ ?_
  obtain ⟨n, t₁, p, name, -, -, htemp, -, hwait⟩ := h.place
  obtain ⟨data, hread⟩ := hwait.read_eq
  rw [← htemp] at hread
  rw [takeList_apply _ h.isOpen hread, if_neg (by simp)]
  rcases Manifest.parse data with e | m
  · exact .inl ⟨e, rfl⟩
  simp only
  rcases hi : w'.database.index.rebuild m with e | i
  · exact .inl ⟨e, rfl⟩
  refine .inr ⟨i.upsert s.record, true, fun v hv => ?_, if_neg (by simp)⟩
  rw [get?_upsert_of_ne (h.record ▸ hv), Index.records_of_rebuild hi, h.database]

end Calls

/-- A query only reads. -/
theorem query_cases (q : Query) (w : World σ) :
    (∃ e, Cache.query q w = .error e w) ∨
      ∃ entries, w.database.index.catalog.query q = .ok entries ∧
        Cache.query q w = .ok entries w := by
  by_cases ho : w.isOpen
  case neg =>
    rw [Cache.query, bind_apply, index_of_closed ho]
    exact .inl ⟨.database, rfl⟩
  rw [query_of_open ho]
  dsimp only [check]
  rcases w.database.index.catalog.query q with e | entries
  · exact .inl ⟨e, rfl⟩
  · exact .inr ⟨entries, rfl, rfl⟩

/-- Opening a cache makes its directory. -/
theorem isDirectory_of_open (h : c.open w = .ok () w') : w'.tree.isDirectory c.root := by
  rw [«open», bind_apply, onTree] at h
  obtain ⟨t₁, -, ⟨hok, hdir⟩ | ⟨e, he⟩⟩ := makeDirectories_paved c.root w.tree
  case inr =>
    rw [he] at h
    cases h
  have hmigrate : ∀ {w₁ : World σ}, w₁.tree.isDirectory c.root →
      openDatabase.migrate w₁ = .ok () w' → w'.tree.isDirectory c.root := fun hdir h => by
    rw [openDatabase.migrate] at h
    split at h <;> cases h
    exact hdir
  rw [hok] at h
  dsimp only at h
  rw [openDatabase] at h
  dsimp only at h
  split at h
  · split at h
    · exact hmigrate hdir h
    · cases h
  · cases h
  · split at h
    next hwrite => exact hmigrate (isDirectory_of_grows (write_grows hwrite) hdir) h
    · cases h

/-- An origin counts no requests but for the URL that it is asked for. -/
theorem AskedOnly.requestCount {digest : ByteArray → String} {o o' : Origin} {v : String}
    (h : AskedOnly (Origin.transport digest) url o o') (hv : v ≠ url) :
    o'.requestCount v = o.requestCount v := by
  induction h with
  | refl => rfl
  | @tail o₁ o₂ _ hstep ih =>
    have hcount := Origin.requestCount_count_of_ne hv o₁
    obtain ⟨conditions, hstep⟩ := hstep
    rw [← ih]
    by_cases hp : 0 < o₁.pending url
    · rw [Origin.transport_of_pending hp] at hstep
      obtain ⟨a, h⟩ | ⟨e, h⟩ := hstep <;> cases h
      exact hcount
    have hp : o₁.pending url = 0 := by omega
    rcases hr : o₁.resources.get? url with _ | data
    · rw [Origin.transport_of_missing hp hr] at hstep
      obtain ⟨a, h⟩ | ⟨e, h⟩ := hstep <;> cases h
      exact hcount
    · rw [Origin.transport_of_served hp hr] at hstep
      obtain ⟨a, h⟩ | ⟨e, h⟩ := hstep <;> cases h
      exact hcount

end Depot.Cache
