import Depot.Proofs.Cache.Fetch

/-!
# Calls at other times

A call does the same in two worlds that are alike: their files are the same, and so are their
databases but for the times of records. It may be made at another time and with another transport
that gives the same answer (`fetchUntil_same`, `refreshUntil_same`).
-/

namespace Depot.Cache

open FileTree

variable {ε σ α β γ δ : Type} {R : α → β → Prop} {S : γ → δ → Prop} {Q : σ → σ → Prop}

/-- Two results of the same kind, with values that `R` relates and states that `Q` does. -/
inductive Same (R : α → β → Prop) (Q : σ → σ → Prop) :
    EStateM.Result ε σ α → EStateM.Result ε σ β → Prop
  | ok {a : α} {b : β} {s s' : σ} (h : R a b) (hs : Q s s') : Same R Q (.ok a s) (.ok b s')
  | error {e : ε} {s s' : σ} (hs : Q s s') : Same R Q (.error e s) (.error e s')

theorem Same.bind {x : EStateM ε σ α} {y : EStateM ε σ β} {f : α → EStateM ε σ γ}
    {g : β → EStateM ε σ δ} {s s' : σ} (h : Same R Q (x s) (y s'))
    (hfg : ∀ {a b t t'}, R a b → Q t t' → Same S Q (f a t) (g b t')) :
    Same S Q ((x >>= f) s) ((y >>= g) s') := by
  rw [bind_apply, bind_apply]
  generalize x s = u at h
  generalize y s' = v at h
  cases h with
  | ok h hs => exact hfg h hs
  | error hs => exact .error hs

/-- What there is to a record apart from its time. -/
def Record.undated (r : Record) : String × Validators := (r.url, r.validators)

structure Index.Alike (i j : Index) : Prop where
  catalog : i.catalog = j.catalog
  records : ∀ v, (i.records.get? v).map Record.undated = (j.records.get? v).map Record.undated

/-- The worlds differ in the times of records and in the state of the transport at most. -/
structure Alike (w w' : World σ) : Prop where
  tree : w.tree = w'.tree
  isOpen : w.isOpen = w'.isOpen
  migrations : w.database.migrations = w'.database.migrations
  hasTables : w.database.hasTables = w'.database.hasTables
  index : w.database.index.Alike w'.database.index

/-- The worlds are alike, and `Q` relates the states of their transports. -/
structure Beside (Q : σ → σ → Prop) (w w' : World σ) : Prop extends Alike w w' where
  origin : Q w.origin w'.origin

variable {c : Cache} {t : Transport σ} {now now' : Int} {breaks : Step → Bool} {w w' : World σ}
  {url : String} {dest temp temp' : Location} {i j : Index} {rec rec' : Record} {s s' : Staged}
  {known known' : Option Record} {v : Validators}

theorem Beside.withTree (h : Beside Q w w') (tree : FileTree) :
    Beside Q { w with tree := tree } { w' with tree := tree } :=
  ⟨⟨rfl, h.isOpen, h.migrations, h.hasTables, h.index⟩, h.origin⟩

theorem Index.Alike.upsert (h : i.Alike j) (hr : rec.undated = rec'.undated) :
    (i.upsert rec).Alike (j.upsert rec') := by
  have hurl : rec.url = rec'.url := congrArg Prod.fst hr
  refine ⟨h.catalog, fun v => ?_⟩
  rw [Index.upsert, Index.upsert, ← hurl]
  dsimp only
  rcases eq_or_ne v rec.url with rfl | hv
  · rw [Table.get?_set_self, Table.get?_set_self, Option.map_some, hr, Option.map_some]
  · rw [Table.get?_set_of_ne hv, Table.get?_set_of_ne hv, h.records]

theorem Alike.conditions (h : Alike w w') (hk : w.database.index.record? url = .ok known)
    (hk' : w'.database.index.record? url = .ok known') :
    conditionsOf known = conditionsOf known' := by
  have hrec := congrArg (Option.map Prod.snd) (h.index.records url)
  rw [get?_of_record? hk, get?_of_record? hk', Option.map_map, Option.map_map] at hrec
  exact congrArg (·.getD .absent) hrec

section Steps

variable {x : Work σ α} {y : Work σ β}

theorem same_pure {a : α} {b : β} (h : R a b) (hw : Beside Q w w') :
    Same R (Beside Q) ((pure a : Work σ α) w) ((pure b : Work σ β) w') :=
  .ok h hw

theorem same_check (r : Except Error α) (hw : Beside Q w w') :
    Same Eq (Beside Q) (check r w) (check r w') := by
  rcases r with e | a
  · exact .error hw
  · exact .ok rfl hw

theorem same_onTree (a : FileTree.Action α) (hw : Beside Q w w') :
    Same Eq (Beside Q) (onTree a w) (onTree a w') := by
  rw [onTree, onTree, ← hw.tree]
  rcases a w.tree with ⟨x, t⟩ | ⟨e, t⟩
  · exact .ok rfl (hw.withTree t)
  · exact .error (hw.withTree t)

theorem same_pass (breaks : Step → Bool) (s : Step) (hw : Beside Q w w') :
    Same Eq (Beside Q) (pass breaks s w) (pass breaks s w') := by
  rw [pass_apply, pass_apply]
  split
  · exact .error hw
  · exact .ok rfl hw

theorem same_index (hw : Beside Q w w') : Same Index.Alike (Beside Q) (index w) (index w') := by
  rw [index, index, ← hw.isOpen]
  split
  · exact .ok hw.index hw
  · exact .error hw

theorem same_commit (hi : i.Alike j) (hw : Beside Q w w') :
    Same Eq (Beside Q) (commit i w) (commit j w') := by
  by_cases ho : w.isOpen
  · rw [commit, if_pos ho, commit, if_pos (hw.isOpen ▸ ho)]
    exact .ok rfl ⟨⟨hw.tree, hw.isOpen, hw.migrations, hw.hasTables, hi⟩, hw.origin⟩
  · rw [commit, if_neg ho, commit, if_neg (hw.isOpen ▸ ho)]
    exact .error hw

theorem same_guarding (htemp : temp = temp') (h : Same R (Beside Q) (x w) (y w')) :
    Same R (Beside Q) (guarding temp x w) (guarding temp' y w') := by
  subst htemp
  rw [guarding, guarding]
  generalize x w = u at h
  generalize y w' = v at h
  cases h with
  | ok h hw => exact .ok h hw
  | @error e w w' hw =>
    simp only [← hw.tree]
    rcases FileTree.remove temp w.tree with ⟨⟨⟩, t⟩ | ⟨e', t⟩ <;> exact .error (hw.withTree t)

theorem same_receive (temp : Location) (body : Body) (hw : Beside Q w w') :
    Same Eq (Beside Q) (receive temp body w) (receive temp body w') := by
  refine (same_onTree _ hw).bind ?_
  rintro _ _ w w' - hw
  rcases body.failure with _ | e
  · exact same_pure rfl hw
  · exact .error hw

end Steps

/-- The same delivery, with a record that may be of another time. -/
inductive Delivery.Alike : Delivery → Delivery → Prop
  | unchanged (dest : Location) : Delivery.Alike (.unchanged dest) (.unchanged dest)
  | changed {s s' : Staged} (ht : s.temp = s'.temp) (hd : s.dest = s'.dest)
      (hr : s.record.undated = s'.record.undated) : Delivery.Alike (.changed s) (.changed s')

theorem same_stage (dest : Location) (body : Body) (hr : rec.undated = rec'.undated)
    (hw : Beside Q w w') :
    Same Delivery.Alike (Beside Q) (stage dest rec body w) (stage dest rec' body w') := by
  refine (same_onTree _ hw).bind ?_
  rintro temp _ w w' rfl hw
  refine (same_guarding rfl (same_receive temp body hw)).bind ?_
  rintro _ _ w w' - hw
  exact same_pure (.changed rfl rfl hr) hw

theorem download_same (hw : Alike w w') (hp : c.pathFor url = .ok dest) (ho : w.isOpen)
    (hk : w.database.index.record? url = .ok known)
    (hk' : w'.database.index.record? url = .ok known')
    (ht : Same Eq Q (t url (conditionsOf known) w.origin) (t url (conditionsOf known) w'.origin)) :
    Same Delivery.Alike (Beside Q) (c.download t now url w) (c.download t now' url w') := by
  have hfile : w'.tree.isFile dest = w.tree.isFile dest := by rw [hw.tree]
  rw [download_eq t now hp ho hk, download_eq t now' hp (hw.isOpen ▸ ho) hk',
    ← hw.conditions hk hk', hfile]
  generalize t url (conditionsOf known) w.origin = u at ht
  generalize t url (conditionsOf known) w'.origin = v at ht
  have hbeside : ∀ {o o'}, Q o o' → Beside Q { w with origin := o } { w' with origin := o' } :=
    fun hq => ⟨⟨hw.tree, hw.isOpen, hw.migrations, hw.hasTables, hw.index⟩, hq⟩
  cases ht with
  | error hq => exact .error (hbeside hq)
  | @ok a _ o o' h hq =>
    subst h
    rcases a with _ | ⟨v, body⟩
    · by_cases hf : w.tree.isFile dest
      · simp only [hf, if_true]
        exact .ok (.unchanged dest) (hbeside hq)
      · simp only [hf]
        exact .error (hbeside hq)
    · exact same_stage dest body rfl (hbeside hq)

theorem same_settle (breaks : Step → Bool) {a b : α} (hab : a = b) (ht : s.temp = s'.temp)
    (hd : s.dest = s'.dest) (hi : i.Alike j) (hw : Beside Q w w') :
    Same Eq (Beside Q) (settle breaks s i a w) (settle breaks s' j b w') := by
  rw [settle, settle, ht, hd]
  refine (same_onTree _ hw).bind ?_
  rintro _ _ w w' - hw
  refine (same_pass breaks .rename hw).bind ?_
  rintro _ _ w w' - hw
  refine (same_commit hi hw).bind ?_
  rintro _ _ w w' - hw
  refine (same_pass breaks .commit hw).bind ?_
  rintro _ _ w w' - hw
  exact same_pure hab hw

theorem fetchUntil_same (breaks : Step → Bool) (hw : Alike w w') (hp : c.pathFor url = .ok dest)
    (ho : w.isOpen) (hk : w.database.index.record? url = .ok known)
    (hk' : w'.database.index.record? url = .ok known')
    (ht : Same Eq Q (t url (conditionsOf known) w.origin) (t url (conditionsOf known) w'.origin)) :
    Same Eq (Beside Q) (c.fetchUntil breaks t now url w) (c.fetchUntil breaks t now' url w') := by
  refine (download_same hw hp ho hk hk' ht).bind ?_
  rintro _ _ w w' (_ | ⟨ht, hd, hr⟩) hw
  · exact same_pure rfl hw
  refine same_guarding ht ?_
  refine (same_pass breaks .stage hw).bind ?_
  rintro _ _ w w' - hw
  refine (same_index hw).bind ?_
  rintro i j w w' hi hw
  refine (same_pass breaks .upsert hw).bind ?_
  rintro _ _ w w' - hw
  exact same_settle breaks (by rw [hd]) ht hd (hi.upsert hr) hw

theorem same_bytesOf (htemp : temp = temp') (hw : Beside Q w w') :
    Same Eq (Beside Q) (bytesOf temp w) (bytesOf temp' w') :=
  htemp ▸ same_onTree _ hw

theorem same_rebuild (m : Manifest) (hi : i.Alike j) (hw : Beside Q w w') :
    Same Index.Alike (Beside Q) (check (i.rebuild m) w) (check (j.rebuild m) w') := by
  rw [Index.rebuild, Index.rebuild, ← hi.catalog]
  rcases Catalog.rebuild m i.catalog with ⟨_, k⟩ | ⟨e, k⟩
  · exact .ok ⟨rfl, hi.records⟩ hw
  · exact .error hw

theorem refreshUntil_same (breaks : Step → Bool) (hw : Alike w w')
    (hp : c.pathFor c.manifestUrl = .ok dest) (ho : w.isOpen)
    (hk : w.database.index.record? c.manifestUrl = .ok known)
    (hk' : w'.database.index.record? c.manifestUrl = .ok known')
    (ht : Same Eq Q (t c.manifestUrl (conditionsOf known) w.origin)
      (t c.manifestUrl (conditionsOf known) w'.origin)) :
    Same Eq (Beside Q) (c.refreshUntil breaks t now w) (c.refreshUntil breaks t now' w') := by
  refine (download_same hw hp ho hk hk' ht).bind ?_
  rintro _ _ w w' (_ | ⟨ht, hd, hr⟩) hw
  · exact same_pure rfl hw
  refine same_guarding ht ?_
  refine (same_pass breaks .stage hw).bind ?_
  rintro _ _ w w' - hw
  refine (same_bytesOf ht hw).bind ?_
  rintro bytes _ w w' rfl hw
  refine (same_check (Manifest.parse bytes) hw).bind ?_
  rintro m _ w w' rfl hw
  refine (same_index hw).bind ?_
  rintro i j w w' hi hw
  refine (same_rebuild m hi hw).bind ?_
  rintro i j w w' hi hw
  refine (same_pass breaks .rebuild hw).bind ?_
  rintro _ _ w w' - hw
  refine (same_pass breaks .upsert hw).bind ?_
  rintro _ _ w w' - hw
  exact same_settle breaks rfl ht hd (hi.upsert hr) hw

end Depot.Cache
