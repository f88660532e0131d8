import Depot.Proofs.Cache.Place
import Depot.Proofs.Cache.Staging

/-!
# What a download comes to

A download fails and leaves more directories at most, or it is told that the copy at hand is
current, or it leaves the new body in a staging file (`download_cases`). `Fails` tells the causes of
failures apart, as far as they matter for what is known about the transport.
-/

namespace Depot.Cache

open FileTree

variable {σ α : Type} {c : Cache} {t : Transport σ} {now : Int} {url n name : String}
  {dest temp r : Location} {ns : List String} {w w' : World σ} {known : Option Record} {e : Error}
  {data : ByteArray} {work : Work σ α} {a : α}

/-- What is asked for if `known` is on record. -/
def conditionsOf (known : Option Record) : Validators :=
  (known.map (·.validators)).getD .absent

theorem get?_of_record? (h : w.database.index.record? url = .ok known) :
    w.database.index.records.get? url = known := by
  rw [Index.record?] at h
  split at h
  · next hr => rw [hr, Except.ok.inj h]
  · next hr =>
    split at h
    · rw [hr, Except.ok.inj h]
    · cases h

/-- The part of `download` that a new body comes to. -/
def stage (dest : Location) (record : Record) (body : Body) : Work σ Delivery := do
  let temp ← onTree (makeStagingFile dest)
  guarding temp (receive temp body)
  return .changed ⟨temp, dest, record⟩

theorem index_of_open (h : w.isOpen) : index w = .ok w.database.index w := if_pos h

theorem index_of_closed (h : ¬ w.isOpen) : index w = .error .database w := if_neg h

theorem record?_of_open (h : w.isOpen) :
    record? url w = check (w.database.index.record? url) w := by
  rw [record?, bind_apply, index_of_open h]

theorem record?_of_closed (h : ¬ w.isOpen) : record? url w = .error .database w := by
  rw [record?, bind_apply, index_of_closed h]

theorem query_of_open (h : w.isOpen) (q : Query) :
    query q w = check (w.database.index.catalog.query q) w := by
  rw [query, bind_apply, index_of_open h]

theorem download_of_closed (t : Transport σ) (now : Int) (hp : c.pathFor url = .ok dest)
    (h : ¬ w.isOpen) : c.download t now url w = .error .database w := by
  rw [download, bind_apply, hp]
  simp only [check, bind_apply, record?_of_closed h]

theorem download_eq (t : Transport σ) (now : Int) (hp : c.pathFor url = .ok dest) (ho : w.isOpen)
    (hk : w.database.index.record? url = .ok known) :
    c.download t now url w =
      match t url (conditionsOf known) w.origin with
      | .error e o => .error e { w with origin := o }
      | .ok .notModified o =>
        if w.tree.isFile dest then .ok (.unchanged dest) { w with origin := o }
        else .error (.inconsistent dest.render) { w with origin := o }
      | .ok (.body v body) o => stage dest ⟨url, v, now⟩ body { w with origin := o } := by
  rw [download, bind_apply, hp]
  simp only [check, bind_apply, record?_of_open ho, hk, ask, conditionsOf]
  rcases t url _ w.origin with ⟨_ | ⟨v, body⟩, o⟩ | ⟨e, o⟩
  · simp only [bind_apply]
    change (if _ then _ else _ : Work σ Delivery) _ = _
    split <;> rfl
  · rfl
  · rfl

theorem guarding_of_ok (h : work w = .ok a w') : guarding temp work w = .ok a w' := by
  rw [guarding, h]

/-- After a failure the staging file goes, if it is still there. -/
theorem guarding_of_error {t : FileTree} (h : work w = .error e w')
    (ht : FileTree.remove temp w'.tree = .ok () t ∨
      ∃ e', FileTree.remove temp w'.tree = .error e' t) :
    guarding temp work w = .error e { w' with tree := t } := by
  rcases ht with ht | ⟨e', ht⟩ <;> simp only [guarding, h, ht]

theorem receive_spec {t : FileTree} (hs : StagedIn t w.tree c.root r ns n name data)
    (hp : Plain ns) (body : Body) :
    ∃ t', StagedIn t t' c.root r ns n name body.data ∧
      receive (c.root ++ (ns ++ [name])) body w =
        match body.failure with
        | none => .ok () { w with tree := t' }
        | some e => .error e { w with tree := t' } := by
  have hs₁ := hs.insert .empty
  refine ⟨_, hs₁.insert body.data, ?_⟩
  rw [receive, bind_apply, onTree, bind_apply,
    hs.base.create_of_file (hs.plain_append hp) hs.reaches hs.file]
  simp only [fill_apply, hs₁.file]
  rcases body.failure with _ | e <;> rfl

/-- Either the body waits in a staging file, or there are some more directories at most. -/
theorem stage_spec {m : String} (hb : Base w.tree c.root r) (hp : Plain (ns ++ [m] ++ [n]))
    (record : Record) (body : Body) :
    (∃ e t', stage (c.root ++ (ns ++ [m] ++ [n])) record body w = .error e { w with tree := t' } ∧
        Base t' c.root r ∧ Widened r (ns ++ [m]) w.tree t' ∧
        (e = .io ∧ ¬ Room w.tree c.root r (ns ++ [m]) n ∨ body.failure = some e)) ∨
      ∃ name t', stage (c.root ++ (ns ++ [m] ++ [n])) record body w =
          .ok (.changed ⟨c.root ++ (ns ++ [m] ++ [name]), c.root ++ (ns ++ [m] ++ [n]), record⟩)
            { w with tree := t' } ∧
        StagedIn w.tree t' c.root r (ns ++ [m]) n name body.data ∧ body.failure = none := by
  rw [stage, bind_apply, onTree]
  rcases makeStagingFile_spec hb hp with ⟨e, t₁, he, h₁, hw, hroom⟩ | ⟨name, t₁, hok, hs⟩
  · left
    exact ⟨.io, t₁, by rw [he], h₁, hw, .inl ⟨rfl, hroom⟩⟩
  rw [hok]
  obtain ⟨t₂, hs₂, hrec⟩ := receive_spec (w := { w with tree := t₁ }) hs hp.init body
  simp only [bind_apply]
  rcases hf : body.failure with _ | e <;> rw [hf] at hrec
  · right
    exact ⟨name, t₂, by rw [guarding_of_ok hrec]; rfl, hs₂, rfl⟩
  · left
    refine ⟨e, _, ?_, hs₂.base_erase, hs₂.rest, .inr rfl⟩
    rw [guarding_of_error hrec (.inl (hs₂.remove_eq hp.init))]

/-- The transport has been asked for `url` and has given `answer`. -/
def Asked (t : Transport σ) (url : String) (w : World σ)
    (answer : EStateM.Result Error σ Response) : Prop :=
  w.isOpen ∧ ∃ known, w.database.index.record? url = .ok known ∧
    t url (conditionsOf known) w.origin = answer

/-- Why a fetch of `url` may fail, and how it leaves the transport. -/
inductive Fails (breaks : Step → Bool) (c : Cache) (r : Location) (t : Transport σ) (url : String)
    (w : World σ) : Error → σ → Prop
  | badUrl (h : c.nameOf? url = none) : Fails breaks c r t url w (.notFileUrl url) w.origin
  | closed (h : ¬ w.isOpen) : Fails breaks c r t url w .database w.origin
  | badDate (h : w.database.index.record? url = .error (.invalidData .fetchDate)) :
      Fails breaks c r t url w (.invalidData .fetchDate) w.origin
  | refused {e : Error} {o : σ} (h : Asked t url w (.error e o)) : Fails breaks c r t url w e o
  | missing {dest : Location} {o : σ} (hp : c.pathFor url = .ok dest)
      (h : Asked t url w (.ok .notModified o)) (hf : ¬ w.tree.isFile dest) :
      Fails breaks c r t url w (.inconsistent dest.render) o
  | noRoom {n : String} {v : Validators} {body : Body} {o : σ} (hn : c.nameOf? url = some n)
      (h : Asked t url w (.ok (.body v body) o))
      (hr : ¬ Room w.tree c.root r (c.directoryOf url) n) : Fails breaks c r t url w .io o
  | brokenOff {v : Validators} {body : Body} {e : Error} {o : σ}
      (h : Asked t url w (.ok (.body v body) o)) (hb : body.failure = some e) :
      Fails breaks c r t url w e o
  | halted {v : Validators} {body : Body} {o : σ} (s : Step) (hs : breaks s)
      (h : Asked t url w (.ok (.body v body) o)) : Fails breaks c r t url w .io o

/-- The transport is as it was, or as it is after it has been asked for `url`. -/
def Left (t : Transport σ) (url : String) (w : World σ) (o : σ) : Prop :=
  o = w.origin ∨ (∃ e, Asked t url w (.error e o)) ∨ ∃ answer, Asked t url w (.ok answer o)

theorem Fails.left {breaks : Step → Bool} {o : σ} (h : Fails breaks c r t url w e o) :
    Left t url w o := by
  cases h with
  | badUrl | closed | badDate => exact .inl rfl
  | refused h => exact .inr (.inl ⟨_, h⟩)
  | missing _ h => exact .inr (.inr ⟨_, h⟩)
  | noRoom _ h => exact .inr (.inr ⟨_, h⟩)
  | brokenOff h => exact .inr (.inr ⟨_, h⟩)
  | halted _ _ h => exact .inr (.inr ⟨_, h⟩)

/-- What fails by itself fails as well where a call is broken off. -/
theorem Fails.mono {o : σ} (h : Fails (fun _ => false) c r t url w e o) (breaks : Step → Bool) :
    Fails breaks c r t url w e o := by
  cases h with
  | badUrl h => exact .badUrl h
  | closed h => exact .closed h
  | badDate h => exact .badDate h
  | refused h => exact .refused h
  | missing hp h hf => exact .missing hp h hf
  | noRoom hn h hr => exact .noRoom hn h hr
  | brokenOff h hb => exact .brokenOff h hb
  | halted s hs => cases hs

/-- From `w` to `w'` the transport may have changed, and there may be more directories. -/
structure Quiet (c : Cache) (r : Location) (url : String) (w w' : World σ) : Prop where
  base : Base w'.tree c.root r
  tree : Widened r (c.directoryOf url) w.tree w'.tree
  database : w'.database = w.database
  isOpen : w'.isOpen = w.isOpen

theorem Quiet.of_origin (hb : Base w.tree c.root r) (url : String) (o : σ) :
    Quiet c r url w { w with origin := o } :=
  ⟨hb, .refl _ _ _, rfl, rfl⟩

theorem download_cases (breaks : Step → Bool) (hd : IsHexDigest c.digest)
    (hb : Base w.tree c.root r) (t : Transport σ) (now : Int) (url : String) :
    (∃ e w', c.download t now url w = .error e w' ∧ Quiet c r url w w' ∧
        Fails breaks c r t url w e w'.origin) ∨
      (∃ dest o, c.pathFor url = .ok dest ∧ Asked t url w (.ok .notModified o) ∧
        w.tree.isFile dest ∧
        c.download t now url w = .ok (.unchanged dest) { w with origin := o }) ∨
      ∃ n v body o name t', c.nameOf? url = some n ∧ Asked t url w (.ok (.body v body) o) ∧
        body.failure = none ∧
        StagedIn w.tree t' c.root r (c.directoryOf url) n name body.data ∧
        c.download t now url w =
          .ok (.changed ⟨c.root ++ (c.directoryOf url ++ [name]),
            c.root ++ (c.directoryOf url ++ [n]), ⟨url, v, now⟩⟩)
            { w with tree := t', origin := o } := by
  have hquiet : Quiet c r url w w := Quiet.of_origin hb url w.origin
  rcases hp : c.pathFor url with e | dest
  · obtain ⟨hn, rfl⟩ := pathFor_eq_error_iff.1 hp
    refine .inl ⟨.notFileUrl url, w, ?_, hquiet, .badUrl hn⟩
    rw [download, bind_apply, hp]
    rfl
  by_cases ho : w.isOpen
  case neg =>
    exact .inl ⟨.database, w, download_of_closed t now hp ho, hquiet, .closed ho⟩
  rcases hk : w.database.index.record? url with e | known
  · have hcause : e = .invalidData .fetchDate := by
      rw [Index.record?] at hk
      split at hk
      · cases hk
      · split_ifs at hk
        cases hk
        rfl
    subst hcause
    refine .inl ⟨_, w, ?_, hquiet, .badDate hk⟩
    rw [download, bind_apply, hp]
    simp only [check, bind_apply, record?_of_open ho, hk]
  have hasked : ∀ {answer}, t url (conditionsOf known) w.origin = answer →
      Asked t url w answer := fun h => ⟨ho, known, hk, h⟩
  rw [download_eq t now hp ho hk]
  rcases ht : t url (conditionsOf known) w.origin with ⟨_ | ⟨v, body⟩, o⟩ | ⟨e, o⟩
  · by_cases hf : w.tree.isFile dest
    · exact .inr (.inl ⟨dest, o, rfl, hasked ht, hf, if_pos hf⟩)
    · exact .inl ⟨_, _, if_neg hf, Quiet.of_origin hb url o, .missing hp (hasked ht) hf⟩
  · obtain ⟨n, hn, rfl⟩ := pathFor_eq_ok_iff.1 hp
    have hspec := stage_spec (w := { w with origin := o }) hb (directoryOf_plain hd hn)
      ⟨url, v, now⟩ body
    rcases hspec with ⟨e, t', he, hb', hw, hcause⟩ | ⟨name, t', hok, hs, hf⟩
    · refine .inl ⟨e, _, he, ⟨hb', hw, rfl, rfl⟩, ?_⟩
      rcases hcause with ⟨rfl, hroom⟩ | hf
      · exact .noRoom hn (hasked ht) hroom
      · exact .brokenOff (hasked ht) hf
    · exact .inr (.inr ⟨n, v, body, o, name, t', hn, hasked ht, hf, hs, hok⟩)
  · exact .inl ⟨e, _, rfl, Quiet.of_origin hb url o, .refused (hasked ht)⟩

end Depot.Cache
