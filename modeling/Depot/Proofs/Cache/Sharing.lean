import Depot.Proofs.Cache.Coherence

/-!
# Files that share a place

The place of a file does not tell all URLs apart: two URLs share one if the first digits of their
hashes and their last segments agree, and then a fetch of one of them writes over the file of the
other, which the record of the other does not show (`places_iff`).
-/

namespace Depot.Cache

open FileTree

variable {c : Cache} {r p q : Location} {w w₀ w₁ w₂ : World Origin} {u v : String}
  {es : List Event} {a b : ByteArray}

/-- A fetch leaves the files of URLs with other places alone. -/
theorem read_step_fetch (hd : IsHexDigest c.digest) (hs : Sound c r w) (now : Date)
    (hp : c.pathFor u = .ok p) (hne : c.pathFor v ≠ .ok p) :
    (step c w (.fetch now v)).tree.read p = .ok b ↔ w.tree.read p = .ok b := by
  have hchange := change_step hd hs (.fetch now v)
  generalize step c w (.fetch now v) = w' at hchange
  generalize takes c w (.fetch now v) = taken at hchange
  cases hchange with
  | idle h => exact h.read_iff hd hs.base hp
  | fetch h => exact h.read_iff hd hs.base hp hne

/-- Fetching `u` and then `v`, of which nothing has been on record, and then `u` again. -/
theorem fetch_again {S : ByteArray → Prop} {now₁ now₂ : Date} {f₁ f₂ : Fetched} (now₃ : Date)
    (hd : IsHexDigest c.digest) (hk : Kept c r p S u w)
    (hinj : ∀ a b, S a → S b → c.digest a = c.digest b → a = b) (huv : u ≠ v)
    (hp : c.pathFor u = .ok p) (hq : c.pathFor v = .ok q)
    (hv : w.database.index.records.get? v = none)
    (ha : Serves w.origin u a) (hb : Serves w.origin v b)
    (h₁ : c.fetch (Origin.transport c.digest) now₁.seconds u w = .ok f₁ w₁)
    (h₂ : c.fetch (Origin.transport c.digest) now₂.seconds v w₁ = .ok f₂ w₂)
    (hpending : w₂.origin.pending u = 0) :
    ∃ w₃, c.fetch (Origin.transport c.digest) now₃.seconds u w₂ = .ok ⟨false, p⟩ w₃ ∧
      (w₃.tree.read p = .ok a ↔ p ≠ q ∨ a = b) := by
  have hstep : step c w (.fetch now₁ u) = w₁ := by rw [step, h₁]; rfl
  have hk₁ : Kept c r p S u w₁ := by
    rw [← hstep]
    refine hk.step hd hp (by simp) fun x hx hxu => ?_
    exact absurd (Option.some.inj hx).symm hxu
  have hread₁ : w₁.tree.read p = .ok a := by
    obtain ⟨-, b', hs, hread, -⟩ := (hk.coherent hd hp hinj).fetch _ _ _ h₁
    rw [hread, Option.some.inj (hs.symm.trans ha)]
  have hv₁ : tagOf w₁ v = none := by
    have hsame := (change_step hd hk.sound (.fetch now₁ u)).get?_records (v := v)
      fun h => huv (Option.some.inj h)
    rw [tagOf, ← hstep, hsame, hv]
    rfl
  have hres₁ : w₁.origin.resources = w.origin.resources := by
    rw [← hstep]
    exact (change_step hd hk.sound (.fetch now₁ u)).resources (by simp)
  have ha₁ : Serves w₁.origin u a := (serves_congr hres₁).2 ha
  have htag₁ : tagOf w₁ u = some (Origin.etag c.digest a) :=
    (hk₁.tagOf_eq_iff (hk₁.offered u a ha₁) hinj).2 hread₁
  rcases fetch_cases hd hk₁.sound.base now₂.seconds v with ⟨e, w', he, -⟩ |
    ⟨dest, data, w', hok, h⟩ | ⟨dest, data, w', hok, hdest, h⟩
  · rw [h₂] at he
    cases he
  · have htag := h.tag
    rw [hv₁] at htag
    cases htag
  rw [h₂] at hok
  cases hok
  obtain rfl : data = b := Option.some.inj
    (h.serves.symm.trans ((serves_congr hres₁).2 hb))
  have hrec : w₂.database.index.records.get? u = w₁.database.index.records.get? u := by
    rw [h.records, Table.get?_set_of_ne huv]
  have hread₂ : w₂.tree.read p = .ok a ↔ p ≠ q ∨ a = data := by
    by_cases hpq : p = q
    · rw [hpq, h.read_eq hd hq]
      simp [eq_comm]
    · have hne : c.pathFor v ≠ .ok p := fun hp' => hpq (Except.ok.inj (hp'.symm.trans hq))
      rw [h.read_iff hd hk₁.sound.base hp hne]
      simp [hread₁, hpq]
  have hfile : w₂.tree.isFile p := by
    by_cases hpq : p = q
    · rw [hpq]
      exact (isFile_iff _ _).2 ⟨data, h.read_eq hd hq⟩
    · exact (isFile_iff _ _).2 ⟨a, hread₂.2 (.inl hpq)⟩
  have hknown : w₂.database.index.record? u = .ok (w₁.database.index.records.get? u) := by
    rw [Index.record?, hrec]
    rcases hget : w₁.database.index.records.get? u with _ | rec
    · rfl
    · simp [hk₁.date rec hget]
  refine ⟨_, fetch_of_current now₃.seconds hp h.isOpen hknown hpending
    ((serves_congr h.resources).2 ha₁) ?_ hfile, hread₂⟩
  rw [tagOf, hrec]
  exact htag₁

/-- When `v` shares the place of `u`, and what that does to the file of `u`. Places that differ keep
the files apart. Otherwise, where a run has fetched `u` but not `v`, fetching `u`, then `v` and then
`u` again ends with an answer that the file is unchanged, while it holds the body of `v`. -/
theorem places_iff (hd : IsHexDigest c.digest) (huv : u ≠ v) (hp : c.pathFor u = .ok p)
    (hq : c.pathFor v = .ok q) :
    (p = q ↔ c.prefixOf u = c.prefixOf v ∧ c.nameOf? u = c.nameOf? v) ∧
      (p ≠ q → ∀ r w now b, Sound c r w →
        ((step c w (.fetch now v)).tree.read p = .ok b ↔ w.tree.read p = .ok b)) ∧
      ∀ r w w₀ es, EmptyDirectory w.tree c.root r → c.open w = .ok () w₀ →
        (∀ a b, Offers w.origin es a → Offers w.origin es b → c.digest a = c.digest b → a = b) →
        Apart c es u → (∀ e ∈ es, e.url? ≠ some v) →
        ∀ (now₁ now₂ now₃ : Date) f₁ f₂ w₁ w₂ a b,
          Serves (run c w₀ es).origin u a → Serves (run c w₀ es).origin v b →
          c.fetch (Origin.transport c.digest) now₁.seconds u (run c w₀ es) = .ok f₁ w₁ →
          c.fetch (Origin.transport c.digest) now₂.seconds v w₁ = .ok f₂ w₂ →
          w₂.origin.pending u = 0 →
          ∃ w₃, c.fetch (Origin.transport c.digest) now₃.seconds u w₂ = .ok ⟨false, p⟩ w₃ ∧
            (w₃.tree.read p = .ok a ↔ p ≠ q ∨ a = b) := by
  refine ⟨pathFor_eq_iff hp hq, fun hpq r w now b hs => ?_, ?_⟩
  · exact read_step_fetch hd hs now hp fun hp' => hpq (Except.ok.inj (hp'.symm.trans hq))
  · intro r w w₀ es he ho hinj hne hv now₁ now₂ now₃ f₁ f₂ w₁ w₂ a b ha hb h₁ h₂ hpending
    rcases open_of_empty he with ⟨-, w', hok, hfresh, horigin⟩ | ⟨-, e, w', herr⟩
    · rw [ho] at hok
      cases hok
      have hk : Kept c r p (Offers w.origin es) u (run c w₀ es) :=
        (hfresh.kept hd hp fun url b hs => .inl ⟨url, horigin ▸ hs⟩).run hd hp
          (fun url b h => .inr ⟨url, h⟩) hne
      have hnone : (run c w₀ es).database.index.records.get? v = none := by
        rw [get?_records_run hd hfresh.toSound hv, hfresh.index]
        rfl
      exact fetch_again now₃ hd hk hinj huv hp hq hnone ha hb h₁ h₂ hpending
    · rw [ho] at herr
      cases herr

section Sample

/-- The places of files do not tell URLs apart. -/
theorem pathFor_not_injective : ¬ ∀ u v p q, u ≠ v → sample.pathFor u = .ok p →
    sample.pathFor v = .ok q → p ≠ q := fun h =>
  h firstUrl secondUrl sharedPlace sharedPlace (by decide) pathFor_firstUrl pathFor_secondUrl rfl

/-- Both bodies are served and both files fetched; the first URL is then told that the second body
is its own. -/
theorem places_iff_shared : ∃ w₀ w₁ w₂ w₃, sample.open unused = .ok () w₀ ∧
    sample.fetch (Origin.transport Blake3.hex) epoch.seconds firstUrl
      (run sample w₀ [.serve firstUrl firstBody, .serve secondUrl secondBody]) =
        .ok ⟨true, sharedPlace⟩ w₁ ∧
    sample.fetch (Origin.transport Blake3.hex) epoch.seconds secondUrl w₁ =
      .ok ⟨true, sharedPlace⟩ w₂ ∧
    sample.fetch (Origin.transport Blake3.hex) epoch.seconds firstUrl w₂ =
      .ok ⟨false, sharedPlace⟩ w₃ ∧
    w₃.tree.read sharedPlace ≠ .ok firstBody := by
  have hd : IsHexDigest sample.digest := Blake3.isHexDigest_hex
  have huv : firstUrl ≠ secondUrl := by decide
  have hp := pathFor_firstUrl
  have hq := pathFor_secondUrl
  obtain ⟨hn, -⟩ := directoryOf_shared hp
  obtain ⟨hn', hdir'⟩ := directoryOf_shared hq
  obtain ⟨w₀, ho, hfresh₀, horigin⟩ := open_sample
  set es : List Event := [.serve firstUrl firstBody, .serve secondUrl secondBody]
  set w := run sample w₀ es
  have hfresh : Fresh sample sample.root w := hfresh₀.withOrigin _
  have hworigin :
      w.origin = (Origin.empty.serve firstUrl firstBody).serve secondUrl secondBody := by
    rw [← horigin]
    rfl
  have ha : Serves w.origin firstUrl firstBody := by
    rw [hworigin, Serves]
    decide
  have hb : Serves w.origin secondUrl secondBody := by
    rw [hworigin, Serves]
    decide
  have hnone : ∀ url, w.database.index.records.get? url = none := fun url => by
    rw [hfresh.index]
    rfl
  obtain ⟨w₁, h₁, hw₁⟩ := fetch_sample hfresh hp epoch.seconds (by rw [hworigin]; decide) ha
  have hroom₁ : Room w₁.tree sample.root sample.root (sample.directoryOf secondUrl) "f" :=
    hw₁.room hn (fun _ => ne_stagingName) (room_sample hfresh hq)
  obtain ⟨w₂, h₂, hw₂⟩ := fetch_first hd (hw₁.sound hfresh.toSound) epoch.seconds hw₁.isOpen hn'
    (by rw [hw₁.records, Table.get?_set_of_ne huv.symm, hnone])
    (by rw [hw₁.origin, hworigin]; decide) ((serves_congr hw₁.resources).2 hb) hroom₁
  rw [hdir'] at h₂
  have hbodies : ∀ a, Offers unused.origin es a → a = firstBody ∨ a = secondBody := by
    rintro a (⟨url, h⟩ | ⟨url, h⟩)
    · cases h
    · simp only [es, List.mem_cons, Event.serve.injEq, List.not_mem_nil, or_false] at h
      exact h.imp And.right And.right
  have hinj : ∀ a b, Offers unused.origin es a → Offers unused.origin es b →
      sample.digest a = sample.digest b → a = b := eq_of_hex_eq hbodies
  obtain ⟨w₃, h₃, hread⟩ := (places_iff hd huv hp hq).2.2 sample.root unused w₀ es
    emptyDirectory_unused ho hinj (by simp [es, Apart, Event.url?]) (by simp [es, Event.url?])
    epoch epoch epoch _ _ w₁ w₂ firstBody secondBody ha hb h₁ h₂
    (by rw [hw₂.origin, hw₁.origin, hworigin]; decide)
  refine ⟨w₀, w₁, w₂, w₃, ho, h₁, h₂, h₃, ?_⟩
  rw [Ne, hread]
  decide

end Sample

end Depot.Cache
