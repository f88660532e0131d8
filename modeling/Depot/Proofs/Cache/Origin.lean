import Depot.Cache.Origin
import Mathlib.Tactic.SplitIfs

/-!
# What an origin answers

The pieces of a body come to the body again (`data_chunksFrom`). A request changes counters only,
and it is answered with the served body or with a word that the copy at hand is that body
(`transport_cases`).
-/

namespace Depot.Cache.Origin

variable {digest : ByteArray → String} {url : String} {conditions : Validators} {o : Origin}
  {data b : ByteArray}

theorem extract_of_size_le {i j : Nat} (h : data.size ≤ j) :
    data.extract i j = data.extract i data.size := by
  ext
  · simp
    omega
  · simp

theorem foldl_chunksFrom (data : ByteArray) (start : Nat) (acc : ByteArray) :
    (chunksFrom data start).foldl (· ++ ·) acc = acc ++ data.extract start data.size := by
  fun_induction chunksFrom data start generalizing acc with
  | case1 start h ih =>
    rw [List.foldl_cons, ih, ByteArray.append_assoc, ByteArray.extract_append_extract,
      Nat.min_eq_left (by omega), extract_of_size_le (Nat.le_max_right ..)]
  | case2 start h =>
    have hempty : data.extract start data.size = .empty := by
      rw [ByteArray.extract_eq_empty_iff]
      omega
    rw [List.foldl_nil, hempty, ByteArray.append_empty]

theorem data_chunksFrom (data : ByteArray) : Body.data ⟨chunksFrom data 0, none⟩ = data := by
  rw [Body.data, foldl_chunksFrom, ByteArray.empty_append, ByteArray.extract_zero_size]

theorem etag_inj (h : etag digest data = etag digest b) : digest data = digest b := by
  simpa [etag] using h

/-- The answer to a request that does not fail by order. -/
def answer (digest : ByteArray → String) (data : ByteArray) (conditions : Validators) : Response :=
  if conditions.etag = some (etag digest data) then .notModified
  else .body ⟨some (etag digest data), none⟩ ⟨chunksFrom data 0, none⟩

theorem transport_of_pending (h : 0 < o.pending url) :
    transport digest url conditions o =
      .error (.download url) ((o.count url).failNext url (o.pending url - 1)) :=
  if_pos h

theorem transport_of_missing (h : o.pending url = 0) (hr : o.resources.get? url = none) :
    transport digest url conditions o = .error (.httpStatus url 404) (o.count url) := by
  have hp : ¬ 0 < (o.count url).pending url := by
    change ¬ 0 < o.pending url
    omega
  have hr' : (o.count url).resources.get? url = none := hr
  rw [transport]
  simp only [if_neg hp, hr']

theorem transport_of_served (h : o.pending url = 0) (hr : o.resources.get? url = some data) :
    transport digest url conditions o = .ok (answer digest data conditions) (o.count url) := by
  have hp : ¬ 0 < (o.count url).pending url := by
    change ¬ 0 < o.pending url
    omega
  have hr' : (o.count url).resources.get? url = some data := hr
  rw [transport]
  simp only [if_neg hp, hr', answer]
  split_ifs <;> rfl

/-- Every request leaves the bodies as they are, and what is answered is about the body that is
served. -/
theorem transport_cases (digest : ByteArray → String) (url : String) (conditions : Validators)
    (o : Origin) :
    (∃ e o', transport digest url conditions o = .error e o' ∧ o'.resources = o.resources ∧
        ∀ path, e ≠ .inconsistent path) ∨
      ∃ data, o.resources.get? url = some data ∧
        transport digest url conditions o = .ok (answer digest data conditions) (o.count url) := by
  by_cases hp : 0 < o.pending url
  · exact .inl ⟨_, _, transport_of_pending hp, rfl, by simp⟩
  have hp : o.pending url = 0 := by omega
  rcases hr : o.resources.get? url with _ | data
  · exact .inl ⟨_, _, transport_of_missing hp hr, rfl, by simp⟩
  · exact .inr ⟨data, rfl, transport_of_served hp hr⟩

end Depot.Cache.Origin
