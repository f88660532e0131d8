import Depot.Proofs.Settings.Layers

/-!
# What is loaded

Every setting has one value that counts: that of its variable, or else that of the file, or else its
default. Loading comes down to these values (`load_effective`), so what they hide has no influence.
-/

namespace Depot.Settings

variable {t : FileTree} {base : Location} {file : Option String} {env : Environment} {l : Layer}
  {account : Option String} {layers : List Layer} {f : Field} {name d : String} {bound : Nat}
  {s : Settings} {values : Field → Option Literal}

/-- The value of a setting that counts. -/
def effective? (l : Layer) (env : Environment) (account : Option String) (f : Field) :
    Option Literal :=
  (chosen? l env f).or (f.default? env account)

section Bind

variable {α β : Type} {x : Except Error α} {next : α → Except Error β} {b : β} {e : Error}

theorem bind_eq_ok_iff : x >>= next = .ok b ↔ ∃ a, x = .ok a ∧ next a = .ok b := by
  cases x <;> simp [bind, Except.bind]

theorem bind_eq_error_iff :
    x >>= next = .error e ↔ x = .error e ∨ ∃ a, x = .ok a ∧ next a = .error e := by
  cases x <;> simp [bind, Except.bind]

end Bind

theorem textOf_eq_ok_iff {s : String} :
    textOf layers name d = .ok s ↔
      (find? layers name).or (some (.text d)) = some (.text s) := by
  rw [textOf]
  rcases find? layers name with _ | (_ | _ | _) <;> simp

theorem textOf_eq_error {e : Error} (h : textOf layers name d = .error e) : e = .unreadable := by
  rw [textOf] at h
  split at h <;> cases h
  rfl

theorem numberOf_eq_ok_iff {o : Option Nat} :
    numberOf layers name bound = .ok o ↔
      find? layers name = o.map (fun n : Nat => .integer n) ∧ ∀ n ∈ o, n < bound := by
  rw [numberOf]
  rcases find? layers name with _ | (_ | n | _)
  · cases o <;> simp
  · cases o <;> simp
  · dsimp only
    split_ifs with h
    · constructor
      · rintro ⟨⟩
        refine ⟨by simp [Int.toNat_of_nonneg h.1], ?_⟩
        rintro _ ⟨⟩
        omega
      · rintro ⟨hn, hlt⟩
        obtain ⟨m, rfl, hm⟩ := Option.map_eq_some_iff.1 hn.symm
        cases hm
        rfl
    · refine ⟨nofun, ?_⟩
      rintro ⟨hn, hlt⟩
      obtain ⟨m, rfl, hm⟩ := Option.map_eq_some_iff.1 hn.symm
      cases hm
      have := hlt m rfl
      omega
  · cases o <;> simp

theorem numberOf_eq_error {e : Error} (h : numberOf layers name bound = .error e) :
    e = .unreadable := by
  rw [numberOf] at h
  split at h
  · cases h
  · split_ifs at h
    cases h
    rfl
  · cases h
    rfl

/-- The value that the layers give, or else the default. -/
def settled? (env : Environment) (account : Option String) (layers : List Layer) (f : Field) :
    Option Literal :=
  (find? layers f.key).or (f.default? env account)

theorem retries_eq_ok_iff {n : Nat} :
    (∃ o, numberOf layers "retries" (2 ^ 32) = .ok o ∧ o.getD 0 = n) ↔
      settled? env account layers .retries = some (.integer n) ∧ n < 2 ^ 32 := by
  simp only [numberOf_eq_ok_iff, settled?, Field.key, Field.default?]
  constructor
  · rintro ⟨o, ⟨hfind, hlt⟩, rfl⟩
    rw [hfind]
    cases o with
    | none => exact ⟨rfl, by decide⟩
    | some n => exact ⟨rfl, hlt n rfl⟩
  · rintro ⟨hn, hlt⟩
    rcases hfind : find? layers "retries" with _ | x <;> rw [hfind] at hn
    · have hzero : n = 0 :=
        Int.ofNat_eq_zero.1 (Literal.integer.inj (Option.some.inj hn)).symm
      exact ⟨none, ⟨rfl, nofun⟩, hzero.symm⟩
    · cases hn
      refine ⟨some n, ⟨rfl, ?_⟩, rfl⟩
      rintro _ ⟨⟩
      exact hlt

theorem ofLayers_eq_ok_iff :
    ofLayers env layers account = .ok s ↔
      s.value? = settled? env account layers ∧ AllFit (settled? env account layers) := by
  have htimeout : find? layers "timeout" = settled? env account layers .timeout :=
    (Option.or_none).symm
  constructor
  · intro h
    simp only [ofLayers, bind_eq_ok_iff, textOf_eq_ok_iff] at h
    obtain ⟨cacheDir, hc, manifestUrl, hm, edition, he, retries, hr, timeout, ht, h⟩ := h
    cases h
    obtain ⟨hr, hlt⟩ := retries_eq_ok_iff.1 ⟨retries, hr, rfl⟩
    obtain ⟨ht, hlt'⟩ := numberOf_eq_ok_iff.1 ht
    have hvalue : value? ⟨cacheDir, manifestUrl, edition, retries.getD 0, timeout⟩ =
        settled? env account layers := value?_eq_iff.2 ⟨hc, hm, he, hr, htimeout.symm.trans ht⟩
    exact ⟨hvalue, hvalue ▸ allFit_value?_iff.2 ⟨hlt, hlt'⟩⟩
  · rintro ⟨hvalue, hfit⟩
    obtain ⟨hc, hm, he, hr, ht⟩ := value?_eq_iff.1 hvalue
    obtain ⟨hlt, hlt'⟩ := allFit_value?_iff.1 (hvalue ▸ hfit)
    obtain ⟨retries, hretries, hn⟩ := retries_eq_ok_iff.2 ⟨hr, hlt⟩
    simp only [ofLayers, bind_eq_ok_iff, textOf_eq_ok_iff]
    refine ⟨s.cacheDir, hc, s.manifestUrl, hm, s.edition, he, retries, hretries, s.timeout,
      numberOf_eq_ok_iff.2 ⟨htimeout.trans ht, hlt'⟩, ?_⟩
    rw [hn]
    rfl

theorem ofLayers_eq_error {e : Error} (h : ofLayers env layers account = .error e) :
    e = .unreadable := by
  simp only [ofLayers, bind_eq_error_iff] at h
  obtain h | ⟨_, -, h | ⟨_, -, h | ⟨_, -, h | ⟨_, -, h | ⟨_, -, h⟩⟩⟩⟩⟩ := h
  · exact textOf_eq_error h
  · exact textOf_eq_error h
  · exact textOf_eq_error h
  · exact numberOf_eq_error h
  · exact numberOf_eq_error h
  · cases h

theorem settled?_ne_none (hf : f ≠ .timeout) : settled? env account layers f ≠ none := by
  rw [settled?, ne_eq, Option.or_eq_none_iff]
  rintro ⟨-, h⟩
  cases f
  case timeout => exact hf rfl
  all_goals cases h

/-- The layers make settings just if all values are of the right kind. -/
theorem ofLayers_cases (env : Environment) (account : Option String) (layers : List Layer) :
    (∃ s, ofLayers env layers account = .ok s ∧ s.value? = settled? env account layers ∧
      AllFit (settled? env account layers)) ∨
    ofLayers env layers account = .error .unreadable ∧ ¬ AllFit (settled? env account layers) := by
  by_cases hfit : AllFit (settled? env account layers)
  · obtain ⟨s, hs⟩ := exists_value?_eq hfit fun f => settled?_ne_none
    exact .inl ⟨s, ofLayers_eq_ok_iff.2 ⟨hs, hfit⟩, hs, hfit⟩
  · rcases h : ofLayers env layers account with e | s
    · exact .inr ⟨by rw [ofLayers_eq_error h], hfit⟩
    · exact absurd (ofLayers_eq_ok_iff.1 h).2 hfit

/-- What counts is all that matters. -/
theorem ofLayers_congr {env' : Environment} {account' : Option String} {layers' : List Layer}
    (h : settled? env account layers = settled? env' account' layers') :
    ofLayers env layers account = ofLayers env' layers' account' := by
  rcases ofLayers_cases env account layers with ⟨s, hs, hvalue, hfit⟩ | ⟨hs, hfit⟩
  · exact hs.trans (ofLayers_eq_ok_iff.2 (h ▸ ⟨hvalue, hfit⟩)).symm
  · rcases ofLayers_cases env' account' layers' with ⟨s', -, -, hfit'⟩ | ⟨hs', -⟩
    · exact absurd (h ▸ hfit') hfit
    · exact hs.trans hs'.symm

theorem outcome_of_layers (env : Environment) (account : Option String) (layers : List Layer) :
    Outcome (settled? env account layers) ((ofLayers env layers account).bind validate) := by
  rcases ofLayers_cases env account layers with ⟨s, hs, hvalue, hfit⟩ | ⟨hs, hfit⟩ <;> rw [hs]
  · rw [← hvalue] at hfit ⊢
    exact outcome_validate hfit
  · exact outcome_unreadable hfit

/-- What the file gives that is loaded. A file that is asked for exists, the usual one may be
missing or have no place, and what there is can be read. -/
inductive Supplies (t : FileTree) (base : Location) (account : Option String) :
    Option String → Environment → Layer → Prop
  | asked {path : String} {env : Environment} {bytes : ByteArray} {l : Layer} :
      t.read (Location.ofText base path) = .ok bytes → fileLayer? bytes = some l →
      Supplies t base account (some path) env l
  | usual {path : String} {env : Environment} {bytes : ByteArray} {l : Layer} :
      env.settingsFile? account = some path →
      t.read (Location.ofText base path) = .ok bytes → fileLayer? bytes = some l →
      Supplies t base account none env l
  | missing {path : String} {env : Environment} {e : FileTree.Error} :
      env.settingsFile? account = some path →
      t.read (Location.ofText base path) = .error e → Supplies t base account none env []
  | homeless {env : Environment} :
      env.settingsFile? account = none → Supplies t base account none env []

theorem Supplies.nodup (h : Supplies t base account file env l) : (l.map Prod.fst).Nodup := by
  cases h with
  | asked _ hl | usual _ _ hl => exact fileLayer?_nodup hl
  | missing | homeless => exact List.nodup_nil

theorem settled?_layers (hl : (l.map Prod.fst).Nodup) (henv : WellNamed env) :
    settled? env account [l, environmentLayer env] = effective? l env account := by
  funext f
  rw [settled?, effective?, find?_layers hl henv]

/-- A file that is missing is as good as an empty one. -/
theorem ofLayers_environment (env : Environment) (account : Option String) :
    ofLayers env [environmentLayer env] account =
      ofLayers env [[], environmentLayer env] account := by
  refine ofLayers_congr (funext fun f => ?_)
  have hfind : find? [environmentLayer env] f.key = find? [[], environmentLayer env] f.key := by
    simp only [find?, List.reverse_cons, List.reverse_nil, List.nil_append, List.singleton_append,
      List.findSome?_cons, List.findSome?_nil, List.lookup_nil]
  rw [settled?, settled?, hfind]

theorem load_some {path : String} {bytes : ByteArray}
    (h : t.read (Location.ofText base path) = .ok bytes) :
    load t base (some path) env account = ofSources (some bytes) env account := by
  delta load
  dsimp only
  rw [h]
  rfl

theorem load_none (t : FileTree) (base : Location) (env : Environment) (account : Option String) :
    load t base none env account =
      ofSources ((env.settingsFile? account).bind fun path =>
        (t.read (Location.ofText base path)).toOption) env account := rfl

theorem load_eq (h : Supplies t base account file env l) :
    load t base file env account =
      (ofLayers env [l, environmentLayer env] account).bind validate := by
  cases h with
  | asked hread hl =>
    simp only [load_some hread, ofSources, Settings.layers, hl]
    rfl
  | usual hfile hread hl =>
    simp only [load_none, hfile, Option.bind_some, hread, Except.toOption, ofSources,
      Settings.layers, hl]
    rfl
  | missing hfile hread =>
    simp only [load_none, hfile, Option.bind_some, hread, Except.toOption, ofSources,
      Settings.layers, ← ofLayers_environment env account]
    rfl
  | homeless hfile =>
    simp only [load_none, hfile, Option.bind_none, ofSources, Settings.layers,
      ← ofLayers_environment env account]
    rfl

theorem load_outcome (henv : WellNamed env) (hl : Supplies t base account file env l) :
    Outcome (effective? l env account) (load t base file env account) := by
  rw [load_eq hl, ← settled?_layers hl.nodup henv]
  exact outcome_of_layers env account _

/-- Where nothing is given the defaults are loaded. -/
theorem load_default (henv : WellNamed env) (hl : Supplies t base account file env l)
    (hnone : ∀ f, chosen? l env f = none) :
    load t base file env account =
      .ok ⟨env.cacheDirectory account, defaultManifestUrl, defaultEdition, 0, none⟩ := by
  have hvalues : effective? l env account = fun f => f.default? env account := funext fun f => by
    rw [effective?, hnone, Option.none_or]
  have houtcome := load_outcome henv hl
  rw [hvalues] at houtcome
  refine (houtcome.ok_iff _).2 ⟨?_, default?_fits env account, default?_not_refused env account⟩
  exact value?_eq_iff.2 ⟨rfl, rfl, rfl, rfl, rfl⟩

/-- Loading comes down to the values that count: which error there is and which settings there are
is told by these alone, so what is hidden by a variable has no influence, and nor has what is given
to no setting. The settings that are loaded stay valid when arguments change them. -/
theorem load_effective (henv : WellNamed env) (hl : Supplies t base account file env l) :
    Outcome (effective? l env account) (load t base file env account) ∧
    (∀ t' base' file' env' account' l', WellNamed env' → Supplies t' base' account' file' env' l' →
      effective? l' env' account' = effective? l env account →
      load t' base' file' env' account' = load t base file env account) ∧
    (∀ t' base' file' l', Supplies t' base' account file' env l' →
      (∀ f, given? env f = none → l'.lookup f.key = l.lookup f.key) →
      load t' base' file' env account = load t base file env account) ∧
    ∀ s, load t base file env account = .ok s →
      s.validate = .ok s ∧ ∀ a : Arguments, (a.configure s).validate = .ok (a.configure s) := by
  have hsame : ∀ t' base' file' env' account' l', WellNamed env' →
      Supplies t' base' account' file' env' l' →
      effective? l' env' account' = effective? l env account →
      load t' base' file' env' account' = load t base file env account := by
    intro t' base' file' env' account' l' henv' hl' h
    rw [load_eq hl, load_eq hl', ofLayers_congr]
    rw [settled?_layers hl'.nodup henv', h, settled?_layers hl.nodup henv]
  have houtcome := load_outcome henv hl
  refine ⟨houtcome, hsame, fun t' base' file' l' hl' h => ?_, fun s hs => ?_⟩
  · refine hsame t' base' file' env account l' henv hl' (funext fun f => ?_)
    rcases hg : given? env f with _ | v
    · rw [effective?, effective?, chosen?, chosen?, h f hg]
    · simp only [effective?, chosen?, hg, Option.map_some, Option.some_or]
  · obtain ⟨hvalue, -, hno⟩ := (houtcome.ok_iff s).1 hs
    rw [← hvalue] at hno
    refine ⟨validate_eq_ok_iff.2 ⟨rfl, hno⟩, fun a => ?_⟩
    exact validate_eq_ok_iff.2 ⟨rfl, fun h => hno ((refused_configure a s).1 h)⟩

section Sample

/-- The retries are no number. -/
def wrongRetries : ByteArray := "retries = \"many\"\nedition = \"base\"\n".toUTF8

def rightRetries : ByteArray := "retries = 1\nedition = \"base\"\nmore = \"\"\n".toUTF8

def twoFiles : FileTree where
  nodes := [(["a"], .file wrongRetries 0o644), (["b"], .file rightRetries 0o644)]

/-- Two of the variables are for settings, and one of them gives the retries. -/
def twoVariables : Environment :=
  [("HOME", "/h"), ("MONGODL_RETRIES", "5"), ("mongodl_Timeout", "30")]

theorem wellNamed_twoVariables : WellNamed twoVariables := by
  constructor
  · intro v hv hp
    simp only [twoVariables, List.mem_cons, List.not_mem_nil, or_false] at hv
    rcases hv with rfl | rfl | rfl
    · exact absurd hp (by decide)
    · exact ⟨.retries, by decide⟩
    · exact ⟨.timeout, by decide⟩
  · refine .cons (fun w hw f hf => ?_) (.cons (fun w hw f hf => ?_) (.cons nofun .nil))
    · exact absurd hf.prefixed (by decide)
    · obtain rfl : f = .retries := hf.unique (by decide)
      rw [List.mem_singleton.1 hw]
      decide

theorem supplies_wrongRetries :
    Supplies twoFiles [] (some Environment.rootHome) (some "/a") twoVariables
      [("retries", .text "many"), ("edition", .text "base")] := by
  have hread : twoFiles.read (Location.ofText [] "/a") = .ok wrongRetries := by decide +kernel
  exact .asked hread (by decide +kernel)

theorem supplies_rightRetries :
    Supplies twoFiles [] (some Environment.rootHome) (some "/b") twoVariables
      [("retries", .integer 1), ("edition", .text "base"), ("more", .text "")] := by
  have hread : twoFiles.read (Location.ofText [] "/b") = .ok rightRetries := by decide +kernel
  exact .asked hread (by decide +kernel)

/-- What counts in the first of the files and the variables. -/
theorem value?_twoVariables :
    value? ⟨"/h/.cache/mongodl", defaultManifestUrl, "base", 5, some 30⟩ =
      effective? [("retries", .text "many"), ("edition", .text "base")] twoVariables
        (some Environment.rootHome) := by
  funext f
  cases f <;> decide +kernel

/-- A value of the wrong kind does no harm where a variable hides it. -/
theorem load_effective_hidden :
    WellNamed twoVariables ∧
    load twoFiles [] (some "/a") twoVariables =
      .ok ⟨"/h/.cache/mongodl", defaultManifestUrl, "base", 5, some 30⟩ ∧
    load twoFiles [] (some "/b") twoVariables = load twoFiles [] (some "/a") twoVariables := by
  obtain ⟨houtcome, -, hhidden, -⟩ := load_effective wellNamed_twoVariables supplies_wrongRetries
  rw [← value?_twoVariables] at houtcome
  refine ⟨wellNamed_twoVariables,
    (houtcome.ok_iff _).2 ⟨rfl, allFit_value?_iff.2 ⟨by decide, ?_⟩, ?_⟩,
    hhidden _ _ _ _ supplies_rightRetries fun f hf => ?_⟩
  · rintro _ ⟨⟩
    decide
  · rw [refused_value?_iff]
    decide
  · cases f
    case retries => exact absurd hf (by decide)
    all_goals decide

end Sample

end Depot.Settings
