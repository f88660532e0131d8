import Depot.Proofs.Archive.DryRun
import Depot.Proofs.Archive.Formats
import Depot.Proofs.Cache.Frame
import Depot.Proofs.Cache.Refresh
import Depot.Proofs.Catalog.Query
import Depot.Session.Run

/-!
# What a session leaves alone

A session that lists, that only asks for a URL, or that finds nothing to download does no more than
bring the list of downloads up to date, and a test run does no more than fetch. So neither touches
the directory to extract to (`execute_frame`).
-/

namespace Depot

/-- The directory that a session with these arguments extracts to. -/
def Arguments.outputOn (a : Arguments) (h : Platform.Host) : Location :=
  Location.ofText (Location.names h.directory) (a.out.getD h.directory)

namespace Session

open Cache FileTree

variable {σ α : Type} {c : Cache} {t : Transport σ} {now : Int} {base : Location} {r : Retry}
  {q : Request} {h : Platform.Host} {a : Arguments} {s : Settings} {w w' : World σ}

/-- The world that a part of a session leaves. -/
def worldAfter : EStateM.Result Error (World σ) α → World σ
  | .ok _ w | .error _ w => w

theorem download_apply (c : Cache) (t : Cache.Transport σ) (now : Int) (base : Location) (r : Retry)
    (q : Request) (w : World σ) :
    download c t now base r q w =
      match Cache.query q.query w with
      | .error e w => .error (.cache e) w
      | .ok entries w =>
        match entries.head? >>= Entry.url? with
        | none => .error (.noMatch q.query.describe) w
        | some url =>
          if q.noDownload then .ok (.resolved url) w
          else
            match Cache.retry r (c.fetch t now url) w with
            | .error e w => .error (.cache e) w
            | .ok f w =>
              match Archive.extract f.path.render f.path (Location.ofText base q.out) q.options
                w.tree with
              | .ok report tree => .ok (.extracted report) { w with tree := tree }
              | .error e tree => .error (.archive e) { w with tree := tree } := by
  rw [download, bind_apply, onCache]
  rcases Cache.query q.query w with ⟨entries, w⟩ | ⟨e, w⟩
  · dsimp only
    rcases entries.head? >>= Entry.url? with _ | url
    · rfl
    · dsimp only
      by_cases hq : q.noDownload
      · simp only [hq, if_true]
        rfl
      · simp only [hq, Bool.false_eq_true, if_false, bind_apply, onCache]
        rcases Cache.retry r (c.fetch t now url) w with ⟨f, w'⟩ | ⟨e, w'⟩
        · simp only [onArchive]
          rcases Archive.extract f.path.render f.path (Location.ofText base q.out) q.options
            w'.tree with ⟨report, tree⟩ | ⟨e, tree⟩ <;> rfl
        · rfl
  · rfl

/-- Where there is nothing to fetch, nothing happens. -/
theorem worldAfter_download_of_idle (c : Cache) (t : Cache.Transport σ) (now : Int)
    (base : Location) (r : Retry) (hq : q.noDownload ∨
      ∀ row ∈ w.database.index.catalog.rows, ¬ row.matches q.query) :
    worldAfter (download c t now base r q w) = w := by
  rw [download_apply]
  rcases query_cases q.query w with ⟨e, he⟩ | ⟨entries, hentries, hok⟩
  · rw [he]
    rfl
  rw [hok]
  dsimp only
  rcases hurl : entries.head? >>= Entry.url? with _ | url
  · rfl
  rcases hq with hq | hq
  · simp only [hq, if_true]
    rfl
  · have hnone : w.database.index.catalog.rows.filter (·.matches q.query) = [] :=
      List.filter_eq_nil_iff.2 hq
    rw [Catalog.query, hnone, List.mergeSort_nil] at hentries
    cases hentries
    cases hurl

/-- A test run does no more than fetch. -/
theorem worldAfter_download_of_test (c : Cache) (t : Cache.Transport σ) (now : Int)
    (base : Location) (r : Retry) (w : World σ) (hq : q.options.test) :
    worldAfter (download c t now base r q w) = w ∨
      ∃ url, worldAfter (download c t now base r q w) =
        Cache.worldOf (Cache.retry r (c.fetch t now url) w) := by
  rw [download_apply]
  rcases query_cases q.query w with ⟨e, he⟩ | ⟨entries, -, hok⟩
  · rw [he]
    exact .inl rfl
  rw [hok]
  dsimp only
  rcases entries.head? >>= Entry.url? with _ | url
  · exact .inl rfl
  dsimp only
  split
  · exact .inl rfl
  right
  refine ⟨url, ?_⟩
  rcases Cache.retry r (c.fetch t now url) w with ⟨f, w'⟩ | ⟨e, w'⟩
  · have htree := Archive.treeAfter_extract_of_test hq f.path.render f.path
      (Location.ofText base q.out) w'.tree
    dsimp only
    rcases hx : Archive.extract f.path.render f.path (Location.ofText base q.out) q.options
      w'.tree with ⟨report, tree⟩ | ⟨e, tree⟩ <;> rw [hx] at htree <;> cases htree <;> rfl
  · rfl

/-- After the refresh a session either ends or goes on to a download. -/
theorem execute_cases (c : Cache) (t : Cache.Transport σ) (now : Int) (h : Platform.Host)
    (a : Arguments) (s : Settings) (w : World σ) :
    worldAfter (execute c t now h a s w) =
        Cache.worldOf (Cache.retry { retries := s.retries } (c.refresh t now) w) ∨
      ∃ b w₁ q, Cache.retry { retries := s.retries } (c.refresh t now) w = .ok b w₁ ∧
        ¬ a.list ∧ a.request h s = .ok q ∧
        worldAfter (execute c t now h a s w) = worldAfter (download c t now
          (Location.names h.directory) { retries := s.retries } q w₁) := by
  rw [execute, bind_apply, onCache]
  rcases Cache.retry { retries := s.retries } (c.refresh t now) w with ⟨b, w₁⟩ | ⟨e, w₁⟩
  case error => exact .inl rfl
  by_cases hl : a.list
  · left
    simp only [hl, if_true, bind_apply, onCache]
    by_cases ho : w₁.isOpen
    · simp only [index_of_open ho, Cache.check]
      rcases Listing.ofQuery w₁.database.index.catalog a.filters with e | text <;> rfl
    · simp only [index_of_closed ho]
      rfl
  simp only [hl, Bool.false_eq_true, if_false, bind_apply, check]
  rcases a.request h s with e | q
  · exact .inl rfl
  right
  refine ⟨b, w₁, q, rfl, by simp, rfl, ?_⟩
  dsimp only
  rcases download c t now (Location.names h.directory) { retries := s.retries } q w₁ with
    ⟨url | report, w₂⟩ | ⟨e, w₂⟩ <;> rfl

/-- A session of which every part goes right ends with what its archive held. -/
theorem execute_of_extract {b : Bool} {w₁ w₂ : World σ} {entries : List Entry} {url : String}
    {f : Fetched} {report : Archive.Report} {tree : FileTree}
    (hrefresh : Cache.retry { retries := s.retries } (c.refresh t now) w = .ok b w₁)
    (hlist : a.list = false) (hq : a.request h s = .ok q) (hdownload : q.noDownload = false)
    (hquery : Cache.query q.query w₁ = .ok entries w₁)
    (hurl : entries.head? >>= Entry.url? = some url)
    (hfetch : Cache.retry { retries := s.retries } (c.fetch t now url) w₁ = .ok f w₂)
    (hextract : Archive.extract f.path.render f.path
      (Location.ofText (Location.names h.directory) q.out) q.options w₂.tree = .ok report tree) :
    execute c t now h a s w =
      .ok ⟨!(report.count = 0 ∧ a.emptyIsError), ""⟩ { w₂ with tree := tree } := by
  rw [execute, bind_apply, onCache, hrefresh]
  simp only [hlist, Bool.false_eq_true, if_false, bind_apply, check, hq, download_apply, hquery,
    hurl, hdownload, hfetch, hextract]
  rfl

theorem of_request (hq : a.request h s = .ok q) :
    q.noDownload = a.noDownload ∧ q.options.test = a.test := by
  rw [Arguments.request] at hq
  rcases ht : a.targetOn h with e | target <;> rw [ht] at hq <;> cases hq
  exact ⟨rfl, rfl⟩

theorem pathFor_subset_within (hd : IsHexDigest c.digest) (url : String) :
    {l | c.pathFor url = .ok l} ⊆ within c.root := by
  intro l hl
  obtain ⟨n, hn, rfl⟩ := pathFor_eq_ok_iff.1 hl
  exact ⟨_, directoryOf_plain hd hn, rfl⟩

theorem refreshed_confined (c : Cache) (t : Cache.Transport σ) (now : Int) (r : Retry)
    (w : World σ) :
    Confined c t c.manifestUrl w (Cache.worldOf (Cache.retry r (c.refresh t now) w)) :=
  retry_related .trans (refresh_confined c t now) r w

/-- What a session asks for, if anything, is nothing that its cache knows of after the refresh. -/
def Unmatched (c : Cache) (t : Cache.Transport σ) (now : Int) (h : Platform.Host) (a : Arguments)
    (s : Settings) (w : World σ) : Prop :=
  ∀ b w₁ q, Cache.retry { retries := s.retries } (c.refresh t now) w = .ok b w₁ →
    a.request h s = .ok q → ∀ row ∈ w₁.database.index.catalog.rows, ¬ row.matches q.query

theorem execute_confined (hidle : a.list ∨ a.noDownload ∨ Unmatched c t now h a s w) :
    Confined c t c.manifestUrl w (worldAfter (execute c t now h a s w)) := by
  have hrefresh := refreshed_confined c t now { retries := s.retries } w
  rcases execute_cases c t now h a s w with heq | ⟨b, w₁, q, hr, hl, hq, heq⟩ <;> rw [heq]
  · exact hrefresh
  rw [hr] at hrefresh
  have hnothing : q.noDownload ∨ ∀ row ∈ w₁.database.index.catalog.rows, ¬ row.matches q.query := by
    rcases hidle with hlist | hno | hnone
    · exact absurd hlist hl
    · exact .inl ((of_request hq).1.trans hno)
    · exact .inr (hnone b w₁ q hr hq)
  rw [worldAfter_download_of_idle c t now _ _ hnothing]
  exact hrefresh

theorem execute_changed (hd : IsHexDigest c.digest) (t : Cache.Transport σ) (now : Int)
    (s : Settings) (w : World σ) (htest : a.test) :
    Changed (within c.root) w.tree (worldAfter (execute c t now h a s w)).tree := by
  have hrefresh := (refreshed_confined c t now { retries := s.retries } w).tree.mono
    (pathFor_subset_within hd c.manifestUrl)
  rcases execute_cases c t now h a s w with heq | ⟨b, w₁, q, hr, -, hq, heq⟩ <;> rw [heq]
  · exact hrefresh
  rw [hr] at hrefresh
  rcases worldAfter_download_of_test c t now (Location.names h.directory)
    { retries := s.retries } w₁ ((of_request hq).2.trans htest) with hend | ⟨url, hend⟩ <;>
    rw [hend]
  · exact hrefresh
  · have hfetch := retry_related .trans (fetch_confined c t now url) { retries := s.retries } w₁
    exact hrefresh.trans (hfetch.tree.mono (pathFor_subset_within hd url))

/-- The cache has been opened, so that its directory is there (`isDirectory_of_open`), and the
output directory is apart from it. Then, whatever comes of a session that only lists, does not
download, or finds nothing, it asks for the list of downloads only, and it changes no record and no
file but those of the list. Neither such a session nor a test run touches the output directory. -/
theorem execute_frame (t : Cache.Transport σ) (now : Int) (s : Settings)
    (hd : IsHexDigest c.digest) (hroot : w.tree.isDirectory c.root)
    (hapart : Apart w.tree c.root (a.outputOn h)) :
    let w' := worldAfter (execute c t now h a s w)
    (a.list ∨ a.noDownload ∨ Unmatched c t now h a s w →
      AskedOnly t c.manifestUrl w.origin w'.origin ∧
        (∀ url, url ≠ c.manifestUrl →
          w'.database.index.records.get? url = w.database.index.records.get? url) ∧
        (∀ p, (∀ l, c.pathFor c.manifestUrl = .ok l → ¬ Leads w.tree l p) →
          w'.tree.find? p = w.tree.find? p ∨
            w.tree.find? p = none ∧ w'.tree.find? p = some .directory) ∧
        Untouched (a.outputOn h) w.tree w'.tree) ∧
      (a.test → Untouched (a.outputOn h) w.tree w'.tree) := by
  constructor
  · intro hidle
    have hconfined := execute_confined hidle
    have hchanged := hconfined.tree.mono (pathFor_subset_within hd c.manifestUrl)
    refine ⟨hconfined.asked, hconfined.records, fun p hp => ?_, hchanged.untouched hroot hapart⟩
    rcases hconfined.tree.node p with heq | ⟨hnone, hdir, -⟩ | ⟨l, hl, hlead⟩
    · exact .inl heq
    · exact .inr ⟨hnone, hdir⟩
    · exact absurd hlead (hp l hl)
  · intro htest
    exact (execute_changed hd t now s w htest).untouched hroot hapart

section Sample

/-- A list with one archive. -/
def oneArchive : ByteArray :=
  ⟨(("\x7b\"versions\":[\x7b\"version\":\"7.0.1\",\"downloads\":[\x7b\"target\":\"rhel80\","
    ++ "\"arch\":\"x86_64\",\"edition\":\"base\",\"archive\":\x7b\"url\":\"https://h/i.zip\""
    ++ "\x7d\x7d]\x7d]\x7d").toList.map fun c => UInt8.ofNat c.toNat).toArray⟩

def archiveUrl : String := "https://h/i.zip"

/-- An empty directory for a cache, beside a directory with one file. -/
def bareTree : FileTree :=
  ⟨[(["cache"], .directory), (["out"], .directory), (["out", "f"], .file .empty 0o755)]⟩

/-- A cache that has just been opened. -/
def sampleWorld : World Origin where
  tree := bareTree.insert ["cache", databaseFile] (.file .empty newFileMode)
  database := ⟨[Database.firstMigration], true, .empty⟩
  isOpen := true
  origin := (Origin.empty.serve sample.manifestUrl oneArchive).serve archiveUrl Archive.itemsZip

def sampleHost : Platform.Host := ⟨none, "x86_64", "/"⟩

def sampleSettings : Settings := ⟨"/cache", sample.manifestUrl, "base", 2, none⟩

def sampleArguments : Arguments :=
  { Arguments.default with
    version := some "7.0.1", target := some "rhel80", arch := some "x86_64",
    component := some "archive", out := some "/out" }

def testArguments : Arguments := { sampleArguments with test := true, emptyIsError := true }

def testRequest : Request where
  query := ⟨some (.ofText "7.0.1"), some "rhel80", some "x86_64", some "base", some "archive"⟩
  out := "/out"
  options := ⟨none, 0, true⟩
  noDownload := false

/-- What is left after a session with these arguments. -/
def sampleEnd (a : Arguments) : World Origin :=
  worldAfter (execute sample (Origin.transport Blake3.hex) 0 sampleHost a sampleSettings
    sampleWorld)

theorem sampleWorld_noLink (l : Location) (target : String) :
    sampleWorld.tree.find? l ≠ some (.link target) := by
  rcases eq_or_ne l [] with rfl | hl
  · simp
  intro h
  have hmem := mem_nodes_of_find? hl h
  simp [sampleWorld, bareTree, FileTree.insert, FileTree.erase] at hmem

theorem apart_sample : Apart sampleWorld.tree sample.root ["out"] := by
  have hcache : Plain sample.root := by simp [Plain, sample]
  have hout : Plain ["out"] := by simp [Plain]
  have hunlinked : Unlinked sampleWorld.tree sample.root := fun _ _ _ _ l target _ =>
    sampleWorld_noLink l target
  refine apart_of_unlinked hunlinked fun p q hp hq => ?_
  rw [hp.eq_of_noLink sampleWorld_noLink hcache, hq.eq_of_noLink sampleWorld_noLink hout]
  decide

theorem find?_bareTree_of_below {l : Location} (hl : Below ["cache"] l) :
    bareTree.find? l = none := by
  obtain ⟨n, ns, rfl⟩ := hl
  rfl

theorem fresh_sample : Fresh sample sample.root sampleWorld where
  base := by
    have hempty : EmptyDirectory bareTree sample.root ["cache"] :=
      ⟨by decide +kernel, rfl, fun _ => find?_bareTree_of_below⟩
    exact hempty.base.insert (List.prefix_refl _) rfl (by simp) (.inr (by
      rw [find?_bareTree_of_below ⟨databaseFile, [], rfl⟩]
      simp))
  file := ⟨newFileMode, find?_insert_self bareTree ["cache"] databaseFile _⟩
  fits := by decide
  migrated := rfl
  isOpen := rfl
  index := rfl
  empty l hl hne := (find?_insert_of_ne hne ..).trans (find?_bareTree_of_below hl)

theorem pathFor_list : sample.pathFor sample.manifestUrl =
    .ok (sample.root ++ (["files", "32ca"] ++ ["list.json"])) :=
  pathFor_of_toOption (by decide +kernel)

theorem pathFor_archive : sample.pathFor archiveUrl =
    .ok (sample.root ++ (["files", "fb5a"] ++ ["i.zip"])) :=
  pathFor_of_toOption (by decide +kernel)

theorem request_test : testArguments.request sampleHost sampleSettings = .ok testRequest := rfl

theorem parse_oneArchive : ∃ m, Manifest.parse oneArchive = .ok m ∧
    (∀ i ∈ m.items, ∀ n ∈ i.data.numbers, n.Whole) ∧
    (m.items.filter (·.meets testRequest.query)).map (·.entry.url?) = [some archiveUrl] :=
  Manifest.exists_parse (by decide +kernel)

/-- A test finds what the sample holds. -/
theorem extract_itemsZip {t : FileTree} {archive : String} {source : Location}
    (hformat : Archive.Format.ofPath archive = .ok .zip)
    (h : t.read source = .ok Archive.itemsZip) :
    Archive.extract archive source ["out"] testRequest.options t =
      .ok ⟨[["out", "d"], ["out", "d", "f"]], 2, 0, true⟩ t := by
  have hopen : Archive.opened t archive source none = .ok (none, Zip.read Archive.itemsZip) :=
    Archive.opened_of_read hformat rfl h rfl
  rw [Archive.extract_eq, show testRequest.options.pattern = none from rfl, hopen,
    Archive.read_zip Archive.zipHolds_sample]
  exact Archive.extractEntries_eq_ok_iff.2 ⟨Archive.storeAll_test rfl _ t, rfl, by decide +kernel⟩

/-- A test run fetches the archive, finds what is in it, and is content. -/
theorem execute_testArguments :
    ∃ w', execute sample (Origin.transport Blake3.hex) 0 sampleHost testArguments sampleSettings
        sampleWorld = .ok ⟨true, ""⟩ w' ∧
      w'.origin.requestCount archiveUrl = 1 := by
  have hd : IsHexDigest sample.digest := Blake3.isHexDigest_hex
  obtain ⟨hlist, hlistDir⟩ := of_pathFor pathFor_list
  obtain ⟨harchive, harchiveDir⟩ := of_pathFor pathFor_archive
  have hplain : ∀ k, "list.json" ≠ stagingName k := fun k h => by
    have := congrArg String.toList h
    simp [stagingName, toString] at this
  obtain ⟨m, hm, hw, hitems⟩ := parse_oneArchive
  obtain ⟨i, hi, hurl⟩ := List.map_eq_singleton_iff.1 hitems
  obtain ⟨⟨k, hk, hanswer⟩, -⟩ := Catalog.query_rebuild hm hw .empty testRequest.query
  have hindex : sampleWorld.database.index.rebuild m = .ok ⟨[], k⟩ := by
    rw [Index.rebuild, show sampleWorld.database.index.catalog = .empty from rfl, hk]
    rfl
  have hlistRoom : Room sampleWorld.tree sample.root sample.root
      (sample.directoryOf sample.manifestUrl) "list.json" :=
    fresh_sample.room (by rw [hlistDir]; decide) (hplain 0) (by rw [hlistDir]; decide)
  have harchiveRoom : Room sampleWorld.tree sample.root sample.root
      (sample.directoryOf archiveUrl) "i.zip" :=
    fresh_sample.room (by rw [harchiveDir]; decide) (by decide) (by rw [harchiveDir]; decide)
  obtain ⟨w₁, hrefresh, hb₁⟩ := refresh_first hd fresh_sample.toSound 0 rfl hlist rfl rfl rfl
    hlistRoom hm hindex
  have hquery : Cache.query testRequest.query w₁ = .ok [i.entry] w₁ := by
    rw [query_of_open hb₁.isOpen, hb₁.catalog_eq, hanswer, Manifest.answer_singleton hi]
    rfl
  obtain ⟨w₂, hfetch, hb₂⟩ := fetch_first hd (hb₁.sound fresh_sample.toSound) 0 hb₁.isOpen harchive
    ((hb₁.get?_records_of_ne (by decide)).trans rfl) (by rw [hb₁.origin]; rfl)
    ((serves_congr hb₁.resources).2 rfl) (hb₁.room hlist hplain harchiveRoom)
  have hformat : Archive.Format.ofPath
      (sample.root ++ (["files", "fb5a"] ++ ["i.zip"])).render = .ok .zip := by decide +kernel
  have hextract := extract_itemsZip hformat (hb₂.read_eq hd pathFor_archive)
  rw [harchiveDir] at hfetch
  refine ⟨_, execute_of_extract (retry_of_ok hrefresh _) rfl request_test rfl hquery ?_
    (retry_of_ok hfetch _) hextract, ?_⟩
  · simpa using hurl
  · change w₂.origin.requestCount archiveUrl = 1
    rw [hb₂.origin, Origin.requestCount_count, hb₁.origin,
      Origin.requestCount_count_of_ne (by decide)]
    rfl

/-- Neither a listing nor a test run that goes through touches the output directory, and for a
listing no archive is asked for. -/
theorem execute_frame_sample :
    sampleWorld.tree.isDirectory sample.root ∧
      Apart sampleWorld.tree sample.root (sampleArguments.outputOn sampleHost) ∧
      (∀ url, url ≠ sample.manifestUrl →
        (sampleEnd { sampleArguments with list := true }).origin.requestCount url = 0) ∧
      (sampleEnd { sampleArguments with list := true }).tree.find? ["out", "f"] =
        some (.file .empty 0o755) ∧
      ∃ w', execute sample (Origin.transport Blake3.hex) 0 sampleHost testArguments sampleSettings
          sampleWorld = .ok ⟨true, ""⟩ w' ∧
        w'.origin.requestCount archiveUrl = 1 ∧ w'.tree.find? ["out", "d"] = none ∧
        w'.tree.find? ["out", "f"] = some (.file .empty 0o755) := by
  have hd : IsHexDigest sample.digest := Blake3.isHexDigest_hex
  have hroot : sampleWorld.tree.isDirectory sample.root := by decide +kernel
  have hresolve : sampleWorld.tree.resolve true ["out"] = .ok ["out"] := by decide +kernel
  have hout : Leads sampleWorld.tree ["out"] ["out"] := leads_of_resolve hresolve
  have hlist := execute_frame (h := sampleHost) (a := { sampleArguments with list := true })
    (Origin.transport Blake3.hex) 0 sampleSettings hd hroot apart_sample
  have htest := execute_frame (h := sampleHost) (a := testArguments)
    (Origin.transport Blake3.hex) 0 sampleSettings hd hroot apart_sample
  obtain ⟨hasked, -, -, hkept⟩ := hlist.1 (.inl rfl)
  obtain ⟨w', hrun, hcount⟩ := execute_testArguments
  have htree := htest.2 rfl
  rw [hrun] at htree
  refine ⟨hroot, apart_sample, fun url hurl => ?_, ?_, w', hrun, hcount, ?_, ?_⟩
  · exact (hasked.requestCount hurl).trans rfl
  · exact (hkept ["out"] ["out", "f"] hout (by decide)).trans rfl
  · exact (htree ["out"] ["out", "d"] hout (by decide)).trans rfl
  · exact (htree ["out"] ["out", "f"] hout (by decide)).trans rfl

end Sample

end Session

end Depot
