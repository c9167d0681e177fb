import FuryBrowser.ImportStages

/-!
# Copies of a project

What a project is imported as: new rows with the seeds, personas, overrides, lists and notes of its
profiles, and the rows there were as they were. A profile that has a proxy carries its id twice, in
the copy of the proxy and beside it, and only the copy gets the id of the imported one; the save
prefers the other.

An import that fails before its project is made leaves everything as it was. One that fails later
leaves the project, and whatever else its calls had made by then.
-/

namespace FuryBrowser.ProjectTransfer

open AgentDisk PathTree BundleUnpack BundlePack LocalStore ProgramRules
open BundleRoundTrip (ProperName)

section AllOrNothing

variable {ω : Type} (lib : TransferLibrary ω) (env : Env) (dirs : String → Path)
  (src : Option Bytes) (passphrase : String) (w : World ω)

/-- An import that fails leaves the projects, the proxies, the profiles and the directories as they
were. -/
def AllOrNothing : Prop :=
  ∀ e t, importProject lib env dirs src passphrase w = .error e t →
    t.db.projects = w.db.projects ∧ t.db.proxies = w.db.proxies ∧
      t.db.profiles = w.db.profiles ∧ ∀ p, isDir t.disk p = isDir w.disk p

/-- The import cannot leave anything behind: the file does not open, the projects cannot be listed
or the new one cannot be made, or nothing fails after that. -/
def NothingLeft : Prop :=
  match openExport lib src passphrase with
  | .error _ => True
  | .ok (manifest, data) => env.fails w.calls = true ∨ env.fails (w.calls + 1) = true ∨
      Faultless env (w.calls + 2) (laterCalls manifest data) ∧ ProxiesThere w.db manifest.profiles

/-- A failed import leaves nothing behind exactly when it fails before its project is made, or does
not fail. -/
theorem import_all_or_nothing_iff :
    AllOrNothing lib env dirs src passphrase w ↔ NothingLeft lib env src passphrase w := by
  unfold NothingLeft
  cases hopen : openExport lib src passphrase with
  | error e =>
    refine ⟨fun _ => trivial, fun _ e' t h => ?_⟩
    unfold importProject at h
    rw [hopen] at h
    cases h
    exact ⟨rfl, rfl, rfl, fun _ => rfl⟩
  | ok out =>
    obtain ⟨manifest, data⟩ := out
    have hends := importProject_ends env dirs w hopen
    dsimp only
    constructor
    · intro h
      by_cases hfirst : env.fails w.calls = true
      · exact .inl hfirst
      by_cases hsecond : env.fails (w.calls + 1) = true
      · exact .inr (.inl hsecond)
      refine .inr (.inr ?_)
      cases hr : importProject lib env dirs src passphrase w with
      | ok a t => exact (hends.ok_iff.mp ⟨a, t, hr⟩).2.2
      | error e t =>
        rcases (hends.of_error hr).2 with ⟨hfails, -⟩ | ⟨-, hmore⟩
        · exact absurd hfails (not_or.mpr ⟨hfirst, hsecond⟩)
        · rw [(h e t hr).1] at hmore
          omega
    · intro h e t hr
      obtain ⟨hbad, hstopped⟩ := hends.of_error hr
      rcases hstopped with ⟨-, hdb, hdisk⟩ | ⟨⟨hfirst, hsecond⟩, -⟩
      · rw [hdb, hdisk]
        exact ⟨rfl, rfl, rfl, fun _ => rfl⟩
      · rcases h with h | h | ⟨hcalls, hthere⟩
        · rw [hfirst] at h
          cases h
        · rw [hsecond] at h
          cases h
        · exact absurd ⟨hfirst, hsecond, hcalls, hthere⟩ hbad

section Samples

/-- An id that is longer than all there are. -/
def longerId (known : List String) : String :=
  .ofList (List.replicate (known.foldr (fun id n => max id.length n) 0 + 1) 'a')

theorem length_le_of_known {known : List String} {id : String} (h : id ∈ known) :
    id.length ≤ known.foldr (fun id n => max id.length n) 0 := by
  induction known with
  | nil => cases h
  | cons other rest ih =>
    rcases List.mem_cons.mp h with rfl | hrest
    · exact Nat.le_max_left _ _
    · exact Nat.le_trans (ih hrest) (Nat.le_max_right _ _)

theorem longerId_new (known : List String) : longerId known ∉ known := by
  intro h
  have hle := length_le_of_known h
  rw [longerId, String.length_ofList, List.length_replicate] at hle
  omega

/-- A machine on which no call fails. -/
def calmEnv : Env where
  fails _ := false
  newId := longerId
  newId_new := longerId_new
  seed _ := 1
  seed_pos _ := by decide
  nonces _ := ([], [])
  vault _ := ⟨none⟩

/-- The part of a path in a bundle as a part of a path in a file. -/
def partOf : Component → Part
  | .parentDir => .parentDir
  | .normal name => .normal name

/-- The libraries of the samples, under which every manifest reads as one. -/
def sampleTransfer (manifest : Manifest Unit) : TransferLibrary Unit where
  toPackLibrary := BundleRoundTrip.sampleLibrary
  deriveKey _ _ _ := .ok []
  entries bytes := some ((BundleRoundTrip.sampleEntries [] (BundleRoundTrip.frames [] bytes)).map
    fun entry => entry.map fun e => ⟨e.components.map partOf, e.isFile, e.content⟩)
  manifestBytes _ := []
  parseManifest _ := .ok manifest

/-- A manifest whose one profile names a proxy of the machine it comes from. -/
def strangerManifest : Manifest Unit where
  projectName := "Shop"
  exportedAt := ""
  profiles := [⟨"f1", some "shop", none, "first", "", [], "new", [], "persona", 5, false, none,
    some "p1", none, none, (), [], none⟩]
  proxies := []
  withData := false

/-- The file it is in. -/
def strangerFile : Bytes :=
  magicV2 ++ List.replicate saltLen 0 ++ List.replicate nonceLen 0 ++ List.replicate 16 0 ++
    BundleRoundTrip.sampleArchive [(["manifest.json"], [])]

/-- On another machine its project stays, empty. -/
theorem empty_project_left :
    ¬∀ (lib : TransferLibrary Unit) (env : Env) (dirs : String → Path) (src : Option Bytes)
      (passphrase : String) (w : World Unit), AllOrNothing lib env dirs src passphrase w := by
  intro h
  obtain ⟨t, hr, hleft⟩ : ∃ t, importProject (sampleTransfer strangerManifest) calmEnv
      (fun id => ["profiles", id]) (some strangerFile) "" ⟨⟨[], [], [], []⟩, [], 0⟩ =
        .error .io t ∧ t.db.projects.length = 1 := ⟨_, rfl, rfl⟩
  have hnone := (h (sampleTransfer strangerManifest) calmEnv (fun id => ["profiles", id])
    (some strangerFile) "" ⟨⟨[], [], [], []⟩, [], 0⟩ .io t hr).1
  rw [hnone] at hleft
  cases hleft

end Samples

end AllOrNothing

variable {ω : Type}

section Reading

/-- The libraries read back what they wrote, as documented: the cipher, the archive of files with
proper names, and the JSON of this manifest. -/
structure Reads (lib : TransferLibrary ω) (manifest : Manifest ω) : Prop where
  /-- What was encrypted decrypts. -/
  decrypt : ∀ {key nonce plain sealed}, lib.encrypt key nonce plain = some sealed →
    lib.decrypt key nonce sealed = some plain
  /-- An archive reads back, in order. -/
  entries : ∀ files : List (Path × Bytes),
    (∀ file ∈ files, file.1 ≠ [] ∧ ∀ name ∈ file.1, ProperName name) →
      lib.entries (lib.writeArchive files) =
        some (files.map fun file => some ⟨file.1.map .normal, true, some file.2⟩)
  /-- The manifest reads back. -/
  manifest : lib.parseManifest (lib.manifestBytes manifest) = .ok manifest

variable {lib : TransferLibrary ω} {vault : Vault} {db : Db ω} {files : List DiskFile}
  {project passphrase exportedAt : String} {withData : Bool} {sealing : Sealing}
  {manifest : Manifest ω} {raw : Bytes}

/-- A project that is exported is there, and its manifest lists it; the file is the sealed
archive. -/
theorem exportProject_ok (h : exportProject lib vault db files project passphrase exportedAt
      withData sealing = .ok (manifest, raw)) :
    manifest.profiles = db.profilesList (some project) ∧
    manifest.proxies = usedProxies lib vault db project ∧
    ∃ key sealed, lib.deriveKey .v2 passphrase sealing.salt = .ok key ∧
      lib.encrypt key sealing.nonce (lib.writeArchive (archiveFiles lib manifest files)) =
        some sealed ∧
      raw = magicV2 ++ sealing.salt ++ sealing.nonce ++ sealed := by
  unfold exportProject at h
  simp only [bind, Except.bind, pure, Except.pure, throw, throwThe, MonadExceptOf.throw] at h
  split at h
  · cases h
  · split at h
    · rename_i found hfound
      have hid : found.id = project := by simpa using List.find?_some hfound
      split at h
      · cases h
      · rename_i key hkey
        split at h
        · cases h
        · rename_i sealed hsealed
          obtain ⟨rfl, rfl⟩ := Prod.mk.inj (Except.ok.inj h)
          exact ⟨by rw [← hid]; rfl, by rw [← hid]; rfl, key, sealed, hkey, hsealed, rfl⟩
    · cases h

variable (lib manifest) in
/-- The entries of the files that come along are read as those files. -/
theorem readEntries_files (found : List DiskFile) (done : List DataFile) :
    readEntries lib (some manifest) done ((found.map fun file =>
      (("data" :: file.id :: file.inner, file.content) : Path × Bytes)).map fun file =>
        some ⟨file.1.map .normal, true, some file.2⟩) =
      .ok (some manifest, done.reverse ++ found.map DiskFile.toDataFile) := by
  induction found generalizing done with
  | nil => simp [readEntries]
  | cons file rest ih =>
    have hclimb : Part.parentDir ∉ file.inner.map Part.normal := by simp
    have hnames : (file.inner.map Part.normal).filterMap Part.name = file.inner := by
      rw [List.filterMap_map]
      exact List.filterMap_some
    simp only [List.map_cons, readEntries, List.cons.injEq, Part.normal.injEq, reduceCtorEq,
      and_false, if_false, hclimb, hnames, if_true, Part.text]
    rw [ih, List.reverse_cons, List.append_assoc]
    rfl

/-- A file that was exported opens as what went into it. -/
theorem openExport_exportProject (h : exportProject lib vault db files project passphrase exportedAt
      withData sealing = .ok (manifest, raw)) (hlib : Reads lib manifest) :
    openExport lib (some raw) passphrase =
      .ok (manifest, (exportedData manifest files).map DiskFile.toDataFile) := by
  obtain ⟨-, -, key, sealed, hkey, hsealed, rfl⟩ := exportProject_ok h
  obtain ⟨hsalt, hnonce⟩ := sealing.lengths
  have htake : (magicV2 ++ sealing.salt ++ sealing.nonce ++ sealed).take magicV2.length =
      magicV2 := by
    rw [List.append_assoc, List.append_assoc, List.take_left]
  have hdrop : (magicV2 ++ sealing.salt ++ sealing.nonce ++ sealed).drop magicV2.length =
      sealing.salt ++ (sealing.nonce ++ sealed) := by
    rw [List.append_assoc, List.append_assoc, List.drop_left]
  have hlong : ¬(magicV2 ++ sealing.salt ++ sealing.nonce ++ sealed).length <
      magicV2.length + saltLen + nonceLen := by
    simp only [List.length_append, hsalt, hnonce]
    omega
  have hproper : ∀ file ∈ archiveFiles lib manifest files,
      file.1 ≠ [] ∧ ∀ name ∈ file.1, ProperName name := by
    intro file hfile
    rcases List.mem_cons.mp hfile with rfl | hdata
    · refine ⟨by simp, fun name hname => ?_⟩
      rw [List.mem_singleton.mp hname]
      decide
    · obtain ⟨found, -, rfl⟩ := List.mem_map.mp hdata
      refine ⟨by simp, fun name hname => ?_⟩
      rcases List.mem_cons.mp hname with rfl | hname
      · decide
      · rcases List.mem_cons.mp hname with rfl | hname
        · exact found.proper.1
        · exact found.proper.2 name hname
  have hread := readEntries_files lib manifest (exportedData manifest files) []
  unfold openExport
  simp only [htake, hlong, hdrop, if_true, if_false, List.take_left' hsalt, List.drop_left' hsalt,
    List.take_left' hnonce, List.drop_left' hnonce, hkey, hlib.decrypt hsealed,
    hlib.entries _ hproper, bind, Except.bind, pure, Except.pure]
  simp only [archiveFiles, List.map_cons, List.map_nil, readEntries, if_true, hlib.manifest, hread]
  rfl

end Reading

section Copies

/-- A row is the copy of a profile: its seed, persona, overrides, lists and notes, and the imported
copy of its proxy or none. -/
structure CopiesProfile (project : String) (proxies : List (Proxy × ProxyRow)) (p : Profile ω)
    (row : ProfileRow ω) : Prop where
  project : row.projectId = some project
  seed : row.fpSeed = p.fpSeed
  persona : row.personaId = p.personaId
  /-- With the same differences from it. -/
  overrides : row.overrides = p.overrides
  lists : row.blocklists = p.blocklists ∧ row.tags = p.tags ∧ row.languages = p.languages ∧
    row.startUrls = p.startUrls
  texts : row.name = p.name ∧ row.notes = p.notes ∧ row.timezone = p.timezone
  proxy : match p.proxy with
    | none => row.proxyId = none
    | some x => ∃ e ∈ proxies, e.1.id = x.id ∧ row.proxyId = some e.2.id

/-- The import of a file goes through and makes a copy of the project, beside the rows there
were. -/
def CopiesProject (lib : TransferLibrary ω) (env : Env) (dirs : String → Path) (raw : Bytes)
    (passphrase : String) (proxies : List Proxy) (profiles : List (Profile ω)) (w : World ω) :
    Prop :=
  ∃ out t name, importProject lib env dirs (some raw) passphrase w = .ok out t ∧
    ∃ (proxyRows : List ProxyRow) (profileRows : List (ProfileRow ω)),
      List.Forall₂ CopiesProxy proxies proxyRows ∧
      List.Forall₂ (CopiesProfile out.1 (proxies.zip proxyRows)) profiles profileRows ∧
      (∀ p ∈ w.db.projects, p.id ≠ out.1) ∧
      (∀ r ∈ proxyRows, ∀ x ∈ w.db.proxies, x.id ≠ r.id) ∧
      (∀ r ∈ profileRows, ∀ f ∈ w.db.profiles, f.id ≠ r.id) ∧
      t.db = {
        projects := ⟨out.1, name, "", false⟩ :: w.db.projects
        proxies := proxyRows.reverse ++ w.db.proxies
        profiles := profileRows.reverse ++ w.db.profiles
        credentials := w.db.credentials }

variable {lib : TransferLibrary ω} {vault : Vault} {source : Db ω} {project : String}
  {p : Profile ω}

/-- A profile that is listed names the proxy it shows. -/
theorem listed_proxyId (hp : p ∈ source.profilesList (some project)) :
    p.proxyId = p.proxy.map Proxy.id := by
  obtain ⟨f, -, rfl⟩ := List.mem_map.mp hp
  change (source.proxyOf f).map ProxyRow.id = ((source.proxyOf f).map Db.joinedProxy).map Proxy.id
  rw [Option.map_map]
  rfl

/-- The proxy it shows is among those that are exported. -/
theorem used_of_listed (hp : p ∈ source.profilesList (some project)) {x : Proxy}
    (hx : p.proxy = some x) : ∃ m ∈ usedProxies lib vault source project, m.id = x.id := by
  have hid : x.id ∈ (source.profilesList (some project)).filterMap fun p => p.proxy.map Proxy.id :=
    List.mem_filterMap.mpr ⟨p, hp, by rw [hx]; rfl⟩
  obtain ⟨f, -, rfl⟩ := List.mem_map.mp hp
  obtain ⟨row, hrow, rfl⟩ := Option.map_eq_some_iff.mp hx
  obtain ⟨id, -, hfind⟩ := Option.bind_eq_some_iff.mp hrow
  have hlive : row.deleted = false := by
    have hmatch := List.find?_some hfind
    simpa using (Bool.and_eq_true_iff.mp hmatch).2
  refine ⟨Db.openProxy lib.toPackLibrary vault row, List.mem_filter.mpr ⟨?_, ?_⟩, rfl⟩
  · exact List.mem_map.mpr ⟨row, List.mem_filter.mpr
      ⟨List.mem_of_find?_eq_some hfind, by simp [hlive]⟩, rfl⟩
  · exact List.contains_iff_mem.mpr hid

variable {env : Env} {dirs : String → Path} {raw : Bytes} {passphrase : String} {w : World ω}
  {manifest : Manifest ω} {data : List DataFile}

/-- What the copies are rows of, when a project was copied. -/
theorem CopiesProject.rows (hopen : openExport lib (some raw) passphrase = .ok (manifest, data))
    (h : CopiesProject lib env dirs raw passphrase manifest.proxies manifest.profiles w) :
    ∃ newProject proxyRows profileRows,
      (∀ r ∈ proxyRows, r.id ∉ knownIds w.db manifest) ∧
      List.Forall₂ (CopiesProfile newProject (manifest.proxies.zip proxyRows)) manifest.profiles
        profileRows ∧
      List.Forall₂ (fun p r => ∃ seed > 0, r = Db.insertedRow r.id seed (freshProfile newProject
        (newIds Proxy.id ProxyRow.id manifest.proxies proxyRows) p)) manifest.profiles
        profileRows := by
  obtain ⟨out, t, name, hr, proxyRows, profileRows, -, hcopies, -, -, -, hdb⟩ := h
  obtain ⟨hnew, name', proxyRows', profileRows', -, hids, hrows, -, hadded⟩ :=
    (importProject_ends env dirs w hopen).of_ok hr
  have hproxies : proxyRows' = proxyRows := by
    have heq := congrArg Db.proxies (hadded.symm.trans hdb)
    exact List.reverse_injective (List.append_cancel_right heq)
  have hprofiles : profileRows' = profileRows := by
    have heq := congrArg Db.profiles (hadded.symm.trans hdb)
    exact List.reverse_injective (List.append_cancel_right heq)
  subst hproxies hprofiles
  refine ⟨out.1, proxyRows', profileRows', fun r hr hin => hids r hr ?_, hcopies, hrows⟩
  simp only [knownIds, List.mem_append, List.mem_cons, List.mem_map, Db.createProject] at hin ⊢
  grind

/-- No profile of a project that was copied names a proxy, and none has the seed zero. -/
theorem CopiesProject.plain (hopen : openExport lib (some raw) passphrase = .ok (manifest, data))
    (h : CopiesProject lib env dirs raw passphrase manifest.proxies manifest.profiles w)
    (hlisted : ∀ p ∈ manifest.profiles, p.proxyId = p.proxy.map Proxy.id) :
    ∀ p ∈ manifest.profiles, namedProxy p = none ∧ p.fpSeed ≠ 0 := by
  obtain ⟨newProject, proxyRows, profileRows, hids, hcopies, hrows⟩ := h.rows hopen
  intro p hp
  obtain ⟨i, hi, rfl⟩ := List.mem_iff_getElem.mp hp
  have hi' : i < profileRows.length := by rwa [← hrows.length_eq]
  have hcopy := (List.forall₂_iff_get.mp hcopies).2 i hi hi'
  obtain ⟨seed, hseed, hrow⟩ := (List.forall₂_iff_get.mp hrows).2 i hi hi'
  simp only [List.get_eq_getElem] at hcopy hrow
  generalize profileRows[i] = row at hcopy hrow
  generalize manifest.profiles[i] = p at hp hcopy hrow
  refine ⟨?_, fun hzero => ?_⟩
  · cases hnamed : namedProxy p with
    | none => rfl
    | some id =>
      have hstored : row.proxyId = some id := by
        rw [hrow]
        change Db.proxyIdOf _ = some id
        rw [proxyIdOf_fresh, hnamed]
        rfl
      have hid : p.proxyId = some id := (Option.filter_eq_some_iff.mp hnamed).1
      have hproxy := hcopy.proxy
      cases hx : p.proxy with
      | none =>
        rw [hlisted p hp, hx] at hid
        cases hid
      | some x =>
        rw [hx] at hproxy
        obtain ⟨e, he, -, hcopied⟩ := hproxy
        -- The copy of the proxy has a new id, and the row the one that was in the file.
        have hsame : e.2.id = id := Option.some.inj (hcopied.symm.trans hstored)
        refine absurd ?_ (hids e.2 (List.of_mem_zip he).2)
        rw [hsame]
        exact List.mem_append_right _ (List.mem_filterMap.mpr ⟨p, hp, hid⟩)
  · have hsame := hcopy.seed
    rw [hrow] at hsame
    change (if p.fpSeed = 0 then seed else p.fpSeed) = p.fpSeed at hsame
    rw [if_pos hzero, hzero] at hsame
    omega

/-- The row of a profile that names no proxy is its copy. -/
theorem copiesProfile_fresh {newProject : String} {proxies : List Proxy}
    {proxyRows : List ProxyRow} {row : ProfileRow ω} {seed : ℤ} (hnamed : namedProxy p = none)
    (hseed : p.fpSeed ≠ 0) (hlength : proxies.length = proxyRows.length)
    (hused : ∀ x, p.proxy = some x → ∃ m ∈ proxies, m.id = x.id)
    (hrow : row = Db.insertedRow row.id seed (freshProfile newProject
      (newIds Proxy.id ProxyRow.id proxies proxyRows) p)) :
    CopiesProfile newProject (proxies.zip proxyRows) p row := by
  have hstored : row.proxyId = p.proxy.bind fun x =>
      newest (newIds Proxy.id ProxyRow.id proxies proxyRows) x.id := by
    rw [hrow]
    change Db.proxyIdOf _ = _
    rw [proxyIdOf_fresh, hnamed]
    rfl
  have hfingerprint : row.fpSeed = p.fpSeed := by
    rw [hrow]
    change (if p.fpSeed = 0 then seed else p.fpSeed) = p.fpSeed
    rw [if_neg hseed]
  refine ⟨by rw [hrow]; rfl, hfingerprint, by rw [hrow]; rfl, by rw [hrow]; rfl,
    by rw [hrow]; exact ⟨rfl, rfl, rfl, rfl⟩, by rw [hrow]; exact ⟨rfl, rfl, rfl⟩, ?_⟩
  cases hx : p.proxy with
  | none =>
    rw [hx] at hstored
    exact hstored
  | some x =>
    rw [hx, Option.bind_some] at hstored
    have hsome : (newest (newIds Proxy.id ProxyRow.id proxies proxyRows) x.id).isSome = true := by
      obtain ⟨m, hm, hid⟩ := hused x hx
      rw [newest_newIds_isSome hlength, List.any_eq_true]
      exact ⟨m, hm, by simpa using hid⟩
    obtain ⟨v, hv⟩ := Option.isSome_iff_exists.mp hsome
    obtain ⟨e, he, hid, rfl⟩ := newest_newIds hv
    exact ⟨e, he, hid, hstored.trans hv⟩

/-- A project is copied exactly when none of the calls of its import fails, and none of its
profiles names a proxy or has the seed zero. -/
theorem import_copies_iff {files : List DiskFile} {exportedAt : String} {withData : Bool}
    {sealing : Sealing} (hexport : exportProject lib vault source files project passphrase
      exportedAt withData sealing = .ok (manifest, raw)) (hlib : Reads lib manifest)
    (env : Env) (dirs : String → Path) (w : World ω) :
    CopiesProject lib env dirs raw passphrase (usedProxies lib vault source project)
        (source.profilesList (some project)) w ↔
      (env.fails w.calls = false ∧ env.fails (w.calls + 1) = false ∧
        Faultless env (w.calls + 2)
          (laterCalls manifest ((exportedData manifest files).map DiskFile.toDataFile))) ∧
      ∀ p ∈ source.profilesList (some project), namedProxy p = none ∧ p.fpSeed ≠ 0 := by
  have hopen := openExport_exportProject hexport hlib
  have hends := importProject_ends env dirs w hopen
  obtain ⟨hprofiles, hproxies, -⟩ := exportProject_ok hexport
  rw [← hprofiles, ← hproxies]
  constructor
  · intro h
    refine ⟨?_, h.plain hopen fun p hp => listed_proxyId (hprofiles ▸ hp)⟩
    obtain ⟨out, t, name, hr, -⟩ := h
    obtain ⟨hfirst, hsecond, hcalls, -⟩ := hends.ok_iff.mp ⟨out, t, hr⟩
    exact ⟨hfirst, hsecond, hcalls⟩
  · rintro ⟨⟨hfirst, hsecond, hcalls⟩, hplain⟩
    have hthere : ProxiesThere w.db manifest.profiles := by
      intro p hp id hid
      rw [(hplain p hp).1] at hid
      cases hid
    obtain ⟨out, t, hr⟩ := hends.ok_iff.mpr ⟨hfirst, hsecond, hcalls, hthere⟩
    obtain ⟨hnew, name, proxyRows, profileRows, hcopies, hproxyIds, hrows, hprofileIds, hdb⟩ :=
      hends.of_ok hr
    refine ⟨out, t, name, hr, proxyRows, profileRows, hcopies, ?_, ?_, ?_, ?_, hdb⟩
    · have hboth := (List.forall₂_and_left _ _).mpr ⟨fun p hp => hp, hrows⟩
      refine hboth.imp fun p row h => ?_
      obtain ⟨hp, seed, -, hrow⟩ := h
      refine copiesProfile_fresh (hplain p hp).1 (hplain p hp).2 hcopies.length_eq (fun x hx => ?_)
        hrow
      rw [hproxies]
      exact used_of_listed (hprofiles ▸ hp) hx
    · intro q hq hid
      refine hnew ?_
      simp only [knownIds, List.mem_append, List.mem_cons, List.mem_map]
      exact .inl (.inl (.inl (.inr ⟨q, hq, hid⟩)))
    · rintro r hr x hx hid
      refine hproxyIds r hr ?_
      simp only [knownIds, List.mem_append, List.mem_cons, List.mem_map]
      exact .inl (.inl (.inr ⟨x, hx, hid⟩))
    · rintro r hr f hf hid
      refine hprofileIds r hr ?_
      simp only [knownIds, List.mem_append, List.mem_cons, List.mem_map]
      exact .inl (.inr ⟨f, hf, hid⟩)

end Copies

section Samples

theorem sampleTransfer_reads (manifest : Manifest Unit) :
    Reads (sampleTransfer manifest) manifest where
  decrypt h := (BundleRoundTrip.sampleLibrary_inverts.decrypt h).1
  entries files h := by
    have harchive := BundleRoundTrip.sampleEntries_archive files h
    change some ((BundleRoundTrip.sampleEntries []
      (BundleRoundTrip.frames [] (BundleRoundTrip.sampleArchive files))).map _) = _
    rw [harchive, List.map_map]
    congr 2
    funext file
    simp [BundleRoundTrip.archived, partOf]
  manifest := rfl

/-- What the samples draw. -/
def zeroSealing : Sealing where
  salt := List.replicate saltLen 0
  nonce := List.replicate nonceLen 0
  lengths := ⟨List.length_replicate, List.length_replicate⟩

/-- A store with a proxy and one project, of one profile. -/
def sampleSource (proxyId : Option String) : Db Unit where
  projects := [⟨"shop", "Shop", "", false⟩]
  proxies := [⟨"p1", "exit", "socks5", "10.0.0.1", 1080, none, none, none, none, none, none, none,
    none, false⟩]
  profiles := [⟨"f1", some "shop", "first", "", [], [], "new", "persona", 5, proxyId, none, none,
    [], false, (), none, false⟩]
  credentials := []

/-- The manifest of its project. -/
def sampleManifest (proxyId : Option String) : Manifest Unit where
  projectName := "Shop"
  exportedAt := ""
  profiles := (sampleSource proxyId).profilesList (some "shop")
  proxies := (usedProxies (sampleTransfer ⟨"", "", [], [], false⟩) ⟨none⟩ (sampleSource proxyId)
    "shop")
  withData := false

/-- Its export. -/
def sampleExport (proxyId : Option String) : Except AgentError (Manifest Unit × Bytes) :=
  exportProject (sampleTransfer (sampleManifest proxyId)) ⟨none⟩ (sampleSource proxyId) [] "shop"
    "correct horse" "" false zeroSealing

/-- A project whose profile has no proxy, imported beside itself. -/
theorem import_copies_plain : ∃ raw, sampleExport none = .ok (sampleManifest none, raw) ∧
    CopiesProject (sampleTransfer (sampleManifest none)) calmEnv (fun id => ["profiles", id]) raw
      "correct horse" (usedProxies (sampleTransfer (sampleManifest none)) ⟨none⟩
        (sampleSource none) "shop") ((sampleSource none).profilesList (some "shop"))
      ⟨sampleSource none, [], 0⟩ := by
  obtain ⟨raw, hexport⟩ : ∃ raw, sampleExport none = .ok (sampleManifest none, raw) := ⟨_, rfl⟩
  refine ⟨raw, hexport, (import_copies_iff hexport (sampleTransfer_reads _) calmEnv
    (fun id => ["profiles", id]) ⟨sampleSource none, [], 0⟩).mpr ⟨⟨rfl, rfl, fun _ _ => rfl⟩, ?_⟩⟩
  decide

/-- One whose profile has a proxy is not copied: beside itself, the copy still has the proxy that
was there. -/
theorem proxy_not_copied :
    ¬∀ raw : Bytes, sampleExport (some "p1") = .ok (sampleManifest (some "p1"), raw) →
      CopiesProject (sampleTransfer (sampleManifest (some "p1"))) calmEnv
        (fun id => ["profiles", id]) raw "correct horse" (sampleManifest (some "p1")).proxies
        (sampleManifest (some "p1")).profiles ⟨sampleSource (some "p1"), [], 0⟩ := by
  intro h
  obtain ⟨raw, hexport⟩ : ∃ raw, sampleExport (some "p1") =
      .ok (sampleManifest (some "p1"), raw) := ⟨_, rfl⟩
  have hplain := (h raw hexport).plain
    (openExport_exportProject hexport (sampleTransfer_reads _)) (by decide)
  revert hplain
  decide

end Samples

end FuryBrowser.ProjectTransfer
