import FuryBrowser.ProxyListings

/-!
# Hosts of proxies are masked

Whoever may not see secrets is shown no host, but its mask: in the profiles of a project, in
those of all projects and in the list of proxies. Two databases that have the same masks are the
same to them there. What others have shared shows host and port as they are.
-/

namespace FuryBrowser.HostsMasked

open RowTable Permissions HostMask ProxyListings
open TeamTables (ProfileGrant)
open TeamRequests (Caller)

universe u

variable {ρ : Type u} (P : Platform) (db db' : Db ρ) (c : Caller)

/-- The caller may see the secrets of a profile. -/
def reveals (user profile : ℕ) : Bool :=
  (db.team.permissionsForProfile user profile).has .revealSecrets

/-- A proxy whose host is its mask. -/
def masked (x : Proxy) : Proxy := { x with host := maskHost P.sha256 x.host }

/-- The database with every host masked. -/
def redact : Db ρ where
  team := db.team
  profileIds := db.profileIds
  email := db.email
  projectName := db.projectName
  columns := db.columns
  shareColumns := db.shareColumns
  proxies := db.proxies.map (masked P)
  proxyIds := by
    have hids : (db.proxies.map (masked P)).map Proxy.id = db.proxies.map Proxy.id := by
      rw [List.map_map]
      rfl
    unfold KeyUnique
    rw [hids]
    exact db.proxyIds

/-- What is shown of a proxy is its masked host and its port. -/
def ShowsMask (id : ℕ) (display : Text) : Prop :=
  ∃ x ∈ db.proxies, x.id = id ∧ display = address (maskHost P.sha256 x.host) x.port

/-- No listing shows a host to whoever may not see it. -/
structure Masked : Prop where
  /-- The profiles of a project. -/
  inProject : ∀ project rows, profilesIn P db c.user project = .ok rows → ∀ s ∈ rows,
    reveals db c.user s.id = false → ∀ x ∈ s.proxy, ShowsMask P db x.id x.display
  all : ∀ rows, listAllProfiles P db c = .ok rows → ∀ s ∈ rows,
    reveals db c.user s.id = false → ∀ x ∈ s.proxy, ShowsMask P db x.id x.display
  proxies : (implicitPermissions c).has .revealSecrets = false →
    ∀ s ∈ listProxies P db c, ShowsMask P db s.id s.display
  /-- What others have shared. -/
  shared : ∀ s ∈ sharedWithMe P db c.user, reveals db c.user s.id = false →
    ∀ display ∈ s.proxyDisplay, ∃ id ∈ (db.columns s.id).proxy, ShowsMask P db id display

/-- To whoever may not see secrets both databases give the same listings. -/
structure SameListings : Prop where
  /-- The profiles of a project. -/
  inProject : ∀ project, (db.team.permissionsFor c.user project).has .revealSecrets = false →
    profilesIn P db c.user project = profilesIn P db' c.user project
  all : (∀ project, (db.team.permissionsFor c.user project).has .revealSecrets = false) →
    listAllProfiles P db c = listAllProfiles P db' c
  proxies : (implicitPermissions c).has .revealSecrets = false →
    listProxies P db c = listProxies P db' c
  /-- What others have shared. -/
  shared : (∀ s ∈ sharedWithMe P db c.user, reveals db c.user s.id = false) →
    sharedWithMe P db c.user = sharedWithMe P db' c.user

/-- Every proxy that a share shows to somebody who may not see its secrets has a host that is
its own mask. -/
def SharesHide (user : ℕ) : Prop :=
  ∀ row ∈ shares db user, reveals db user row.2.id = false → ∀ x ∈ proxyOf db user row.2.id,
    x.host = maskHost P.sha256 x.host

section Redacted

variable {P} {db db'} {c} {user profile : ℕ}

/-- Which proxy a profile has does not depend on hosts. -/
theorem proxyOf_redact :
    proxyOf (redact P db) user profile = (proxyOf db user profile).map (masked P) := by
  unfold proxyOf
  have hcolumns : (redact P db).columns profile = db.columns profile := rfl
  rw [hcolumns]
  cases (db.columns profile).proxy with
  | none => rfl
  | some id =>
    have hlookup : lookup Proxy.id (redact P db).proxies id =
        (lookup Proxy.id db.proxies id).map (masked P) := List.find?_map
    rw [Option.bind_some, Option.bind_some, hlookup]
    cases lookup Proxy.id db.proxies id with
    | none => rfl
    | some x =>
      have hsees : seesProxy (redact P db) user (masked P x) = seesProxy db user x := rfl
      have hdeleted : (masked P x).deleted = x.deleted := rfl
      rw [Option.map_some, Option.filter_some, Option.filter_some, hsees, hdeleted]
      split <;> rfl

/-- A masked row is a full row of the database with masks. -/
theorem summary_redact (perms : PermSet) (p : TeamTables.Profile) :
    summary P db user perms false p = summary P (redact P db) user perms true p := by
  have hproxy : proxyOf (redact P db) user p.id = (proxyOf db user p.id).map (masked P) :=
    proxyOf_redact
  unfold summary
  rw [hproxy]
  cases proxyOf db user p.id with
  | none => rfl
  | some x =>
    have hshown : shown P.sha256 false (address x.host x.port) =
        shown P.sha256 true (address (masked P x).host x.port) :=
      shown_address P.sha256 x.host x.port
    simp only [Option.map_some, hshown]
    rfl

/-- Nor does which proxies are listed, and in which order. -/
theorem proxyRows_redact : proxyRows P (redact P db) c = (proxyRows P db c).map (masked P) := by
  have hsort : ∀ rows : List Proxy, (rows.mergeSort fun x y => P.collate x.name y.name).map
      (masked P) = (rows.map (masked P)).mergeSort fun x y => P.collate x.name y.name :=
    fun rows => List.map_mergeSort fun _ _ _ _ => rfl
  unfold proxyRows
  rw [hsort]
  congr 1
  exact List.filter_map

/-- Masks leave everything else as it is. -/
theorem same_of_redact (h : redact P db = redact P db') : db.team = db'.team ∧
    db.columns = db'.columns ∧ db.email = db'.email ∧ db.projectName = db'.projectName ∧
    db.shareColumns = db'.shareColumns := by
  have hteam : (redact P db).team = (redact P db').team := congrArg Db.team h
  have hcolumns : (redact P db).columns = (redact P db').columns := congrArg Db.columns h
  have hemail : (redact P db).email = (redact P db').email := congrArg Db.email h
  have hnames : (redact P db).projectName = (redact P db').projectName :=
    congrArg Db.projectName h
  have hshare : (redact P db).shareColumns = (redact P db').shareColumns :=
    congrArg Db.shareColumns h
  exact ⟨hteam, hcolumns, hemail, hnames, hshare⟩

/-- The profiles of a project are the same under the same masks. -/
theorem profilesIn_eq {project : ℕ} (h : redact P db = redact P db')
    (hreveal : (db.team.permissionsFor user project).has .revealSecrets = false) :
    profilesIn P db user project = profilesIn P db' user project := by
  obtain ⟨hteam, hcolumns, _⟩ := same_of_redact h
  have hrows : profileRows P db user project = profileRows P db' user project := by
    unfold profileRows
    rw [hteam, hcolumns]
  have hsummary : ∀ perms, summary P db user perms false = summary P db' user perms false := by
    intro perms
    funext p
    rw [summary_redact, summary_redact, h]
  unfold profilesIn
  rw [← hteam]
  simp only [hreveal, hrows, hsummary]

theorem listAllProfiles_eq (h : redact P db = redact P db')
    (hreveal : ∀ project, (db.team.permissionsFor c.user project).has .revealSecrets = false) :
    listAllProfiles P db c = listAllProfiles P db' c := by
  obtain ⟨hteam, _, _, hnames, _⟩ := same_of_redact h
  have hprojects : projectRows P db c = projectRows P db' c := by
    unfold projectRows
    rw [hteam, hnames]
  have hlists : (fun p : TeamTables.Project => profilesIn P db c.user p.id) =
      fun p => profilesIn P db' c.user p.id := by
    funext p
    exact profilesIn_eq h (hreveal p.id)
  unfold listAllProfiles
  rw [hprojects, hlists]

theorem listProxies_eq (h : redact P db = redact P db')
    (hreveal : (implicitPermissions c).has .revealSecrets = false) :
    listProxies P db c = listProxies P db' c := by
  have hlist : ∀ db : Db ρ, listProxies P db c =
      (proxyRows P (redact P db) c).map (proxySummary P (redact P db) c true) := by
    intro db
    unfold listProxies
    rw [hreveal, proxyRows_redact, List.map_map]
    rfl
  rw [hlist, hlist, h]

/-- What others have shared is the same, where no host is shown that is not its mask. -/
theorem sharedWithMe_eq (h : redact P db = redact P db') (hdb : SharesHide P db user)
    (hdb' : SharesHide P db' user)
    (hreveal : ∀ s ∈ sharedWithMe P db user, reveals db user s.id = false) :
    sharedWithMe P db user = sharedWithMe P db' user := by
  obtain ⟨hteam, hcolumns, hemail, _, hshare⟩ := same_of_redact h
  have hrows : shares db user = shares db' user := by
    unfold shares
    rw [hteam]
  unfold sharedWithMe at hreveal ⊢
  rw [← hrows, ← hcolumns]
  refine List.map_congr_left fun row hin => ?_
  have hmem : row ∈ shares db user := List.mem_mergeSort.mp hin
  have hhidden : reveals db user (sharedProfile db user row).id = false :=
    hreveal _ (List.mem_map_of_mem hin)
  change reveals db user row.2.id = false at hhidden
  have hhidden' : reveals db' user row.2.id = false := by
    unfold reveals at hhidden ⊢
    rw [← hteam]
    exact hhidden
  have hproxy : (proxyOf db user row.2.id).map (masked P) =
      (proxyOf db' user row.2.id).map (masked P) := by
    rw [← proxyOf_redact, ← proxyOf_redact, h]
  have hdisplay : (proxyOf db user row.2.id).map (fun x => address x.host x.port) =
      (proxyOf db' user row.2.id).map fun x => address x.host x.port := by
    have hfull : ∀ db : Db ρ, (∀ x ∈ proxyOf db user row.2.id, x.host = maskHost P.sha256 x.host) →
        (proxyOf db user row.2.id).map (fun x => address x.host x.port) =
          ((proxyOf db user row.2.id).map (masked P)).map fun x => address x.host x.port := by
      intro db hhost
      cases hx : proxyOf db user row.2.id with
      | none => rfl
      | some x => exact congrArg some (congrArg (address · x.port) (hhost x hx))
    rw [hfull db (hdb row hmem hhidden), hfull db' (hdb' row (hrows ▸ hmem) hhidden'), hproxy]
  unfold sharedProfile
  rw [hcolumns, hemail, hshare, hdisplay]

end Redacted

section Shown

variable {P} {db} {c} {user : ℕ}

/-- What a listing refuses, it refuses whole. -/
theorem mem_of_mapM {ε α β : Type*} {f : α → Except ε β} {l : List α} {bs : List β} {b : β}
    (h : l.mapM f = .ok bs) (hb : b ∈ bs) : ∃ a ∈ l, f a = .ok b := by
  induction l generalizing bs with
  | nil =>
    cases h
    cases hb
  | cons a l ih =>
    rw [List.mapM_cons] at h
    cases hf : f a with
    | error e =>
      rw [hf] at h
      cases h
    | ok b' =>
      rw [hf] at h
      cases hrest : l.mapM f with
      | error e =>
        rw [hrest] at h
        cases h
      | ok rest =>
        rw [hrest] at h
        cases h
        rcases List.mem_cons.mp hb with rfl | hin
        · exact ⟨a, List.mem_cons_self, hf⟩
        · obtain ⟨a', ha', hf'⟩ := ih hrest hin
          exact ⟨a', List.mem_cons_of_mem _ ha', hf'⟩

theorem proxyOf_some {profile : ℕ} {x : Proxy} (h : proxyOf db user profile = some x) :
    (db.columns profile).proxy = some x.id ∧ x ∈ db.proxies := by
  obtain ⟨id, hid, hx⟩ := Option.bind_eq_some_iff.mp h
  obtain ⟨hmem, rfl⟩ := lookup_some (Option.filter_eq_some_iff.mp hx).1
  exact ⟨hid, hmem⟩

/-- In a project's listing every host that may not be shown is masked. -/
theorem masked_inProject {project : ℕ} {rows : List (ProfileSummary ρ)}
    (h : profilesIn P db user project = .ok rows) {s : ProfileSummary ρ} (hs : s ∈ rows)
    (hhidden : reveals db user s.id = false) : ∀ x ∈ s.proxy, ShowsMask P db x.id x.display := by
  simp only [profilesIn] at h
  split at h
  · cases h
  split at h
  next =>
    cases h
    obtain ⟨p, hp, rfl⟩ := List.mem_map.mp hs
    obtain ⟨hin, hrow⟩ := List.mem_filter.mp (List.mem_mergeSort.mp hp)
    simp only [Bool.and_eq_true, decide_eq_true_eq, Bool.not_eq_true'] at hrow
    obtain ⟨⟨rfl, hlive⟩, _⟩ := hrow
    have hprofile : db.team.liveProfile p.id = some p :=
      Option.filter_eq_some_iff.mpr ⟨lookup_of_mem db.profileIds hin, by simp [hlive]⟩
    have hreveal : (db.team.permissionsFor user p.project).has .revealSecrets = false := by
      change (db.team.permissionsForProfile user p.id).has .revealSecrets = false at hhidden
      unfold TeamTables.Db.permissionsForProfile at hhidden
      rw [hprofile] at hhidden
      exact (Bool.or_eq_false_iff.mp ((has_or).symm.trans hhidden)).1
    intro x hx
    obtain ⟨y, hy, rfl⟩ := Option.map_eq_some_iff.mp hx
    rw [hreveal]
    exact ⟨y, (proxyOf_some hy).2, rfl, shown_address P.sha256 y.host y.port⟩
  next => cases h

theorem masked_all {rows : List (ProfileSummary ρ)} (h : listAllProfiles P db c = .ok rows)
    {s : ProfileSummary ρ} (hs : s ∈ rows) (hhidden : reveals db c.user s.id = false) :
    ∀ x ∈ s.proxy, ShowsMask P db x.id x.display := by
  unfold listAllProfiles at h
  cases hlists : (projectRows P db c).mapM fun p => profilesIn P db c.user p.id with
  | error e =>
    rw [hlists] at h
    cases h
  | ok lists =>
    rw [hlists] at h
    cases h
    obtain ⟨list, hlist, hin⟩ := List.mem_flatten.mp (List.mem_mergeSort.mp hs)
    obtain ⟨p, _, hrows⟩ := mem_of_mapM hlists hlist
    exact masked_inProject hrows hin hhidden

theorem masked_proxies (hreveal : (implicitPermissions c).has .revealSecrets = false)
    {s : ProxySummary} (hs : s ∈ listProxies P db c) : ShowsMask P db s.id s.display := by
  obtain ⟨x, hx, rfl⟩ := List.mem_map.mp hs
  rw [hreveal]
  exact ⟨x, (List.mem_filter.mp (List.mem_mergeSort.mp hx)).1, rfl, rfl⟩

/-- A share shows a mask where the host is one. -/
theorem masked_shared (h : SharesHide P db user) {s : SharedProfile}
    (hs : s ∈ sharedWithMe P db user) (hhidden : reveals db user s.id = false) :
    ∀ display ∈ s.proxyDisplay, ∃ id ∈ (db.columns s.id).proxy, ShowsMask P db id display := by
  obtain ⟨row, hrow, rfl⟩ := List.mem_map.mp hs
  intro display hdisplay
  obtain ⟨x, hx, rfl⟩ := Option.map_eq_some_iff.mp hdisplay
  obtain ⟨hid, hmem⟩ := proxyOf_some hx
  have hhost := h row (List.mem_mergeSort.mp hrow) hhidden x hx
  exact ⟨x.id, hid, x, hmem, rfl, congrArg (address · x.port) hhost⟩

theorem hide_of_masked (h : Masked P db c) : SharesHide P db c.user := by
  intro row hrow hhidden x hx
  have hlisted : sharedProfile db c.user row ∈ sharedWithMe P db c.user :=
    List.mem_map.mpr ⟨row, List.mem_mergeSort.mpr hrow, rfl⟩
  have hdisplay : address x.host x.port ∈ (sharedProfile db c.user row).proxyDisplay :=
    Option.map_eq_some_iff.mpr ⟨x, hx, rfl⟩
  obtain ⟨id, hid, y, hy, rfl, heq⟩ := h.shared _ hlisted hhidden _ hdisplay
  obtain ⟨hid', hmem⟩ := proxyOf_some hx
  have hsame : y = x := db.proxyIds.eq hy hmem (Option.some.inj (hid.symm.trans hid'))
  rw [hsame] at heq
  exact address_inj.mp heq

end Shown

/-- Hosts are masked in every listing exactly when no share shows one that is not its own mask;
and then databases with the same masks give the same listings. -/
theorem hosts_masked (P : Platform) (db : Db ρ) (c : Caller) :
    (Masked P db c ↔ SharesHide P db c.user) ∧
      ∀ db', redact P db = redact P db' → SharesHide P db c.user → SharesHide P db' c.user →
        SameListings P db db' c := by
  refine ⟨⟨hide_of_masked, fun h => ?_⟩, fun db' heq h h' => ?_⟩
  · exact ⟨fun _ _ hrows _ hs => masked_inProject hrows hs, fun _ hrows _ hs => masked_all hrows hs,
      fun hreveal _ hs => masked_proxies hreveal hs, fun _ hs => masked_shared h hs⟩
  · exact ⟨fun _ => profilesIn_eq heq, listAllProfiles_eq heq, listProxies_eq heq,
      sharedWithMe_eq heq h h'⟩

/-- A digest of `exit.provider.net`. -/
def platform : Platform where
  sha256 _ :=
    #v[0x05, 0x01, 0x36, 0x73, 0xaf, 0xd3, 0xd2, 0x3f, 0x92, 0xb0, 0x16, 0x05, 0x8b, 0xc4, 0xa7, 0x98,
      0x2d, 0x85, 0x39, 0x81, 0x6a, 0x7e, 0x07, 0x73, 0xe2, 0x03, 0x7e, 0x0f, 0xfd, 0xd4, 0x37, 0x03]
  lowercase := String.toLower
  collate a b := a ≤ b

/-- An owner has lent a profile to somebody outside, to look at and to open. -/
def lent : Db Unit where
  team :=
    { now := 0, users := 2, orgs := [⟨7, 1⟩], members := [⟨0, 7, .owner⟩], sessions := [],
      projects := [⟨10, 7, false⟩], profiles := [⟨20, 7, 10, false⟩], projectGrants := [],
      profileGrants := [⟨20, 1, PermSet.fromIter [.view, .launch], none, 1⟩], accessRoles := [],
      domainLists := [], locks := [], fresh := 30 }
  profileIds := by
    unfold KeyUnique
    decide
  email _ := ""
  projectName _ := ""
  columns _ := ⟨"", "", [], some 5, ()⟩
  shareColumns _ := ⟨0, [], none⟩
  proxies := [⟨5, 7, "", "http", "exit.provider.net".toList, 8000, none, none, none, none, false⟩]
  proxyIds := by
    unfold KeyUnique
    decide

theorem share_shows_host : ¬ ∀ (P : Platform) (db : Db Unit) (c : Caller), Masked P db c := by
  intro hall
  have hrow : (⟨20, 1, PermSet.fromIter [.view, .launch], none, 1⟩, ⟨20, 7, 10, false⟩) ∈
      shares lent 1 := by decide
  have hproxy : (proxyOf lent 1 20).map Proxy.host = some "exit.provider.net".toList := by decide
  obtain ⟨x, hx, hhost⟩ := Option.map_eq_some_iff.mp hproxy
  have hmask := hide_of_masked (hall platform lent ⟨1, 8, .owner⟩) _ hrow (by decide) x hx
  rw [hhost] at hmask
  exact absurd hmask (by decide)

end FuryBrowser.HostsMasked
