import FuryBrowser.ProjectTransfer
import Mathlib.Data.List.Forall2

/-!
# The stages of an import

Each stage goes through exactly when none of its calls fails and, for the profiles, when every
proxy that one still names is there. It adds rows under new ids in front of those there were. A
stage that stops leaves the projects as it found them, with the one that was made for it.
-/

namespace FuryBrowser.ProjectTransfer

open AgentDisk PathTree BundleUnpack BundlePack LocalStore RowTable ProgramRules

variable {ω : Type} {lib : TransferLibrary ω} {env : Env} {dirs : String → Path}
  {manifest : Manifest ω} {w : World ω}

section Calls

/-- None of some calls in a row fails. -/
def Faultless (env : Env) (start count : ℕ) : Prop :=
  ∀ k < count, env.fails (start + k) = false

theorem faultless_zero {start : ℕ} : Faultless env start 0 := fun _ hk => by cases hk

theorem faultless_succ {start count : ℕ} :
    Faultless env start (count + 1) ↔
      env.fails start = false ∧ Faultless env (start + 1) count := by
  constructor
  · intro h
    refine ⟨h 0 (Nat.succ_pos _), fun k hk => ?_⟩
    have hnext := h (k + 1) (Nat.succ_lt_succ hk)
    rwa [Nat.add_comm k 1, ← Nat.add_assoc] at hnext
  · rintro ⟨hfirst, hrest⟩ k hk
    cases k with
    | zero => exact hfirst
    | succ k =>
      rw [Nat.add_comm k 1, ← Nat.add_assoc]
      exact hrest k (Nat.lt_of_succ_lt_succ hk)

theorem faultless_add {start first second : ℕ} :
    Faultless env start (first + second) ↔
      Faultless env start first ∧ Faultless env (start + first) second := by
  induction first generalizing start with
  | zero =>
    rw [Nat.zero_add, Nat.add_zero]
    exact ⟨fun h => ⟨faultless_zero, h⟩, And.right⟩
  | succ first ih =>
    rw [Nat.add_right_comm first 1 second, faultless_succ, faultless_succ, ih, and_assoc,
      Nat.add_assoc start 1 first, Nat.add_comm 1 first]

variable (env w) in
/-- A call to the store goes through unless it fails or the tables refuse it, and leaves everything
then. -/
theorem storeCall_ends {α : Type} (f : ℕ → Db ω → Option (α × Db ω)) :
    Ends (storeCall env f) w (env.fails w.calls = false ∧ (f w.calls w.db).isSome = true)
      (fun a t => ∃ db, f w.calls w.db = some (a, db) ∧
        t = { w with db := db, calls := w.calls + 1 })
      (fun t => (env.fails w.calls = true ∨ f w.calls w.db = none) ∧
        t.db = w.db ∧ t.disk = w.disk) := by
  unfold Ends storeCall
  cases hf : env.fails w.calls with
  | true => exact ⟨fun h => (by cases h.1), .inl rfl, rfl, rfl⟩
  | false =>
    rw [if_neg (by simp)]
    cases hr : f w.calls w.db with
    | none => exact ⟨fun h => (by cases h.2), .inr rfl, rfl, rfl⟩
    | some out => exact ⟨⟨rfl, rfl⟩, out.2, rfl, rfl⟩

variable (env w) in
/-- One that the tables never refuse goes through unless it fails. -/
theorem totalCall_ends {α : Type} (f : ℕ → Db ω → α × Db ω) :
    Ends (storeCall env fun n db => some (f n db)) w (env.fails w.calls = false)
      (fun a t => a = (f w.calls w.db).1 ∧
        t = { w with db := (f w.calls w.db).2, calls := w.calls + 1 })
      (fun t => env.fails w.calls = true ∧ t.db = w.db ∧ t.disk = w.disk) := by
  refine (storeCall_ends env w _).mono (by simp) (fun a t _ h => ?_) fun t h => ⟨?_, h.2⟩
  · obtain ⟨db, heq, rfl⟩ := h
    obtain ⟨rfl, rfl⟩ := Prod.mk.inj (Option.some.inj heq)
    exact ⟨rfl, rfl⟩
  · exact h.1.resolve_right fun hnone => (by cases hnone)

variable (env w) in
theorem fileCall_ends (f : Disk → Disk) :
    Ends (fileCall env f) w (env.fails w.calls = false)
      (fun _ t => t.db = w.db ∧ t.calls = w.calls + 1) (fun t => t.db = w.db) := by
  unfold Ends fileCall
  cases hf : env.fails w.calls with
  | true => exact ⟨fun h => (by cases h), rfl⟩
  | false => exact ⟨rfl, rfl, rfl⟩

end Calls

section Ids

variable {db : Db ω}

variable (env manifest) in
theorem newId_proxy {x : ProxyRow} (hx : x ∈ db.proxies) :
    x.id ≠ env.newId (knownIds db manifest) := by
  intro h
  refine env.newId_new (knownIds db manifest) ?_
  rw [← h]
  simp only [knownIds, List.mem_append, List.mem_cons, List.mem_map]
  exact .inl (.inl (.inr ⟨x, hx, rfl⟩))

variable (env manifest) in
theorem newId_profile {f : ProfileRow ω} (hf : f ∈ db.profiles) :
    f.id ≠ env.newId (knownIds db manifest) := by
  intro h
  refine env.newId_new (knownIds db manifest) ?_
  rw [← h]
  simp only [knownIds, List.mem_append, List.mem_cons, List.mem_map]
  exact .inl (.inr ⟨f, hf, rfl⟩)

/-- The ids there are stay known while rows are added. -/
theorem knownIds_mono {after : Db ω} {id : String} (hprojects : after.projects = db.projects)
    (hproxies : db.proxies ⊆ after.proxies) (hprofiles : db.profiles ⊆ after.profiles)
    (h : id ∈ knownIds db manifest) : id ∈ knownIds after manifest := by
  simp only [knownIds, List.mem_append, List.mem_cons, List.mem_map] at h ⊢
  rw [hprojects]
  rcases h with ((h | ⟨x, hx, rfl⟩) | ⟨f, hf, rfl⟩) | h
  · exact .inl (.inl (.inl h))
  · exact .inl (.inl (.inr ⟨x, hproxies hx, rfl⟩))
  · exact .inl (.inr ⟨f, hprofiles hf, rfl⟩)
  · exact .inr h

/-- The ids of the imported items, newest first, under the ids they had. -/
def newIds {α ρ : Type} (key : α → String) (rowId : ρ → String) (items : List α) (rows : List ρ) :
    List (String × String) :=
  ((items.zip rows).map fun e => (key e.1, rowId e.2)).reverse

section Newest

variable {α ρ : Type} {key : α → String} {rowId : ρ → String} {items : List α} {rows : List ρ}
  {k v : String}

/-- What the map of new ids has under a key is the id of a row beside an item of that key. -/
theorem newest_newIds (h : newest (newIds key rowId items rows) k = some v) :
    ∃ e ∈ items.zip rows, key e.1 = k ∧ rowId e.2 = v := by
  unfold newest newIds at h
  obtain ⟨entry, hfind, rfl⟩ := Option.map_eq_some_iff.mp h
  have hmem := List.mem_of_find?_eq_some hfind
  rw [List.mem_reverse, List.mem_map] at hmem
  obtain ⟨e, he, rfl⟩ := hmem
  exact ⟨e, he, by simpa using List.find?_some hfind, rfl⟩

/-- And it has one under the key of every item. -/
theorem newest_newIds_isSome (hlength : items.length = rows.length) :
    (newest (newIds key rowId items rows) k).isSome = items.any fun a => key a = k := by
  unfold newest newIds
  rw [Option.isSome_map, Bool.eq_iff_iff, List.find?_isSome, List.any_eq_true]
  constructor
  · rintro ⟨entry, hentry, hk⟩
    rw [List.mem_reverse, List.mem_map] at hentry
    obtain ⟨e, he, rfl⟩ := hentry
    exact ⟨e.1, (List.of_mem_zip he).1, hk⟩
  · rintro ⟨a, ha, hk⟩
    have hin : a ∈ (items.zip rows).map Prod.fst := by
      rwa [List.map_fst_zip (Nat.le_of_eq hlength)]
    obtain ⟨e, he, rfl⟩ := List.mem_map.mp hin
    exact ⟨(key e.1, rowId e.2), by
      rw [List.mem_reverse, List.mem_map]
      exact ⟨e, he, rfl⟩, hk⟩

theorem newIds_cons {a : α} {r : ρ} :
    newIds key rowId (a :: items) (r :: rows) =
      newIds key rowId items rows ++ [(key a, rowId r)] := by
  simp [newIds]

end Newest

end Ids

section Proxies

/-- The row of an imported proxy. -/
structure CopiesProxy (p : Proxy) (row : ProxyRow) : Prop where
  name : row.name = p.name
  /-- It leads where the proxy led. -/
  address : row.kind = p.kind ∧ row.host = p.host ∧ row.port = p.port
  /-- With the same login and checker. -/
  login : row.username = p.username ∧ row.checkerUrl = p.checkerUrl
  live : row.deleted = false

/-- Proxies are imported unless a call fails: a new row for each, and its id beside the old one. -/
theorem importProxies_ends (proxies : List Proxy) (ids : List (String × String)) :
    Ends (importProxies lib env manifest ids proxies) w (Faultless env w.calls proxies.length)
      (fun out t => ∃ rows : List ProxyRow, List.Forall₂ CopiesProxy proxies rows ∧
        (∀ r ∈ rows, r.id ∉ knownIds w.db manifest) ∧
        out = newIds Proxy.id ProxyRow.id proxies rows ++ ids ∧
        t = { w with
          db := { w.db with proxies := rows.reverse ++ w.db.proxies }
          calls := w.calls + proxies.length })
      (fun t => t.db.projects = w.db.projects) := by
  induction proxies generalizing w ids with
  | nil =>
    refine (Ends.pure ?_).congr ⟨fun _ => faultless_zero, fun _ => trivial⟩
    exact ⟨[], .nil, fun _ hr => (by cases hr), rfl, rfl⟩
  | cons proxy rest ih =>
    unfold importProxies
    have hcall := totalCall_ends env w fun n db => db.upsertProxy lib.toPackLibrary (env.vault n)
      (env.newId (knownIds db manifest)) (env.nonces n) { proxy with id := "" }
    have hfirst := hcall.imp_left fun t h =>
      (congrArg Db.projects h.2.1 : t.db.projects = w.db.projects)
    refine (hfirst.bind (Faultless env (w.calls + 1) rest.length) fun id t _ hpost => ?_).congr ?_
    · obtain ⟨rfl, rfl⟩ := hpost
      obtain ⟨chosen, password, rotateUrl, hchosen, -, hcases⟩ := w.db.upsertProxy_cases
        lib.toPackLibrary (env.vault w.calls) (env.newId (knownIds w.db manifest))
        (env.nonces w.calls) { proxy with id := "" }
      rw [if_pos rfl] at hchosen
      have hfree : ∀ x ∈ w.db.proxies, x.id ≠ chosen :=
        fun x hx => hchosen ▸ newId_proxy env manifest hx
      have hsaved := (hcases.resolve_left fun ⟨⟨x, hx, hid⟩, _⟩ => hfree x hx hid).2
      rw [hsaved]
      refine (ih _).imp fun out t _ hpost => ?_
      obtain ⟨rows, hrows, hids, rfl, rfl⟩ := hpost
      refine ⟨Db.insertedProxy chosen { proxy with id := "" } password rotateUrl :: rows,
        .cons ⟨rfl, ⟨rfl, rfl, rfl⟩, ⟨rfl, rfl⟩, rfl⟩ hrows, fun r hr => ?_, ?_, ?_⟩
      · rcases List.mem_cons.mp hr with rfl | hr
        · exact fun hin => env.newId_new (knownIds w.db manifest) (hchosen ▸ hin)
        · exact fun hin => hids r hr
            (knownIds_mono (by rfl) (List.subset_cons_self _ _) (fun _ h => h) hin)
      · simp [newIds_cons, Db.insertedProxy]
      · simp [Nat.add_assoc, Nat.add_comm 1]
    · rw [List.length_cons, faultless_succ]

end Proxies

section Profiles

/-- The proxy that a profile of the file still names. -/
def namedProxy (p : Profile ω) : Option String := p.proxyId.filter fun id => id ≠ ""

/-- The proxies that the profiles of the file name are all there. -/
def ProxiesThere (db : Db ω) (profiles : List (Profile ω)) : Prop :=
  ∀ p ∈ profiles, ∀ id, namedProxy p = some id → ∃ row ∈ db.proxies, row.id = id

/-- The proxy that a fresh profile is saved with: the one it still names comes first. -/
theorem proxyIdOf_fresh (project : String) (proxyIds : List (String × String)) (p : Profile ω) :
    Db.proxyIdOf (freshProfile project proxyIds p) =
      (namedProxy p).orElse fun _ => p.proxy.bind fun x => newest proxyIds x.id := by
  unfold Db.proxyIdOf namedProxy freshProfile
  dsimp only
  congr 1
  funext _
  cases p.proxy with
  | none => rfl
  | some x =>
    rw [Option.bind_some, Option.bind_some, Option.map_map]
    exact Option.map_id'

/-- A profile is saved as a new row exactly when the proxy it names is there. -/
theorem upsert_fresh {db : Db ω} {project new : String} (seed : ℤ)
    {proxyIds : List (String × String)} (p : Profile ω)
    (hproject : ∃ q ∈ db.projects, q.id = project)
    (hproxies : ∀ k v, newest proxyIds k = some v → ∃ row ∈ db.proxies, row.id = v)
    (hnew : ∀ f ∈ db.profiles, f.id ≠ new) :
    ((db.upsertProfile new seed (freshProfile project proxyIds p)).isSome = true ↔
      ∀ id, namedProxy p = some id → ∃ row ∈ db.proxies, row.id = id) ∧
    ∀ id after, db.upsertProfile new seed (freshProfile project proxyIds p) = some (id, after) →
      id = new ∧ after = { db with
        profiles := Db.insertedRow new seed (freshProfile project proxyIds p) :: db.profiles } := by
  constructor
  · have hkeys : (db.upsertProfile new seed (freshProfile project proxyIds p)).isSome =
        (((freshProfile project proxyIds p).projectId.all fun id =>
          db.projects.any fun q => q.id = id) &&
        ((Db.proxyIdOf (freshProfile project proxyIds p)).all fun id =>
          db.proxies.any fun x => x.id = id)) := by
      simp only [Db.upsertProfile]
      split
      · rename_i h
        rw [h, Option.isSome_some]
      · rename_i h
        rw [Option.isSome_none]
        exact (Bool.eq_false_iff.mpr h).symm
    have hin : ((freshProfile project proxyIds p).projectId.all fun id =>
        db.projects.any fun q => q.id = id) = true := by
      obtain ⟨q, hq, hid⟩ := hproject
      exact List.any_eq_true.mpr ⟨q, hq, by simpa using hid⟩
    rw [hkeys, hin, Bool.true_and, proxyIdOf_fresh]
    cases hnamed : namedProxy p with
    | some id => simp
    | none =>
      refine ⟨fun _ id h => (by cases h), fun _ => ?_⟩
      cases hx : p.proxy.bind fun x => newest proxyIds x.id with
      | none => rfl
      | some v =>
        obtain ⟨x, -, hv⟩ := Option.bind_eq_some_iff.mp hx
        obtain ⟨row, hrow, hid⟩ := hproxies x.id v hv
        exact List.any_eq_true.mpr ⟨row, hrow, by simpa using hid⟩
  · intro id after h
    obtain ⟨-, hid, hcases⟩ := Db.upsertProfile_cases h
    rw [show (freshProfile project proxyIds p).id = "" from rfl, if_pos rfl] at hid
    subst hid
    refine ⟨rfl, (hcases.resolve_left fun hthere => ?_).2⟩
    obtain ⟨⟨f, hf, hid⟩, -⟩ := hthere
    exact hnew f hf hid

/-- Profiles are imported unless a call fails or a proxy that one names is not there: a new row for
each, and its id beside the old one. -/
theorem importProfiles_ends {project : String} {proxyIds : List (String × String)}
    (profiles : List (Profile ω)) (ids : List (String × String))
    (hproject : ∃ q ∈ w.db.projects, q.id = project)
    (hproxies : ∀ k v, newest proxyIds k = some v → ∃ row ∈ w.db.proxies, row.id = v) :
    Ends (importProfiles env manifest project proxyIds ids profiles) w
      (Faultless env w.calls profiles.length ∧ ProxiesThere w.db profiles)
      (fun out t => ∃ rows : List (ProfileRow ω),
        List.Forall₂ (fun p r => ∃ seed > 0,
          r = Db.insertedRow r.id seed (freshProfile project proxyIds p)) profiles rows ∧
        (∀ r ∈ rows, r.id ∉ knownIds w.db manifest) ∧
        out = newIds Profile.id ProfileRow.id profiles rows ++ ids ∧
        t = { w with
          db := { w.db with profiles := rows.reverse ++ w.db.profiles }
          calls := w.calls + profiles.length })
      (fun t => t.db.projects = w.db.projects) := by
  induction profiles generalizing w ids with
  | nil =>
    refine (Ends.pure ?_).congr ⟨fun _ => ⟨faultless_zero, fun _ hp => (by cases hp)⟩,
      fun _ => trivial⟩
    exact ⟨[], .nil, fun _ hr => (by cases hr), rfl, rfl⟩
  | cons profile rest ih =>
    unfold importProfiles
    have hcall := storeCall_ends env w fun n db =>
      db.upsertProfile (env.newId (knownIds db manifest)) (env.seed n)
        (freshProfile project proxyIds profile)
    obtain ⟨hgoes, hresult⟩ := upsert_fresh (env.seed w.calls) profile hproject
      hproxies fun f hf => newId_profile env manifest hf
    have hfirst := hcall.imp_left fun t h =>
      (congrArg Db.projects h.2.1 : t.db.projects = w.db.projects)
    refine (hfirst.bind (Faultless env (w.calls + 1) rest.length ∧ ProxiesThere w.db rest)
      fun id t _ hpost => ?_).congr ?_
    · obtain ⟨db, heq, rfl⟩ := hpost
      obtain ⟨rfl, rfl⟩ := hresult id db heq
      refine (ih _ (by exact hproject) (by exact hproxies)).imp fun out t _ hpost => ?_
      obtain ⟨rows, hrows, hids, rfl, rfl⟩ := hpost
      refine ⟨Db.insertedRow (env.newId (knownIds w.db manifest)) (env.seed w.calls)
        (freshProfile project proxyIds profile) :: rows,
        .cons ⟨env.seed w.calls, env.seed_pos w.calls, rfl⟩ hrows, fun r hr => ?_, ?_, ?_⟩
      · rcases List.mem_cons.mp hr with rfl | hr
        · exact env.newId_new (knownIds w.db manifest)
        · exact fun hin => hids r hr
            (knownIds_mono (by rfl) (by exact fun _ h => h) (List.subset_cons_self _ _) hin)
      · simp [newIds_cons, Db.insertedRow]
      · simp [Nat.add_assoc, Nat.add_comm 1]
    · rw [List.length_cons, faultless_succ, hgoes]
      unfold ProxiesThere
      rw [List.forall_mem_cons]
      constructor
      · rintro ⟨⟨hf, hone⟩, hfs, hall⟩
        exact ⟨⟨hf, hfs⟩, hone, hall⟩
      · rintro ⟨⟨hf, hfs⟩, hone, hall⟩
        exact ⟨⟨hf, hone⟩, hfs, hall⟩

end Profiles

section Files

variable (env dirs w) in
/-- Files are written unless a call fails: two calls for each file of an imported profile. -/
theorem importFiles_ends (ids : List (String × String)) (files : List DataFile) :
    Ends (importFiles env dirs ids files) w
      (Faultless env w.calls (2 * files.countP fun file => (newest ids file.id).isSome))
      (fun _ t => t.db = w.db) (fun t => t.db = w.db) := by
  induction files generalizing w with
  | nil =>
    refine (Ends.pure ?_).congr ⟨fun _ => faultless_zero, fun _ => trivial⟩
    rfl
  | cons file rest ih =>
    unfold importFiles
    cases hid : newest ids file.id with
    | none =>
      rw [List.countP_cons_of_neg (by simp [hid])]
      exact ih w
    | some id =>
      rw [List.countP_cons_of_pos (by simp [hid])]
      generalize rest.countP (fun file => (newest ids file.id).isSome) = count at ih
      refine ((fileCall_ends env w _).bind (env.fails (w.calls + 1) = false ∧
        Faultless env (w.calls + 2) (2 * count)) fun _ t _ hpost => ?_).congr ?_
      · obtain ⟨hdb, hcalls⟩ := hpost
        have hsecond := fileCall_ends env t fun disk =>
          setNode disk (dirs id ++ file.inner) (.file file.content)
        rw [hcalls] at hsecond
        have hwrite := hsecond.imp_left fun u (h : u.db = t.db) => h.trans hdb
        refine hwrite.bind _ fun _ u _ hu => ?_
        have hdb' : u.db = w.db := hu.1.trans hdb
        refine (ih u).mono ?_ (fun _ _ _ h => h.trans hdb') fun v h => h.trans hdb'
        rw [hu.2]
      · rw [Nat.mul_succ, faultless_succ, faultless_succ]

end Files

section Import

/-- The calls of an import after its project was made. -/
def laterCalls (manifest : Manifest ω) (data : List DataFile) : ℕ :=
  manifest.proxies.length + (manifest.profiles.length +
    2 * data.countP fun file => manifest.profiles.any fun p => p.id = file.id)

/-- What an import adds to the tables: rows under new ids, and nothing else. -/
def Added (manifest : Manifest ω) (project : String) (before after : Db ω) : Prop :=
  ∃ (proxyRows : List ProxyRow) (profileRows : List (ProfileRow ω)),
    List.Forall₂ CopiesProxy manifest.proxies proxyRows ∧
    (∀ r ∈ proxyRows, r.id ∉ knownIds before manifest) ∧
    List.Forall₂ (fun p r => ∃ seed > 0, r = Db.insertedRow r.id seed (freshProfile project
      (newIds Proxy.id ProxyRow.id manifest.proxies proxyRows) p)) manifest.profiles profileRows ∧
    (∀ r ∈ profileRows, r.id ∉ knownIds before manifest) ∧
    after = { before with
      proxies := proxyRows.reverse ++ before.proxies
      profiles := profileRows.reverse ++ before.profiles }

/-- What an import notes as a proxy's new id is that of a row it made. -/
theorem newest_imported {proxies : List Proxy} {rows : List ProxyRow} {old : List ProxyRow}
    (k v : String) (h : newest (newIds Proxy.id ProxyRow.id proxies rows) k = some v) :
    ∃ row ∈ rows.reverse ++ old, row.id = v := by
  obtain ⟨e, he, -, hv⟩ := newest_newIds h
  exact ⟨e.2, List.mem_append_left _ (List.mem_reverse.mpr (List.of_mem_zip he).2), hv⟩

/-- A proxy that was imported is none that a profile of the file names: its id is new. -/
theorem proxiesThere_imported {rows : List ProxyRow}
    (hnew : ∀ r ∈ rows, r.id ∉ knownIds w.db manifest) :
    ProxiesThere { w.db with proxies := rows.reverse ++ w.db.proxies } manifest.profiles ↔
      ProxiesThere w.db manifest.profiles := by
  constructor
  · intro h p hp id hid
    obtain ⟨row, hrow, rfl⟩ := h p hp id hid
    rcases List.mem_append.mp hrow with hmade | hold
    · refine absurd ?_ (hnew row (List.mem_reverse.mp hmade))
      have hnamed := (Option.filter_eq_some_iff.mp hid).1
      exact List.mem_append_right _ (List.mem_filterMap.mpr ⟨p, hp, hnamed⟩)
    · exact ⟨row, hold, rfl⟩
  · intro h p hp id hid
    obtain ⟨row, hrow, hrowId⟩ := h p hp id hid
    exact ⟨row, List.mem_append_right _ hrow, hrowId⟩

/-- The rest of an import goes through exactly when none of its calls fails and the proxies that
the profiles name are there. The imported proxies are not: their ids are new. -/
theorem importRest_ends {project : String} (data : List DataFile)
    (hproject : ∃ q ∈ w.db.projects, q.id = project) :
    Ends (importRest lib env dirs manifest data project) w
      (Faultless env w.calls (laterCalls manifest data) ∧
        ProxiesThere w.db manifest.profiles)
      (fun out t => out.1 = project ∧ Added manifest project w.db t.db)
      (fun t => t.db.projects = w.db.projects) := by
  unfold importRest laterCalls
  refine ((importProxies_ends manifest.proxies []).bind
    ((Faultless env (w.calls + manifest.proxies.length) manifest.profiles.length ∧
      ProxiesThere w.db manifest.profiles) ∧
      Faultless env (w.calls + manifest.proxies.length + manifest.profiles.length)
        (2 * data.countP fun file => manifest.profiles.any fun p => p.id = file.id))
    fun proxyIds t _ hpost => ?_).congr ?_
  · obtain ⟨proxyRows, hcopies, hproxyIds, rfl, rfl⟩ := hpost
    rw [List.append_nil]
    refine Ends.bind ((importProfiles_ends manifest.profiles [] (by exact hproject)
      (by exact newest_imported)).congr
      (and_congr_right fun _ => proxiesThere_imported hproxyIds)) _ fun ids t _ hpost => ?_
    obtain ⟨profileRows, hrows, hprofileIds, rfl, rfl⟩ := hpost
    rw [List.append_nil]
    have hids : ∀ file : DataFile,
        (newest (newIds Profile.id ProfileRow.id manifest.profiles profileRows) file.id).isSome =
          manifest.profiles.any fun p => p.id = file.id :=
      fun file => newest_newIds_isSome hrows.length_eq
    have hfiles := importFiles_ends env dirs {
      w with
      db := { w.db with
        proxies := proxyRows.reverse ++ w.db.proxies
        profiles := profileRows.reverse ++ w.db.profiles }
      calls := w.calls + manifest.proxies.length + manifest.profiles.length }
      (newIds Profile.id ProfileRow.id manifest.profiles profileRows) data
    simp only [hids] at hfiles
    refine (Ends.bind (hfiles.imp_left fun t h => ?_) True
      fun _ t _ ht => Ends.pure ?_).congr (Iff.of_eq (and_true _))
    · rw [h]
    · rw [ht]
      refine ⟨rfl, proxyRows, profileRows, hcopies, hproxyIds, hrows, fun r hr hin => ?_, rfl⟩
      exact hprofileIds r hr
        (knownIds_mono (by rfl) (List.subset_append_right _ _) (fun _ h => h) hin)
  · rw [faultless_add, faultless_add]
    constructor
    · rintro ⟨hproxies, ⟨hprofiles, hthere⟩, hfiles⟩
      exact ⟨⟨hproxies, hprofiles, hfiles⟩, hthere⟩
    · rintro ⟨⟨hproxies, hprofiles, hfiles⟩, hthere⟩
      exact ⟨hproxies, ⟨hprofiles, hthere⟩, hfiles⟩

variable (env w) in
/-- Where an import that fails leaves the store: as it was, if its list or its project was refused,
and otherwise with one more project. -/
def Stopped (t : World ω) : Prop :=
  (env.fails w.calls = true ∨ env.fails (w.calls + 1) = true) ∧ t.db = w.db ∧ t.disk = w.disk ∨
    (env.fails w.calls = false ∧ env.fails (w.calls + 1) = false) ∧
      t.db.projects.length = w.db.projects.length + 1

variable (env dirs w) in
/-- An import of a file that opens goes through exactly when none of its calls fails and the
proxies that the profiles name are there. -/
theorem importProject_ends {src : Option Bytes} {passphrase : String} {data : List DataFile}
    (hopen : openExport lib src passphrase = .ok (manifest, data)) :
    Ends (importProject lib env dirs src passphrase) w
      (env.fails w.calls = false ∧ env.fails (w.calls + 1) = false ∧
        Faultless env (w.calls + 2) (laterCalls manifest data) ∧
        ProxiesThere w.db manifest.profiles)
      (fun out t => out.1 ∉ knownIds w.db manifest ∧
        ∃ name, Added manifest out.1 (w.db.createProject out.1 name "") t.db)
      (Stopped env w) := by
  unfold importProject
  rw [hopen]
  dsimp only
  refine ((totalCall_ends env w _).imp_left fun t h => ?_).bind _ fun taken t hfirst hpost => ?_
  · exact .inl ⟨.inl h.1, h.2⟩
  · obtain ⟨rfl, rfl⟩ := hpost
    generalize (if (w.db.projectsList.map Project.name).contains manifest.projectName then
      manifest.projectName ++ " (imported)" else manifest.projectName) = name
    refine ((totalCall_ends env _ _).imp_left fun t h => ?_).bind _
      fun project t hsecond hpost => ?_
    · exact .inl ⟨.inr h.1, h.2⟩
    · obtain ⟨rfl, rfl⟩ := hpost
      refine (importRest_ends data ?_).mono Iff.rfl (fun out t _ h => ?_) fun t h => ?_
      · exact ⟨_, List.mem_cons_self, rfl⟩
      · rw [h.1]
        exact ⟨env.newId_new _, name, h.2⟩
      · refine .inr ⟨⟨hfirst, hsecond⟩, ?_⟩
        rw [h]
        rfl

end Import

end FuryBrowser.ProjectTransfer
