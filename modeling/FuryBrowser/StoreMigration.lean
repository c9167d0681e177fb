import Mathlib.Data.List.Forall2

/-!
# Migrations of the local store

At every start the tables that are missing are made, the columns that later versions added are
added where they are missing, and a table of profiles that still wants a project is rebuilt. The
rebuild copies the columns of the first version, and runs after the others were added.
-/

namespace FuryBrowser.StoreMigration

section Tables

/-- A stored value. -/
inductive Value where
  | null
  | int (n : Int)
  | text (s : String)
  deriving DecidableEq, Repr

/-- A column. -/
structure Column where
  name : String
  /-- It is declared `NOT NULL`. -/
  notNull : Bool
  default : Value
  deriving DecidableEq, Repr

/-- A row: its value in each column. -/
abbrev Row := String → Value

/-- A table. -/
structure Table where
  columns : List Column
  rows : List Row

/-- The table has a column of that name. -/
def Table.has (t : Table) (name : String) : Bool := t.columns.any fun c => c.name = name

/-- `ALTER TABLE … ADD COLUMN`, whose failure on a column that is there is ignored. -/
def Table.addColumn (t : Table) (c : Column) : Table :=
  if t.has c.name then t
  else ⟨t.columns ++ [c], t.rows.map fun r name => if name = c.name then c.default else r name⟩

/-- `INSERT INTO new (names) SELECT names FROM t`, which fails without one of the columns, and
where a row has nothing for one that may not be `NULL`. -/
def Table.copyInto (t : Table) (columns : List Column) : Option Table :=
  if columns.all fun c => t.has c.name && (!c.notNull || t.rows.all fun r => r c.name ≠ .null) then
    some ⟨columns, t.rows.map fun r name =>
      if columns.any fun c => c.name = name then r name else .null⟩
  else none

end Tables

section Schema

/-- A column that may be `NULL`. -/
def nullable (name : String) : Column := ⟨name, false, .null⟩

/-- A column that may not. -/
def required (name : String) : Column := ⟨name, true, .null⟩

/-- A column that may not, with what it has by default. -/
def defaulted (name : String) (value : Value) : Column := ⟨name, true, value⟩

/-- The columns that `projects` is made with. -/
def projectColumns : List Column :=
  [nullable "id", required "name", defaulted "notes" (.text ""), required "created_at",
    nullable "deleted_at"]

/-- Those that `proxies` had from the first. -/
def firstProxyColumns : List Column :=
  [nullable "id", required "name", required "kind", required "host", required "port",
    nullable "username", nullable "password", nullable "last_ip", nullable "last_country",
    nullable "checked_at", required "created_at", nullable "deleted_at"]

/-- The columns that `proxies` is made with. -/
def proxyColumns : List Column :=
  [nullable "id", required "name", required "kind", required "host", required "port",
    nullable "username", nullable "password", nullable "rotate_url", nullable "checker_url",
    nullable "last_ip", nullable "last_country", nullable "checked_at", required "created_at",
    nullable "deleted_at"]

/-- Those that were added to it later. -/
def laterProxyColumns : List Column :=
  [nullable "rotate_url", nullable "checker_url", nullable "last_timezone",
    nullable "last_location"]

/-- The columns that `profiles` is made with, and rebuilt with. -/
def profileColumns : List Column :=
  [nullable "id", nullable "project_id", required "name", defaulted "notes" (.text ""),
    defaulted "tags" (.text "[]"), required "persona_id", required "fp_seed", nullable "proxy_id",
    nullable "timezone", nullable "languages", defaulted "start_urls" (.text "[]"),
    nullable "last_opened_at", required "created_at", nullable "deleted_at"]

/-- Those that were added to it later. -/
def laterProfileColumns : List Column :=
  [defaulted "blocklists" (.text "[]"), defaulted "status" (.text ""),
    defaulted "allow_no_proxy" (.int 0), defaulted "overrides" (.text "{}")]

/-- The columns that `credentials` is made with. -/
def credentialColumns : List Column :=
  [nullable "id", required "profile_id", required "label", defaulted "site" (.text ""),
    nullable "username", nullable "password", nullable "totp", defaulted "notes" (.text ""),
    required "created_at", required "updated_at"]

/-- A database: the tables it has. -/
structure Schema where
  projects : Option Table
  proxies : Option Table
  profiles : Option Table
  credentials : Option Table

/-- A table that has all of some columns. -/
def Table.hasAll (t : Table) (columns : List Column) : Prop :=
  ∀ c ∈ columns, t.has c.name = true

/-- A database as some version left it: the columns each table had from the first, any of the
columns that were added later, and any others. -/
structure EarlierSchema extends Schema where
  projectsHave : ∀ t ∈ projects, t.hasAll projectColumns
  proxiesHave : ∀ t ∈ proxies, t.hasAll firstProxyColumns
  profilesHave : ∀ t ∈ profiles, t.hasAll profileColumns
  credentialsHave : ∀ t ∈ credentials, t.hasAll credentialColumns

end Schema

section Migration

/-- `CREATE TABLE IF NOT EXISTS`. -/
def createIfMissing (t : Option Table) (columns : List Column) : Table := t.getD ⟨columns, []⟩

/-- What `pragma_table_info` says of `project_id`. -/
def Table.wantsProject (t : Table) : Bool :=
  ((t.columns.find? fun c => c.name = "project_id").map Column.notNull).getD false

/-- `allow_profiles_without_a_project`. -/
def allowProfilesWithoutAProject (t : Table) : Option Table :=
  if t.wantsProject then t.copyInto profileColumns else some t

/-- `migrate`. -/
def migrate (s : Schema) : Option Schema :=
  let proxies := laterProxyColumns.foldl Table.addColumn (createIfMissing s.proxies proxyColumns)
  let profiles :=
    laterProfileColumns.foldl Table.addColumn (createIfMissing s.profiles profileColumns)
  (allowProfilesWithoutAProject profiles).map fun profiles : Table =>
    ⟨some (createIfMissing s.projects projectColumns), some proxies, some profiles,
      some (createIfMissing s.credentials credentialColumns)⟩

/-- Every column that a query uses is there. -/
structure Complete (s : Schema) : Prop where
  projects : ∃ t, s.projects = some t ∧ t.hasAll projectColumns
  proxies : ∃ t, s.proxies = some t ∧ t.hasAll (firstProxyColumns ++ laterProxyColumns)
  profiles : ∃ t, s.profiles = some t ∧ t.hasAll (profileColumns ++ laterProfileColumns)
  credentials : ∃ t, s.credentials = some t ∧ t.hasAll credentialColumns

/-- A table keeps the columns another one had, and every row its values in them. -/
structure Keeps (before after : Table) : Prop where
  columns : ∀ c ∈ before.columns, after.has c.name = true
  rows : List.Forall₂ (fun r r' : Row => ∀ c ∈ before.columns, r' c.name = r c.name)
    before.rows after.rows

/-- Every table that was there keeps what it had. -/
structure KeepsAll (before after : Schema) : Prop where
  projects : ∀ t ∈ before.projects, ∃ t' ∈ after.projects, Keeps t t'
  proxies : ∀ t ∈ before.proxies, ∃ t' ∈ after.proxies, Keeps t t'
  profiles : ∀ t ∈ before.profiles, ∃ t' ∈ after.profiles, Keeps t t'
  credentials : ∀ t ∈ before.credentials, ∃ t' ∈ after.credentials, Keeps t t'

/-- A migration goes through, to a database with every column and every value, which a second one
leaves as it is. -/
def MigratesSafely (s : Schema) : Prop :=
  ∃ after, migrate s = some after ∧ Complete after ∧ KeepsAll s after ∧
    migrate after = some after

end Migration

section Columns

variable {t : Table} {c : Column} {columns : List Column} {name : String}

theorem addColumn_has : (t.addColumn c).has name = (t.has name || decide (c.name = name)) := by
  unfold Table.addColumn
  split
  · rename_i hthere
    by_cases hname : c.name = name
    · rw [← hname, hthere, Bool.true_or]
    · simp [hname]
  · simp [Table.has]

/-- The columns there are, and the added ones. -/
theorem addColumns_has : (columns.foldl Table.addColumn t).has name =
    (t.has name || columns.any fun c => c.name = name) := by
  induction columns generalizing t with
  | nil => simp
  | cons c rest ih => rw [List.foldl_cons, ih, addColumn_has, List.any_cons, Bool.or_assoc]

theorem Keeps.refl (t : Table) : Keeps t t where
  columns c hc := List.any_eq_true.mpr ⟨c, hc, by simp⟩
  rows := List.forall₂_same.mpr fun _ _ _ _ => rfl

/-- Adding a column keeps the others and their values. -/
theorem addColumn_keeps (t : Table) (c : Column) : Keeps t (t.addColumn c) := by
  cases hthere : t.has c.name with
  | true =>
    rw [Table.addColumn, if_pos hthere]
    exact .refl t
  | false =>
    refine ⟨fun d hd => ?_, ?_⟩
    · rw [addColumn_has, (Keeps.refl t).columns d hd, Bool.true_or]
    · rw [Table.addColumn, if_neg (by simp [hthere])]
      refine List.forall₂_map_right_iff.mpr (List.forall₂_same.mpr fun r _ d hd => ?_)
      have hne : d.name ≠ c.name := by
        intro heq
        have hin := (Keeps.refl t).columns d hd
        rw [heq, hthere] at hin
        cases hin
      exact if_neg hne

/-- A value kept twice is kept: the second table has the column under the same name. -/
theorem Keeps.trans {a b : Table} (hab : Keeps a b) (hb : Keeps b t) : Keeps a t where
  columns d hd := by
    obtain ⟨e, he, hname⟩ := List.any_eq_true.mp (hab.columns d hd)
    have hin := hb.columns e he
    rwa [of_decide_eq_true hname] at hin
  rows := by
    have hcols := hab.columns
    have hleft := hab.rows
    have hright := hb.rows
    generalize a.rows = ra, b.rows = rb, t.rows = rt at hleft hright
    induction hleft generalizing rt with
    | nil =>
      cases hright
      exact .nil
    | cons hrow _ ih =>
      cases hright with
      | cons hrow' hrest =>
        refine .cons (fun d hd => ?_) (ih _ hrest)
        obtain ⟨e, he, hname⟩ := List.any_eq_true.mp (hcols d hd)
        have hsame := hrow' e he
        rw [of_decide_eq_true hname] at hsame
        rw [hsame, hrow d hd]

/-- Adding columns keeps the others and their values. -/
theorem addColumns_keeps (columns : List Column) :
    Keeps t (columns.foldl Table.addColumn t) := by
  induction columns generalizing t with
  | nil => exact .refl t
  | cons c rest ih => exact (addColumn_keeps t c).trans ih

/-- Where they are all there, nothing is added. -/
theorem addColumns_there (hall : t.hasAll columns) : columns.foldl Table.addColumn t = t := by
  induction columns generalizing t with
  | nil => rfl
  | cons c rest ih =>
    have hfirst : t.addColumn c = t := if_pos (hall c (by simp))
    rw [List.foldl_cons, hfirst]
    exact ih fun d hd => hall d (List.mem_cons_of_mem _ hd)

theorem hasAll_append {more : List Column} :
    t.hasAll (columns ++ more) ↔ t.hasAll columns ∧ t.hasAll more :=
  List.forall_mem_append

theorem Keeps.hasAll {t' : Table} (hkeep : Keeps t t') (hall : t.hasAll columns) :
    t'.hasAll columns := by
  intro c hc
  obtain ⟨e, he, hname⟩ := List.any_eq_true.mp (hall c hc)
  have hin := hkeep.columns e he
  rwa [of_decide_eq_true hname] at hin

/-- The added columns are there afterwards. -/
theorem addColumns_hasAll (columns : List Column) :
    (columns.foldl Table.addColumn t).hasAll columns := by
  intro c hc
  rw [addColumns_has, Bool.or_eq_true]
  exact .inr (List.any_eq_true.mpr ⟨c, hc, by simp⟩)

/-- A table made with all of its columns. -/
theorem created_hasAll : Table.hasAll ⟨columns, []⟩ columns :=
  fun c hc => List.any_eq_true.mpr ⟨c, hc, by simp⟩

/-- Whether profiles want a project is not changed by another column. -/
theorem addColumn_wantsProject (hthere : t.has "project_id" = true) :
    (t.addColumn c).wantsProject = t.wantsProject := by
  unfold Table.addColumn
  split
  · rfl
  · obtain ⟨d, hd, hname⟩ := List.any_eq_true.mp hthere
    have hfound : (t.columns.find? fun c => c.name = "project_id").isSome := by
      rw [List.find?_isSome]
      exact ⟨d, hd, hname⟩
    obtain ⟨e, he⟩ := Option.isSome_iff_exists.mp hfound
    simp only [Table.wantsProject, List.find?_append, he, Option.some_or]

theorem addColumns_wantsProject (hthere : t.has "project_id" = true) :
    (columns.foldl Table.addColumn t).wantsProject = t.wantsProject := by
  induction columns generalizing t with
  | nil => rfl
  | cons c rest ih =>
    rw [List.foldl_cons, ih (by rw [addColumn_has, hthere, Bool.true_or]),
      addColumn_wantsProject hthere]

end Columns

section Whole

/-- What profiles are before the rebuild is considered. -/
def grownProfiles (s : Schema) : Table :=
  laterProfileColumns.foldl Table.addColumn (createIfMissing s.profiles profileColumns)

/-- A rebuilt table has the columns of the first version only. -/
theorem copyInto_columns {t t' : Table} {columns : List Column}
    (hcopy : t.copyInto columns = some t') : t'.columns = columns := by
  unfold Table.copyInto at hcopy
  split at hcopy
  · cases hcopy
    rfl
  · cases hcopy

/-- A table of profiles that wants a project does not come through with every column: the
rebuild runs after the later columns were added, and leaves them behind. -/
theorem wantsProject_incomplete {s after : Schema} (hrun : migrate s = some after)
    (hwants : (grownProfiles s).wantsProject = true) : ¬Complete after := by
  intro hcomplete
  obtain ⟨profiles, hrebuilt, hafter⟩ := Option.map_eq_some_iff.mp hrun
  obtain ⟨t, ht, hall⟩ := hcomplete.profiles
  have hcopy : (grownProfiles s).copyInto profileColumns = some profiles := by
    rw [← hrebuilt]
    exact (if_pos hwants).symm
  have hsame : t = profiles := by
    rw [← hafter] at ht
    exact (Option.some.inj ht).symm
  have hhas := hall (defaulted "blocklists" (.text "[]")) (by decide)
  rw [hsame, Table.has, copyInto_columns hcopy] at hhas
  revert hhas
  decide

/-- A table that is made, or was there with some columns, has them. -/
theorem createIfMissing_hasAll {t : Option Table} (columns : List Column) {had : List Column}
    (hhave : ∀ t' ∈ t, t'.hasAll had) (hmade : Table.hasAll ⟨columns, []⟩ had) :
    (createIfMissing t columns).hasAll had := by
  cases t with
  | none => exact hmade
  | some t => exact hhave t rfl

/-- A table that was there is not made again. -/
theorem createIfMissing_keeps {t : Option Table} {columns : List Column} :
    ∀ t' ∈ t, Keeps t' (createIfMissing t columns) := by
  rintro t' ht'
  cases ht'
  exact .refl t'

/-- Nor is one with every later column changed. -/
theorem grown_again (t : Table) (columns made : List Column) :
    columns.foldl Table.addColumn
      (createIfMissing (some (columns.foldl Table.addColumn t)) made) =
      columns.foldl Table.addColumn t :=
  addColumns_there (addColumns_hasAll columns)

/-- Where no profile needs a project, the columns that are missing are added and nothing else
happens. -/
theorem migrate_grows {s : Schema} (hfree : (grownProfiles s).wantsProject = false) :
    migrate s = some ⟨some (createIfMissing s.projects projectColumns),
      some (laterProxyColumns.foldl Table.addColumn (createIfMissing s.proxies proxyColumns)),
      some (grownProfiles s), some (createIfMissing s.credentials credentialColumns)⟩ := by
  have hsame : allowProfilesWithoutAProject (grownProfiles s) = some (grownProfiles s) :=
    if_neg (by simp [hfree])
  unfold grownProfiles at hsame
  simp only [migrate, hsame]
  rfl

theorem migratesSafely_of_free (s : EarlierSchema)
    (hfree : (grownProfiles s.toSchema).wantsProject = false) : MigratesSafely s.toSchema := by
  refine ⟨_, migrate_grows hfree, ⟨?_, ?_, ?_, ?_⟩, ⟨?_, ?_, ?_, ?_⟩, ?_⟩
  · exact ⟨_, rfl, createIfMissing_hasAll _ s.projectsHave created_hasAll⟩
  · have hfirst := createIfMissing_hasAll proxyColumns s.proxiesHave
      (fun c hc => created_hasAll c (by revert c; decide))
    exact ⟨_, rfl, hasAll_append.mpr ⟨(addColumns_keeps _).hasAll hfirst, addColumns_hasAll _⟩⟩
  · have hfirst := createIfMissing_hasAll _ s.profilesHave created_hasAll
    exact ⟨_, rfl, hasAll_append.mpr ⟨(addColumns_keeps _).hasAll hfirst, addColumns_hasAll _⟩⟩
  · exact ⟨_, rfl, createIfMissing_hasAll _ s.credentialsHave created_hasAll⟩
  · exact fun t ht => ⟨_, rfl, createIfMissing_keeps t ht⟩
  · exact fun t ht => ⟨_, rfl, (createIfMissing_keeps t ht).trans (addColumns_keeps _)⟩
  · exact fun t ht => ⟨_, rfl, (createIfMissing_keeps t ht).trans (addColumns_keeps _)⟩
  · exact fun t ht => ⟨_, rfl, createIfMissing_keeps t ht⟩
  · have hagain : grownProfiles ⟨some (createIfMissing s.projects projectColumns),
        some (laterProxyColumns.foldl Table.addColumn (createIfMissing s.proxies proxyColumns)),
        some (grownProfiles s.toSchema),
        some (createIfMissing s.credentials credentialColumns)⟩ =
        grownProfiles s.toSchema := grown_again _ _ _
    rw [migrate_grows (by rw [hagain]; exact hfree), hagain, grown_again]
    rfl

/-- Whether profiles want a project is what the table that was there said. -/
theorem grownProfiles_wantsProject (s : EarlierSchema) :
    (grownProfiles s.toSchema).wantsProject = false ↔
      ∀ t ∈ s.profiles, t.wantsProject = false := by
  have hthere : (createIfMissing s.profiles profileColumns).has "project_id" = true :=
    createIfMissing_hasAll _ s.profilesHave created_hasAll (nullable "project_id") (by decide)
  rw [grownProfiles, addColumns_wantsProject hthere]
  cases s.profiles with
  | none => simp [createIfMissing, Table.wantsProject, profileColumns, nullable]
  | some t => simp [createIfMissing]

/-- A migration keeps every value, and leaves every column there, exactly where no table of
profiles still wants a project. -/
theorem migrates_safely_iff (s : EarlierSchema) :
    MigratesSafely s.toSchema ↔ ∀ t ∈ s.profiles, t.wantsProject = false := by
  rw [← grownProfiles_wantsProject]
  constructor
  · rintro ⟨after, hrun, hcomplete, -, -⟩
    cases hwants : (grownProfiles s.toSchema).wantsProject with
    | false => rfl
    | true => exact absurd hcomplete (wantsProject_incomplete hrun hwants)
  · exact migratesSafely_of_free s

end Whole

section Loss

/-- One profile of a version whose profiles had to be in a project, with a blocklist of its own. -/
def filedProfiles : Table where
  columns := required "project_id" ::
    (profileColumns.filter (·.name ≠ "project_id") ++ laterProfileColumns)
  rows := [fun name => if name = "blocklists" then .text "[\"ads\"]" else .text name]

/-- A store of that version. -/
def filedSchema : EarlierSchema where
  projects := none
  proxies := none
  profiles := some filedProfiles
  credentials := none
  projectsHave := by simp
  proxiesHave := by simp
  profilesHave := by
    rintro t ht
    cases ht
    unfold Table.hasAll
    decide
  credentialsHave := by simp

/-- The blocklist of that profile is gone. -/
theorem blocklists_left_behind : ¬∀ s : EarlierSchema, MigratesSafely s.toSchema := by
  intro hall
  obtain ⟨after, hrun, hcomplete, -, -⟩ := hall filedSchema
  exact wantsProject_incomplete hrun (by decide) hcomplete

end Loss

end FuryBrowser.StoreMigration
