import FuryBrowser.ProfileUsage
import Mathlib.Algebra.BigOperators.Group.List.Basic

/-!
# What a trim takes, and what the archive holds after it

A trim removes the caches of a profile with all that is in them and nothing else, and these files
are the ones that were counted. The archive is the same as long as no link the packer goes along
leads into a cache: what it finds there is gone with it.
-/

namespace FuryBrowser.ProfileUsage

open PathTree LinkTree
open AgentDisk (Bytes Path)
open BundleUnpack (skipCaches skipsName synced)

section Counting

variable {len : Entry String Bytes → ℕ} {t : Disk} {dir p : Path} {depth : ℕ}
  {e : Entry String Bytes}

theorem length_le_height (h : (nodeAt t p).isSome = true) : p.length ≤ height t := by
  obtain ⟨node, hnode⟩ := Option.isSome_iff_exists.mp h
  obtain ⟨entry, hfind, -⟩ := Option.map_eq_some_iff.mp hnode
  have hkey := List.find?_some hfind
  have hmem := List.mem_of_find?_eq_some hfind
  clear h hnode hfind
  induction t with
  | nil => cases hmem
  | cons first rest ih =>
    rw [height, List.foldr_cons]
    rcases List.mem_cons.mp hmem with rfl | hin
    · rw [of_decide_eq_true hkey]
      exact Nat.le_max_left _ _
    · exact (ih hin).trans (Nat.le_max_right _ _)

/-- Every path is at most so long. -/
def Within (t : Disk) (bound : ℕ) : Prop := ∀ p, (nodeAt t p).isSome = true → p.length ≤ bound

theorem Within.down (h : Within t (dir.length + (depth + 1))) (name : String) :
    Within t ((dir ++ [name]).length + depth) := by
  intro p hp
  have hlen := h p hp
  rw [List.length_append, List.length_singleton]
  omega

theorem Within.dropWhere {bound : ℕ} (h : Within t bound) (gone : Path → Bool) :
    Within (dropWhere t gone) bound := by
  intro p hp
  rw [nodeAt_dropWhere] at hp
  by_cases hg : gone p = true
  · rw [if_pos hg] at hp
    cases hp
  · rw [if_neg hg] at hp
    exact h p hp

/-- What is above anything is a directory. -/
theorem isDir_above (ht : Rooted t) {rest : Path} (hrest : rest ≠ [])
    (h : (nodeAt t (dir ++ rest)).isSome = true) : isDir t dir = true := by
  induction rest generalizing dir with
  | nil => exact absurd rfl hrest
  | cons name rest ih =>
    cases rest with
    | nil => exact ht.parents dir name h
    | cons below rest =>
      have hdir : isDir t (dir ++ [name]) = true :=
        ih (List.cons_ne_nil below rest) (by simpa using h)
      refine ht.parents dir name ?_
      rw [(isDir_iff (by simp)).mp hdir]
      rfl

theorem filesAt_cases {below : Path → List (Path × Entry String Bytes)}
    {f : Path × Entry String Bytes} (h : f ∈ filesAt t below p) :
    (nodeAt t p = some .dir ∧ f ∈ below p) ∨ ∃ e, nodeAt t p = some (.file e) ∧ f = (p, e) := by
  unfold filesAt at h
  cases hnode : nodeAt t p with
  | none =>
    rw [hnode] at h
    cases h
  | some node =>
    rw [hnode] at h
    cases node with
    | dir => exact .inl ⟨rfl, h⟩
    | file e => exact .inr ⟨e, rfl, List.mem_singleton.mp h⟩

/-- The size of a directory is that of the files below it. -/
theorem sizeOfTree_eq :
    sizeOfTree len t depth dir = ((filesBelow t depth dir).map fun f => len f.2).sum := by
  induction depth generalizing dir with
  | zero => rfl
  | succ depth ih =>
    rw [sizeOfTree, filesBelow]
    induction entries t dir with
    | nil => rfl
    | cons name names ihn =>
      rw [List.map_cons, List.sum_cons, List.flatMap_cons, List.map_append, List.sum_append, ihn]
      congr 1
      unfold filesAt
      cases nodeAt t (dir ++ [name]) with
      | none => rfl
      | some node =>
        cases node with
        | dir => exact ih
        | file e => simp

/-- They are the files that there are below it. -/
theorem mem_filesBelow (ht : Rooted t) (hdir : isDir t dir = true)
    (hdeep : Within t (dir.length + depth)) :
    (p, e) ∈ filesBelow t depth dir ↔ dir <+: p ∧ nodeAt t p = some (.file e) := by
  induction depth generalizing dir with
  | zero =>
    refine ⟨fun h => absurd h List.not_mem_nil, ?_⟩
    rintro ⟨⟨rest, rfl⟩, hfile⟩
    have hlen := hdeep (dir ++ rest) (by rw [hfile]; rfl)
    rw [List.length_append] at hlen
    obtain rfl : rest = [] := List.eq_nil_of_length_eq_zero (by omega)
    rw [List.append_nil] at hfile
    cases dir with
    | nil => rw [ht.top] at hfile; cases hfile
    | cons a dir =>
      rw [(isDir_iff (by simp)).mp hdir] at hfile
      cases hfile
  | succ depth ih =>
    simp only [filesBelow, List.mem_flatMap]
    constructor
    · rintro ⟨name, -, hin⟩
      rcases filesAt_cases hin with ⟨hnode, hbelow⟩ | ⟨e', hnode, heq⟩
      · have hfound := (ih (isDir_of_node hnode) (hdeep.down name)).mp hbelow
        exact ⟨(List.prefix_append _ _).trans hfound.1, hfound.2⟩
      · obtain ⟨rfl, rfl⟩ := Prod.mk.inj heq
        exact ⟨List.prefix_append _ _, hnode⟩
    · rintro ⟨⟨rest, rfl⟩, hfile⟩
      cases rest with
      | nil =>
        rw [List.append_nil] at hfile
        cases dir with
        | nil => rw [ht.top] at hfile; cases hfile
        | cons a dir =>
          rw [(isDir_iff (by simp)).mp hdir] at hfile
          cases hfile
      | cons name rest =>
        have hsplit : dir ++ name :: rest = (dir ++ [name]) ++ rest := by simp
        cases rest with
        | nil =>
          refine ⟨name, mem_entries.mpr (by rw [hfile]; rfl), ?_⟩
          rw [filesAt, hfile]
          exact List.mem_singleton_self _
        | cons below rest =>
          have hnode : isDir t (dir ++ [name]) = true := by
            refine isDir_above ht (List.cons_ne_nil below rest) ?_
            rw [← hsplit, hfile]
            rfl
          have hnode' := (isDir_iff (by simp)).mp hnode
          refine ⟨name, mem_entries.mpr (by rw [hnode']; rfl), ?_⟩
          rw [filesAt, hnode']
          refine (ih hnode (hdeep.down name)).mpr ?_
          exact ⟨⟨below :: rest, hsplit.symm⟩, hfile⟩

theorem prefix_of_filesBelow {f : Path × Entry String Bytes} (h : f ∈ filesBelow t depth dir) :
    dir <+: f.1 := by
  induction depth generalizing dir with
  | zero => cases h
  | succ depth ih =>
    obtain ⟨name, -, hin⟩ := List.mem_flatMap.mp h
    refine (List.prefix_append dir [name]).trans ?_
    rcases filesAt_cases hin with ⟨-, hbelow⟩ | ⟨e, -, rfl⟩
    · exact ih hbelow
    · exact List.prefix_refl _

/-- A path goes on from a directory in one way. -/
theorem name_unique {name name' : String} (h : (dir ++ [name]) <+: p) (h' : (dir ++ [name']) <+: p) :
    name = name' := by
  have heq := List.prefix_of_prefix_length_le h h' (by simp)
  have hsame := heq.eq_of_length (by simp)
  simpa using hsame

theorem nodup_filesBelow : (filesBelow t depth dir).Nodup := by
  induction depth generalizing dir with
  | zero => exact List.nodup_nil
  | succ depth ih =>
    refine List.nodup_flatMap.mpr ⟨fun name _ => ?_, ?_⟩
    · unfold filesAt
      cases nodeAt t (dir ++ [name]) with
      | none => exact List.nodup_nil
      | some node =>
        cases node with
        | dir => exact ih
        | file e => exact List.nodup_singleton _
    · have hbelow : ∀ name, ∀ f ∈ filesAt t (filesBelow t depth) (dir ++ [name]),
          (dir ++ [name]) <+: f.1 := by
        intro name f hf
        rcases filesAt_cases hf with ⟨-, hbelow⟩ | ⟨e, -, rfl⟩
        · exact prefix_of_filesBelow hbelow
        · exact List.prefix_refl _
      refine List.Pairwise.imp ?_ (List.nodup_dedup _)
      intro name name' hne f hf hf'
      exact hne (name_unique (hbelow name f hf) (hbelow name' f hf'))

end Counting

section Sweeping

variable {len : Entry String Bytes → ℕ} {remove : Bool} {s s₁ s₂ : Walked} {dir : Path}
  {depth : ℕ} {name : String} {gone gone' : Path → Bool}

/-- What a part of a walk does: of these paths it counts the files, and to trim removes all. -/
structure Swept (len : Entry String Bytes → ℕ) (remove : Bool) (s s' : Walked)
    (gone : Path → Bool) : Prop where
  tree : s'.tree = if remove then dropWhere s.tree gone else s.tree
  counted : ∃ more, s'.counted = s.counted ++ more ∧ more.Nodup ∧
    (∀ p e, (p, e) ∈ more ↔ gone p = true ∧ nodeAt s.tree p = some (.file e)) ∧
    s'.cache = s.cache + (more.map fun f => len f.2).sum

theorem dropWhere_false (t : Disk) : dropWhere t (fun _ => false) = t := by
  simp [dropWhere]

theorem dropWhere_dropWhere (t : Disk) (a b : Path → Bool) :
    dropWhere (dropWhere t a) b = dropWhere t fun p => a p || b p := by
  simp only [dropWhere, List.filter_filter]
  congr 1
  funext entry
  cases a entry.1 <;> cases b entry.1 <;> rfl

theorem Swept.congr (h : Swept len remove s s₁ gone) (hgone : ∀ p, gone' p = gone p) :
    Swept len remove s s₁ gone' := by
  rwa [funext hgone]

theorem Swept.nothing (htree : s₁.tree = s.tree) (hcounted : s₁.counted = s.counted)
    (hcache : s₁.cache = s.cache) : Swept len remove s s₁ fun _ => false where
  tree := by rw [htree, dropWhere_false, ite_self]
  counted := ⟨[], by simp [hcounted], List.nodup_nil, by simp, by simp [hcache]⟩

/-- What is left outside is as it was. -/
theorem Swept.nodeAt_of_not (h : Swept len remove s s₁ gone) {p : Path} (hp : gone p = false) :
    nodeAt s₁.tree p = nodeAt s.tree p := by
  rw [h.tree]
  cases remove with
  | true => rw [if_pos rfl, nodeAt_dropWhere, if_neg (by simp [hp])]
  | false => rfl

/-- One part after another, of different paths. -/
theorem Swept.trans (h₁ : Swept len remove s s₁ gone) (h₂ : Swept len remove s₁ s₂ gone')
    (hdisjoint : ∀ p, gone' p = true → gone p = false) :
    Swept len remove s s₂ fun p => gone p || gone' p where
  tree := by
    rw [h₂.tree, h₁.tree]
    cases remove with
    | true => simp only [if_true, dropWhere_dropWhere]
    | false => rfl
  counted := by
    obtain ⟨more, hmore, hnodup, hmem, hcache⟩ := h₁.counted
    obtain ⟨more', hmore', hnodup', hmem', hcache'⟩ := h₂.counted
    refine ⟨more ++ more', by rw [hmore', hmore, List.append_assoc], ?_, fun p e => ?_, ?_⟩
    · refine List.nodup_append'.mpr ⟨hnodup, hnodup', fun f hf hf' => ?_⟩
      have hgone := ((hmem f.1 f.2).mp hf).1
      rw [hdisjoint f.1 ((hmem' f.1 f.2).mp hf').1] at hgone
      cases hgone
    · rw [List.mem_append, hmem, hmem', Bool.or_eq_true, or_and_right]
      refine or_congr_right (and_congr_right fun hgone => ?_)
      rw [h₁.nodeAt_of_not (hdisjoint p hgone)]
    · rw [hcache', hcache, List.map_append, List.sum_append, Nat.add_assoc]

theorem Swept.rooted (h : Swept len remove s s₁ gone) (hs : Rooted s.tree)
    (hdown : ∀ p name, gone p = true → gone (p ++ [name]) = true) : Rooted s₁.tree := by
  rw [h.tree]
  cases remove with
  | true => exact hs.dropWhere hdown
  | false => exact hs

theorem Swept.within (h : Swept len remove s s₁ gone) {bound : ℕ} (hs : Within s.tree bound) :
    Within s₁.tree bound := by
  rw [h.tree]
  cases remove with
  | true => exact hs.dropWhere gone
  | false => exact hs

theorem cachedBy_down {t : Disk} {p : Path} (h : cachedBy t dir name p = true) (below : String) :
    cachedBy t dir name (p ++ [below]) = true := by
  obtain ⟨hpre, hcached⟩ := Bool.and_eq_true_iff.mp h
  refine Bool.and_eq_true_iff.mpr ⟨?_, cached_down hcached below⟩
  rw [List.isPrefixOf_iff_prefix] at hpre ⊢
  exact hpre.trans (List.prefix_append _ _)

/-- One entry: its caches are swept, given that a walk below it sweeps them. -/
theorem visit_swept {into : Path → Walked → Walked} (hs : Rooted s.tree)
    (hdeep : Within s.tree (dir.length + (depth + 1)))
    (hinto : isDir s.tree (dir ++ [name]) = true →
      Swept len remove s (into (dir ++ [name]) s) (cached s.tree (dir ++ [name]))) :
    Swept len remove s (visit len remove depth into dir s name) (cachedBy s.tree dir name) := by
  unfold visit
  cases hnode : nodeAt s.tree (dir ++ [name]) with
  | none =>
    have hdir : isDir s.tree (dir ++ [name]) = false := by
      rw [Bool.eq_false_iff, ne_eq, isDir_iff (by simp), hnode]
      simp
    exact (Swept.nothing rfl rfl rfl).congr (cachedBy_of_not_dir hdir)
  | some node =>
    cases node with
    | file e =>
      have hdir : isDir s.tree (dir ++ [name]) = false := by
        rw [Bool.eq_false_iff, ne_eq, isDir_iff (by simp), hnode]
        simp
      refine Swept.congr ?_ (cachedBy_of_not_dir hdir)
      exact Swept.nothing rfl rfl rfl
    | dir =>
      have hdir := isDir_of_node hnode
      cases hname : isCacheDir name with
      | false => exact (hinto hdir).congr (cachedBy_of_dir hdir hname)
      | true =>
        refine Swept.congr ?_ (cachedBy_of_cache hdir hname)
        refine ⟨rfl, filesBelow s.tree depth (dir ++ [name]), rfl, nodup_filesBelow, fun p e => ?_,
          ?_⟩
        · rw [mem_filesBelow hs hdir (hdeep.down name), List.isPrefixOf_iff_prefix]
        · exact congrArg (s.cache + ·) sizeOfTree_eq

/-- The entries of a directory, one after another. -/
theorem visits_swept {into : Path → Walked → Walked} {names : List String} (hnames : names.Nodup)
    (hinto : ∀ (s : Walked) (name : String), Rooted s.tree →
      Within s.tree (dir.length + (depth + 1)) → isDir s.tree (dir ++ [name]) = true →
        Swept len remove s (into (dir ++ [name]) s) (cached s.tree (dir ++ [name])))
    (hs : Rooted s.tree) (hdeep : Within s.tree (dir.length + (depth + 1))) :
    Swept len remove s (names.foldl (visit len remove depth into dir) s)
      fun p => names.any fun name => cachedBy s.tree dir name p := by
  induction names generalizing s with
  | nil => exact Swept.nothing rfl rfl rfl
  | cons name names ih =>
    obtain ⟨hnot, hrest⟩ := List.nodup_cons.mp hnames
    have hfirst : Swept len remove s (visit len remove depth into dir s name)
        (cachedBy s.tree dir name) := visit_swept hs hdeep (hinto s name hs hdeep)
    have hmore := ih hrest (hfirst.rooted hs fun p below h => cachedBy_down h below)
      (hfirst.within hdeep)
    have hapart : ∀ name' ∈ names, ∀ p, (dir ++ [name']) <+: p →
        cachedBy s.tree dir name p = false := by
      intro name' hin p hp
      refine Bool.eq_false_iff.mpr fun h => hnot ?_
      obtain ⟨hpre, -⟩ := Bool.and_eq_true_iff.mp h
      rwa [name_unique (List.isPrefixOf_iff_prefix.mp hpre) hp]
    have hsame : ∀ p, (names.any fun name' => cachedBy s.tree dir name' p) =
        names.any fun name' =>
          cachedBy (visit len remove depth into dir s name).tree dir name' p := by
      intro p
      rw [Bool.eq_iff_iff, List.any_eq_true, List.any_eq_true]
      refine exists_congr fun name' => and_congr_right fun hin => ?_
      rw [cachedBy_congr fun p hp => hfirst.nodeAt_of_not (hapart name' hin p hp)]
    refine ((hfirst.trans (hmore.congr hsame) ?_)).congr fun p => List.any_cons
    intro p hp
    obtain ⟨name', hin, hby⟩ := List.any_eq_true.mp hp
    obtain ⟨hpre, -⟩ := Bool.and_eq_true_iff.mp hby
    exact hapart name' hin p (List.isPrefixOf_iff_prefix.mp hpre)

/-- A walk of a directory sweeps its caches. -/
theorem walk_swept (hs : Rooted s.tree) (hdeep : Within s.tree (dir.length + depth)) :
    Swept len remove s (walk len remove depth dir s) (cached s.tree dir) := by
  induction depth generalizing dir s with
  | zero =>
    refine (Swept.nothing rfl rfl rfl).congr fun p => ?_
    rw [Bool.eq_false_iff, ne_eq, cached_iff]
    rintro ⟨rest, -, hunder⟩
    cases rest with
    | nil => cases hunder
    | cons name rest =>
      have hdir := (Bool.and_eq_true_iff.mp hunder).1
      have hlen := hdeep (dir ++ [name]) (by rw [(isDir_iff (by simp)).mp hdir]; rfl)
      rw [List.length_append, List.length_singleton] at hlen
      omega
  | succ depth ih =>
    refine (visits_swept (List.nodup_dedup _) (fun s name hs hdeep _ => ?_) hs hdeep).congr
      fun p => ?_
    · exact ih hs (hdeep.down name)
    · rw [Bool.eq_iff_iff, cached_iff_by, List.any_eq_true]
      rfl

end Sweeping

section Archives

variable {t : Disk} {limit depth : ℕ} {root below path : Path} {content : Bytes}

theorem dataOf_some {node : Option (Node (Entry String Bytes))} (h : dataOf node = some content) :
    node = some (.file (.data content)) := by
  unfold dataOf at h
  split at h
  · rw [Option.some.inj h]
  · cases h

theorem contentAt_some (h : contentAt t limit root path = some content) :
    ∃ q m, (trace t limit root (path.map .down)).found = some (q, m) ∧
      nodeAt t q = some (.file (.data content)) := by
  obtain ⟨q, hq, hnode⟩ := Option.bind_eq_some_iff.mp h
  obtain ⟨r, hr, rfl⟩ := Option.map_eq_some_iff.mp hq
  exact ⟨r.1, r.2, hr, dataOf_some hnode⟩

/-- On the way to a file each part of the path leads to a directory that has the next name. -/
theorem contentAt_split (ht : Rooted t) (hroot : isDir t root = true) {name : String} {rest : Path}
    (h : contentAt t limit root (path ++ name :: rest) = some content) :
    ∃ q, resolve t limit root (path.map .down) = some q ∧ isDir t q = true ∧
      name ∈ entries t q := by
  obtain ⟨q, m, hfound, -⟩ := contentAt_some h
  rw [List.map_append, found_append ht hroot] at hfound
  obtain ⟨r, hr, hmore⟩ := Option.bind_eq_some_iff.mp hfound
  obtain ⟨hdir, hmore⟩ := Option.ite_none_right_eq_some.mp hmore
  have hisDir : isDir t r.1 = true := hdir.resolve_right (by simp)
  refine ⟨r.1, by rw [resolve, hr]; rfl, hisDir, mem_entries.mpr ?_⟩
  rw [Option.isSome_iff_ne_none]
  intro hnone
  rw [List.map_cons, trace_none hnone] at hmore
  cases hmore

theorem dataOf_of_isDir (ht : Rooted t) {q : Path} (h : isDir t q = true) :
    dataOf (nodeAt t q) = none := by
  cases q with
  | nil =>
    rw [ht.top]
    rfl
  | cons a q =>
    rw [(isDir_iff (by simp)).mp h]
    rfl

theorem leadsToDir_of_content (ht : Rooted t) (h : contentAt t limit root path = some content) :
    leadsToDir t limit root path = false := by
  obtain ⟨q, m, hfound, hnode⟩ := contentAt_some h
  have hfile : isDir t q = false := by
    rw [Bool.eq_false_iff]
    intro hdir
    have hnone := dataOf_of_isDir ht hdir
    rw [hnode] at hnone
    cases hnone
  simp [leadsToDir, resolve, hfound, hfile]

/-- No name of a path is skipped, the first one as one below this path. -/
def Unskipped (below : Path) : Path → Prop
  | [] => False
  | name :: rest => skipsName below.isEmpty name = false ∧ ∀ x ∈ rest, skipsName false x = false

/-- The packer comes to what no skipped name is on the way to and a path leads to. -/
theorem mem_appendDir (ht : Rooted t) (hroot : isDir t root = true) :
    (path, content) ∈ appendDir t limit root depth below ↔
      ∃ names, path = below ++ names ∧ names.length ≤ depth ∧ Unskipped below names ∧
        contentAt t limit root path = some content := by
  induction depth generalizing below with
  | zero =>
    refine ⟨fun h => absurd h List.not_mem_nil, ?_⟩
    rintro ⟨names, -, hlen, hkept, -⟩
    rw [List.eq_nil_of_length_eq_zero (Nat.le_zero.mp hlen)] at hkept
    cases hkept
  | succ depth ih =>
    rw [appendDir, List.mem_flatMap]
    constructor
    · rintro ⟨name, -, hin⟩
      obtain ⟨hskip, hin⟩ : skipsName below.isEmpty name = false ∧ (path, content) ∈
          if leadsToDir t limit root (below ++ [name]) then
            appendDir t limit root depth (below ++ [name])
          else ((contentAt t limit root (below ++ [name])).map (below ++ [name], ·)).toList := by
        cases hskip : skipsName below.isEmpty name with
        | true =>
          rw [hskip, if_pos rfl] at hin
          cases hin
        | false =>
          rw [hskip, if_neg Bool.false_ne_true] at hin
          exact ⟨rfl, hin⟩
      by_cases hdir : leadsToDir t limit root (below ++ [name]) = true
      · rw [if_pos hdir] at hin
        obtain ⟨names, rfl, hlen, hkept, hcontent⟩ := ih.mp hin
        refine ⟨name :: names, by simp, Nat.succ_le_succ hlen, ⟨hskip, ?_⟩, hcontent⟩
        cases names with
        | nil => cases hkept
        | cons next rest =>
          have hempty : (below ++ [name]).isEmpty = false := by simp
          rw [Unskipped, hempty] at hkept
          exact List.forall_mem_cons.mpr hkept
      · rw [if_neg hdir] at hin
        obtain ⟨c, hc, heq⟩ := Option.map_eq_some_iff.mp (Option.mem_toList.mp hin)
        obtain ⟨rfl, rfl⟩ := Prod.mk.inj heq
        exact ⟨[name], rfl, by simp, ⟨hskip, by simp⟩, hc⟩
    · rintro ⟨names, rfl, hlen, hkept, hcontent⟩
      cases names with
      | nil => cases hkept
      | cons name rest =>
        obtain ⟨q, hq, -, hname⟩ := contentAt_split ht hroot hcontent
        refine ⟨name, by rw [hq]; exact hname, ?_⟩
        rw [hkept.1, if_neg Bool.false_ne_true]
        cases rest with
        | nil =>
          rw [if_neg (by simp [leadsToDir_of_content ht hcontent]), hcontent]
          exact List.mem_singleton_self _
        | cons next rest =>
          have hsplit : below ++ name :: next :: rest = (below ++ [name]) ++ next :: rest := by simp
          obtain ⟨q', hq', hdir, -⟩ := contentAt_split ht hroot (hsplit ▸ hcontent)
          have hleads : leadsToDir t limit root (below ++ [name]) = true := by
            rw [leadsToDir, hq']
            exact hdir
          rw [if_pos hleads]
          refine ih.mpr ⟨next :: rest, hsplit, Nat.le_of_succ_le_succ hlen, ?_, hcontent⟩
          have hempty : (below ++ [name]).isEmpty = false := by simp
          rw [Unskipped, hempty]
          exact List.forall_mem_cons.mp hkept.2

/-- The archive holds just what synchronises and a path leads to. -/
theorem mem_archive (ht : Rooted t) (hroot : isDir t root = true) :
    (path, content) ∈ archive t limit root ↔
      synced path = true ∧ contentAt t limit root path = some content := by
  have hkept : Unskipped [] path ↔ synced path = true := by
    cases path with
    | nil => simp [Unskipped, synced]
    | cons name rest => simp [Unskipped, synced]
  rw [archive, if_pos hroot, mem_appendDir ht hroot, ← hkept]
  constructor
  · rintro ⟨names, rfl, -, hnames, hcontent⟩
    exact ⟨hnames, hcontent⟩
  · rintro ⟨hnames, hcontent⟩
    refine ⟨path, rfl, ?_, hnames, hcontent⟩
    obtain ⟨q, m, hfound, -⟩ := contentAt_some hcontent
    have hlen : root.length ≤ height t := by
      cases root with
      | nil => exact Nat.zero_le _
      | cons a root =>
        refine length_le_height ?_
        rw [(isDir_iff (by simp)).mp hroot]
        rfl
    have hnames : path.map Step.down = [] ++ path.map .down := rfl
    exact (names_le (fun p => length_le_height) hlen hnames (by rw [hfound]; rfl)).1

/-- What is left of the content that a path leads to, where caches are gone. -/
theorem contentAt_dropWhere (ht : Rooted t) (hroot : isDir t root = true) (gone : Path → Bool) :
    contentAt (dropWhere t gone) limit root path =
      if ∀ p ∈ (trace t limit root (path.map .down)).lookups, gone p = false then
        contentAt t limit root path
      else none := by
  unfold contentAt resolve
  rw [found_dropWhere]
  split
  · rename_i hall
    cases hfound : (trace t limit root (path.map .down)).found with
    | none => rfl
    | some r =>
      obtain ⟨q, m⟩ := r
      rcases found_end ht hroot hfound with hdir | hlooked
      · have hnone := dataOf_of_isDir ht hdir
        change dataOf (nodeAt (dropWhere t gone) q) = dataOf (nodeAt t q)
        rw [nodeAt_dropWhere, hnone]
        split
        · rfl
        · exact hnone
      · simp [nodeAt_dropWhere, hall q hlooked]
  · rfl

end Archives

section Trimming

/-- A profile's directory on a disk. -/
structure ProfileDir where
  disk : Disk
  root : Path
  /-- Everything is in directories. -/
  rooted : Rooted disk
  there : isDir disk root = true

variable (len : Entry String Bytes → ℕ)

/-- The disk after a trim. -/
def ProfileDir.trimmed (profile : ProfileDir) : Disk := (trim len profile.disk profile.root).tree

/-- The files that are measured as cache. -/
def ProfileDir.cacheFiles (profile : ProfileDir) : List (Path × Entry String Bytes) :=
  (measure len profile.disk profile.root).counted

/-- What a trim has to do, as it is measured before and packed after it. -/
structure TrimsSafely (limit : ℕ) (profile : ProfileDir) : Prop where
  /-- To measure changes nothing. -/
  measured : (measure len profile.disk profile.root).tree = profile.disk
  /-- The files that go are those counted as cache. -/
  gone : ∀ p e, nodeAt profile.disk p = some (.file e) →
    (nodeAt (profile.trimmed len) p = none ↔ (p, e) ∈ profile.cacheFiles len)
  /-- Every other file holds what it held. -/
  kept : ∀ p e, nodeAt profile.disk p = some (.file e) → (p, e) ∉ profile.cacheFiles len →
    nodeAt (profile.trimmed len) p = some (.file e)
  /-- What is reported as freed is what was measured, and the size of these files. -/
  bytes : (trim len profile.disk profile.root).cache =
      (measure len profile.disk profile.root).cache ∧
    (measure len profile.disk profile.root).cache =
      ((profile.cacheFiles len).map fun f => len f.2).sum
  /-- Nothing changes but what is below the profile's directory through directories alone. -/
  inside : ∀ p, nodeAt (profile.trimmed len) p ≠ nodeAt profile.disk p →
    ∃ rest, p = profile.root ++ rest ∧
      ∀ above, above <+: rest → above ≠ rest → isDir profile.disk (profile.root ++ above) = true
  /-- The archive holds the same. -/
  packed : ∀ path content, (path, content) ∈ archive (profile.trimmed len) limit profile.root ↔
    (path, content) ∈ archive profile.disk limit profile.root

/-- No file that is packed is come to through a cache. -/
def PackedApart (limit : ℕ) (profile : ProfileDir) : Prop :=
  ∀ path, synced path = true → (contentAt profile.disk limit profile.root path).isSome = true →
    ∀ p ∈ (trace profile.disk limit profile.root (path.map .down)).lookups,
      cached profile.disk profile.root p = false

variable {len} {limit : ℕ} {profile : ProfileDir}

variable (len profile) in
theorem walkFrom_swept (remove : Bool) : Swept len remove ⟨profile.disk, 0, 0, 0, [], []⟩
    (walkFrom len remove profile.disk profile.root) (cached profile.disk profile.root) := by
  rw [walkFrom, if_pos profile.there]
  refine walk_swept profile.rooted fun p hp => ?_
  exact (length_le_height hp).trans (Nat.le_add_left _ _)

theorem trimmed_eq :
    profile.trimmed len = dropWhere profile.disk (cached profile.disk profile.root) := by
  have htree := (walkFrom_swept len profile true).tree
  rwa [if_pos rfl] at htree

/-- What is counted are the files in caches, each once. -/
theorem mem_cacheFiles {p : Path} {e : Entry String Bytes} : (p, e) ∈ profile.cacheFiles len ↔
    cached profile.disk profile.root p = true ∧ nodeAt profile.disk p = some (.file e) := by
  obtain ⟨more, hmore, -, hmem, -⟩ := (walkFrom_swept len profile false).counted
  have hcounted : profile.cacheFiles len = more := hmore
  rw [hcounted, hmem]

theorem trim_cache : (trim len profile.disk profile.root).cache =
      (measure len profile.disk profile.root).cache ∧
    (measure len profile.disk profile.root).cache =
      ((profile.cacheFiles len).map fun f => len f.2).sum := by
  obtain ⟨more, hmore, hnodup, hmem, hsize⟩ :=
    (walkFrom_swept len profile false).counted
  obtain ⟨more', -, hnodup', hmem', hsize'⟩ :=
    (walkFrom_swept len profile true).counted
  have hcounted : profile.cacheFiles len = more := hmore
  rw [Nat.zero_add] at hsize hsize'
  have hperm : more'.Perm more := (List.perm_ext_iff_of_nodup hnodup' hnodup).mpr fun f =>
    (hmem' f.1 f.2).trans (hmem f.1 f.2).symm
  refine ⟨?_, hcounted ▸ hsize⟩
  exact hsize'.trans ((hperm.map _).sum_eq.trans hsize.symm)

/-- What is above something in a cache is a directory, down from the profile's. -/
theorem isDir_above_cached {above rest : Path}
    (hsome : (nodeAt profile.disk (profile.root ++ rest)).isSome = true)
    (habove : above <+: rest) (hne : above ≠ rest) :
    isDir profile.disk (profile.root ++ above) = true := by
  obtain ⟨below, rfl⟩ := habove
  have hbelow : below ≠ [] := fun hnil => hne (by simp [hnil])
  refine isDir_above profile.rooted hbelow ?_
  rwa [List.append_assoc]

theorem rooted_trimmed : Rooted (profile.trimmed len) := by
  rw [trimmed_eq]
  exact profile.rooted.dropWhere fun p name h => cached_down h name

theorem isDir_root_trimmed : isDir (profile.trimmed len) profile.root = true := by
  have hcached : cached profile.disk profile.root profile.root = false := by
    simp [cached, underCache]
  rw [trimmed_eq, ← profile.there]
  refine isDir_congr ?_
  rw [nodeAt_dropWhere, if_neg (by simp [hcached])]

/-- The archive is the same just if no packed file is come to through a cache. -/
theorem packed_iff : (∀ path content,
      (path, content) ∈ archive (profile.trimmed len) limit profile.root ↔
        (path, content) ∈ archive profile.disk limit profile.root) ↔
    PackedApart limit profile := by
  have hafter (path : Path) (content : Bytes) :
      (path, content) ∈ archive (profile.trimmed len) limit profile.root ↔ synced path = true ∧
        contentAt (dropWhere profile.disk (cached profile.disk profile.root)) limit profile.root
          path = some content := by
    rw [mem_archive rooted_trimmed isDir_root_trimmed, trimmed_eq]
  constructor
  · intro hsame path hsynced hsome
    obtain ⟨content, hcontent⟩ := Option.isSome_iff_exists.mp hsome
    have hbefore := (mem_archive profile.rooted profile.there).mpr ⟨hsynced, hcontent⟩
    have hthere := ((hafter path content).mp ((hsame path content).mpr hbefore)).2
    rw [contentAt_dropWhere profile.rooted profile.there] at hthere
    exact (Option.ite_none_right_eq_some.mp hthere).1
  · intro hapart path content
    rw [hafter, mem_archive profile.rooted profile.there,
      contentAt_dropWhere profile.rooted profile.there]
    refine and_congr_right fun hsynced => ?_
    split
    · rfl
    · rename_i hnot
      have hnone : contentAt profile.disk limit profile.root path ≠ some content := fun hcontent =>
        hnot (hapart path hsynced (by rw [hcontent]; rfl))
      simp [hnone]

/-- A trim takes what was measured as cache and leaves the rest; and the archive is the same just
if no file that is packed is come to through a cache. -/
theorem trim_safe_iff (len : Entry String Bytes → ℕ) (limit : ℕ) (profile : ProfileDir) :
    TrimsSafely len limit profile ↔ PackedApart limit profile := by
  refine ⟨fun h => packed_iff.mp h.packed, fun hapart => ?_⟩
  have hgone (p : Path) : nodeAt (profile.trimmed len) p =
      if cached profile.disk profile.root p = true then none else nodeAt profile.disk p := by
    rw [trimmed_eq, nodeAt_dropWhere]
  refine ⟨(walkFrom_swept len profile false).tree, fun p e hp => ?_, fun p e hp hnot => ?_, trim_cache,
    fun p hne => ?_, packed_iff.mpr hapart⟩
  · rw [hgone, mem_cacheFiles, hp]
    simp
  · rw [mem_cacheFiles] at hnot
    rw [hgone, if_neg fun hcached => hnot ⟨hcached, hp⟩, hp]
  · rw [hgone] at hne
    split at hne
    · rename_i hcached
      obtain ⟨rest, rfl, -⟩ := cached_iff.mp hcached
      refine ⟨rest, rfl, fun above habove hproper => isDir_above_cached ?_ habove hproper⟩
      exact Option.isSome_iff_ne_none.mpr fun hnone => hne hnone.symm
    · exact absurd rfl hne

/-- A file in a cache, and a link to it beside the cache. -/
def linkedCache : ProfileDir where
  disk := [(["p"], .dir), (["p", "Default"], .dir), (["p", "Default", "Cache"], .dir),
    (["p", "Default", "Cache", "f"], .file (.data [1])),
    (["p", "Default", "kept"], .file (.link false [.down "Cache", .down "f"]))]
  root := ["p"]
  rooted := rooted_of_entries (by decide)
  there := rfl

/-- The archive has what the link leads to before the trim, and not after it. -/
theorem trim_empties_link : ¬∀ (len : Entry String Bytes → ℕ) (limit : ℕ) (profile : ProfileDir),
    TrimsSafely len limit profile := by
  intro h
  have hpacked := (h (fun _ => 1) 40 linkedCache).packed ["Default", "kept"] [1]
  have hbefore : (["Default", "kept"], [1]) ∈
      archive linkedCache.disk 40 linkedCache.root := by
    decide
  exact absurd (hpacked.mpr hbefore) (by decide)

end Trimming

end FuryBrowser.ProfileUsage
