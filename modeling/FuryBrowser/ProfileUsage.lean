import FuryBrowser.BundleUnpack
import FuryBrowser.LinkTree

/-!
# What a profile takes on the disk

A profile is measured and trimmed by one walk, which counts a directory with the name of a cache as
throwaway, and, to trim, removes it. A link is counted as itself. The packer leaves out what has
the name of a cache, or another it skips, and goes along links.
-/

namespace FuryBrowser.ProfileUsage

open PathTree LinkTree
open AgentDisk (Bytes Path)
open BundleUnpack (skipCaches skipsName synced)

/-- A disk with links. -/
abbrev Disk := Links String Bytes

section Walking

variable (len : Entry String Bytes → ℕ)

/-- `is_cache_dir`. -/
def isCacheDir (name : String) : Bool := skipCaches.contains name

/-- No path is longer. -/
def height (t : Disk) : ℕ := t.foldr (fun e n => max e.1.length n) 0

/-- `size_of_tree`. The number bounds how deep it goes. -/
def sizeOfTree (t : Disk) : ℕ → Path → ℕ
  | 0, _ => 0
  | depth + 1, dir => ((entries t dir).map fun name =>
    match nodeAt t (dir ++ [name]) with
    | some .dir => sizeOfTree t depth (dir ++ [name])
    | some (.file e) => len e
    | none => 0).sum

/-- What is at a path, as far as it is no directory, or below it. -/
def filesAt (t : Disk) (below : Path → List (Path × Entry String Bytes)) (p : Path) :
    List (Path × Entry String Bytes) :=
  match nodeAt t p with
  | some .dir => below p
  | some (.file e) => [(p, e)]
  | none => []

/-- What `size_of_tree` comes upon that is no directory. -/
def filesBelow (t : Disk) : ℕ → Path → List (Path × Entry String Bytes)
  | 0, _ => []
  | depth + 1, dir =>
    (entries t dir).flatMap fun name => filesAt t (filesBelow t depth) (dir ++ [name])

/-- A walk: the disk, `Usage`, what `Trimmed` names, and the files that the cache's size is of. -/
structure Walked where
  tree : Disk
  total : ℕ
  cache : ℕ
  files : ℕ
  removed : List String
  /-- The files counted as cache. -/
  counted : List (Path × Entry String Bytes)

/-- One entry of a directory. Whoever is neither a directory nor a link is counted like one. -/
def visit (remove : Bool) (depth : ℕ) (into : Path → Walked → Walked) (dir : Path) (s : Walked)
    (name : String) : Walked :=
  match nodeAt s.tree (dir ++ [name]) with
  | none => s
  | some (.file e) => { s with total := s.total + len e, files := s.files + 1 }
  | some .dir =>
    if isCacheDir name then
      { tree :=
          if remove then dropWhere s.tree fun p => (dir ++ [name]).isPrefixOf p else s.tree
        total := s.total + sizeOfTree len s.tree depth (dir ++ [name])
        cache := s.cache + sizeOfTree len s.tree depth (dir ++ [name])
        files := s.files
        removed := if remove then s.removed ++ [name] else s.removed
        counted := s.counted ++ filesBelow s.tree depth (dir ++ [name]) }
    else into (dir ++ [name]) s

/-- `walk`. -/
def walk (remove : Bool) : ℕ → Path → Walked → Walked
  | 0, _, s => s
  | depth + 1, dir, s =>
    (entries s.tree dir).foldl (visit len remove depth (walk remove depth) dir) s

/-- A walk from a profile's directory, if it is one. -/
def walkFrom (remove : Bool) (t : Disk) (root : Path) : Walked :=
  if isDir t root then walk len remove (height t) root ⟨t, 0, 0, 0, [], []⟩
  else ⟨t, 0, 0, 0, [], []⟩

/-- `measure`. -/
def measure (t : Disk) (root : Path) : Walked := walkFrom len false t root

/-- `keep`. -/
def Walked.keep (s : Walked) : ℕ := s.total - s.cache

/-- `trim`. -/
def trim (t : Disk) (root : Path) : Walked := walkFrom len true t root

end Walking

section Packing

/-- What a file holds. -/
def dataOf : Option (Node (Entry String Bytes)) → Option Bytes
  | some (.file (.data content)) => some content
  | _ => none

/-- What a file that a path leads to holds. -/
def contentAt (t : Disk) (limit : ℕ) (root below : Path) : Option Bytes :=
  (resolve t limit root (below.map .down)).bind fun q => dataOf (nodeAt t q)

/-- A path leads to a directory. -/
def leadsToDir (t : Disk) (limit : ℕ) (root below : Path) : Bool :=
  (resolve t limit root (below.map .down)).any fun q => isDir t q

/-- `append_dir`, with the paths below the profile's directory. So many links may be followed on
the way to a file, and the other number bounds how deep the walk goes. -/
def appendDir (t : Disk) (limit : ℕ) (root : Path) : ℕ → Path → List (Path × Bytes)
  | 0, _ => []
  | depth + 1, below =>
    ((resolve t limit root (below.map .down)).elim [] (entries t)).flatMap fun name =>
      if skipsName below.isEmpty name then []
      else if leadsToDir t limit root (below ++ [name]) then
        appendDir t limit root depth (below ++ [name])
      else ((contentAt t limit root (below ++ [name])).map (below ++ [name], ·)).toList

/-- What the archive of a profile holds. -/
def archive (t : Disk) (limit : ℕ) (root : Path) : List (Path × Bytes) :=
  if isDir t root then appendDir t limit root ((limit + 1) * (height t + 1)) [] else []

end Packing

section Regions

variable (t : Disk)

/-- On the way down from a directory, through directories alone, is one with a cache's name. -/
def underCache (dir : Path) : Path → Bool
  | [] => false
  | name :: rest =>
    isDir t (dir ++ [name]) && (isCacheDir name || underCache (dir ++ [name]) rest)

/-- It is a cache of the profile, or in one. -/
def cached (root p : Path) : Bool := root.isPrefixOf p && underCache t root (p.drop root.length)

/-- It is so by this entry of a directory. -/
def cachedBy (dir : Path) (name : String) (p : Path) : Bool :=
  (dir ++ [name]).isPrefixOf p && cached t dir p

variable {t} {dir p rest : Path} {name : String} {depth : ℕ}

theorem cached_append : cached t dir (dir ++ rest) = underCache t dir rest := by
  simp [cached]

theorem cached_iff : cached t dir p = true ↔
    ∃ rest, p = dir ++ rest ∧ underCache t dir rest = true := by
  constructor
  · intro h
    obtain ⟨hpre, hunder⟩ := Bool.and_eq_true_iff.mp h
    obtain ⟨rest, rfl⟩ := List.isPrefixOf_iff_prefix.mp hpre
    exact ⟨rest, rfl, by simpa using hunder⟩
  · rintro ⟨rest, rfl, h⟩
    rwa [cached_append]

/-- What is in a cache stays in it further down. -/
theorem underCache_append (h : underCache t dir rest = true) (more : Path) :
    underCache t dir (rest ++ more) = true := by
  induction rest generalizing dir with
  | nil => cases h
  | cons name rest ih =>
    obtain ⟨hdir, hmore⟩ := Bool.and_eq_true_iff.mp h
    refine Bool.and_eq_true_iff.mpr ⟨hdir, ?_⟩
    refine Bool.or_eq_true_iff.mpr ?_
    exact (Bool.or_eq_true_iff.mp hmore).imp_right ih

theorem cached_down (h : cached t dir p = true) (name : String) :
    cached t dir (p ++ [name]) = true := by
  obtain ⟨rest, rfl, hrest⟩ := cached_iff.mp h
  rw [List.append_assoc, cached_append]
  exact underCache_append hrest [name]

theorem cachedBy_iff : cachedBy t dir name p = true ↔
    ∃ rest, p = dir ++ name :: rest ∧ underCache t dir (name :: rest) = true := by
  constructor
  · intro h
    obtain ⟨hpre, hcached⟩ := Bool.and_eq_true_iff.mp h
    obtain ⟨rest, rfl⟩ := List.isPrefixOf_iff_prefix.mp hpre
    rw [List.append_assoc] at hcached ⊢
    exact ⟨rest, rfl, cached_append ▸ hcached⟩
  · rintro ⟨rest, rfl, h⟩
    refine Bool.and_eq_true_iff.mpr ⟨?_, by rwa [cached_append]⟩
    exact List.isPrefixOf_iff_prefix.mpr ⟨rest, by simp⟩

/-- A cache of the profile is so by one of its entries. -/
theorem cached_iff_by :
    cached t dir p = true ↔ ∃ name ∈ entries t dir, cachedBy t dir name p = true := by
  constructor
  · intro h
    obtain ⟨rest, rfl, hunder⟩ := cached_iff.mp h
    cases rest with
    | nil => cases hunder
    | cons name rest =>
      obtain ⟨hdir, -⟩ := Bool.and_eq_true_iff.mp hunder
      refine ⟨name, mem_entries.mpr ?_, cachedBy_iff.mpr ⟨rest, rfl, hunder⟩⟩
      rw [(isDir_iff (by simp)).mp hdir]
      rfl
  · rintro ⟨name, -, h⟩
    exact (Bool.and_eq_true_iff.mp h).2

/-- Trees that agree from an entry on have the same caches there. -/
theorem underCache_congr {t' : Disk}
    (h : ∀ p, (dir ++ [name]) <+: p → nodeAt t' p = nodeAt t p) :
    underCache t' dir (name :: rest) = underCache t dir (name :: rest) := by
  induction rest generalizing dir name with
  | nil =>
    simp only [underCache, isDir_congr (h _ (List.prefix_refl _))]
  | cons below rest ih =>
    have hmore : underCache t' (dir ++ [name]) (below :: rest) =
        underCache t (dir ++ [name]) (below :: rest) :=
      ih fun p hp => h p ((List.prefix_append _ _).trans hp)
    change (isDir t' (dir ++ [name]) && (isCacheDir name || underCache t' (dir ++ [name])
      (below :: rest))) = _
    rw [hmore, isDir_congr (h _ (List.prefix_refl _))]
    rfl

theorem cachedBy_congr {t' : Disk} (h : ∀ p, (dir ++ [name]) <+: p → nodeAt t' p = nodeAt t p)
    (p : Path) : cachedBy t' dir name p = cachedBy t dir name p := by
  rw [Bool.eq_iff_iff, cachedBy_iff, cachedBy_iff]
  simp only [underCache_congr h]

/-- A directory that is a cache is one with all it holds. -/
theorem cachedBy_of_cache (hdir : isDir t (dir ++ [name]) = true) (hname : isCacheDir name = true)
    (p : Path) : cachedBy t dir name p = (dir ++ [name]).isPrefixOf p := by
  rw [Bool.eq_iff_iff, cachedBy_iff, List.isPrefixOf_iff_prefix]
  constructor
  · rintro ⟨rest, rfl, -⟩
    exact ⟨rest, by simp⟩
  · rintro ⟨rest, rfl⟩
    exact ⟨rest, by simp, by simp [underCache, hdir, hname]⟩

/-- In another directory the caches are those below it. -/
theorem cachedBy_of_dir (hdir : isDir t (dir ++ [name]) = true) (hname : isCacheDir name = false)
    (p : Path) : cachedBy t dir name p = cached t (dir ++ [name]) p := by
  rw [Bool.eq_iff_iff, cachedBy_iff, cached_iff]
  simp [underCache, hdir, hname]

theorem cachedBy_of_not_dir (hdir : isDir t (dir ++ [name]) = false) (p : Path) :
    cachedBy t dir name p = false := by
  rw [Bool.eq_false_iff, ne_eq, cachedBy_iff]
  simp [underCache, hdir]

end Regions

end FuryBrowser.ProfileUsage
