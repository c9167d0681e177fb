import Mathlib.Data.List.Basic

/-!
# A finite tree of directories and files

A disk is a finite list of named nodes. The operations are the ones a program
asks of a file system: make a directory with its parents, write a file, remove
a file, and move a directory. An operation that the file system would refuse
returns `none`; links, permissions and full disks are outside the tree.

The lemmas say what each operation does to the file at any path.
-/

namespace FuryBrowser.PathTree

universe u v

/-- What a path names: a directory, or a file and its content. -/
inductive Node (β : Type v) where
  | dir
  | file (content : β)
  deriving DecidableEq, Repr

/-- The nodes of a disk, by path from the root. The root itself is not listed. -/
abbrev Tree (ν : Type u) (β : Type v) := List (List ν × Node β)

variable {ν : Type u} {β : Type v} [DecidableEq ν]

/-- The node at a path. -/
def nodeAt (t : Tree ν β) (p : List ν) : Option (Node β) :=
  (t.find? fun entry => entry.1 = p).map Prod.snd

/-- The content of the file at a path, when there is a file. -/
def fileAt (t : Tree ν β) (p : List ν) : Option β :=
  match nodeAt t p with
  | some (.file content) => some content
  | _ => none

/-- Whether a path is a directory. The root always is. -/
def isDir (t : Tree ν β) (p : List ν) : Bool :=
  match p, nodeAt t p with
  | [], _ => true
  | _, some .dir => true
  | _, _ => false

/-- The tree without the node at a path. -/
def dropNode (t : Tree ν β) (p : List ν) : Tree ν β :=
  t.filter fun entry => entry.1 ≠ p

/-- The tree with one node replaced. -/
def setNode (t : Tree ν β) (p : List ν) (n : Node β) : Tree ν β :=
  (p, n) :: dropNode t p

/-- The tree without the nodes at some paths. -/
def dropWhere (t : Tree ν β) (gone : List ν → Bool) : Tree ν β :=
  t.filter fun entry => !gone entry.1

/-- Make every missing directory of `rest` below `done`. -/
def createDirs (t : Tree ν β) (done : List ν) : List ν → Option (Tree ν β)
  | [] => some t
  | name :: rest =>
    match nodeAt t (done ++ [name]) with
    | some .dir => createDirs t (done ++ [name]) rest
    | some (.file _) => none
    | none => createDirs (setNode t (done ++ [name]) .dir) (done ++ [name]) rest

/-- Make a directory and its missing parents. -/
def createDirAll (t : Tree ν β) (p : List ν) : Option (Tree ν β) :=
  createDirs t [] p

/-- Create or replace a file. Its parent must be a directory and it must not
be one. -/
def writeFile (t : Tree ν β) (p : List ν) (content : β) : Option (Tree ν β) :=
  if isDir t p.dropLast && !isDir t p then some (setNode t p (.file content)) else none

/-- Remove a file; a missing file or a directory is left as it is. -/
def removeFile (t : Tree ν β) (p : List ν) : Tree ν β :=
  match nodeAt t p with
  | some (.file _) => dropNode t p
  | _ => t

/-- Where a path goes when `src` moves to `dst`. -/
def movedPath (src dst p : List ν) : List ν :=
  if src <+: p then dst ++ p.drop src.length else p

/-- Nothing is at or below a path, except perhaps an empty directory. -/
def isFree (t : Tree ν β) (p : List ν) : Bool :=
  t.all fun entry => !p.isPrefixOf entry.1 || (entry.1 = p && isDir t p)

/-- Move a directory. The target must be missing or an empty directory whose
parent is a directory, and a directory does not move into itself. -/
def renameDir (t : Tree ν β) (src dst : List ν) : Option (Tree ν β) :=
  if isDir t src ∧ isDir t dst.dropLast ∧ isFree t dst ∧ ¬src <+: dst then
    some ((dropNode t dst).map fun entry => (movedPath src dst entry.1, entry.2))
  else none

section Nodes

variable (t : Tree ν β) (p q : List ν) (n : Node β)

@[simp] theorem nodeAt_nil : nodeAt ([] : Tree ν β) p = none := rfl

theorem nodeAt_cons (entry : List ν × Node β) :
    nodeAt (entry :: t) p = if entry.1 = p then some entry.2 else nodeAt t p := by
  by_cases h : entry.1 = p <;> simp [nodeAt, h]

@[simp] theorem nodeAt_dropNode :
    nodeAt (dropNode t p) q = if q = p then none else nodeAt t q := by
  induction t with
  | nil => simp [dropNode]
  | cons entry rest ih =>
    unfold dropNode at ih ⊢
    by_cases hp : entry.1 = p
    · rw [List.filter_cons_of_neg (by simpa using hp), ih, nodeAt_cons]
      split_ifs <;> simp_all
    · rw [List.filter_cons_of_pos (by simpa using hp), nodeAt_cons, ih, nodeAt_cons]
      split_ifs <;> simp_all

theorem nodeAt_dropWhere (gone : List ν → Bool) :
    nodeAt (dropWhere t gone) q = if gone q then none else nodeAt t q := by
  induction t with
  | nil => simp [dropWhere]
  | cons entry rest ih =>
    unfold dropWhere at ih ⊢
    cases hgone : gone entry.1 with
    | true =>
      rw [List.filter_cons_of_neg (by simp [hgone]), ih, nodeAt_cons]
      by_cases hq : entry.1 = q
      · have hgone' : gone q = true := hq ▸ hgone
        rw [if_pos hgone', if_pos hgone']
      · rw [if_neg hq]
    | false =>
      rw [List.filter_cons_of_pos (by simp [hgone]), nodeAt_cons, nodeAt_cons, ih]
      by_cases hq : entry.1 = q
      · have hkept : ¬gone q = true := by rw [← hq, hgone]; simp
        rw [if_pos hq, if_neg hkept, if_pos hq]
      · rw [if_neg hq, if_neg hq]

@[simp] theorem nodeAt_setNode :
    nodeAt (setNode t p n) q = if q = p then some n else nodeAt t q := by
  rw [setNode, nodeAt_cons, nodeAt_dropNode]
  split_ifs <;> simp_all

/-- Making a directory puts no file anywhere. -/
theorem fileAt_setNode_dir (hp : nodeAt t p = none) :
    fileAt (setNode t p .dir) q = fileAt t q := by
  unfold fileAt
  rw [nodeAt_setNode]
  split_ifs with hq
  · subst hq
    rw [hp]
  · rfl

end Nodes

section Operations

variable {t t' : Tree ν β} {p q : List ν} {content : β}

/-- Directories made below another leave every file as it was. -/
theorem createDirs_fileAt {done rest : List ν} (h : createDirs t done rest = some t')
    (q : List ν) : fileAt t' q = fileAt t q := by
  induction rest generalizing t done with
  | nil =>
    cases h
    rfl
  | cons name rest ih =>
    unfold createDirs at h
    split at h
    · exact ih h
    · cases h
    next hn => rw [ih h, fileAt_setNode_dir t _ q hn]

/-- Making a directory and its parents leaves every file as it was. -/
theorem createDirAll_fileAt (h : createDirAll t p = some t') (q : List ν) :
    fileAt t' q = fileAt t q :=
  createDirs_fileAt h q

/-- A directory stays one while directories are made. -/
theorem createDirs_keeps_dir {done rest : List ν} (h : createDirs t done rest = some t')
    (hq : nodeAt t q = some .dir) : nodeAt t' q = some .dir := by
  induction rest generalizing t done with
  | nil =>
    cases h
    exact hq
  | cons name rest ih =>
    unfold createDirs at h
    split at h
    · exact ih h hq
    · cases h
    · refine ih h ?_
      rw [nodeAt_setNode]
      split_ifs
      · rfl
      · exact hq

/-- The directory asked for is there afterwards. -/
theorem createDirs_makes {done rest : List ν} (h : createDirs t done rest = some t')
    (hr : rest ≠ []) : nodeAt t' (done ++ rest) = some .dir := by
  induction rest generalizing t done with
  | nil => exact absurd rfl hr
  | cons name rest ih =>
    rw [List.append_cons]
    unfold createDirs at h
    have last (u : Tree ν β) (hu : createDirs u (done ++ [name]) rest = some t')
        (hd : nodeAt u (done ++ [name]) = some .dir) :
        nodeAt t' (done ++ [name] ++ rest) = some .dir := by
      by_cases hrest : rest = []
      · subst hrest
        rw [List.append_nil]
        exact createDirs_keeps_dir hu hd
      · exact ih hu hrest
    split at h
    next hd => exact last t h hd
    · cases h
    · exact last _ h (by simp)

/-- A written file is there with its content, and every other file is as it was. -/
theorem writeFile_fileAt (h : writeFile t p content = some t') (q : List ν) :
    fileAt t' q = if q = p then some content else fileAt t q := by
  unfold writeFile at h
  split at h
  · cases h
    unfold fileAt
    rw [nodeAt_setNode]
    by_cases hq : q = p <;> simp [hq]
  · cases h

/-- Making directories touches only the paths on the way. -/
theorem createDirs_elsewhere {done rest : List ν} (h : createDirs t done rest = some t')
    (hq : ¬q <+: done ++ rest) : nodeAt t' q = nodeAt t q := by
  induction rest generalizing t done with
  | nil =>
    cases h
    rfl
  | cons name rest ih =>
    rw [List.append_cons] at hq
    unfold createDirs at h
    split at h
    · exact ih h hq
    · cases h
    · have hne : q ≠ done ++ [name] := by
        rintro rfl
        exact hq (List.prefix_append _ _)
      rw [ih h hq, nodeAt_setNode, if_neg hne]

/-- Directories made in two stretches. -/
theorem createDirs_append {done first second : List ν} :
    createDirs t done (first ++ second) =
      (createDirs t done first).bind fun mid => createDirs mid (done ++ first) second := by
  induction first generalizing t done with
  | nil => simp [createDirs]
  | cons name first ih =>
    rw [List.cons_append, createDirs, createDirs]
    split
    · rw [ih, List.append_assoc, List.singleton_append]
    · rfl
    · rw [ih, List.append_assoc, List.singleton_append]

/-- Making a directory leaves its parent a directory too. -/
theorem createDirAll_parent {name : ν} (h : createDirAll t (p ++ [name]) = some t') :
    isDir t' p = true := by
  unfold createDirAll at h
  rw [createDirs_append] at h
  obtain ⟨mid, hmid, hlast⟩ := Option.bind_eq_some_iff.mp h
  cases p with
  | nil => rfl
  | cons head rest =>
    have hdir := createDirs_keeps_dir hlast (createDirs_makes hmid (by simp))
    rw [List.nil_append] at hdir
    simp [isDir, hdir]

/-- Writing a file touches only its path. -/
theorem writeFile_elsewhere (h : writeFile t p content = some t') (hq : q ≠ p) :
    nodeAt t' q = nodeAt t q := by
  unfold writeFile at h
  split at h
  · cases h
    rw [nodeAt_setNode, if_neg hq]
  · cases h

/-- A path that is not a directory, below one, can be written. -/
theorem writeFile_of_parent (content : β) (hp : isDir t p.dropLast = true)
    (hd : isDir t p = false) :
    ∃ t', writeFile t p content = some t' :=
  ⟨_, by rw [writeFile, hp, hd]; rfl⟩

/-- Whether a path is a directory depends only on its node. -/
theorem isDir_congr (h : nodeAt t' q = nodeAt t q) : isDir t' q = isDir t q := by
  unfold isDir
  rw [h]

/-- A file that is written does not take a directory's place. -/
theorem writeFile_isDir (h : writeFile t p content = some t') (q : List ν) :
    isDir t' q = isDir t q := by
  by_cases hq : q = p
  · subst hq
    unfold writeFile at h
    split at h
    next hc =>
      cases h
      have hnot : isDir t q = false := by
        simp only [Bool.and_eq_true, Bool.not_eq_true'] at hc
        exact hc.2
      rw [hnot]
      cases q with
      | nil => simp [isDir] at hnot
      | cons head rest => simp [isDir]
    · cases h
  · exact isDir_congr (writeFile_elsewhere h hq)

/-- Removing a file leaves the directories. -/
theorem removeFile_isDir (t : Tree ν β) (p q : List ν) :
    isDir (removeFile t p) q = isDir t q := by
  cases hp : nodeAt t p with
  | none => simp [removeFile, hp]
  | some n =>
    cases n with
    | dir => simp [removeFile, hp]
    | file content =>
      have hr : removeFile t p = dropNode t p := by simp [removeFile, hp]
      rw [hr]
      by_cases hq : q = p
      · subst hq
        cases q with
        | nil => rfl
        | cons head rest => simp [isDir, hp]
      · exact isDir_congr (by rw [nodeAt_dropNode, if_neg hq])

/-- A directory other than the root is a node. -/
theorem isDir_iff (hq : q ≠ []) : isDir t q = true ↔ nodeAt t q = some .dir := by
  cases q with
  | nil => exact absurd rfl hq
  | cons head rest =>
    unfold isDir
    cases hn : nodeAt t (head :: rest) with
    | none => simp
    | some n => cases n <;> simp

/-- A removed file is gone, and every other file is as it was. -/
theorem removeFile_fileAt (t : Tree ν β) (p q : List ν) :
    fileAt (removeFile t p) q = if q = p then none else fileAt t q := by
  cases hp : nodeAt t p with
  | none =>
    by_cases hq : q = p
    · subst hq
      simp [removeFile, fileAt, hp]
    · simp [removeFile, hp, hq]
  | some n =>
    cases n with
    | dir =>
      by_cases hq : q = p
      · subst hq
        simp [removeFile, fileAt, hp]
      · simp [removeFile, hp, hq]
    | file content =>
      have hr : removeFile t p = dropNode t p := by simp [removeFile, hp]
      unfold fileAt
      rw [hr, nodeAt_dropNode]
      by_cases hq : q = p <;> simp [hq]

/-- Making directories below one touches nothing above it. -/
theorem createDirs_above {done rest : List ν} (h : createDirs t done rest = some t')
    (hq : q <+: done) : nodeAt t' q = nodeAt t q := by
  induction rest generalizing t done with
  | nil =>
    cases h
    rfl
  | cons name rest ih =>
    have hbelow : q <+: done ++ [name] := hq.trans (List.prefix_append _ _)
    unfold createDirs at h
    split at h
    · exact ih h hbelow
    · cases h
    · have hne : q ≠ done ++ [name] := by
        rintro rfl
        have hlen : done.length + 1 ≤ done.length := by simpa using hq.length_le
        omega
      rw [ih h hbelow, nodeAt_setNode, if_neg hne]

/-- Every directory on the way is there afterwards, and nothing else changed. -/
theorem createDirAll_nodeAt (h : createDirAll t p = some t') (q : List ν) :
    nodeAt t' q = if q ≠ [] ∧ q <+: p then some .dir else nodeAt t q := by
  split_ifs with hq
  · obtain ⟨hne, rest, rfl⟩ := hq
    unfold createDirAll at h
    rw [createDirs_append] at h
    obtain ⟨mid, hmid, hlast⟩ := Option.bind_eq_some_iff.mp h
    exact createDirs_keeps_dir hlast (createDirs_makes hmid hne)
  · by_cases hp : q <+: p
    · have hnil : q = [] := by
        by_contra hne
        exact hq ⟨hne, hp⟩
      subst hnil
      exact createDirs_above h (List.nil_prefix)
    · exact createDirs_elsewhere h hp

/-- Directories can be made when no file is in the way. -/
theorem createDirs_isSome {done rest : List ν}
    (h : ∀ pre, pre <+: rest → pre ≠ [] → fileAt t (done ++ pre) = none) :
    (createDirs t done rest).isSome := by
  induction rest generalizing t done with
  | nil => rfl
  | cons name rest ih =>
    have hbelow (u : Tree ν β) (hu : ∀ q, fileAt u q = fileAt t q) :
        (createDirs u (done ++ [name]) rest).isSome := by
      refine ih fun pre hpre hne => ?_
      rw [hu, List.append_assoc]
      exact h (name :: pre) (List.cons_prefix_cons.mpr ⟨rfl, hpre⟩) (by simp)
    have hhere := h [name] (by simp) (by simp)
    unfold createDirs
    split
    · exact hbelow t fun _ => rfl
    next content hfile => simp [fileAt, hfile] at hhere
    next hnone => exact hbelow _ fun q => fileAt_setNode_dir t _ q hnone

theorem createDirAll_isSome (h : ∀ pre, pre <+: p → pre ≠ [] → fileAt t pre = none) :
    (createDirAll t p).isSome :=
  createDirs_isSome h

theorem createDirAll_no_file (h : createDirAll t p = some t') (hq : q <+: p) (hne : q ≠ []) :
    fileAt t q = none := by
  have hnode := createDirAll_nodeAt h q
  rw [if_pos ⟨hne, hq⟩] at hnode
  rw [← createDirAll_fileAt h q]
  simp [fileAt, hnode]

/-- The written file is its path's node, and the other nodes are as they were. -/
theorem writeFile_nodeAt (h : writeFile t p content = some t') (q : List ν) :
    nodeAt t' q = if q = p then some (.file content) else nodeAt t q := by
  unfold writeFile at h
  split at h
  · cases h
    exact nodeAt_setNode t p q _
  · cases h

theorem writeFile_not_dir (h : writeFile t p content = some t') : isDir t p = false := by
  unfold writeFile at h
  split at h
  next hc => simpa using (Bool.and_eq_true_iff.mp hc).2
  · cases h

end Operations

section Rename

variable {t t' : Tree ν β} {src dst : List ν}

/-- Renaming the entries of a tree moves a node when it is the only one renamed
to its new path. -/
theorem nodeAt_map (f : List ν → List ν) {p q : List ν}
    (h : ∀ entry ∈ t, f entry.1 = q ↔ entry.1 = p) :
    nodeAt (t.map fun entry => (f entry.1, entry.2)) q = nodeAt t p := by
  induction t with
  | nil => rfl
  | cons entry rest ih =>
    rw [List.map_cons, nodeAt_cons, nodeAt_cons,
      ih fun e he => h e (List.mem_cons_of_mem _ he)]
    simp only [h entry List.mem_cons_self]

/-- A tree with no entry renamed to a path has nothing there. -/
theorem nodeAt_map_none (f : List ν → List ν) {q : List ν}
    (h : ∀ entry ∈ t, f entry.1 ≠ q) :
    nodeAt (t.map fun entry => (f entry.1, entry.2)) q = none := by
  induction t with
  | nil => rfl
  | cons entry rest ih =>
    rw [List.map_cons, nodeAt_cons, if_neg (h entry List.mem_cons_self),
      ih fun e he => h e (List.mem_cons_of_mem _ he)]

/-- Dropping a free path leaves nothing below it. -/
theorem dropNode_free (h : isFree t dst) :
    ∀ entry ∈ dropNode t dst, ¬dst <+: entry.1 := by
  intro entry he hp
  obtain ⟨he, hne⟩ := List.mem_filter.mp he
  have hfree := List.all_eq_true.mp h entry he
  simp [List.isPrefixOf_iff_prefix.mpr hp] at hfree
  simp [hfree.1] at hne

/-- No file is at or below a free path. -/
theorem fileAt_of_isFree (h : isFree t dst) (hd : dst ≠ []) (rest : List ν) :
    fileAt t (dst ++ rest) = none := by
  cases hf : fileAt t (dst ++ rest) with
  | none => rfl
  | some content =>
    have hnode : nodeAt t (dst ++ rest) = some (.file content) := by
      unfold fileAt at hf
      split at hf
      next hn =>
        cases hf
        exact hn
      · cases hf
    obtain ⟨entry, hfind, hval⟩ := Option.map_eq_some_iff.mp hnode
    have hpath : entry.1 = dst ++ rest := by simpa using List.find?_some hfind
    have hfree := List.all_eq_true.mp h entry (List.mem_of_find?_eq_some hfind)
    have hpre : dst.isPrefixOf entry.1 = true :=
      List.isPrefixOf_iff_prefix.mpr ⟨rest, hpath.symm⟩
    simp only [hpre, Bool.not_true, Bool.false_or, Bool.and_eq_true, decide_eq_true_eq] at hfree
    rw [← hpath, hfree.1] at hnode
    rw [(isDir_iff hd).mp hfree.2] at hnode
    cases hnode

private theorem renameDir_eq (h : renameDir t src dst = some t') :
    t' = (dropNode t dst).map (fun entry => (movedPath src dst entry.1, entry.2)) ∧
      isFree t dst ∧ ¬src <+: dst := by
  unfold renameDir at h
  split_ifs at h with hc
  cases h
  exact ⟨rfl, hc.2.2.1, hc.2.2.2⟩

theorem renameDir_isFree (h : renameDir t src dst = some t') : isFree t dst = true :=
  (renameDir_eq h).2.1

/-- Nothing is left where the moved directory was. -/
theorem renameDir_gone (h : renameDir t src dst = some t')
    (hl : src.length ≤ dst.length) (rest : List ν) : nodeAt t' (src ++ rest) = none := by
  obtain ⟨rfl, -, hsrc⟩ := renameDir_eq h
  refine nodeAt_map_none (movedPath src dst) fun entry _ => ?_
  unfold movedPath
  split_ifs with hp
  · intro heq
    have hpre : src <+: dst ++ entry.1.drop src.length := ⟨rest, heq.symm⟩
    exact hsrc (List.prefix_of_prefix_length_le hpre (List.prefix_append _ _) hl)
  · intro heq
    exact hp (heq ▸ List.prefix_append _ _)

/-- What was below the moved directory is below its new path. -/
theorem renameDir_moved (h : renameDir t src dst = some t') (rest : List ν) :
    nodeAt t' (dst ++ rest) = nodeAt t (src ++ rest) := by
  obtain ⟨rfl, hfree, hsrc⟩ := renameDir_eq h
  have hsame : nodeAt (dropNode t dst) (src ++ rest) = nodeAt t (src ++ rest) := by
    rw [nodeAt_dropNode, if_neg]
    intro heq
    exact hsrc ⟨rest, heq⟩
  rw [← hsame]
  refine nodeAt_map (movedPath src dst) fun entry he => ?_
  unfold movedPath
  split_ifs with hp
  · obtain ⟨tail, htail⟩ := hp
    rw [← htail]
    simp
  · constructor
    · rintro heq
      exact absurd ⟨rest, heq.symm⟩ (dropNode_free hfree entry he)
    · rintro heq
      exact absurd ⟨rest, heq.symm⟩ hp

/-- A move changes nothing outside its two paths. -/
theorem renameDir_elsewhere (h : renameDir t src dst = some t') {q : List ν}
    (hs : ¬src <+: q) (hd : ¬dst <+: q) : nodeAt t' q = nodeAt t q := by
  obtain ⟨rfl, -, -⟩ := renameDir_eq h
  have hsame : nodeAt (dropNode t dst) q = nodeAt t q := by
    rw [nodeAt_dropNode, if_neg]
    rintro rfl
    exact hd (List.prefix_refl _)
  rw [← hsame]
  refine nodeAt_map (movedPath src dst) fun entry _ => ?_
  unfold movedPath
  split_ifs with hp
  · constructor
    · intro heq
      exact absurd ⟨_, heq⟩ hd
    · rintro rfl
      exact absurd hp hs
  · exact Iff.rfl

end Rename

end FuryBrowser.PathTree
