import FuryBrowser.PathTree
import Mathlib.Data.List.Dedup
import Mathlib.Tactic.Ring

/-!
# A tree with symbolic links

Besides directories and files a tree holds links, each with a path of its own, which a path that
leads through it goes on along. A path is walked a name at a time; so many links may be followed on
the way, and what was looked up on it is remembered.

Where nodes are removed, a path leads where it led as long as none of what it looks up is gone, and
nowhere otherwise.
-/

namespace FuryBrowser.LinkTree

open PathTree

universe u v

/-- A step of a path. -/
inductive Step (ν : Type u) where
  /-- To the directory above. -/
  | up
  | down (name : ν)
  deriving DecidableEq, Repr

/-- What a name stands for that is no directory. -/
inductive Entry (ν : Type u) (β : Type v) where
  | data (content : β)
  /-- A link, from the root or from where it is. -/
  | link (fromRoot : Bool) (target : List (Step ν))
  /-- A socket, or the like, of this size. -/
  | special (size : ℕ)
  deriving DecidableEq, Repr

/-- A tree with links. -/
abbrev Links (ν : Type u) (β : Type v) := Tree ν (Entry ν β)

/-- What was looked up on the way, and where it ends with how many links left to follow. -/
structure Trace (ν : Type u) where
  /-- The paths that were looked up. -/
  lookups : List (List ν)
  /-- The end, if there is one. -/
  found : Option (List ν × ℕ)
  deriving DecidableEq, Repr

/-- One more lookup before. -/
def Trace.through {ν : Type u} (p : List ν) (r : Trace ν) : Trace ν := ⟨p :: r.lookups, r.found⟩

variable {ν : Type u} {β : Type v} [DecidableEq ν]

/-- The names in a directory. -/
def entries (t : Links ν β) (dir : List ν) : List ν :=
  (t.filterMap fun e => if e.1.dropLast = dir then e.1.getLast? else none).dedup

/-- The walk of a path that hands on to another at a link. -/
def traceWith (t : Links ν β) (n : ℕ) (follow : List ν → List (Step ν) → Trace ν) :
    List ν → List (Step ν) → Trace ν
  | dir, [] => ⟨[], some (dir, n)⟩
  | dir, .up :: rest => traceWith t n follow dir.dropLast rest
  | dir, .down name :: rest =>
    match nodeAt t (dir ++ [name]) with
    | some .dir => (traceWith t n follow (dir ++ [name]) rest).through (dir ++ [name])
    | some (.file (.link fromRoot target)) =>
      (follow (if fromRoot then [] else dir) (target ++ rest)).through (dir ++ [name])
    | some (.file _) => ⟨[dir ++ [name]], if rest.isEmpty then some (dir ++ [name], n) else none⟩
    | none => ⟨[dir ++ [name]], none⟩

/-- The walk of a path from a directory, that may follow so many links. -/
def trace (t : Links ν β) : ℕ → List ν → List (Step ν) → Trace ν
  | 0 => traceWith t 0 fun _ _ => ⟨[], none⟩
  | n + 1 => traceWith t (n + 1) (trace t n)

/-- Where a path leads. -/
def resolve (t : Links ν β) (n : ℕ) (dir : List ν) (path : List (Step ν)) : Option (List ν) :=
  (trace t n dir path).found.map Prod.fst

/-- Parents are directories, and the root is not listed. -/
structure Rooted (t : Links ν β) : Prop where
  top : nodeAt t [] = none
  parents : ∀ p name, (nodeAt t (p ++ [name])).isSome = true → isDir t p = true

section Walks

variable {t : Links ν β} {n m : ℕ} {dir q : List ν} {path rest : List (Step ν)} {name : ν}
  {gone : List ν → Bool}

@[simp] theorem trace_nil : trace t n dir [] = ⟨[], some (dir, n)⟩ := by
  cases n <;> rfl

@[simp] theorem trace_up : trace t n dir (.up :: path) = trace t n dir.dropLast path := by
  cases n <;> rfl

theorem trace_dir (h : nodeAt t (dir ++ [name]) = some .dir) :
    trace t n dir (.down name :: path) =
      (trace t n (dir ++ [name]) path).through (dir ++ [name]) := by
  cases n <;> simp [trace, traceWith, h]

/-- A link spends one of those that may be followed. -/
theorem trace_link {fromRoot : Bool} {target : List (Step ν)}
    (h : nodeAt t (dir ++ [name]) = some (.file (.link fromRoot target))) :
    trace t (n + 1) dir (.down name :: path) =
      (trace t n (if fromRoot then [] else dir) (target ++ path)).through (dir ++ [name]) := by
  simp [trace, traceWith, h]

theorem trace_link_zero {fromRoot : Bool} {target : List (Step ν)}
    (h : nodeAt t (dir ++ [name]) = some (.file (.link fromRoot target))) :
    trace t 0 dir (.down name :: path) = ⟨[dir ++ [name]], none⟩ := by
  simp [trace, traceWith, h, Trace.through]

theorem trace_file {e : Entry ν β} (h : nodeAt t (dir ++ [name]) = some (.file e))
    (hlink : ∀ fromRoot target, e ≠ .link fromRoot target) :
    trace t n dir (.down name :: path) =
      ⟨[dir ++ [name]], if path.isEmpty then some (dir ++ [name], n) else none⟩ := by
  cases e with
  | link fromRoot target => exact absurd rfl (hlink fromRoot target)
  | data content => cases n <;> simp [trace, traceWith, h]
  | special size => cases n <;> simp [trace, traceWith, h]

theorem trace_none (h : nodeAt t (dir ++ [name]) = none) :
    trace t n dir (.down name :: path) = ⟨[dir ++ [name]], none⟩ := by
  cases n <;> simp [trace, traceWith, h]

/-- What a name stands for, as far as a walk tells. -/
theorem node_cases (t : Links ν β) (p : List ν) :
    nodeAt t p = none ∨ nodeAt t p = some .dir ∨
      (∃ fromRoot target, nodeAt t p = some (.file (.link fromRoot target))) ∨
        ∃ e, nodeAt t p = some (.file e) ∧ ∀ fromRoot target, e ≠ .link fromRoot target := by
  cases h : nodeAt t p with
  | none => exact .inl rfl
  | some node =>
    cases node with
    | dir => exact .inr (.inl rfl)
    | file e =>
      cases e with
      | data content => exact .inr (.inr (.inr ⟨_, rfl, fun _ _ => by simp⟩))
      | link fromRoot target => exact .inr (.inr (.inl ⟨_, _, rfl⟩))
      | special size => exact .inr (.inr (.inr ⟨_, rfl, fun _ _ => by simp⟩))

/-- The cases of a walk, of which each rests on the walk it goes on with. -/
theorem walk_induction {P : ℕ → List ν → List (Step ν) → Prop} (t : Links ν β)
    (nil : ∀ n dir, P n dir [])
    (up : ∀ n dir path, P n dir.dropLast path → P n dir (.up :: path))
    (missing : ∀ n dir name path, nodeAt t (dir ++ [name]) = none → P n dir (.down name :: path))
    (dir : ∀ n dir name path, nodeAt t (dir ++ [name]) = some .dir →
      P n (dir ++ [name]) path → P n dir (.down name :: path))
    (tired : ∀ dir name path fromRoot target,
      nodeAt t (dir ++ [name]) = some (.file (.link fromRoot target)) →
        P 0 dir (.down name :: path))
    (link : ∀ n dir name path fromRoot target,
      nodeAt t (dir ++ [name]) = some (.file (.link fromRoot target)) →
        P n (if fromRoot then [] else dir) (target ++ path) → P (n + 1) dir (.down name :: path))
    (file : ∀ n dir name path e, nodeAt t (dir ++ [name]) = some (.file e) →
      (∀ fromRoot target, e ≠ .link fromRoot target) → P n dir (.down name :: path))
    (n : ℕ) (start : List ν) (path : List (Step ν)) : P n start path := by
  induction n generalizing start path with
  | zero =>
    induction path generalizing start with
    | nil => exact nil 0 start
    | cons s path ih =>
      cases s with
      | up => exact up 0 start path (ih _)
      | down name =>
        rcases node_cases t (start ++ [name]) with h | h | ⟨_, _, h⟩ | ⟨e, h, hl⟩
        · exact missing 0 start name path h
        · exact dir 0 start name path h (ih _)
        · exact tired start name path _ _ h
        · exact file 0 start name path e h hl
  | succ n ihn =>
    induction path generalizing start with
    | nil => exact nil (n + 1) start
    | cons s path ih =>
      cases s with
      | up => exact up (n + 1) start path (ih _)
      | down name =>
        rcases node_cases t (start ++ [name]) with h | h | ⟨_, _, h⟩ | ⟨e, h, hl⟩
        · exact missing (n + 1) start name path h
        · exact dir (n + 1) start name path h (ih _)
        · exact link n start name path _ _ h (ihn _ _)
        · exact file (n + 1) start name path e h hl

theorem mem_lookups_head : dir ++ [name] ∈ (trace t n dir (.down name :: path)).lookups := by
  rcases node_cases t (dir ++ [name]) with h | h | ⟨_, _, h⟩ | ⟨e, h, hl⟩
  · simp [trace_none h]
  · simp [trace_dir h, Trace.through]
  · cases n with
    | zero => simp [trace_link_zero h]
    | succ n => simp [trace_link h, Trace.through]
  · simp [trace_file h hl]

/-- Where nodes are gone, a path leads where it led if it looks none of them up, and nowhere
otherwise. -/
theorem found_dropWhere :
    (trace (dropWhere t gone) n dir path).found =
      if ∀ p ∈ (trace t n dir path).lookups, gone p = false then (trace t n dir path).found
      else none := by
  have hgone (n : ℕ) (dir : List ν) (name : ν) (path : List (Step ν))
      (hg : gone (dir ++ [name]) = true) :
      (trace (dropWhere t gone) n dir (.down name :: path)).found =
        if ∀ p ∈ (trace t n dir (.down name :: path)).lookups, gone p = false then
          (trace t n dir (.down name :: path)).found else none := by
    have hnode := nodeAt_dropWhere t (dir ++ [name]) gone
    rw [hg, if_pos rfl] at hnode
    rw [trace_none hnode, if_neg]
    intro hall
    rw [hall _ mem_lookups_head] at hg
    cases hg
  have hkept {dir : List ν} {name : ν} (hg : ¬gone (dir ++ [name]) = true) :
      nodeAt (dropWhere t gone) (dir ++ [name]) = nodeAt t (dir ++ [name]) := by
    rw [nodeAt_dropWhere, if_neg hg]
  induction n, dir, path using walk_induction t with
  | nil n dir => simp
  | up n dir path ih =>
    rw [trace_up, trace_up, ih]
  | missing n dir name path h =>
    by_cases hg : gone (dir ++ [name]) = true
    · exact hgone n dir name path hg
    · simp [trace_none h, trace_none ((hkept hg).trans h)]
  | dir n dir name path h ih =>
    by_cases hg : gone (dir ++ [name]) = true
    · exact hgone n dir name path hg
    · simp [trace_dir h, trace_dir ((hkept hg).trans h), Trace.through, hg, ih]
  | tired dir name path _ _ h =>
    by_cases hg : gone (dir ++ [name]) = true
    · exact hgone 0 dir name path hg
    · simp [trace_link_zero h, trace_link_zero ((hkept hg).trans h)]
  | link n dir name path _ _ h ih =>
    by_cases hg : gone (dir ++ [name]) = true
    · exact hgone (n + 1) dir name path hg
    · simp [trace_link h, trace_link ((hkept hg).trans h), Trace.through, hg, ih]
  | file n dir name path e h hl =>
    by_cases hg : gone (dir ++ [name]) = true
    · exact hgone n dir name path hg
    · simp [trace_file h hl, trace_file ((hkept hg).trans h) hl, hg]

end Walks

section Rooted

variable {t : Links ν β} {n : ℕ} {dir q : List ν} {path rest : List (Step ν)} {name : ν}

theorem mem_entries : name ∈ entries t dir ↔ (nodeAt t (dir ++ [name])).isSome = true := by
  simp only [entries, List.mem_dedup, List.mem_filterMap, nodeAt, Option.isSome_map,
    List.find?_isSome, decide_eq_true_eq]
  constructor
  · rintro ⟨e, he, hname⟩
    obtain ⟨hdir, hlast⟩ := Option.ite_none_right_eq_some.mp hname
    refine ⟨e, he, ?_⟩
    rw [← hdir, List.dropLast_append_getLast? name (by simpa using hlast)]
  · rintro ⟨e, he, heq⟩
    exact ⟨e, he, by simp [heq]⟩

/-- A tree is rooted if each of its entries is in a directory. -/
theorem rooted_of_entries (h : ∀ e ∈ t, e.1 ≠ [] ∧ isDir t e.1.dropLast = true) : Rooted t where
  top := by
    refine Option.eq_none_iff_forall_ne_some.mpr fun node hnode => ?_
    obtain ⟨e, hfind, -⟩ := Option.map_eq_some_iff.mp hnode
    have hnil := List.find?_some hfind
    exact (h e (List.mem_of_find?_eq_some hfind)).1 (of_decide_eq_true hnil)
  parents := fun p name hsome => by
    obtain ⟨e, he, hname⟩ := List.mem_filterMap.mp (List.mem_dedup.mp (mem_entries.mpr hsome))
    obtain ⟨hdir, -⟩ := Option.ite_none_right_eq_some.mp hname
    exact hdir ▸ (h e he).2

theorem isDir_of_node (h : nodeAt t q = some .dir) : isDir t q = true := by
  unfold isDir
  cases q with
  | nil => rfl
  | cons a q => rw [h]

theorem Rooted.dropLast (ht : Rooted t) (h : isDir t dir = true) : isDir t dir.dropLast = true := by
  rcases List.eq_nil_or_concat' dir with rfl | ⟨above, name, rfl⟩
  · exact h
  · rw [List.dropLast_concat]
    refine ht.parents above name ?_
    rw [(isDir_iff (by simp)).mp h]
    rfl

/-- A path goes on from where its first part leads, if that is a directory. -/
theorem found_append (ht : Rooted t) (hdir : isDir t dir = true) (rest : List (Step ν)) :
    (trace t n dir (path ++ rest)).found = (trace t n dir path).found.bind fun r =>
      if isDir t r.1 = true ∨ rest = [] then (trace t r.2 r.1 rest).found else none := by
  induction n, dir, path using walk_induction t with
  | nil n dir => simp [hdir]
  | up n dir path ih => simpa using ih (ht.dropLast hdir)
  | missing n dir name path h => simp [trace_none h]
  | dir n dir name path h ih => simpa [trace_dir h, Trace.through] using ih (isDir_of_node h)
  | tired dir name path fromRoot target h => simp [trace_link_zero h]
  | link n dir name path fromRoot target h ih =>
    have hstart : isDir t (if fromRoot then [] else dir) = true := by
      cases fromRoot with
      | true => rfl
      | false => exact hdir
    simpa [trace_link h, Trace.through] using ih hstart
  | file n dir name path e h hl =>
    have hfile : isDir t (dir ++ [name]) = false := by
      rw [Bool.eq_false_iff, ne_eq, isDir_iff (by simp), h]
      simp
    rw [List.cons_append, trace_file h hl, trace_file h hl]
    cases path with
    | nil => cases rest <;> simp [hfile]
    | cons s path => simp

/-- A path leads to a directory, or to a file that it looks up. -/
theorem found_end (ht : Rooted t) (hdir : isDir t dir = true) {m : ℕ}
    (h : (trace t n dir path).found = some (q, m)) :
    isDir t q = true ∨ q ∈ (trace t n dir path).lookups := by
  induction n, dir, path using walk_induction t with
  | nil n dir =>
    simp only [trace_nil, Option.some.injEq, Prod.mk.injEq] at h
    exact .inl (h.1 ▸ hdir)
  | up n dir path ih =>
    rw [trace_up] at h ⊢
    exact ih (ht.dropLast hdir) h
  | missing n dir name path hnode =>
    rw [trace_none hnode] at h
    cases h
  | dir n dir name path hnode ih =>
    rw [trace_dir hnode] at h ⊢
    exact (ih (isDir_of_node hnode) h).imp_right (List.mem_cons_of_mem _)
  | tired dir name path fromRoot target hnode =>
    rw [trace_link_zero hnode] at h
    cases h
  | link n dir name path fromRoot target hnode ih =>
    rw [trace_link hnode] at h ⊢
    refine (ih ?_ h).imp_right (List.mem_cons_of_mem _)
    cases fromRoot with
    | true => rfl
    | false => exact hdir
  | file n dir name path e hnode hl =>
    rw [trace_file hnode hl] at h ⊢
    obtain ⟨-, heq⟩ := Option.ite_none_right_eq_some.mp h
    cases heq
    exact .inr (List.mem_singleton_self _)

/-- A path that leads somewhere has at most so many names of its own after what it began with. -/
theorem names_le {height : ℕ} (hheight : ∀ p, (nodeAt t p).isSome = true → p.length ≤ height)
    (hdir : dir.length ≤ height) {before : List (Step ν)} {names : List ν}
    (hpath : path = before ++ names.map .down) (h : (trace t n dir path).found.isSome = true) :
    names.length ≤ (n + 1) * (height + 1) ∧
      (before = [] → dir.length + names.length ≤ (n + 1) * (height + 1)) := by
  induction n, dir, path using walk_induction t generalizing before names with
  | nil n dir =>
    obtain ⟨rfl, hnames⟩ := List.append_eq_nil_iff.mp hpath.symm
    rw [List.map_eq_nil_iff.mp hnames, List.length_nil]
    have hbig : height + 1 ≤ (n + 1) * (height + 1) := Nat.le_mul_of_pos_left _ (Nat.succ_pos n)
    exact ⟨Nat.zero_le _, fun _ => by omega⟩
  | up n dir path ih =>
    cases before with
    | nil => cases names <;> cases hpath
    | cons s before =>
      obtain ⟨rfl, hrest⟩ := List.cons.inj hpath
      rw [trace_up] at h
      have hlen : dir.dropLast.length ≤ height := by
        rw [List.length_dropLast]
        omega
      exact ⟨(ih hlen hrest h).1, fun hnil => by cases hnil⟩
  | missing n dir name path hnode =>
    rw [trace_none hnode] at h
    cases h
  | dir n dir name path hnode ih =>
    have hlen : (dir ++ [name]).length ≤ height := hheight _ (by rw [hnode]; rfl)
    rw [trace_dir hnode] at h
    cases before with
    | nil =>
      cases names with
      | nil => cases hpath
      | cons name' names =>
        obtain ⟨-, hrest⟩ := List.cons.inj hpath
        have hnext : path = [] ++ names.map .down := hrest
        have hafter := (ih hlen hnext h).2 rfl
        rw [List.length_append, List.length_singleton] at hafter
        rw [List.length_cons]
        omega
    | cons s before =>
      obtain ⟨-, hrest⟩ := List.cons.inj hpath
      exact ⟨(ih hlen hrest h).1, fun hnil => by cases hnil⟩
  | tired dir name path fromRoot target hnode =>
    rw [trace_link_zero hnode] at h
    cases h
  | link n dir name path fromRoot target hnode ih =>
    rw [trace_link hnode] at h
    have hstart : (if fromRoot then [] else dir).length ≤ height := by
      cases fromRoot with
      | true => exact Nat.zero_le _
      | false => exact hdir
    have hmore : (n + 1 + 1) * (height + 1) = (n + 1) * (height + 1) + (height + 1) := by ring
    cases before with
    | nil =>
      cases names with
      | nil => cases hpath
      | cons name' names =>
        obtain ⟨-, hrest⟩ := List.cons.inj hpath
        have hnext : target ++ path = target ++ names.map .down := congrArg (target ++ ·) hrest
        have hafter := (ih hstart hnext h).1
        rw [List.length_cons]
        omega
    | cons s before =>
      obtain ⟨-, hrest⟩ := List.cons.inj hpath
      have hnext : target ++ path = (target ++ before) ++ names.map .down :=
        (congrArg (target ++ ·) hrest).trans (List.append_assoc ..).symm
      have hafter := (ih hstart hnext h).1
      exact ⟨by omega, fun hnil => by cases hnil⟩
  | file n dir name path e hnode hl =>
    have hlen : (dir ++ [name]).length ≤ height := hheight _ (by rw [hnode]; rfl)
    rw [List.length_append, List.length_singleton] at hlen
    rw [trace_file hnode hl] at h
    have hnil : path = [] := by
      cases path with
      | nil => rfl
      | cons s path => cases h
    subst hnil
    have hbig : height + 1 ≤ (n + 1) * (height + 1) := Nat.le_mul_of_pos_left _ (Nat.succ_pos n)
    cases before with
    | nil =>
      cases names with
      | nil => cases hpath
      | cons name' names =>
        obtain ⟨-, hrest⟩ := List.cons.inj hpath
        rw [List.map_eq_nil_iff.mp hrest.symm]
        simp only [List.length_cons, List.length_nil]
        omega
    | cons s before =>
      obtain ⟨-, hrest⟩ := List.cons.inj hpath
      obtain ⟨-, hnames⟩ := List.append_eq_nil_iff.mp hrest.symm
      rw [List.map_eq_nil_iff.mp hnames, List.length_nil]
      exact ⟨Nat.zero_le _, fun hnil => by cases hnil⟩

/-- What is left when whatever is below something goes with it. -/
theorem Rooted.dropWhere (ht : Rooted t) {gone : List ν → Bool}
    (hdown : ∀ p name, gone p = true → gone (p ++ [name]) = true) :
    Rooted (dropWhere t gone) where
  top := by
    rw [nodeAt_dropWhere, ht.top, ite_self]
  parents := fun p name h => by
    rw [nodeAt_dropWhere] at h
    have hkept : gone (p ++ [name]) = false := by
      by_contra hg
      rw [if_pos (by simpa using hg)] at h
      cases h
    rw [if_neg (by simp [hkept])] at h
    have hp : gone p = false := by
      by_contra hg
      rw [hdown p name (by simpa using hg)] at hkept
      cases hkept
    have hdir := ht.parents p name h
    cases p with
    | nil => rfl
    | cons a p =>
      rw [isDir_iff (by simp)] at hdir ⊢
      rw [nodeAt_dropWhere, hp, if_neg Bool.false_ne_true, hdir]

end Rooted

end FuryBrowser.LinkTree
