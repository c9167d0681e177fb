import FuryBrowser.GuardedRuns
import FuryBrowser.IndexedTable
import FuryBrowser.TunnelConfig

/-!
# Tunnels that are shared

A peer answers whoever used a key last, so a key can be in one tunnel only. Tunnels are therefore
shared by everyone who uses the same configuration: a list of weak references is searched for an
equal one, and the tunnel ends with its last user. What has to be equal is the whole
configuration, while it is the key that must not be used twice.
-/

namespace FuryBrowser.SharedTunnels

open AgentDisk GuardedRuns IndexedTable TextBytes TunnelConfig

section State

/-- How a tunnel's task is. -/
inductive Phase
  | running
  /-- It was told to end, and may still be running until it next waits. -/
  | aborted
  | ended
  deriving DecidableEq, Repr

/-- A tunnel: the task that owns it. -/
structure Tunnel where
  /-- The private key it uses. -/
  key : Bytes
  phase : Phase
  deriving DecidableEq, Repr

/-- It uses its key. -/
def Tunnel.live (t : Tunnel) : Prop := t.phase ≠ .ended

/-- `Shared`. -/
structure Shared where
  config : Config
  strong : ℕ
  /-- `stack`: its tunnel, once something has dialled. -/
  stack : Option ℕ
  deriving DecidableEq, Repr

/-- It has a user. -/
def Shared.used (s : Shared) : Bool := 0 < s.strong

/-- The process: all that were made, the list of weak references, and the tunnels. -/
structure Process where
  /-- Every `Shared` so far. -/
  shareds : List Shared
  live : List ℕ
  tunnels : List Tunnel
  deriving DecidableEq, Repr

end State

section Operations

/-- A weak reference to one that is used and has this configuration. -/
def Process.matching (p : Process) (config : Config) (i : ℕ) : Bool :=
  p.shareds[i]?.any fun s => s.used && s.config = config

/-- `strong_count() > 0`. -/
def Process.upgrades (p : Process) (i : ℕ) : Bool := p.shareds[i]?.any (·.used)

/-- `Arc::clone`. -/
def Process.clone (p : Process) (i : ℕ) : Process :=
  { p with shareds := p.shareds.modify i fun s => { s with strong := s.strong + 1 } }

/-- `for_config`. -/
def Process.forConfig (p : Process) (config : Config) : Process :=
  let live := p.live.filter p.upgrades
  match live.find? (p.matching config) with
  | some i => { p.clone i with live := live }
  | none => { p with
      shareds := p.shareds ++ [⟨config, 1, none⟩], live := live ++ [p.shareds.length] }

/-- `abort`. -/
def Tunnel.abort (t : Tunnel) : Tunnel :=
  if t.phase = .running then { t with phase := .aborted } else t

/-- A user is gone, and with the last one the tunnel. -/
def Process.drop (p : Process) (i : ℕ) (s : Shared) : Process :=
  let p' := { p with shareds := p.shareds.set i { s with strong := s.strong - 1 } }
  if s.strong = 1 then
    match s.stack with
    | some t => { p' with tunnels := p.tunnels.modify t Tunnel.abort }
    | none => p'
  else p'

/-- The first that dials starts the tunnel, if it can be started. -/
def Process.dial (p : Process) (i : ℕ) (s : Shared) (connected : Bool) : Process :=
  match s.stack, start s.config connected with
  | none, some started =>
    { p with
      shareds := p.shareds.set i { s with stack := some p.tunnels.length }
      tunnels := p.tunnels ++ [⟨started.key, .running⟩] }
  | _, _ => p

/-- What can happen next. -/
inductive Op
  /-- A relay, a check or a launch asks for the tunnel of a configuration. -/
  | forConfig (config : Config)
  | clone (i : ℕ)
  /-- A user is done with it. -/
  | drop (i : ℕ)
  /-- A user dials, or looks up a name. -/
  | dial (i : ℕ) (connected : Bool)
  | finish (t : ℕ)
  deriving DecidableEq, Repr

/-- One step. -/
def Process.step (p : Process) : Op → Option Process
  | .forConfig config => some (p.forConfig config)
  | .clone i => if p.upgrades i then some (p.clone i) else none
  | .drop i => (p.shareds[i]?.filter Shared.used).map fun s => p.drop i s
  | .dial i connected => (p.shareds[i]?.filter Shared.used).map fun s => p.dial i s connected
  | .finish t => if t < p.tunnels.length then
      some { p with tunnels := p.tunnels.modify t fun t => { t with phase := .ended } }
    else none

/-- Nothing has been asked for. -/
def begun (p : Process) : Prop := p = ⟨[], [], []⟩

/-- No configuration is asked for while another one with its key is used, and no tunnel is started
while one with its key is still about to end. -/
def oneConfig (p : Process) : Op → Prop
  | .forConfig config => ∀ s ∈ p.shareds, s.used = true → s.config = config ∨
    config.key = none ∨ s.config.key ≠ config.key
  | .dial i _ => ∀ s ∈ p.shareds[i]?, s.stack = none →
    ∀ t ∈ p.tunnels, t.phase = .aborted → s.config.key ≠ some t.key
  | _ => True

instance : DecidableRel oneConfig := fun p op => by
  cases op <;> unfold oneConfig <;> infer_instance

end Operations

/-- What holds in every run in which a key comes with one configuration at a time. -/
structure Exclusive (p : Process) : Prop where
  /-- A tunnel has the key of the configuration it was started for. -/
  started : ∀ (i t : ℕ) (s : Shared), p.shareds[i]? = some s → s.stack = some t →
    ∃ tunnel, p.tunnels[t]? = some tunnel ∧ s.config.key = some tunnel.key
  /-- A tunnel that runs has a user. -/
  owned : ∀ (t : ℕ) (tunnel : Tunnel), p.tunnels[t]? = some tunnel → tunnel.phase = .running →
    ∃ (i : ℕ) (s : Shared), p.shareds[i]? = some s ∧ s.stack = some t ∧ s.used = true
  /-- What is used can be found. -/
  listed : ∀ (i : ℕ) (s : Shared), p.shareds[i]? = some s → s.used = true → i ∈ p.live
  /-- Of those that are used no two have one key. -/
  keys : ∀ (i j : ℕ) (s s' : Shared) (key : Bytes), p.shareds[i]? = some s → s.used = true →
    p.shareds[j]? = some s' → s'.used = true → s.config.key = some key →
    s'.config.key = some key → i = j
  /-- And no two tunnels that live. -/
  alone : ∀ (t u : ℕ) (a b : Tunnel), p.tunnels[t]? = some a → p.tunnels[u]? = some b →
    a.live → b.live → a.key = b.key → t = u

section Frames

variable {p p' : Process} {i t : ℕ} {s : Shared} {config : Config}

/-- What a `Shared` is to the others. -/
def view (s : Shared) : Config × Option ℕ × Bool := (s.config, s.stack, s.used)

theorem exists_of_view {shareds shareds' : List Shared}
    (h : shareds'.map view = shareds.map view) (hs : shareds'[i]? = some s) :
    ∃ s', shareds[i]? = some s' ∧ s'.config = s.config ∧ s'.stack = s.stack ∧ s'.used = s.used := by
  obtain ⟨s', hs', heq⟩ := exists_of_map_eq h hs
  obtain ⟨hconfig, hrest⟩ := Prod.mk.inj heq
  obtain ⟨hstack, hused⟩ := Prod.mk.inj hrest
  exact ⟨s', hs', hconfig, hstack, hused⟩

/-- Users may come and go as long as one stays. -/
theorem Exclusive.frame (h : Exclusive p) (hshareds : p'.shareds.map view = p.shareds.map view)
    (htunnels : p'.tunnels = p.tunnels)
    (hlive : ∀ i ∈ p.live, ∀ s, p.shareds[i]? = some s → s.used = true → i ∈ p'.live) :
    Exclusive p' := by
  refine ⟨fun i t s hs hstack => ?_, fun t tunnel ht hrun => ?_, fun i s hs hused => ?_,
    fun i j s s' key hs hused hs' hused' hkey hkey' => ?_, ?_⟩
  · obtain ⟨s', hs', hconfig, hstack', -⟩ := exists_of_view hshareds hs
    rw [htunnels, ← hconfig]
    exact h.started i t s' hs' (hstack'.trans hstack)
  · rw [htunnels] at ht
    obtain ⟨i, s, hs, hstack, hused⟩ := h.owned t tunnel ht hrun
    obtain ⟨s', hs', -, hstack', hused'⟩ := exists_of_view hshareds.symm hs
    exact ⟨i, s', hs', hstack'.trans hstack, hused'.trans hused⟩
  · obtain ⟨s', hs', -, -, hused'⟩ := exists_of_view hshareds hs
    have hwas := hused'.trans hused
    exact hlive i (h.listed i s' hs' hwas) s' hs' hwas
  · obtain ⟨a, ha, haconfig, -, haused⟩ := exists_of_view hshareds hs
    obtain ⟨b, hb, hbconfig, -, hbused⟩ := exists_of_view hshareds hs'
    exact h.keys i j a b key ha (haused.trans hused) hb (hbused.trans hused')
      (haconfig ▸ hkey) (hbconfig ▸ hkey')
  · rw [htunnels]
    exact h.alone

end Frames

section Operations

variable {p : Process} {i t : ℕ} {s : Shared} {config : Config} {connected : Bool}

theorem used_iff : s.used = true ↔ 0 < s.strong := by simp [Shared.used]

theorem upgrades_iff : p.upgrades i = true ↔ ∃ s, p.shareds[i]? = some s ∧ s.used = true := by
  simp [Process.upgrades, Option.any_eq_true]

theorem matching_iff : p.matching config i = true ↔
    ∃ s, p.shareds[i]? = some s ∧ s.used = true ∧ s.config = config := by
  simp [Process.matching, Option.any_eq_true]

theorem map_clone_view (h : p.upgrades i = true) :
    (p.clone i).shareds.map view = p.shareds.map view := by
  obtain ⟨s, hs, hused⟩ := upgrades_iff.mp h
  refine map_modify_same fun s' hs' => ?_
  cases hs.symm.trans hs'
  have hmore : ({ s with strong := s.strong + 1 } : Shared).used = s.used := by
    rw [hused]
    exact used_iff.mpr (Nat.succ_pos _)
  rw [view, hmore, view]

/-- What is asked for is there already, or nothing with its key is. -/
theorem Exclusive.forConfig (h : Exclusive p) (hg : oneConfig p (.forConfig config)) :
    Exclusive (p.forConfig config) := by
  have hkept : ∀ i ∈ p.live, ∀ s, p.shareds[i]? = some s → s.used = true →
      i ∈ p.live.filter p.upgrades := fun i hi s hs hused =>
    List.mem_filter.mpr ⟨hi, upgrades_iff.mpr ⟨s, hs, hused⟩⟩
  unfold Process.forConfig
  dsimp only
  split
  · rename_i i hfind
    obtain ⟨s, hs, hused, -⟩ := matching_iff.mp (List.find?_some hfind)
    exact h.frame (map_clone_view (upgrades_iff.mpr ⟨s, hs, hused⟩)) rfl hkept
  · rename_i hnone
    -- whoever has the key has the configuration, and would have been found
    have hfree : ∀ (i : ℕ) (s : Shared) (key : Bytes), p.shareds[i]? = some s → s.used = true →
        s.config.key = some key → config.key ≠ some key := by
      intro i s key hs hused hkey hsame
      have hconfig : s.config = config := by
        rcases hg s (List.mem_of_getElem? hs) hused with heq | hnokey | hne
        · exact heq
        · cases hnokey.symm.trans hsame
        · exact absurd (hkey.trans hsame.symm) hne
      have hin := hkept i (h.listed i s hs hused) s hs hused
      have hmiss := List.find?_eq_none.mp hnone i hin
      exact hmiss (matching_iff.mpr ⟨s, hs, hused, hconfig⟩)
    refine ⟨fun i t s hs hstack => ?_, fun t tunnel ht hrun => ?_, fun i s hs hused => ?_,
      fun i j s s' key hs hused hs' hused' hkey hkey' => ?_, h.alone⟩
    · rcases concat_cases hs with hwas | ⟨-, rfl⟩
      · exact h.started i t s hwas hstack
      · cases hstack
    · obtain ⟨i, s, hs, hstack, hused⟩ := h.owned t tunnel ht hrun
      exact ⟨i, s, concat_kept hs, hstack, hused⟩
    · rcases concat_cases hs with hwas | ⟨rfl, -⟩
      · exact List.mem_append_left _ (hkept i (h.listed i s hwas hused) s hwas hused)
      · exact List.mem_append_right _ List.mem_cons_self
    · rcases concat_cases hs with hs | ⟨hi, rfl⟩ <;>
        rcases concat_cases hs' with hs' | ⟨hj, rfl⟩
      · exact h.keys i j s s' key hs hused hs' hused' hkey hkey'
      · exact absurd hkey' (hfree i s key hs hused hkey)
      · exact absurd hkey (hfree j s' key hs' hused' hkey')
      · exact hi.trans hj.symm

/-- What is told to end lives on, and no longer runs. -/
theorem abort_cases {tunnels : List Tunnel} {u : ℕ} {a : Tunnel}
    (ha : (tunnels.modify t Tunnel.abort)[u]? = some a) :
    ∃ b, tunnels[u]? = some b ∧ a.key = b.key ∧ (a.live → b.live) ∧
      (a.phase = .running → b.phase = .running ∧ u ≠ t) := by
  by_cases hu : t = u
  · rw [hu, List.getElem?_modify_eq] at ha
    obtain ⟨b, hb, rfl⟩ := Option.map_eq_some_iff.mp ha
    refine ⟨b, hb, ?_, ?_, ?_⟩
    · unfold Tunnel.abort
      split <;> rfl
    · intro hlive hended
      refine hlive ?_
      rw [Tunnel.abort, if_neg (by rw [hended]; decide)]
      exact hended
    · intro hrun
      unfold Tunnel.abort at hrun
      split at hrun
      · cases hrun
      · rename_i hne
        exact absurd hrun hne
  · rw [List.getElem?_modify_ne _ _ hu] at ha
    exact ⟨a, ha, rfl, id, fun hrun => ⟨hrun, Ne.symm hu⟩⟩

theorem drop_shareds :
    (p.drop i s).shareds = p.shareds.set i { s with strong := s.strong - 1 } := by
  unfold Process.drop
  dsimp only
  split
  · split <;> rfl
  · rfl

theorem drop_live : (p.drop i s).live = p.live := by
  unfold Process.drop
  dsimp only
  split
  · split <;> rfl
  · rfl

/-- The last user's tunnel is told to end, and the others are as they were. -/
theorem drop_tunnels {u : ℕ} {a : Tunnel} (hlast : s.strong = 1)
    (ha : (p.drop i s).tunnels[u]? = some a) :
    ∃ b, p.tunnels[u]? = some b ∧ a.key = b.key ∧ (a.live → b.live) ∧
      (a.phase = .running → b.phase = .running ∧ s.stack ≠ some u) := by
  unfold Process.drop at ha
  dsimp only at ha
  rw [if_pos hlast] at ha
  split at ha
  · rename_i t hstack
    obtain ⟨b, hb, hkey, hlives, hrun⟩ := abort_cases ha
    refine ⟨b, hb, hkey, hlives, fun hrunning => ⟨(hrun hrunning).1, fun heq => ?_⟩⟩
    rw [hstack] at heq
    exact (hrun hrunning).2 (Option.some.inj heq).symm
  · rename_i hstack
    exact ⟨a, ha, rfl, id, fun hrunning => ⟨hrunning, by rw [hstack]; nofun⟩⟩

variable (p i s) in
theorem drop_length : (p.drop i s).tunnels.length = p.tunnels.length := by
  unfold Process.drop
  dsimp only
  split
  · split
    · exact List.length_modify ..
    · rfl
  · rfl

/-- What is left of the last user's `Shared`. -/
theorem last_cases {j : ℕ} {s' : Shared} (hlast : s.strong = 1)
    (hs' : (p.drop i s).shareds[j]? = some s') : j ≠ i ∧ p.shareds[j]? = some s' ∨
      j = i ∧ s'.used = false ∧ s'.config = s.config ∧ s'.stack = s.stack := by
  rw [drop_shareds] at hs'
  rcases set_cases hs' with hother | ⟨heq, rfl⟩
  · exact .inl hother
  · exact .inr ⟨heq, by simp [Shared.used, hlast], rfl, rfl⟩

/-- With its last user a tunnel is told to end. -/
theorem Exclusive.last (h : Exclusive p) (hs : p.shareds[i]? = some s) (hlast : s.strong = 1) :
    Exclusive (p.drop i s) := by
  refine ⟨fun j t s' hs' hstack => ?_, fun u a ha hrun => ?_, fun j s' hs' hused' => ?_,
    fun j k a b key ha haused hb hbused hakey hbkey => ?_,
    fun u v a b ha hb hlivea hliveb hkey => ?_⟩
  · have hwas : ∃ (i₀ : ℕ) (s₀ : Shared), p.shareds[i₀]? = some s₀ ∧ s'.config = s₀.config ∧
        s'.stack = s₀.stack := by
      rcases last_cases hlast hs' with ⟨-, hsame⟩ | ⟨-, -, hconfig, hsame⟩
      · exact ⟨j, s', hsame, rfl, rfl⟩
      · exact ⟨i, s, hs, hconfig, hsame⟩
    obtain ⟨i₀, s₀, hs₀, hconfig, hstack₀⟩ := hwas
    obtain ⟨tunnel, ht, hkey⟩ := h.started i₀ t s₀ hs₀ (hstack₀ ▸ hstack)
    obtain ⟨hin, -⟩ := List.getElem?_eq_some_iff.mp ht
    rw [← drop_length p i s] at hin
    have ht' := List.getElem?_eq_getElem hin
    obtain ⟨b, hb, hsame, -⟩ := drop_tunnels hlast ht'
    cases ht.symm.trans hb
    exact ⟨_, ht', by rw [hconfig, hkey, hsame]⟩
  · obtain ⟨b, hb, -, -, hruns⟩ := drop_tunnels hlast ha
    obtain ⟨hrunning, hnot⟩ := hruns hrun
    obtain ⟨j, s', hs', hstack, hused'⟩ := h.owned u b hb hrunning
    have hj : i ≠ j := by
      rintro rfl
      cases hs.symm.trans hs'
      exact hnot hstack
    exact ⟨j, s', by rw [drop_shareds, List.getElem?_set_ne hj, hs'], hstack, hused'⟩
  · rw [drop_live]
    rcases last_cases hlast hs' with ⟨-, hwas⟩ | ⟨-, hfree, -⟩
    · exact h.listed j s' hwas hused'
    · cases hfree.symm.trans hused'
  · rcases last_cases hlast ha with ⟨-, hwas⟩ | ⟨-, hfree, -⟩
    · rcases last_cases hlast hb with ⟨-, hwas'⟩ | ⟨-, hfree, -⟩
      · exact h.keys j k a b key hwas haused hwas' hbused hakey hbkey
      · cases hfree.symm.trans hbused
    · cases hfree.symm.trans haused
  · obtain ⟨a', ha', hkeya, halive, -⟩ := drop_tunnels hlast ha
    obtain ⟨b', hb', hkeyb, hblive, -⟩ := drop_tunnels hlast hb
    exact h.alone u v a' b' ha' hb' (halive hlivea) (hblive hliveb)
      (hkeya.symm.trans (hkey.trans hkeyb))

theorem Exclusive.drop (h : Exclusive p) (hs : p.shareds[i]? = some s) (hused : s.used = true) :
    Exclusive (p.drop i s) := by
  by_cases hlast : s.strong = 1
  · exact h.last hs hlast
  · have hframe :
        p.drop i s = { p with shareds := p.shareds.set i { s with strong := s.strong - 1 } } :=
      if_neg hlast
    have hpos := used_iff.mp hused
    have hsame : ({ s with strong := s.strong - 1 } : Shared).used = s.used := by
      rw [hused]
      exact used_iff.mpr (by dsimp only; omega)
    rw [hframe]
    exact h.frame (map_set_same hs (by rw [view, hsame, view])) rfl fun i hi _ _ _ => hi

/-- The first that dials has a tunnel of its own. -/
theorem Exclusive.dial (h : Exclusive p) (hs : p.shareds[i]? = some s) (hused : s.used = true)
    (hg : oneConfig p (.dial i connected)) : Exclusive (p.dial i s connected) := by
  unfold Process.dial
  split
  · rename_i started hstack hstart
    obtain ⟨hlt, -⟩ := List.getElem?_eq_some_iff.mp hs
    have hkey := (start_eq hstart).1
    -- whatever lives has another key: what is about to end, and what has another user
    have hfree : ∀ (u : ℕ) (b : Tunnel), p.tunnels[u]? = some b → b.live → b.key ≠ started.key := by
      intro u b hb hlive hsame
      cases hphase : b.phase with
      | ended => exact hlive hphase
      | aborted =>
        have hother := hg s hs hstack b (List.mem_of_getElem? hb) hphase
        exact hother (hkey.trans (congrArg some hsame.symm))
      | running =>
        obtain ⟨j, s', hs', hstack', hused'⟩ := h.owned u b hb hphase
        obtain ⟨b', hb', hkey'⟩ := h.started j u s' hs' hstack'
        cases hb.symm.trans hb'
        rw [hsame] at hkey'
        cases h.keys i j s s' started.key hs hused hs' hused' hkey hkey'
        cases hs.symm.trans hs'
        cases hstack.symm.trans hstack'
    refine ⟨fun j t s' hs' hstack' => ?_, fun u a ha hrun => ?_, fun j s' hs' hused' => ?_,
      fun j k a b key ha haused hb hbused hakey hbkey => ?_,
      fun u v a b ha hb hlivea hliveb hsame => ?_⟩
    · rcases set_cases hs' with ⟨-, hwas⟩ | ⟨-, rfl⟩
      · obtain ⟨tunnel, ht, htkey⟩ := h.started j t s' hwas hstack'
        exact ⟨tunnel, concat_kept ht, htkey⟩
      · cases hstack'
        exact ⟨_, List.getElem?_concat_length, hkey⟩
    · rcases concat_cases ha with hwas | ⟨rfl, -⟩
      · obtain ⟨j, s', hs', hstack', hused'⟩ := h.owned u a hwas hrun
        have hj : i ≠ j := by
          rintro rfl
          cases hs.symm.trans hs'
          cases hstack.symm.trans hstack'
        exact ⟨j, s', by rw [List.getElem?_set_ne hj, hs'], hstack', hused'⟩
      · exact ⟨i, _, set_self hs, rfl, hused⟩
    · rcases set_cases hs' with ⟨-, hwas⟩ | ⟨rfl, -⟩
      · exact h.listed j s' hwas hused'
      · exact h.listed j s hs hused
    · have hwas {j : ℕ} {a : Shared}
          (ha : (p.shareds.set i { s with stack := some p.tunnels.length })[j]? = some a) :
          ∃ a', p.shareds[j]? = some a' ∧ a'.used = a.used ∧ a'.config = a.config := by
        rcases set_cases ha with ⟨-, hwas⟩ | ⟨rfl, rfl⟩
        · exact ⟨a, hwas, rfl, rfl⟩
        · exact ⟨s, hs, rfl, rfl⟩
      obtain ⟨a', ha', hause, hacon⟩ := hwas ha
      obtain ⟨b', hb', hbuse, hbcon⟩ := hwas hb
      exact h.keys j k a' b' key ha' (hause.trans haused) hb' (hbuse.trans hbused)
        (hacon ▸ hakey) (hbcon ▸ hbkey)
    · rcases concat_cases ha with hwas | ⟨hu, rfl⟩ <;>
        rcases concat_cases hb with hwas' | ⟨hv, rfl⟩
      · exact h.alone u v a b hwas hwas' hlivea hliveb hsame
      · exact absurd hsame (hfree u a hwas hlivea)
      · exact absurd hsame.symm (hfree v b hwas' hliveb)
      · exact hu.trans hv.symm
  · exact h

/-- A task that has ended uses no key. -/
theorem Exclusive.finish (h : Exclusive p) :
    Exclusive { p with tunnels := p.tunnels.modify t fun t => { t with phase := .ended } } := by
  have hcases {u : ℕ} {a : Tunnel}
      (ha : (p.tunnels.modify t fun t => { t with phase := .ended })[u]? = some a) :
      ∃ b, p.tunnels[u]? = some b ∧ a.key = b.key ∧ (a.live → a = b) := by
    by_cases hu : t = u
    · rw [hu, List.getElem?_modify_eq] at ha
      obtain ⟨b, hb, rfl⟩ := Option.map_eq_some_iff.mp ha
      exact ⟨b, hb, rfl, fun hlive => absurd rfl hlive⟩
    · rw [List.getElem?_modify_ne _ _ hu] at ha
      exact ⟨a, ha, rfl, fun _ => rfl⟩
  refine ⟨fun i u s hs hstack => ?_, fun u a ha hrun => ?_, h.listed, h.keys,
    fun u v a b ha hb hlivea hliveb hsame => ?_⟩
  · obtain ⟨b, hb, hkey⟩ := h.started i u s hs hstack
    obtain ⟨hlt, -⟩ := List.getElem?_eq_some_iff.mp hb
    have ha := List.getElem?_eq_getElem
      ((List.length_modify (fun t : Tunnel => { t with phase := .ended }) p.tunnels t).symm ▸ hlt)
    obtain ⟨b', hb', hsame, -⟩ := hcases ha
    cases hb.symm.trans hb'
    exact ⟨_, ha, hkey.trans (congrArg some hsame.symm)⟩
  · obtain ⟨b, hb, -, hsame⟩ := hcases ha
    have hlive : a.live := by
      rw [Tunnel.live, hrun]
      nofun
    cases hsame hlive
    exact h.owned u a hb hrun
  · obtain ⟨a', ha', -, hasame⟩ := hcases ha
    obtain ⟨b', hb', -, hbsame⟩ := hcases hb
    cases hasame hlivea
    cases hbsame hliveb
    exact h.alone u v a b ha' hb' hlivea hliveb hsame

theorem exclusive_begun (h : begun p) : Exclusive p := by
  cases h
  refine ⟨?_, ?_, ?_, ?_, ?_⟩
  all_goals nofun

/-- Every step keeps a key in one tunnel. -/
theorem exclusive_step : Preserved Process.step oneConfig Exclusive := by
  intro p op p' h hg hs
  cases op with
  | forConfig config =>
    cases hs
    exact h.forConfig hg
  | clone i =>
    simp only [Process.step] at hs
    split at hs
    · rename_i hup
      cases hs
      exact h.frame (map_clone_view hup) rfl fun i hi _ _ _ => hi
    · cases hs
  | drop i =>
    obtain ⟨s, hfound, rfl⟩ := Option.map_eq_some_iff.mp hs
    obtain ⟨hfound, hused⟩ := Option.filter_eq_some_iff.mp hfound
    exact h.drop hfound hused
  | dial i connected =>
    obtain ⟨s, hfound, rfl⟩ := Option.map_eq_some_iff.mp hs
    obtain ⟨hfound, hused⟩ := Option.filter_eq_some_iff.mp hfound
    exact h.dial hfound hused hg
  | finish t =>
    simp only [Process.step] at hs
    split at hs
    · cases hs
      exact h.finish
    · cases hs

end Operations

section Samples

/-- And as it is read. -/
def conf (dns : String) : Config :=
  ⟨"AAAAAAAAAAAAAAAAAAAAAAAAAAAAAAAAAAAAAAAAAAA=".toList, ["10.2.0.2/32".toList], [dns.toList],
    "QkJCQkJCQkJCQkJCQkJCQkJCQkJCQkJCQkJCQkJCQkI=".toList, none,
    "vpn.example.com:51820".toList, ["0.0.0.0/0".toList], some 25⟩

/-- The process after some steps. -/
def after (ops : List Op) : Process := (run Process.step ⟨[], [], []⟩ ops).getD ⟨[], [], []⟩

/-- A launch and a check use one configuration, one after the other, and the tunnel is new. -/
def oneAfterOther : List Op :=
  [.forConfig (conf "1.1.1.1"), .dial 0 true, .forConfig (conf "1.1.1.1"), .dial 0 true,
    .drop 0, .drop 0, .finish 0, .forConfig (conf "10.2.0.1"), .dial 1 true]

/-- A launch uses a configuration, and a check the same one with another resolver. -/
def sideBySide : List Op :=
  [.forConfig (conf "1.1.1.1"), .dial 0 true, .forConfig (conf "10.2.0.1"), .dial 1 true]

end Samples

/-- No key is in two tunnels, if no configuration is asked for while another one with its key is
used, and no tunnel is started while one with its key is about to end. -/
theorem one_tunnel_per_key {p : Process} (h : Reached begun Process.step oneConfig p) {t u : ℕ}
    {a b : Tunnel} (ha : p.tunnels[t]? = some a) (hb : p.tunnels[u]? = some b) (hlive : a.live)
    (hlive' : b.live) (hkey : a.key = b.key) : t = u :=
  (h.invariant Exclusive (fun _ => exclusive_begun) exclusive_step).alone t u a b ha hb hlive hlive'
    hkey

theorem one_tunnel_per_key_oneAfterOther :
    (after oneAfterOther).tunnels = [⟨.replicate 32 0, .ended⟩, ⟨.replicate 32 0, .running⟩] ∧
      ∀ t, (after oneAfterOther).tunnels[t]? = some ⟨.replicate 32 0, .running⟩ → t = 1 :=
  ⟨by decide, fun _ ht => one_tunnel_per_key
    (.run oneAfterOther (.start rfl) (by decide) (by decide)) ht
    (by decide : (after oneAfterOther).tunnels[1]? = some ⟨.replicate 32 0, .running⟩)
    (by nofun) (by nofun) rfl⟩

/-- Two configurations that differ in their resolver have a tunnel each, with one key. -/
theorem two_tunnels_side_by_side : ¬ ∀ p, Reached begun Process.step anyStep p →
    ∀ (t u : ℕ) (a b : Tunnel), p.tunnels[t]? = some a → p.tunnels[u]? = some b →
      a.live → b.live → a.key = b.key → t = u := by
  intro hall
  have hreached : Reached begun Process.step anyStep (after sideBySide) :=
    .run_any sideBySide (.start rfl) (by decide)
  exact absurd (hall _ hreached 0 1 ⟨.replicate 32 0, .running⟩ ⟨.replicate 32 0, .running⟩
    (by decide) (by decide) (by nofun) (by nofun) rfl) (by decide)

end FuryBrowser.SharedTunnels
