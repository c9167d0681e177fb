import FuryBrowser.IndexedTable
import FuryBrowser.MirrorHub
import Mathlib.Data.List.Nodup

/-!
# The order of what is mirrored

A lock that is given in the order of its line, and a queue for every member, keep the order in
which the tasks come to the lock. What comes over one connection is then performed by everyone
else in the order it was reported, and no action twice, as long as the tasks of a connection come
to the lock in the order they were spawned. Nothing makes them.
-/

namespace FuryBrowser.MirrorOrder

open GuardedRuns IndexedTable MirrorHub

section Histories

/-- What came over a connection. -/
def ofConn (c : ℕ) (reports : List Report) : List Report := reports.filter (·.conn = c)

/-- What a window reported over a connection, in this order. -/
def reportedOn (w : World) (c : ℕ) : List Report := ofConn c w.reports

/-- What of it another window was made to do, in this order. -/
def performedAt (w : World) (pid c : ℕ) : List Report :=
  ofConn c ((w.performed.filter (·.profileId = pid)).map (·.report))

/-- What of it waits for the lock, or has not come to it. -/
def underway (w : World) (c : ℕ) : List Report := ofConn c ((w.line ++ w.spawned).map (·.report))

/-- What of it a worker has still to perform. -/
def toPerform (k : Worker) (c : ℕ) : List Report := ofConn c (k.pending.map (·.report))

/-- The tasks of a connection come to the lock in the order they were spawned, except for keys
that are not mirrored, and a profile joins again only when its last worker has nothing left. -/
def inOrder (w : World) : Op → Prop
  | .arrive k => ∀ task ∈ w.spawned[k]?, w.drops task = true ∨
    ∀ earlier ∈ w.spawned.take k, earlier.report.conn ≠ task.report.conn
  | .join pid => ∀ k ∈ w.workers, k.profileId = pid → k.pending = []
  | _ => True

instance : DecidableRel inOrder := fun w op => by
  cases op <;> unfold inOrder <;> infer_instance

end Histories

/-- What holds in every run in which the order is kept on the way to the lock. -/
structure Orderly (w : World) : Prop where
  /-- What a window has performed comes before what is under way. -/
  before : ∀ pid c, (performedAt w pid c ++ underway w c).Sublist (reportedOn w c)
  /-- And what its worker has still to perform is in between. -/
  between : ∀ (i : ℕ) (k : Worker) (c : ℕ), w.workers[i]? = some k →
    (performedAt w k.profileId c ++ (toPerform k c ++ underway w c)).Sublist (reportedOn w c)
  /-- Of a profile's workers only one has something to do. -/
  alone : ∀ (i j : ℕ) (k l : Worker), w.workers[i]? = some k → w.workers[j]? = some l → i ≠ j →
    k.profileId = l.profileId → k.pending = [] ∨ l.pending = []
  /-- A member has a worker, and the profile's others have nothing to do. -/
  fed : ∀ m ∈ w.members, ∃ k, w.workers[m.worker]? = some k ∧ k.profileId = m.profileId ∧
    ∀ (j : ℕ) (l : Worker), w.workers[j]? = some l → l.profileId = m.profileId → j ≠ m.worker →
      l.pending = []
  /-- A profile is there once. -/
  apart : (w.members.map (·.profileId)).Nodup

section Frames

variable {w w' : World} {pid c : ℕ}

@[simp] theorem ofConn_append {a b : List Report} : ofConn c (a ++ b) = ofConn c a ++ ofConn c b :=
  List.filter_append ..

/-- Which profile a member is, and which worker it has. -/
def place (m : Member) : ℕ × ℕ := (m.profileId, m.worker)

/-- Whose worker it is, and what it has to do. -/
def view (k : Worker) : ℕ × List Action := (k.profileId, k.pending)

theorem toPerform_push {k : Worker} {a : Action} :
    toPerform (k.push a) c = toPerform k c ++ ofConn c [a.report] := by
  simp only [toPerform, Worker.pending, Worker.push, List.map_append, ofConn_append, List.map_cons,
    List.map_nil, List.append_assoc]

theorem toPerform_nil {k : Worker} (h : k.pending = []) : toPerform k c = [] := by
  rw [toPerform, h]
  rfl

/-- A worker that looks like another has as much to do. -/
theorem exists_of_view {i : ℕ} {k : Worker} {workers workers' : List Worker}
    (h : workers'.map view = workers.map view) (hk : workers'[i]? = some k) :
    ∃ l, workers[i]? = some l ∧ l.profileId = k.profileId ∧ l.pending = k.pending := by
  obtain ⟨l, hl, heq⟩ := exists_of_map_eq h hk
  exact ⟨l, hl, congrArg Prod.fst heq, congrArg Prod.snd heq⟩

/-- Nothing is lost if members change in other ways or leave, and what is under way gets less. -/
theorem Orderly.frame (h : Orderly w) (hreports : w'.reports = w.reports)
    (hperformed : w'.performed = w.performed) (hworkers : w'.workers.map view = w.workers.map view)
    (hunderway : ∀ c, (underway w' c).Sublist (underway w c))
    (hmembers : (w'.members.map place).Sublist (w.members.map place)) : Orderly w' := by
  have hreported (c : ℕ) : reportedOn w' c = reportedOn w c := by rw [reportedOn, hreports]; rfl
  have hdone (pid c : ℕ) : performedAt w' pid c = performedAt w pid c := by
    rw [performedAt, hperformed]; rfl
  refine ⟨fun pid c => ?_, fun i k c hk => ?_, fun i j k l hk hl hij hsame => ?_,
    fun m hm => ?_, ?_⟩
  · rw [hdone, hreported]
    exact ((List.Sublist.refl _).append (hunderway c)).trans (h.before pid c)
  · obtain ⟨l, hl, hpid, hpending⟩ := exists_of_view hworkers hk
    have hwas := h.between i l c hl
    rw [hdone, hreported, ← hpid, toPerform, ← hpending]
    exact ((List.Sublist.refl _).append ((List.Sublist.refl _).append (hunderway c))).trans hwas
  · obtain ⟨k', hk', hkpid, hkpending⟩ := exists_of_view hworkers hk
    obtain ⟨l', hl', hlpid, hlpending⟩ := exists_of_view hworkers hl
    rw [← hkpending, ← hlpending]
    exact h.alone i j k' l' hk' hl' hij (hkpid.trans (hsame.trans hlpid.symm))
  · obtain ⟨m', hm', hplace⟩ := List.mem_map.mp (hmembers.subset (List.mem_map_of_mem hm))
    obtain ⟨hpid, hworker⟩ := Prod.mk.inj hplace
    obtain ⟨k, hk, hkpid, hothers⟩ := h.fed m' hm'
    obtain ⟨k', hk', hkpid', -⟩ := exists_of_view hworkers.symm hk
    refine ⟨k', hworker ▸ hk', hkpid'.trans (hkpid.trans hpid), fun j l hl hlpid hj => ?_⟩
    obtain ⟨l', hl', hlpid', hlpending⟩ := exists_of_view hworkers hl
    rw [← hlpending]
    exact hothers j l' hl' (hlpid'.trans (hlpid.trans hpid.symm)) (hworker ▸ hj)
  · have hfst (members : List Member) :
        members.map (·.profileId) = (members.map place).map Prod.fst := by
      rw [List.map_map]
      rfl
    have hapart := h.apart
    rw [hfst] at hapart ⊢
    exact hapart.sublist (hmembers.map Prod.fst)

theorem map_place {members : List Member} {f : Member → Member} (h : ∀ m, place (f m) = place m) :
    (members.map f).map place = members.map place := by
  rw [List.map_map]
  exact List.map_congr_left fun m _ => h m

/-- A member that is changed stays in its place. -/
theorem place_updateMember {f : Member → Member} (h : ∀ m, place (f m) = place m) :
    (w.updateMember pid f).members.map place = w.members.map place := by
  refine map_place fun m => ?_
  split
  · exact h m
  · rfl

theorem Orderly.updateMember {f : Member → Member} (h : Orderly w)
    (hf : ∀ m, place (f m) = place m) : Orderly (w.updateMember pid f) :=
  h.frame rfl rfl rfl (fun _ => .refl _) (by rw [place_updateMember hf])

theorem Orderly.leave (h : Orderly w) : Orderly (w.leave pid) :=
  h.frame rfl rfl rfl (fun _ => .refl _) (List.filter_sublist.map place)

end Frames

section Handing

variable {members : List Member} {workers : List Worker} {source i : ℕ} {report : Report}
  {w : World} {c : ℕ}

/-- A worker that no member has is handed nothing. -/
theorem sendAll_other (h : ∀ m ∈ members, m.worker ≠ i) :
    (sendAll source report members workers)[i]? = workers[i]? := by
  induction members generalizing workers with
  | nil => rfl
  | cons m rest ih =>
    have hrest (workers : List Worker) :
        (sendAll source report rest workers)[i]? = workers[i]? :=
      ih fun m' hm' => h m' (List.mem_cons_of_mem _ hm')
    rw [sendAll]
    split
    · split
      · rw [hrest, List.getElem?_modify_ne _ _ (h m List.mem_cons_self)]
      · exact hrest workers
    · exact hrest workers

/-- A worker is handed an action once or not at all. -/
theorem sendAll_getElem? (hapart : (members.map (·.worker)).Nodup) :
    (sendAll source report members workers)[i]? = workers[i]? ∨
      ∃ m ∈ members, m.worker = i ∧ ∃ session, (sendAll source report members workers)[i]? =
        workers[i]?.map (·.push ⟨report, session⟩) := by
  induction members generalizing workers with
  | nil => exact .inl rfl
  | cons m rest ih =>
    obtain ⟨hm, hrest⟩ := List.nodup_cons.mp hapart
    have hlater (workers : List Worker) : (sendAll source report rest workers)[i]? = workers[i]? ∨
        ∃ m' ∈ m :: rest, m'.worker = i ∧ ∃ session,
          (sendAll source report rest workers)[i]? = workers[i]?.map (·.push ⟨report, session⟩) :=
      (ih hrest).imp_right fun ⟨m', hm', h⟩ =>
        ⟨m', List.mem_cons_of_mem _ hm', h⟩
    rw [sendAll]
    split
    · rename_i session _
      split
      · by_cases hi : m.worker = i
        · -- it is the first one's, so the others have another
          have hnone : ∀ m' ∈ rest, m'.worker ≠ i := fun m' hm' heq =>
            hm (List.mem_map.mpr ⟨m', hm', heq.trans hi.symm⟩)
          refine .inr ⟨m, List.mem_cons_self, hi, session, ?_⟩
          rw [sendAll_other hnone, hi, List.getElem?_modify_eq]
          rfl
        · have hmodify :
              (workers.modify m.worker (·.push ⟨report, session⟩))[i]? = workers[i]? := by
            rw [List.getElem?_modify_ne _ _ hi]
          rw [← hmodify]
          exact hlater _
      · exact hlater workers
    · exact hlater workers

/-- As members are apart, so are their workers. -/
theorem Orderly.workers_apart (h : Orderly w) : (w.members.map (·.worker)).Nodup := by
  have howner : ∀ m ∈ w.members, (w.workers[m.worker]?.map (·.profileId)) = some m.profileId := by
    intro m hm
    obtain ⟨k, hk, hpid, -⟩ := h.fed m hm
    rw [hk, Option.map_some, hpid]
  have hmap : (w.members.map (·.worker)).map (fun i => w.workers[i]?.map (·.profileId)) =
      (w.members.map (·.profileId)).map some := by
    rw [List.map_map, List.map_map]
    exact List.map_congr_left howner
  have hnodup : ((w.members.map (·.profileId)).map some).Nodup :=
    h.apart.map fun _ _ heq => Option.some.inj heq
  exact List.Nodup.of_map (fun i => w.workers[i]?.map (·.profileId)) (hmap ▸ hnodup)

theorem Orderly.member_eq (h : Orderly w) {m m' : Member} (hm : m ∈ w.members)
    (hm' : m' ∈ w.members) (hsame : m.profileId = m'.profileId) : m = m' :=
  List.inj_on_of_nodup_map h.apart hm hm' hsame

end Handing

section Operations

variable {w w' : World} {pid c conn i k : ℕ} {event : PageEvent} {task : Task} {rest : List Task}

theorem underway_cons (h : w.line = task :: rest) :
    underway w c = ofConn c [task.report] ++ underway { w with line := rest } c := by
  rw [underway, h, underway, ← ofConn_append]
  rfl

/-- A member that is told of an action stays in its place. -/
theorem place_told (m : Member) (now : ℤ) : place (m.told now pid event) = place m := by
  cases hclick : event.isClick <;> simp only [Member.told, hclick] <;> split
  · rfl
  · split <;> rfl
  · rfl
  · split <;> rfl

/-- What a worker is after it was handed an action, or not. -/
theorem handed_cases {workers workers' : List Worker} {members : List Member} {report : Report}
    {k' : Worker} (hafter : workers'[i]? = workers[i]? ∨ ∃ m ∈ members, m.worker = i ∧ ∃ session,
      workers'[i]? = workers[i]?.map (·.push ⟨report, session⟩)) (hk : workers'[i]? = some k') :
    ∃ k, workers[i]? = some k ∧ k'.profileId = k.profileId ∧
      (k'.pending = k.pending ∧ (∀ c, toPerform k' c = toPerform k c) ∨
        (∃ m ∈ members, m.worker = i) ∧
          ∀ c, toPerform k' c = toPerform k c ++ ofConn c [report]) := by
  rcases hafter with hsame | ⟨m, hm, hi, session, hpushed⟩
  · exact ⟨k', hsame ▸ hk, rfl, .inl ⟨rfl, fun _ => rfl⟩⟩
  · rw [hpushed] at hk
    obtain ⟨k, hwas, rfl⟩ := Option.map_eq_some_iff.mp hk
    exact ⟨k, hwas, rfl, .inr ⟨⟨m, hm, hi⟩, fun c => toPerform_push⟩⟩

/-- What is handed on was under way before, and is with the workers after. -/
theorem Orderly.handed {report : Report} (h : Orderly w) (hreports : w'.reports = w.reports)
    (hperformed : w'.performed = w.performed)
    (hunderway : ∀ c, underway w c = ofConn c [report] ++ underway w' c)
    (hmembers : w'.members.map place = w.members.map place)
    (hafter : ∀ i, w'.workers[i]? = w.workers[i]? ∨ ∃ m ∈ w.members, m.worker = i ∧ ∃ session,
      w'.workers[i]? = w.workers[i]?.map (·.push ⟨report, session⟩)) : Orderly w' := by
  have hreported (c : ℕ) : reportedOn w' c = reportedOn w c := by rw [reportedOn, hreports]; rfl
  have hdone (pid c : ℕ) : performedAt w' pid c = performedAt w pid c := by
    rw [performedAt, hperformed]; rfl
  have hless (c : ℕ) : (underway w' c).Sublist (underway w c) := by
    rw [hunderway]
    exact List.sublist_append_right _ _
  -- whoever was handed something is the worker of a member
  have hidle : ∀ (i j : ℕ) (k l' : Worker), (∃ m ∈ w.members, m.worker = i) →
      w.workers[i]? = some k → w'.workers[j]? = some l' → i ≠ j → k.profileId = l'.profileId →
      l'.pending = [] := by
    rintro i j k l' ⟨m, hm, rfl⟩ hk hl' hij hsame
    obtain ⟨k₀, hk₀, hkpid, hothers⟩ := h.fed m hm
    cases hk.symm.trans hk₀
    obtain ⟨l, hl, hlpid, ⟨hpending, -⟩ | ⟨⟨m', hm', rfl⟩, -⟩⟩ := handed_cases (hafter j) hl'
    · rw [hpending]
      exact hothers j l hl (hlpid.symm.trans (hsame.symm.trans hkpid)) (Ne.symm hij)
    · obtain ⟨l₀, hl₀, hlpid', -⟩ := h.fed m' hm'
      cases hl.symm.trans hl₀
      have heq : m = m' := h.member_eq hm hm'
        (hkpid.symm.trans (hsame.trans (hlpid.trans hlpid')))
      exact absurd (congrArg Member.worker heq) hij
  refine ⟨fun pid c => ?_, fun i k' c hk' => ?_, fun i j k' l' hk' hl' hij hsame => ?_,
    fun m' hm' => ?_, ?_⟩
  · rw [hdone, hreported]
    exact ((List.Sublist.refl _).append (hless c)).trans (h.before pid c)
  · obtain ⟨k, hk, hpid, ⟨-, hsame⟩ | ⟨-, hpushed⟩⟩ := handed_cases (hafter i) hk'
    · rw [hdone, hreported, hpid, hsame]
      exact ((List.Sublist.refl _).append ((List.Sublist.refl _).append (hless c))).trans
        (h.between i k c hk)
    · rw [hdone, hreported, hpid, hpushed, List.append_assoc, ← hunderway]
      exact h.between i k c hk
  · obtain ⟨k, hk, hkpid, ⟨hkpending, -⟩ | ⟨hm, -⟩⟩ := handed_cases (hafter i) hk'
    · obtain ⟨l, hl, hlpid, ⟨hlpending, -⟩ | ⟨hm, -⟩⟩ := handed_cases (hafter j) hl'
      · rw [hkpending, hlpending]
        exact h.alone i j k l hk hl hij (hkpid.symm.trans (hsame.trans hlpid))
      · exact .inl (hidle j i l k' hm hl hk' (Ne.symm hij) (hlpid.symm.trans hsame.symm))
    · exact .inr (hidle i j k l' hm hk hl' hij (hkpid.symm.trans hsame))
  · have hin : place m' ∈ w.members.map place := hmembers ▸ List.mem_map_of_mem hm'
    obtain ⟨m, hm, hplace⟩ := List.mem_map.mp hin
    obtain ⟨hpid, hworker⟩ := Prod.mk.inj hplace
    obtain ⟨k, hk, hkpid, -⟩ := h.fed m hm
    have hthere : ∃ k', w'.workers[m.worker]? = some k' ∧ k'.profileId = k.profileId := by
      rcases hafter m.worker with hsame | ⟨-, -, -, session, hpushed⟩
      · exact ⟨k, hsame.trans hk, rfl⟩
      · exact ⟨k.push ⟨report, session⟩, by rw [hpushed, hk]; rfl, rfl⟩
    obtain ⟨k', hk', hkpid'⟩ := hthere
    refine ⟨k', hworker ▸ hk', hkpid'.trans (hkpid.trans hpid), fun j l' hl' hlpid hj => ?_⟩
    exact hidle m.worker j k l' ⟨m, hm, rfl⟩ hk hl' (fun heq => hj (heq.symm.trans hworker))
      (hkpid.trans (hpid.trans hlpid.symm))
  · have hfst (members : List Member) :
        members.map (·.profileId) = (members.map place).map Prod.fst := by
      rw [List.map_map]
      rfl
    rw [hfst, hmembers, ← hfst]
    exact h.apart

/-- Whoever has the lock hands on what it brought, or nothing. -/
theorem Orderly.fanOut (h : Orderly w) (hline : w.line = task :: rest) :
    Orderly ({ w with line := rest }.fanOut task) := by
  have hless (c : ℕ) : (underway { w with line := rest } c).Sublist (underway w c) := by
    rw [underway_cons hline]
    exact List.sublist_append_right _ _
  have hdropped : Orderly { w with line := rest } := h.frame rfl rfl rfl hless (.refl _)
  unfold World.fanOut
  split
  · exact hdropped
  · split
    · exact hdropped
    · exact h.handed rfl rfl (fun c => underway_cons hline) (map_place fun m => place_told m w.now)
        fun i => sendAll_getElem? h.workers_apart

theorem Orderly.report (h : Orderly w) : Orderly (w.report conn pid event) := by
  have hreported (c : ℕ) : ∃ new, reportedOn (w.report conn pid event) c = reportedOn w c ++ new ∧
      underway (w.report conn pid event) c = underway w c ++ new := by
    refine ⟨ofConn c [⟨conn, (w.reports.filter (·.conn = conn)).length, event⟩], ?_, ?_⟩
    · rw [reportedOn, reportedOn, ← ofConn_append]
      rfl
    · rw [underway, underway, ← ofConn_append, World.report, ← List.append_assoc, List.map_append]
      rfl
  refine ⟨fun pid c => ?_, fun i k c hk => ?_, h.alone, h.fed, h.apart⟩
  · obtain ⟨new, hnew, hunder⟩ := hreported c
    rw [hnew, hunder, ← List.append_assoc]
    exact (h.before pid c).append (.refl new)
  · obtain ⟨new, hnew, hunder⟩ := hreported c
    rw [hnew, hunder, ← List.append_assoc, ← List.append_assoc, List.append_assoc (performedAt ..)]
    exact (h.between i k c hk).append (.refl new)

/-- A list without one of its elements, where those before it are of other connections. -/
theorem ofConn_eraseIdx {tasks : List Task} (hk : tasks[k]? = some task)
    (hfirst : ∀ earlier ∈ tasks.take k, earlier.report.conn ≠ task.report.conn) :
    ofConn c (tasks.map (·.report)) =
      ofConn c [task.report] ++ ofConn c ((tasks.eraseIdx k).map (·.report)) := by
  obtain ⟨hlt, hget⟩ := List.getElem?_eq_some_iff.mp hk
  have hsplit : tasks = tasks.take k ++ task :: tasks.drop (k + 1) := by
    rw [← hget, ← List.drop_eq_getElem_cons hlt, List.take_append_drop]
  have hbefore : c = task.report.conn → ofConn c ((tasks.take k).map (·.report)) = [] := by
    rintro rfl
    refine List.filter_eq_nil_iff.mpr fun r hr => ?_
    obtain ⟨earlier, hin, rfl⟩ := List.mem_map.mp hr
    simpa using hfirst earlier hin
  rw [List.eraseIdx_eq_take_drop_succ]
  conv_lhs => rw [hsplit]
  rw [List.map_append, List.map_append, List.map_cons, ofConn_append, ofConn_append,
    ← List.singleton_append, ofConn_append]
  by_cases hc : c = task.report.conn
  · rw [hbefore hc]
    rfl
  · have hother : ofConn c [task.report] = [] := by
      refine List.filter_eq_nil_iff.mpr fun r hr => ?_
      rw [List.mem_singleton.mp hr]
      simpa using Ne.symm hc
    rw [hother]
    rfl

/-- A task that comes to the lock is behind those of its connection that came before it. -/
theorem Orderly.arrive (h : Orderly w) (hk : w.spawned[k]? = some task)
    (hg : inOrder w (.arrive k)) : Orderly (if w.drops task then
      { w with spawned := w.spawned.eraseIdx k }
      else { w with spawned := w.spawned.eraseIdx k, line := w.line ++ [task] }) := by
  by_cases hdrop : w.drops task = true
  · rw [if_pos hdrop]
    refine h.frame rfl rfl rfl (fun c => ?_) (.refl _)
    exact ((List.Sublist.refl _).append (List.eraseIdx_sublist ..)).map _ |>.filter _
  · rw [if_neg hdrop]
    have hfirst := (hg task hk).resolve_left hdrop
    refine h.frame rfl rfl rfl (fun c => ?_) (.refl _)
    have hsame : underway { w with spawned := w.spawned.eraseIdx k, line := w.line ++ [task] } c =
        underway w c := by
      rw [underway, underway, List.map_append, List.map_append, List.map_append, ofConn_append,
        ofConn_append, ofConn_append, ofConn_eraseIdx hk hfirst, List.append_assoc]
      rfl
    rw [hsame]

/-- A worker that takes an action has as much to do as before. -/
theorem Orderly.recv {k k' : Worker} (h : Orderly w) (hk : w.workers[i]? = some k)
    (hrecv : k.recv = some k') : Orderly { w with workers := w.workers.set i k' } := by
  have hview : view k' = view k := by
    unfold Worker.recv at hrecv
    split at hrecv
    · rename_i a rest hhand hqueue
      cases hrecv
      simp [view, Worker.pending, hhand, hqueue]
    · cases hrecv
  exact h.frame rfl rfl (map_set_same hk hview) (fun _ => .refl _) (.refl _)

/-- A profile that joins has a worker that has nothing to do. -/
theorem Orderly.join (h : Orderly w) (hg : inOrder w (.join pid)) : Orderly (w.join pid) := by
  have hworkers {j : ℕ} {l : Worker} (hl : (w.join pid).workers[j]? = some l) :
      w.workers[j]? = some l ∨ j = w.workers.length ∧ l = ⟨pid, none, []⟩ := concat_cases hl
  have hidle {j : ℕ} {l : Worker} (hl : (w.join pid).workers[j]? = some l)
      (hpid : l.profileId = pid) : l.pending = [] := by
    rcases hworkers hl with hwas | ⟨-, rfl⟩
    · exact hg l (List.mem_of_getElem? hwas) hpid
    · rfl
  refine ⟨h.before, fun i k c hk => ?_, fun i j k l hk hl hij hsame => ?_, fun m hm => ?_, ?_⟩
  · rcases hworkers hk with hwas | ⟨-, rfl⟩
    · exact h.between i k c hwas
    · exact h.before pid c
  · rcases hworkers hk with hk | ⟨-, rfl⟩
    · rcases hworkers hl with hl | ⟨-, rfl⟩
      · exact h.alone i j k l hk hl hij hsame
      · exact .inr rfl
    · exact .inl rfl
  · rcases List.mem_append.mp hm with hm | hm
    · obtain ⟨hm, hpid⟩ := List.mem_filter.mp hm
      obtain ⟨k, hk, hkpid, hothers⟩ := h.fed m hm
      refine ⟨k, concat_kept hk, hkpid, fun j l hl hlpid hj => ?_⟩
      rcases hworkers hl with hwas | ⟨-, rfl⟩
      · exact hothers j l hwas hlpid hj
      · rfl
    · rw [List.mem_singleton.mp hm]
      refine ⟨⟨pid, none, []⟩, List.getElem?_concat_length, rfl, fun j l hl hlpid _ => ?_⟩
      exact hidle hl hlpid
  · rw [World.join, List.map_append]
    refine List.Nodup.append (h.apart.sublist (List.filter_sublist.map _)) (by simp) ?_
    intro p hp hpid
    obtain ⟨m, hm, rfl⟩ := List.mem_map.mp hp
    exact absurd (List.mem_singleton.mp hpid) (by simpa using (List.mem_filter.mp hm).2)

/-- What a worker performs, or fails to, is the first thing it had to do. -/
theorem Orderly.worked {k : Worker} {a : Action} {new : List Performed} (h : Orderly w)
    (hk : w.workers[i]? = some k) (hhand : k.hand = some a)
    (hnew : new.Sublist [⟨k.profileId, a.report⟩]) :
    Orderly { w with
      workers := w.workers.set i { k with hand := none }, performed := w.performed ++ new } := by
  have hfirst (c : ℕ) : toPerform k c =
      ofConn c [a.report] ++ toPerform { k with hand := none } c := by
    rw [toPerform, toPerform, ← ofConn_append, Worker.pending, hhand]
    rfl
  have hbusy : k.pending ≠ [] := by
    rw [Worker.pending, hhand]
    exact List.cons_ne_nil _ _
  generalize hw : { w with
    workers := w.workers.set i { k with hand := none }, performed := w.performed ++ new } = w'
  have hreported (c : ℕ) : reportedOn w' c = reportedOn w c := by rw [← hw]; rfl
  have hunderway (c : ℕ) : underway w' c = underway w c := by rw [← hw]; rfl
  have hmembers : w'.members = w.members := by rw [← hw]
  have hdone (c : ℕ) :
      (performedAt w' k.profileId c).Sublist
        (performedAt w k.profileId c ++ ofConn c [a.report]) := by
    rw [← hw, performedAt, List.filter_append, List.map_append, ofConn_append]
    refine (List.Sublist.refl _).append ?_
    have hone : (new.filter (·.profileId = k.profileId)).Sublist [⟨k.profileId, a.report⟩] :=
      List.filter_sublist.trans hnew
    exact (hone.map Performed.report).filter _
  have hother {pid : ℕ} (c : ℕ) (hpid : pid ≠ k.profileId) :
      performedAt w' pid c = performedAt w pid c := by
    have hnone : new.filter (·.profileId = pid) = [] := by
      refine List.filter_eq_nil_iff.mpr fun p hp => ?_
      rw [List.mem_singleton.mp (hnew.subset hp)]
      simpa using Ne.symm hpid
    rw [← hw, performedAt, List.filter_append, hnone, List.append_nil]
    rfl
  have hworkers {j : ℕ} {l : Worker} (hl : w'.workers[j]? = some l) :
      j ≠ i ∧ w.workers[j]? = some l ∨ j = i ∧ l = { k with hand := none } := by
    rw [← hw] at hl
    exact set_cases hl
  have hbefore (c : ℕ) : (performedAt w' k.profileId c ++ underway w' c).Sublist
      (reportedOn w' c) := by
    have hwas := h.between i k c hk
    rw [hreported, hunderway]
    rw [hfirst, List.append_assoc, ← List.append_assoc] at hwas
    refine ((hdone c).append ?_).trans hwas
    exact List.sublist_append_right _ _
  refine ⟨fun pid c => ?_, fun j l c hl => ?_, fun j j' l l' hl hl' hne hsame => ?_,
    fun m hm => ?_, ?_⟩
  · by_cases hpid : pid = k.profileId
    · rw [hpid]
      exact hbefore c
    · rw [hother c hpid, hreported, hunderway]
      exact h.before pid c
  · rcases hworkers hl with ⟨hne, hwas⟩ | ⟨-, rfl⟩
    · by_cases hpid : l.profileId = k.profileId
      · have hidle := (h.alone j i l k hwas hk hne hpid).resolve_right hbusy
        rw [toPerform_nil hidle, hpid]
        exact hbefore c
      · rw [hother c hpid, hreported, hunderway]
        exact h.between j l c hwas
    · have hwas := h.between i k c hk
      rw [hreported, hunderway]
      rw [hfirst, List.append_assoc, ← List.append_assoc] at hwas
      exact ((hdone c).append (.refl _)).trans hwas
  · rcases hworkers hl with ⟨hj, hwas⟩ | ⟨hj, rfl⟩
    · rcases hworkers hl' with ⟨hj', hwas'⟩ | ⟨hj', rfl⟩
      · exact h.alone j j' l l' hwas hwas' hne hsame
      · exact .inl ((h.alone j i l k hwas hk hj hsame).resolve_right hbusy)
    · rcases hworkers hl' with ⟨hj', hwas'⟩ | ⟨hj', rfl⟩
      · exact .inr ((h.alone i j' k l' hk hwas' (Ne.symm hj') hsame).resolve_left hbusy)
      · exact absurd (hj.trans hj'.symm) hne
  · rw [hmembers] at hm
    obtain ⟨l, hl, hlpid, hothers⟩ := h.fed m hm
    have hthere : ∃ l', w'.workers[m.worker]? = some l' ∧ l'.profileId = m.profileId := by
      rw [← hw]
      by_cases heq : i = m.worker
      · rw [← heq] at hl ⊢
        cases hk.symm.trans hl
        exact ⟨_, set_self hk, hlpid⟩
      · exact ⟨l, by rw [List.getElem?_set_ne heq, hl], hlpid⟩
    obtain ⟨l', hl', hlpid'⟩ := hthere
    refine ⟨l', hl', hlpid', fun j l₁ hl₁ hpid hj => ?_⟩
    rcases hworkers hl₁ with ⟨-, hwas⟩ | ⟨rfl, rfl⟩
    · exact hothers j l₁ hwas hpid hj
    · exact absurd (hothers j k hk hpid hj) hbusy
  · rw [hmembers]
    exact h.apart

theorem Orderly.act {k : Worker} {a : Action} {done : Bool} (h : Orderly w)
    (hk : w.workers[i]? = some k) (hhand : k.hand = some a) : Orderly (w.act i k a done) := by
  have hfailed : Orderly { w with workers := w.workers.set i { k with hand := none } } := by
    have hnone := h.worked hk hhand (List.nil_sublist _)
    rwa [List.append_nil] at hnone
  unfold World.act
  dsimp only
  split
  · split
    · exact (h.worked hk hhand (.refl _)).updateMember fun _ => rfl
    · exact hfailed.updateMember fun _ => rfl
  · exact hfailed

/-- A window that goes somewhere moves nobody from their place. -/
theorem Orderly.navigated {url : TextBytes.Text} (h : Orderly w) :
    Orderly (w.navigated pid url) := by
  unfold World.navigated
  split
  · exact h
  · have hchanged : Orderly (w.updateMember pid fun m => { m with url := url }) :=
      h.updateMember fun _ => rfl
    dsimp only
    split
    · refine hchanged.frame rfl rfl rfl (fun _ => .refl _) ?_
      rw [map_place]
      intro m
      split <;> rfl
    · exact hchanged

end Operations

section Runs

variable {w w' : World} {op : Op}

theorem orderly_begun (h : begun w) : Orderly w := by
  obtain ⟨now, rfl⟩ := h
  refine ⟨fun _ _ => .refl _, ?_, ?_, ?_, List.nodup_nil⟩
  all_goals nofun

/-- Every step that keeps the order on the way to the lock keeps it afterwards. -/
theorem orderly_step : Preserved World.step inOrder Orderly := by
  intro w op w' h hg hs
  cases op with
  | tick ms =>
    cases hs
    exact h.frame rfl rfl rfl (fun _ => .refl _) (.refl _)
  | setTyping on =>
    cases hs
    exact h.frame rfl rfl rfl (fun _ => .refl _) (.refl _)
  | join pid =>
    cases hs
    exact h.join hg
  | leave pid =>
    cases hs
    exact h.leave
  | stop =>
    cases hs
    exact h.frame rfl rfl rfl (fun _ => .refl _) (List.nil_sublist _)
  | hangUp conn =>
    obtain ⟨c, -, rfl⟩ := Option.map_eq_some_iff.mp hs
    exact h.leave.frame rfl rfl rfl (fun _ => .refl _) (.refl _)
  | attach pid session =>
    cases hs
    exact h.updateMember fun m => by split <;> rfl
  | detach pid session =>
    cases hs
    exact h.updateMember fun _ => rfl
  | report conn event =>
    obtain ⟨c, -, hlive⟩ := Option.bind_eq_some_iff.mp hs
    split at hlive
    · cases hlive
      exact h.report
    · cases hlive
  | arrive k =>
    obtain ⟨task, hk, rfl⟩ := Option.map_eq_some_iff.mp hs
    exact h.arrive hk hg
  | grant =>
    simp only [World.step] at hs
    split at hs
    · cases hs
    · rename_i task rest hline
      cases hs
      exact h.fanOut hline
  | navigated pid url =>
    simp only [World.step] at hs
    split at hs
    · cases hs
    · cases hs
      exact h.navigated
  | follow k =>
    simp only [World.step] at hs
    split at hs
    · cases hs
      exact h.frame rfl rfl rfl (fun _ => .refl _) (.refl _)
    · cases hs
  | recv i =>
    obtain ⟨k, hk, hrecv⟩ := Option.bind_eq_some_iff.mp hs
    obtain ⟨k', hk', rfl⟩ := Option.map_eq_some_iff.mp hrecv
    exact h.recv hk hk'
  | act i done =>
    obtain ⟨k, hk, hact⟩ := Option.bind_eq_some_iff.mp hs
    obtain ⟨a, hhand, rfl⟩ := Option.map_eq_some_iff.mp hact
    exact h.act hk hhand

end Runs

/-- What comes over a connection is performed by everyone in the order it was reported, and
nothing of it twice, if its tasks come to the lock in the order they were spawned and no profile
joins again before its last worker is done. -/
theorem actions_in_order {w : World} (h : Reached begun World.step inOrder w) (pid conn : ℕ) :
    (performedAt w pid conn).Sublist (reportedOn w conn) :=
  (List.sublist_append_left _ _).trans
    ((h.invariant Orderly (fun _ => orderly_begun) orderly_step).before pid conn)

section Samples

/-- A letter that is typed. -/
def typed (c : Char) : PageEvent := .key [c] ("Key".toList ++ [c.toUpper]) 0 [c]

/-- Two windows with a page each, in the first of which "he" is typed. -/
def twoKeys : List Op :=
  [.join 1, .join 2, .attach 1 10, .attach 2 20, .report 0 (typed 'h'), .report 0 (typed 'e')]

/-- The second one's worker takes an action and performs it, twice. -/
def twoActions : List Op := [.grant, .grant, .recv 1, .act 1 true, .recv 1, .act 1 true]

/-- The tasks come to the lock as they were spawned. -/
def inTurn : List Op := twoKeys ++ [.arrive 0, .arrive 0] ++ twoActions

/-- The second task comes to the lock first. -/
def overtaken : List Op := twoKeys ++ [.arrive 1, .arrive 0] ++ twoActions

/-- The world after them. -/
def played (ops : List Op) : World := (run World.step (newHub 0) ops).getD (newHub 0)

end Samples

/-- Both keys are pressed in the second window, as they were in the first. -/
theorem actions_in_order_twoKeys :
    (performedAt (played inTurn) 2 0).map (·.number) = [0, 1] ∧
      (performedAt (played inTurn) 2 0).Sublist (reportedOn (played inTurn) 0) :=
  ⟨by decide, actions_in_order
    (.run inTurn (.start ⟨0, rfl⟩) (by decide) (by decide)) 2 0⟩

/-- Without it "eh" is typed in the second window. -/
theorem actions_overtaken : ¬ ∀ w, Reached begun World.step anyStep w →
    ∀ pid conn, (performedAt w pid conn).Sublist (reportedOn w conn) := by
  intro hall
  have hreached : Reached begun World.step anyStep (played overtaken) :=
    .run_any overtaken (.start ⟨0, rfl⟩) (by decide)
  exact absurd (hall _ hreached 2 0) (by decide)

end FuryBrowser.MirrorOrder
