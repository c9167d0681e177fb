import FuryBrowser.GuardedRuns
import FuryBrowser.IndexedTable

/-!
# Who is in the group

A profile that joins becomes a member with a connection of its own, and a pump that reads from it
for as long as it is open and somebody can send over it. When it ends it removes the profile from
the group, whichever connection the profile has by then. So membership is what was last asked for
as long as no profile joins again before the pump of its earlier connection has ended.
-/

namespace FuryBrowser.MirrorMembers

open GuardedRuns IndexedTable

section State

/-- How far a pump is. -/
inductive Pump
  | running
  /-- It has left its loop, and waits for the lock on the members. -/
  | broken
  /-- It has removed its profile. -/
  | ended
  deriving DecidableEq, Repr

/-- The connection that a join opened. A connection that is lost before its profile is a member is
found lost by the pump, so it counts as lost just after. -/
structure Conn where
  profileId : ℕ
  /-- The browser has not disconnected. -/
  connected : Bool
  pump : Pump
  /-- The senders beside the member's: the one of a join that is not through, and of commands. -/
  senders : ℕ
  deriving DecidableEq, Repr

/-- What happened to the group. Connections are numbered in the order they were opened. -/
inductive Event
  /-- A profile joined, with this connection. -/
  | joined (pid conn : ℕ)
  | left (pid : ℕ)
  | stopped
  /-- A browser disconnected. -/
  | disconnected (conn : ℕ)
  /-- A pump ended, and removed the member with that connection, if there was one. -/
  | ended (conn : ℕ) (removed : Option ℕ)
  deriving DecidableEq, Repr

/-- The hub. -/
structure World where
  /-- `members`: the profiles, each with its connection. -/
  members : List (ℕ × ℕ)
  conns : List Conn
  log : List Event
  deriving DecidableEq, Repr

/-- What happens next. -/
inductive Label
  /-- `join`, once it has a connection and the lock. -/
  | join (pid : ℕ)
  | leave (pid : ℕ)
  | stop
  /-- A command takes its member's sender. -/
  | sends (pid : ℕ)
  /-- A command or a join is through. -/
  | sent (conn : ℕ)
  /-- The browser disconnects. -/
  | disconnect (conn : ℕ)
  /-- The pump leaves its loop. -/
  | breaks (conn : ℕ)
  /-- It has the lock, and removes its profile. -/
  | ends (conn : ℕ)
  deriving DecidableEq, Repr

end State

section Steps

variable (w : World)

/-- The members without a profile. -/
def World.without (pid : ℕ) : List (ℕ × ℕ) := w.members.filter (·.1 ≠ pid)

/-- The connection of a member. -/
def World.connOf (pid : ℕ) : Option ℕ := (w.members.find? (·.1 = pid)).map Prod.snd

/-- Whether anybody can send over a connection. -/
def World.sendable (k : ℕ) (c : Conn) : Bool :=
  0 < c.senders || decide ((c.profileId, k) ∈ w.members)

/-- `join`: the member, and the pump that is spawned for it. -/
def World.join (pid : ℕ) : World :=
  { members := w.without pid ++ [(pid, w.conns.length)],
    conns := w.conns ++ [⟨pid, true, .running, 1⟩],
    log := w.log ++ [.joined pid w.conns.length] }

/-- One step. -/
def World.step : Label → Option World
  | .join pid => some (w.join pid)
  | .leave pid => some { w with members := w.without pid, log := w.log ++ [.left pid] }
  | .stop => some { w with members := [], log := w.log ++ [.stopped] }
  | .sends pid => (w.connOf pid).bind fun k => w.conns[k]?.map fun c =>
    { w with conns := w.conns.set k { c with senders := c.senders + 1 } }
  | .sent k => w.conns[k]?.bind fun c =>
    if 0 < c.senders then
      some { w with conns := w.conns.set k { c with senders := c.senders - 1 } }
    else none
  | .disconnect k => w.conns[k]?.bind fun c =>
    if c.connected then
      some { w with conns := w.conns.set k { c with connected := false },
                    log := w.log ++ [.disconnected k] }
    else none
  | .breaks k => w.conns[k]?.bind fun c =>
    if c.pump = .running ∧ (c.connected = false ∨ w.sendable k c = false) then
      some { w with conns := w.conns.set k { c with pump := .broken } }
    else none
  | .ends k => w.conns[k]?.bind fun c =>
    if c.pump = .broken then
      some { members := w.without c.profileId,
             conns := w.conns.set k { c with pump := .ended },
             log := w.log ++ [.ended k (w.connOf c.profileId)] }
    else none

/-- `Hub::new`. -/
def newHub : World := ⟨[], [], []⟩

/-- Where runs start. -/
def Start (w : World) : Prop := w = newHub

end Steps

section Property

/-- What undoes that a profile joined with a connection: a later join, leaving, stopping, and the
loss of that connection. -/
def undoes (pid k : ℕ) : Event → Bool
  | .joined other _ | .left other => other = pid
  | .stopped => true
  | .disconnected conn => conn = k
  | .ended .. => false

/-- A profile's last join opened this connection, and came after the profile last left, the last
stop and the loss of the connection. -/
def Standing (log : List Event) (pid k : ℕ) : Prop :=
  ∃ before after, log = before ++ .joined pid k :: after ∧ ∀ e ∈ after, undoes pid k e = false

/-- No pump has anything left to do. -/
def Quiet (w : World) : Prop := ∀ k, w.step (.breaks k) = none ∧ w.step (.ends k) = none

/-- Membership is what was last asked. -/
structure Safe (w : World) : Prop where
  /-- Once all pumps are through, a profile is a member just when it was last asked to be. -/
  members : Quiet w → ∀ pid, (∃ k, (pid, k) ∈ w.members) ↔ ∃ k, Standing w.log pid k
  /-- No pump has removed what a later join inserted. -/
  own : ∀ k removed, .ended k (some removed) ∈ w.log → removed = k

/-- A profile joins again only when the pumps of its earlier connections have ended. -/
def Guard (w : World) : Label → Prop
  | .join pid => ∀ c ∈ w.conns, c.profileId = pid → c.pump = .ended
  | _ => True

instance (w : World) (label : Label) : Decidable (Guard w label) :=
  match label with
  | .join pid =>
    inferInstanceAs (Decidable (∀ c ∈ w.conns, c.profileId = pid → c.pump = .ended))
  | .leave _ | .stop | .sends _ | .sent _ | .disconnect _ | .breaks _ | .ends _ => .isTrue trivial

end Property

section Joins

variable {pid k : ℕ} {e : Event} {log : List Event}

/-- What one more event does to the last join. -/
theorem standing_concat :
    Standing (log ++ [e]) pid k ↔
      e = .joined pid k ∨ Standing log pid k ∧ undoes pid k e = false := by
  constructor
  · rintro ⟨before, after, hlog, hafter⟩
    rcases List.eq_nil_or_concat after with rfl | ⟨rest, last, rfl⟩
    · obtain ⟨-, he⟩ := List.append_inj' hlog rfl
      exact .inl (List.singleton_inj.mp he)
    · rw [List.concat_eq_append] at hlog hafter
      have hshape : log ++ [e] = (before ++ .joined pid k :: rest) ++ [last] := by
        rw [hlog, List.append_assoc, List.cons_append]
      obtain ⟨rfl, he⟩ := List.append_inj' hshape rfl
      obtain rfl := List.singleton_inj.mp he
      refine .inr ⟨⟨before, rest, rfl, fun f hf => ?_⟩, hafter e (by simp)⟩
      exact hafter f (List.mem_append_left _ hf)
  · rintro (rfl | ⟨⟨before, after, rfl, hafter⟩, he⟩)
    · exact ⟨log, [], rfl, by simp⟩
    · refine ⟨before, after ++ [e], by simp, fun f hf => ?_⟩
      rcases List.mem_append.mp hf with hf | hf
      · exact hafter f hf
      · rwa [List.mem_singleton.mp hf]

end Joins

section Invariant

variable {w t : World} {pid k : ℕ} {c : Conn}

/-- What holds between the steps of any such run. -/
structure Inv (w : World) : Prop where
  /-- A member's connection is its own, and its pump has not ended. -/
  member : ∀ pid k, (pid, k) ∈ w.members →
    ∃ c : Conn, w.conns[k]? = some c ∧ c.profileId = pid ∧ c.pump ≠ .ended
  /-- Of a profile's connections one at most has a pump that has not ended. -/
  single : ∀ (i j : ℕ) (c d : Conn), w.conns[i]? = some c → w.conns[j]? = some d →
    c.profileId = d.profileId → c.pump ≠ .ended → d.pump ≠ .ended → i = j
  /-- A pump leaves its loop when the connection is lost or no member's. -/
  lost : ∀ (k : ℕ) (c : Conn), w.conns[k]? = some c → c.pump = .broken →
    c.connected = false ∨ (c.profileId, k) ∉ w.members
  /-- A member is one that was last asked to be, as long as its connection is there. -/
  standing : ∀ pid k, Standing w.log pid k ↔
    (pid, k) ∈ w.members ∧ ∃ c : Conn, w.conns[k]? = some c ∧ c.connected
  /-- A pump removes its own connection's member. -/
  own : ∀ k removed, .ended k (some removed) ∈ w.log → removed = k

theorem mem_without {p : ℕ} : (p, k) ∈ w.without pid ↔ (p, k) ∈ w.members ∧ p ≠ pid := by
  simp [World.without]

theorem connOf_some (h : w.connOf pid = some k) : (pid, k) ∈ w.members := by
  obtain ⟨⟨p, conn⟩, hfind, rfl⟩ := Option.map_eq_some_iff.mp h
  have hp : p = pid := of_decide_eq_true (List.find?_some hfind :)
  exact hp ▸ List.mem_of_find?_eq_some hfind

/-- What is looked at in a connection: everything but who can send over it. -/
def look (c : Conn) : ℕ × Bool × Pump := (c.profileId, c.connected, c.pump)

/-- A command that takes a sender, or gives it back, changes nothing that matters. -/
theorem Inv.same (hw : Inv w) (hmembers : t.members = w.members) (hlog : t.log = w.log)
    (hconns : t.conns.map look = w.conns.map look) : Inv t := by
  have hback {i : ℕ} {c : Conn} (h : t.conns[i]? = some c) :
      ∃ d : Conn, w.conns[i]? = some d ∧ look d = look c := exists_of_map_eq hconns h
  have hforth {i : ℕ} {c : Conn} (h : w.conns[i]? = some c) :
      ∃ d : Conn, t.conns[i]? = some d ∧ look d = look c := exists_of_map_eq hconns.symm h
  have hlook {c d : Conn} (h : look d = look c) :
      d.profileId = c.profileId ∧ d.connected = c.connected ∧ d.pump = c.pump := by
    simpa [look] using h
  refine ⟨fun pid k hm => ?_, fun i j c d hc hd hp hce hde => ?_, fun k c hc hb => ?_,
    fun pid k => ?_, hlog ▸ hw.own⟩
  · obtain ⟨c, hc, hp, hpump⟩ := hw.member pid k (hmembers ▸ hm)
    obtain ⟨d, hd, hsame⟩ := hforth hc
    obtain ⟨hp', -, hpump'⟩ := hlook hsame
    exact ⟨d, hd, hp'.trans hp, hpump' ▸ hpump⟩
  · obtain ⟨c', hc', hcsame⟩ := hback hc
    obtain ⟨d', hd', hdsame⟩ := hback hd
    obtain ⟨hcp, -, hcpump⟩ := hlook hcsame
    obtain ⟨hdp, -, hdpump⟩ := hlook hdsame
    exact hw.single i j c' d' hc' hd' (by rw [hcp, hp, hdp]) (hcpump ▸ hce) (hdpump ▸ hde)
  · obtain ⟨c', hc', hsame⟩ := hback hc
    obtain ⟨hp, hconnected, hpump⟩ := hlook hsame
    rw [hmembers, ← hp, ← hconnected]
    exact hw.lost k c' hc' (hpump.trans hb)
  · rw [hlog, hmembers, hw.standing]
    refine and_congr_right fun _ => ⟨?_, ?_⟩
    · rintro ⟨c, hc, hconnected⟩
      obtain ⟨d, hd, hsame⟩ := hforth hc
      exact ⟨d, hd, (hlook hsame).2.1.trans hconnected⟩
    · rintro ⟨c, hc, hconnected⟩
      obtain ⟨d, hd, hsame⟩ := hback hc
      exact ⟨d, hd, (hlook hsame).2.1.trans hconnected⟩

/-- What is in the log after one more event that is no end of a pump. -/
theorem own_concat {log : List Event} {e : Event}
    (hown : ∀ k removed, .ended k (some removed) ∈ log → removed = k)
    (he : ∀ k removed, e = .ended k (some removed) → removed = k) :
    ∀ k removed, .ended k (some removed) ∈ log ++ [e] → removed = k := by
  intro k removed hin
  rcases List.mem_append.mp hin with hin | hin
  · exact hown k removed hin
  · exact he k removed (List.mem_singleton.mp hin).symm

theorem Inv.join (hw : Inv w) (hg : Guard w (.join pid)) : Inv (w.join pid) := by
  have hnew : (w.conns ++ [⟨pid, true, .running, 1⟩])[w.conns.length]? =
      some (⟨pid, true, .running, 1⟩ : Conn) := by simp
  have hlt {k : ℕ} {c : Conn} (h : w.conns[k]? = some c) : k < w.conns.length :=
    (List.getElem?_eq_some_iff.mp h).1
  have hold {i : ℕ} {c : Conn} (h : w.conns[i]? = some c) (hp : c.profileId = pid) :
      c.pump = .ended := hg c (List.mem_of_getElem? h) hp
  refine ⟨fun p k hm => ?_, fun i j c d hc hd hp hce hde => ?_, fun k c hc hb => ?_,
    fun p k => ?_, own_concat hw.own fun _ _ he => by cases he⟩
  · rcases List.mem_append.mp hm with hm | hm
    · obtain ⟨c, hc, hcp, hpump⟩ := hw.member p k (mem_without.mp hm).1
      exact ⟨c, concat_kept hc, hcp, hpump⟩
    · obtain ⟨rfl, rfl⟩ := Prod.mk.inj (List.mem_singleton.mp hm)
      exact ⟨_, hnew, rfl, by simp⟩
  · rcases concat_cases hc with hc | ⟨rfl, rfl⟩ <;> rcases concat_cases hd with hd | ⟨rfl, rfl⟩
    · exact hw.single i j c d hc hd hp hce hde
    · exact absurd (hold hc hp) hce
    · exact absurd (hold hd hp.symm) hde
    · rfl
  · rcases concat_cases hc with hc | ⟨rfl, rfl⟩
    · refine (hw.lost k c hc hb).imp_right fun hout hm => ?_
      rcases List.mem_append.mp hm with hm | hm
      · exact hout (mem_without.mp hm).1
      · have hk := (Prod.mk.inj (List.mem_singleton.mp hm)).2
        exact absurd (hlt hc) (by omega)
    · cases hb
  · change Standing (w.log ++ [.joined pid w.conns.length]) p k ↔ (p, k) ∈ w.without pid ++ _ ∧ _
    rw [standing_concat, hw.standing, List.mem_append, mem_without, List.mem_singleton]
    constructor
    · rintro (he | ⟨⟨hm, c, hc, hconnected⟩, hkeeps⟩)
      · obtain ⟨rfl, rfl⟩ := Event.joined.inj he
        exact ⟨.inr rfl, _, hnew, rfl⟩
      · have hne : p ≠ pid := Ne.symm (by simpa [undoes] using hkeeps)
        exact ⟨.inl ⟨hm, hne⟩, c, concat_kept hc, hconnected⟩
    · rintro ⟨⟨hm, hne⟩ | heq, c, hc, hconnected⟩
      · obtain ⟨d, hd, -, -⟩ := hw.member p k hm
        obtain rfl : c = d := Option.some.inj (hc.symm.trans (concat_kept hd))
        exact .inr ⟨⟨hm, c, hd, hconnected⟩, by simpa [undoes] using Ne.symm hne⟩
      · obtain ⟨rfl, rfl⟩ := Prod.mk.inj heq
        exact .inl rfl

/-- Members are removed because they were asked to leave. -/
theorem Inv.removed (hw : Inv w) {e : Event} {members : List (ℕ × ℕ)}
    (hmembers : ∀ p k, (p, k) ∈ members ↔ (p, k) ∈ w.members ∧ undoes p k e = false)
    (hjoined : ∀ p k, e ≠ .joined p k) (hended : ∀ k removed, e ≠ .ended k (some removed)) :
    Inv { w with members := members, log := w.log ++ [e] } := by
  refine ⟨fun p k hm => hw.member p k ((hmembers p k).mp hm).1, hw.single,
    fun k c hc hb => (hw.lost k c hc hb).imp_right fun hout hm => hout ((hmembers _ k).mp hm).1,
    fun p k => ?_, own_concat hw.own fun k removed he => absurd he (hended k removed)⟩
  rw [standing_concat, hw.standing, hmembers]
  constructor
  · rintro (he | ⟨⟨hm, hconnected⟩, hkeeps⟩)
    · exact absurd he (hjoined p k)
    · exact ⟨⟨hm, hkeeps⟩, hconnected⟩
  · rintro ⟨⟨hm, hkeeps⟩, hconnected⟩
    exact .inr ⟨⟨hm, hconnected⟩, hkeeps⟩

theorem Inv.disconnect (hw : Inv w) (hc : w.conns[k]? = some c) :
    Inv { w with conns := w.conns.set k { c with connected := false },
                 log := w.log ++ [.disconnected k] } := by
  have hview : ∀ {j : ℕ} {d : Conn}, (w.conns.set k { c with connected := false })[j]? = some d →
      ∃ d' : Conn, w.conns[j]? = some d' ∧ d'.profileId = d.profileId ∧ d'.pump = d.pump ∧
        (d.connected → d'.connected ∧ j ≠ k) := by
    intro j d hd
    rcases set_cases hd with ⟨hne, hd⟩ | ⟨rfl, rfl⟩
    · exact ⟨d, hd, rfl, rfl, fun h => ⟨h, hne⟩⟩
    · exact ⟨c, hc, rfl, rfl, fun h => by cases h⟩
  refine ⟨fun p j hm => ?_, fun i j a b ha hb hp hae hbe => ?_, fun j d hd hb => ?_,
    fun p j => ?_, own_concat hw.own fun _ _ he => by cases he⟩
  · obtain ⟨d, hd, hp, hpump⟩ := hw.member p j hm
    by_cases hj : j = k
    · subst hj
      rw [hc] at hd
      cases hd
      exact ⟨_, set_self hc, hp, hpump⟩
    · exact ⟨d, by rw [List.getElem?_set_ne (Ne.symm hj), hd], hp, hpump⟩
  · obtain ⟨a', ha', hap, hapump, -⟩ := hview ha
    obtain ⟨b', hb', hbp, hbpump, -⟩ := hview hb
    exact hw.single i j a' b' ha' hb' (by rw [hap, hp, hbp]) (hapump ▸ hae) (hbpump ▸ hbe)
  · rcases set_cases hd with ⟨-, hd⟩ | ⟨rfl, rfl⟩
    · exact hw.lost j d hd hb
    · exact .inl rfl
  · rw [standing_concat, hw.standing]
    constructor
    · rintro (he | ⟨⟨hm, d, hd, hconnected⟩, hkeeps⟩)
      · cases he
      · have hne : k ≠ j := by simpa [undoes] using hkeeps
        exact ⟨hm, d, by rw [List.getElem?_set_ne hne, hd], hconnected⟩
    · rintro ⟨hm, d, hd, hconnected⟩
      obtain ⟨d', hd', -, -, hkept⟩ := hview hd
      obtain ⟨hconnected', hne⟩ := hkept hconnected
      exact .inr ⟨⟨hm, d', hd', hconnected'⟩, by simpa [undoes] using Ne.symm hne⟩

/-- A pump's progress changes nothing that a member's standing depends on. -/
theorem Inv.pumps (hw : Inv w) (hc : w.conns[k]? = some c) (hpump : c.pump = .running)
    (hends : c.connected = false ∨ w.sendable k c = false) :
    Inv { w with conns := w.conns.set k { c with pump := .broken } } := by
  have hview : ∀ {j : ℕ} {d : Conn}, (w.conns.set k { c with pump := .broken })[j]? = some d →
      ∃ d' : Conn, w.conns[j]? = some d' ∧ d'.profileId = d.profileId ∧
        d'.connected = d.connected ∧ (d.pump ≠ .ended → d'.pump ≠ .ended) := by
    intro j d hd
    rcases set_cases hd with ⟨-, hd⟩ | ⟨rfl, rfl⟩
    · exact ⟨d, hd, rfl, rfl, id⟩
    · exact ⟨c, hc, rfl, rfl, fun _ => by simp [hpump]⟩
  have hforth : ∀ {j : ℕ} {d : Conn}, w.conns[j]? = some d →
      ∃ d' : Conn, (w.conns.set k { c with pump := .broken })[j]? = some d' ∧
        d'.profileId = d.profileId ∧ d'.connected = d.connected ∧
        (d.pump ≠ .ended → d'.pump ≠ .ended) := by
    intro j d hd
    by_cases hj : j = k
    · subst hj
      rw [hc] at hd
      cases hd
      exact ⟨_, set_self hc, rfl, rfl, fun _ => by simp⟩
    · exact ⟨d, by rw [List.getElem?_set_ne (Ne.symm hj), hd], rfl, rfl, id⟩
  refine ⟨fun p j hm => ?_, fun i j a b ha hb hp hae hbe => ?_, fun j d hd hb => ?_,
    fun p j => ?_, hw.own⟩
  · obtain ⟨d, hd, hp, hdpump⟩ := hw.member p j hm
    obtain ⟨d', hd', hp', -, hkept⟩ := hforth hd
    exact ⟨d', hd', hp'.trans hp, hkept hdpump⟩
  · obtain ⟨a', ha', hap, -, hakept⟩ := hview ha
    obtain ⟨b', hb', hbp, -, hbkept⟩ := hview hb
    exact hw.single i j a' b' ha' hb' (by rw [hap, hp, hbp]) (hakept hae) (hbkept hbe)
  · rcases set_cases hd with ⟨-, hd⟩ | ⟨rfl, rfl⟩
    · exact hw.lost j d hd hb
    · refine hends.imp_right fun hnobody hm => ?_
      simp only [World.sendable, Bool.or_eq_false_iff, decide_eq_false_iff_not] at hnobody
      exact hnobody.2 hm
  · rw [hw.standing]
    refine and_congr_right fun _ => ⟨?_, ?_⟩
    · rintro ⟨d, hd, hconnected⟩
      obtain ⟨d', hd', -, hsame, -⟩ := hforth hd
      exact ⟨d', hd', hsame.trans hconnected⟩
    · rintro ⟨d, hd, hconnected⟩
      obtain ⟨d', hd', -, hsame, -⟩ := hview hd
      exact ⟨d', hd', hsame.trans hconnected⟩

/-- A pump that ends removes a member of its own connection, or none. -/
theorem Inv.ends (hw : Inv w) (hc : w.conns[k]? = some c) (hpump : c.pump = .broken) :
    Inv { members := w.without c.profileId, conns := w.conns.set k { c with pump := .ended },
          log := w.log ++ [.ended k (w.connOf c.profileId)] } := by
  have hbroken : c.pump ≠ .ended := by simp [hpump]
  -- Its profile's member, if there is one, has this connection.
  have hsame {j : ℕ} (hm : (c.profileId, j) ∈ w.members) : j = k := by
    obtain ⟨d, hd, hp, hdpump⟩ := hw.member _ j hm
    exact hw.single j k d c hd hc hp hdpump hbroken
  refine ⟨fun p j hm => ?_, fun i j a b ha hb hp hae hbe => ?_, fun j d hd hb => ?_,
    fun p j => ?_, own_concat hw.own fun j removed he => ?_⟩
  · obtain ⟨hm, hne⟩ := mem_without.mp hm
    obtain ⟨d, hd, hp, hdpump⟩ := hw.member p j hm
    have hj : k ≠ j := by
      rintro rfl
      rw [hc] at hd
      cases hd
      exact hne hp.symm
    exact ⟨d, by rw [List.getElem?_set_ne hj, hd], hp, hdpump⟩
  · rcases set_cases ha with ⟨-, ha⟩ | ⟨rfl, rfl⟩
    · rcases set_cases hb with ⟨-, hb⟩ | ⟨rfl, rfl⟩
      · exact hw.single i j a b ha hb hp hae hbe
      · exact absurd rfl hbe
    · exact absurd rfl hae
  · rcases set_cases hd with ⟨-, hd⟩ | ⟨rfl, rfl⟩
    · exact (hw.lost j d hd hb).imp_right fun hout hm => hout (mem_without.mp hm).1
    · cases hb
  · rw [standing_concat, hw.standing, mem_without]
    constructor
    · rintro (he | ⟨⟨hm, d, hd, hconnected⟩, -⟩)
      · cases he
      · have hj : k ≠ j := by
          rintro rfl
          rw [hc] at hd
          cases hd
          obtain ⟨e, he, hp, -⟩ := hw.member p k hm
          rw [hc] at he
          cases he
          rcases hw.lost k c hc hpump with hlost | hout
          · rw [hlost] at hconnected
            cases hconnected
          · exact hout (hp ▸ hm)
        refine ⟨⟨hm, ?_⟩, d, by rw [List.getElem?_set_ne hj, hd], hconnected⟩
        rintro rfl
        exact hj (hsame hm).symm
    · rintro ⟨⟨hm, hne⟩, d, hd, hconnected⟩
      rcases set_cases hd with ⟨-, hd⟩ | ⟨rfl, -⟩
      · exact .inr ⟨⟨hm, d, hd, hconnected⟩, rfl⟩
      · obtain ⟨e, he, hp, -⟩ := hw.member p j hm
        rw [hc] at he
        cases he
        exact absurd hp.symm hne
  · obtain ⟨rfl, hconn⟩ := Event.ended.inj he
    exact hsame (connOf_some hconn)

theorem step_inv : Preserved World.step Guard Inv := by
  intro w label t hw hg hs
  cases label with
  | join pid =>
    cases hs
    exact hw.join hg
  | leave pid =>
    cases hs
    refine hw.removed (fun p k => ?_) (fun _ _ he => by cases he) fun _ _ he => by cases he
    rw [mem_without]
    exact and_congr_right fun _ => by simp [undoes, eq_comm]
  | stop =>
    cases hs
    exact hw.removed (by simp [undoes]) (fun _ _ he => by cases he) fun _ _ he => by cases he
  | sends pid =>
    obtain ⟨k, -, hs⟩ := Option.bind_eq_some_iff.mp hs
    obtain ⟨c, hc, rfl⟩ := Option.map_eq_some_iff.mp hs
    exact hw.same rfl rfl (map_set_same hc rfl)
  | sent k =>
    obtain ⟨c, hc, hs⟩ := Option.bind_eq_some_iff.mp hs
    obtain ⟨-, hs⟩ := Option.ite_none_right_eq_some.mp hs
    cases hs
    exact hw.same rfl rfl (map_set_same hc rfl)
  | disconnect k =>
    obtain ⟨c, hc, hs⟩ := Option.bind_eq_some_iff.mp hs
    obtain ⟨-, hs⟩ := Option.ite_none_right_eq_some.mp hs
    cases hs
    exact hw.disconnect hc
  | breaks k =>
    obtain ⟨c, hc, hs⟩ := Option.bind_eq_some_iff.mp hs
    obtain ⟨⟨hpump, hends⟩, hs⟩ := Option.ite_none_right_eq_some.mp hs
    cases hs
    exact hw.pumps hc hpump hends
  | ends k =>
    obtain ⟨c, hc, hs⟩ := Option.bind_eq_some_iff.mp hs
    obtain ⟨hpump, hs⟩ := Option.ite_none_right_eq_some.mp hs
    cases hs
    exact hw.ends hc hpump

end Invariant

section Runs

/-- With all pumps through, a member's connection is there. -/
theorem Inv.quiet {w : World} (hw : Inv w) (hquiet : Quiet w) {pid k : ℕ} :
    Standing w.log pid k ↔ (pid, k) ∈ w.members := by
  rw [hw.standing, and_iff_left_iff_imp]
  intro hm
  obtain ⟨c, hc, -, hpump⟩ := hw.member pid k hm
  refine ⟨c, hc, ?_⟩
  by_contra hlost
  obtain ⟨hbreaks, hends⟩ := hquiet k
  simp only [World.step, hc, Option.bind_some] at hbreaks hends
  cases hstage : c.pump with
  | running => simp [hstage, hlost] at hbreaks
  | broken => simp [hstage] at hends
  | ended => exact hpump hstage

/-- In every run in which no profile joins again before the pumps of its earlier connections have
ended, membership is what was last asked, and no pump removes what a later join inserted. -/
theorem membership_is_last_asked {w : World} (hr : Reached Start World.step Guard w) : Safe w := by
  have hw : Inv w := by
    refine hr.invariant Inv (fun w hw => ?_) step_inv
    cases hw
    refine ⟨by simp [newHub], by simp [newHub], by simp [newHub], fun pid k => ?_,
      by simp [newHub]⟩
    simp [newHub, Standing]
  exact ⟨fun hquiet pid => exists_congr fun k => (hw.quiet hquiet).symm, hw.own⟩

end Runs

section Examples

/-- A profile joins, its browser disconnects, and it joins again when the pump has ended. -/
def joinsAgain : List Label :=
  [.join 7, .sent 0, .disconnect 0, .breaks 0, .ends 0, .join 7, .leave 7, .sent 1, .breaks 1,
    .ends 1, .join 7]

theorem membership_is_last_asked_joinsAgain :
    ∃ w, run World.step newHub joinsAgain = some w ∧ w.members = [(7, 2)] ∧ Safe w := by
  have hrun : (run World.step newHub joinsAgain).map World.members = some [(7, 2)] := by decide
  obtain ⟨w, h, hmembers⟩ := Option.map_eq_some_iff.mp hrun
  have hstart : Start newHub := rfl
  exact ⟨w, h, hmembers,
    membership_is_last_asked ((Reached.start hstart).run joinsAgain (by decide) h)⟩

/-- A profile that is a member joins again, and the pump of its first connection ends. -/
theorem rejoined_member_removed :
    ¬∀ w : World, Reached Start World.step anyStep w → Safe w := by
  intro hall
  have hrun : (run World.step newHub [.join 7, .sent 0, .join 7, .breaks 0, .ends 0]).map
      World.log = some [.joined 7 0, .joined 7 1, .ended 0 (some 1)] := by decide
  obtain ⟨w, h, hlog⟩ := Option.map_eq_some_iff.mp hrun
  have hstart : Start newHub := rfl
  have hown := (hall w ((Reached.start hstart).run_any _ h)).own 0 1 (by simp [hlog])
  cases hown

end Examples

end FuryBrowser.MirrorMembers
