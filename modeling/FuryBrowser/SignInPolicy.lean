import FuryBrowser.SignIn

/-!
# The policy behind every session

A session is bound by the policy when the organisation's allowlist admits the address
it is opened from, its user is not disabled, and a code was compared after the password
if the policy asks for one on that device. Three things let a session past it: a
`login` whose query for the second factor fails takes the user for one who has none,
an enrolment never looks at the allowlist, and `login_totp` looks neither at the user
nor at the policy again. Nothing else does.
-/

namespace FuryBrowser.SignIn

open GuardedRuns RowTable AgentDisk
open OrgKeys (Role)

variable {crypto : Crypto} {db db' : Db} {w w' : World} {a : Label} {s : Session}

/-- The parked sign-in that a session is opened from. -/
def parked (w : World) : Label → Option Challenge
  | .runs id _ => (lookup Flight.id w.flights id).bind fun f =>
    match f.stage with
    | .issuing c _ _ _ => some c
    | _ => none
  | _ => none

/-- Where a sign-in comes from; that of `login_totp` comes from where the password was
given. -/
def clientIp (w : World) : Label → Option IpAddr
  | .login _ ip _ | .enrolls _ _ ip | .signsUp _ _ ip => ip
  | a => (parked w a).bind Challenge.ip

/-- The device it comes from. -/
def clientMachine (w : World) : Label → Option String
  | .login req _ _ => req.machineId
  | a => (parked w a).bind Challenge.machineId

/-- The policy binds a session that a step opens. -/
structure Bound (w : World) (a : Label) (w' : World) (s : Session) : Prop where
  /-- The allowlist of their organisation admits the address. -/
  admitted : ∀ m ∈ w'.db.members, m.user = s.user →
    (w'.db.policyOf m.org).admits (clientIp w a) m.role = true
  /-- The user is not disabled. -/
  enabled : ∀ u ∈ w'.db.users, u.id = s.user → u.disabled = false
  /-- Where a second factor is required, a right code was compared for a sign-in of theirs
  that had passed the password. -/
  factor : ∀ m ∈ w'.db.members, ∀ u ∈ w'.db.users, m.user = s.user → u.id = s.user →
    secondFactorRequired (w'.db.policyOf m.org) u.enrolled
      (w.db.knownDevice s.user (clientMachine w a)) = true →
    ∃ c, parked w a = some c ∧ (c.id, s.user) ∈ w.passed ∧ (c.id, true) ∈ w.compared

/-- Nothing lets the step past the policy. -/
def Held (w : World) : Label → Prop
  | .login req _ fails => .enrolled ∈ fails → ∀ u, loginUser w.db req = some u →
      secondFactorRequired (w.db.policyFor u.id) u.enrolled
        (w.db.knownDevice u.id req.machineId) = false
  | .enrolls code _ ip => ∀ i,
      (w.db.invitations.find? fun i => i.code = code && !i.used && w.db.now < i.expires) = some i →
      ∀ org, i.org = some org → (w.db.policyOf org).admits ip i.role = true
  | .runs id clock => ∀ c, parked w (.runs id clock) = some c →
      (∀ u ∈ w.db.users, u.id = c.user → u.disabled = false) ∧
      ∀ m ∈ w.db.members, m.user = c.user → (w.db.policyOf m.org).admits c.ip m.role = true
  | _ => True

/-- Without a second factor, and on an address that is admitted, a device makes no
difference to a policy that asks for nothing. -/
theorem secondFactorRequired_of_forgotten {policy : Policy} {enrolled known : Bool}
    (h : secondFactorRequired policy enrolled false = false) :
    secondFactorRequired policy enrolled known = false := by
  cases enrolled with
  | false => rfl
  | true =>
    cases hp : policy.secondFactor with
    | off => simp [secondFactorRequired, hp]
    | newDevice => simp [secondFactorRequired, hp] at h
    | always => simp [secondFactorRequired, hp] at h

/-- The policy that everybody starts under asks for nothing. -/
@[simp] theorem default_admits (ip : Option IpAddr) (role : Role) :
    Policy.default.admits ip role = true := rfl

@[simp] theorem default_required (enrolled known : Bool) :
    secondFactorRequired Policy.default enrolled known = false := by
  simp [secondFactorRequired, Policy.default]

/-- Somebody with no second factor is asked for none. -/
@[simp] theorem secondFactorRequired_none (policy : Policy) (known : Bool) :
    secondFactorRequired policy false known = false := rfl

/-- What every reachable state keeps. -/
structure Sound (w : World) : Prop where
  /-- Ids of users are unique. -/
  users : KeyUnique User.id w.db.users
  drawn : ∀ u ∈ w.db.users, u.id < w.db.fresh
  seats : KeyUnique Member.user w.db.members
  /-- A seat is of somebody whose id was drawn. -/
  seated : ∀ m ∈ w.db.members, m.user < w.db.fresh
  /-- A parked sign-in has passed the password. -/
  opened : ∀ c ∈ w.db.challenges, (c.id, c.user) ∈ w.passed
  /-- So has one that a request has read. -/
  held : ∀ f ∈ w.flights, ∀ c, f.stage.challenge = some c → (c.id, c.user) ∈ w.passed
  /-- A request is past the code only if it compared right. -/
  right : ∀ f ∈ w.flights, ∀ c secret code clock,
    f.stage = .matched c secret code clock ∨ f.stage = .issuing c secret code clock →
    (c.id, true) ∈ w.compared

theorem sound_empty : Sound empty :=
  ⟨keyUnique_nil, List.forall_mem_nil _, keyUnique_nil, List.forall_mem_nil _,
    List.forall_mem_nil _, List.forall_mem_nil _, List.forall_mem_nil _⟩

/-- A seat is the one that a lookup finds. -/
theorem Sound.member_eq (h : Sound w) {m : Member} (hm : m ∈ w.db.members) :
    w.db.member m.user = some m :=
  lookup_of_mem h.seats hm

/-- A `login` keeps it. -/
theorem sound_login {req : LoginRequest} {ip : Option IpAddr} {fails : List Query}
    {opened : Option (ℕ × ℕ)} (h : Sound w)
    (hl : LoggedIn crypto w.db req ip fails db' opened) :
    Sound { w with db := db', passed := opened.toList ++ w.passed } := by
  cases hl with
  | refused events => exact ⟨h.users, h.drawn, h.seats, h.seated, h.opened, h.held, h.right⟩
  | parked u events hu hadmits hright =>
    refine ⟨h.users, fun v hv => Nat.lt_succ_of_lt (h.drawn v hv), h.seats,
      fun m hm => Nat.lt_succ_of_lt (h.seated m hm), ?_, ?_, h.right⟩
    · intro c hc
      rcases List.mem_cons.mp hc with rfl | hc
      · exact List.mem_cons_self
      · exact List.mem_cons_of_mem _ (h.opened c hc)
    · exact fun f hf c hc => List.mem_cons_of_mem _ (h.held f hf c hc)
  | session u events hu hadmits hright hfactor =>
    exact ⟨h.users, fun v hv => Nat.lt_succ_of_lt (h.drawn v hv), h.seats,
      fun m hm => Nat.lt_succ_of_lt (h.seated m hm), h.opened, h.held, h.right⟩

theorem sound_joined {org : ℕ} {role : Role} (h : Sound w) (hj : Joined w.db db' org role) :
    Sound { w with db := db' } := by
  obtain ⟨⟨email, passwordHash, husers⟩, hmembers, hsessions, hchallenges, hfresh⟩ := hj
  refine ⟨?_, ?_, ?_, ?_, ?_, h.held, h.right⟩
  · show KeyUnique User.id db'.users
    rw [husers]
    exact h.users.cons fun u hu => Nat.ne_of_lt (h.drawn u hu)
  · intro u hu
    show u.id < db'.fresh
    rw [husers] at hu
    rcases List.mem_cons.mp hu with rfl | hu
    · simp [hfresh]
    · have := h.drawn u hu
      omega
  · show KeyUnique Member.user db'.members
    rw [hmembers]
    exact h.seats.cons fun m hm => Nat.ne_of_lt (h.seated m hm)
  · intro m hm
    show m.user < db'.fresh
    rw [hmembers] at hm
    rcases List.mem_cons.mp hm with rfl | hm
    · simp [hfresh]
    · have := h.seated m hm
      omega
  · intro c hc
    exact h.opened c (hchallenges ▸ hc)

/-- A request that goes on keeps it, if where it goes is right. -/
theorem sound_goOn (h : Sound w) (id : ℕ) (stage : Option Stage)
    (husers : w'.db.users = w.db.users) (hmembers : w'.db.members = w.db.members)
    (hfresh : w.db.fresh ≤ w'.db.fresh)
    (hopened : ∀ c ∈ w'.db.challenges, (c.id, c.user) ∈ w'.passed)
    (hflights : w'.flights = w.goOn id stage) (hpassed : w'.passed = w.passed)
    (hcompared : ∀ x ∈ w.compared, x ∈ w'.compared)
    (hheld : ∀ st ∈ stage, ∀ c, st.challenge = some c → (c.id, c.user) ∈ w.passed)
    (hright : ∀ st ∈ stage, ∀ c secret code clock,
      st = .matched c secret code clock ∨ st = .issuing c secret code clock →
      (c.id, true) ∈ w'.compared) : Sound w' := by
  refine ⟨husers ▸ h.users, ?_, hmembers ▸ h.seats, ?_, hopened, ?_, ?_⟩
  · exact fun u hu => Nat.lt_of_lt_of_le (h.drawn u (husers ▸ hu)) hfresh
  · exact fun m hm => Nat.lt_of_lt_of_le (h.seated m (hmembers ▸ hm)) hfresh
  · intro g hg c hc
    rw [hpassed]
    rcases mem_goOn (hflights ▸ hg) with ⟨hin, _⟩ | ⟨_, hst⟩
    · exact h.held g hin c hc
    · exact hheld _ hst c hc
  · intro g hg c secret code clock hstage
    rcases mem_goOn (hflights ▸ hg) with ⟨hin, _⟩ | ⟨_, hst⟩
    · exact hcompared _ (h.right g hin c secret code clock hstage)
    · exact hright _ hst c secret code clock hstage

/-- A statement of `login_totp` keeps it. -/
theorem sound_went {f : Flight} {clock : ℕ} (h : Sound w) (hf : f ∈ w.flights)
    (hw : Went crypto w f clock w') : Sound w' := by
  have hheld : ∀ c, f.stage.challenge = some c → (c.id, c.user) ∈ w.passed := h.held f hf
  cases hw with
  | givesUp _ =>
    exact sound_goOn h f.id none rfl rfl le_rfl h.opened rfl rfl (fun _ => id)
      (fun _ hstage => by cases hstage) fun _ hstage => by cases hstage
  | @reads c code hstage hc _ =>
    refine sound_goOn h f.id (some (.read c code)) rfl rfl le_rfl h.opened rfl rfl (fun _ => id)
      ?_ ?_
    · rintro _ ⟨⟩ d ⟨⟩
      exact h.opened c hc
    · rintro _ ⟨⟩ d secret code clock (⟨⟨⟩⟩ | ⟨⟨⟩⟩)
  | @finds c code hstage hc _ =>
    refine sound_goOn h f.id (some (.spent c.id)) rfl rfl le_rfl h.opened rfl rfl (fun _ => id)
      ?_ ?_
    · rintro _ ⟨⟩ d ⟨⟩
    · rintro _ ⟨⟩ d secret code clock (⟨⟨⟩⟩ | ⟨⟨⟩⟩)
  | ends _ =>
    exact sound_goOn h f.id none rfl rfl le_rfl (fun c hc => h.opened c (mem_deleteWhere.mp hc).1)
      rfl rfl (fun _ => id) (fun _ hstage => by cases hstage) fun _ hstage => by cases hstage
  | @right c code secret hstage hright =>
    refine sound_goOn h f.id (some (.matched c secret code clock)) rfl rfl le_rfl h.opened rfl rfl
      (fun _ => List.mem_cons_of_mem _) ?_ ?_
    · rintro _ ⟨⟩ d ⟨⟩
      exact hheld c (by rw [hstage]; rfl)
    · rintro _ ⟨⟩ d secret code clock (⟨⟨⟩⟩ | ⟨⟨⟩⟩)
      exact List.mem_cons_self
  | @wrong c code hstage =>
    refine sound_goOn h f.id (some (.counting c)) rfl rfl le_rfl h.opened rfl rfl
      (fun _ => List.mem_cons_of_mem _) ?_ ?_
    · rintro _ ⟨⟩ d ⟨⟩
      exact hheld c (by rw [hstage]; rfl)
    · rintro _ ⟨⟩ d secret code clock (⟨⟨⟩⟩ | ⟨⟨⟩⟩)
  | @counts c hstage =>
    refine sound_goOn h f.id (some (.journaling c .totpFailed)) rfl rfl le_rfl ?_ rfl rfl
      (fun _ => id) ?_ ?_
    · intro d hd
      rcases updateWhere_cases hd with ⟨hin, _⟩ | ⟨old, hin, _, rfl⟩
      · exact h.opened d hin
      · exact h.opened old hin
    · rintro _ ⟨⟩ d ⟨⟩
    · rintro _ ⟨⟩ d secret code clock (⟨⟨⟩⟩ | ⟨⟨⟩⟩)
  | @deletes c secret code compared hstage =>
    refine sound_goOn h f.id (some (.issuing c secret code compared)) rfl rfl le_rfl
      (fun d hd => h.opened d (mem_deleteWhere.mp hd).1) rfl rfl (fun _ => id) ?_ ?_
    · rintro _ ⟨⟩ d ⟨⟩
      exact hheld c (by rw [hstage]; rfl)
    · rintro _ ⟨⟩ d secret' code' clock' (⟨⟨⟩⟩ | ⟨⟨⟩⟩)
      exact h.right f hf c secret code compared (.inl hstage)
  | @opens c secret code compared hstage =>
    refine sound_goOn h f.id (some (.journaling c .ok)) rfl rfl (Nat.le_succ _) h.opened rfl rfl
      (fun _ => id) ?_ ?_
    · rintro _ ⟨⟩ d ⟨⟩
    · rintro _ ⟨⟩ d secret code clock (⟨⟨⟩⟩ | ⟨⟨⟩⟩)
  | records _ =>
    exact sound_goOn h f.id none rfl rfl le_rfl h.opened rfl rfl (fun _ => id)
      (fun _ hstage => by cases hstage) fun _ hstage => by cases hstage

theorem sound_step : Preserved (step crypto) anyStep Sound := by
  intro w a w' h _ hs
  cases a with
  | login req ip fails =>
    cases hs
    exact sound_login h (login_cases crypto w.db req ip fails)
  | enrolls code passwordHash ip =>
    obtain ⟨db', hdb, rfl⟩ := Option.map_eq_some_iff.mp hs
    obtain ⟨i, _, hj, _⟩ := completeEnrollment_some hdb
    exact sound_joined h hj
  | signsUp email passwordHash ip =>
    obtain ⟨db', hdb, rfl⟩ := Option.map_eq_some_iff.mp hs
    exact sound_joined h (signup_some hdb).1
  | presents challenge code =>
    cases hs
    refine ⟨h.users, h.drawn, h.seats, h.seated, h.opened, ?_, ?_⟩
    · intro f hf c hc
      rcases List.mem_cons.mp hf with rfl | hf
      · cases hc
      · exact h.held f hf c hc
    · intro f hf c secret code clock hstage
      rcases List.mem_cons.mp hf with rfl | hf
      · rcases hstage with hstage | hstage <;> cases hstage
      · exact h.right f hf c secret code clock hstage
  | runs id clock =>
    obtain ⟨f, hf, rfl⟩ := Option.map_eq_some_iff.mp hs
    exact sound_went h (lookup_some hf).1 (next_cases crypto w f clock)
  | lost id =>
    cases hs
    exact ⟨h.users, h.drawn, h.seats, h.seated, h.opened,
      fun f hf => h.held f (mem_deleteWhere.mp hf).1,
      fun f hf => h.right f (mem_deleteWhere.mp hf).1⟩
  | changes change =>
    obtain ⟨⟨⟨husers, hdrawn⟩, ⟨hseats, hseated⟩, _⟩, ⟨⟩⟩ := Option.ite_none_right_eq_some.mp hs
    exact ⟨husers, hdrawn, hseats, hseated, h.opened, h.held, h.right⟩
  | tick seconds =>
    cases hs
    exact ⟨h.users, h.drawn, h.seats, h.seated, h.opened, h.held, h.right⟩

theorem sound_reached (hr : Reached init (step crypto) anyStep w) : Sound w :=
  hr.invariant Sound (fun _ hi => hi ▸ sound_empty) sound_step

/-- The seat of a user decides the policy they are under, and as what. -/
theorem Sound.seat_policy (h : Sound w) {m : Member} (hm : m ∈ w.db.members) :
    w.db.policyFor m.user = w.db.policyOf m.org ∧ w.db.roleOf m.user = m.role := by
  constructor
  · simp [Db.policyFor, h.member_eq hm]
  · simp [Db.roleOf, h.member_eq hm]

/-- A policy that asks somebody for a code is the one of their seat. -/
theorem seat_of_required {user : ℕ} {enrolled known : Bool}
    (hreq : secondFactorRequired (w.db.policyFor user) enrolled known = true) :
    ∃ m ∈ w.db.members, m.user = user ∧ w.db.policyFor user = w.db.policyOf m.org := by
  cases hm : w.db.member user with
  | none =>
    have hdefault : w.db.policyFor user = Policy.default := by simp [Db.policyFor, hm]
    simp [hdefault] at hreq
  | some m =>
    obtain ⟨hin, huser⟩ := lookup_some hm
    exact ⟨m, hin, huser, by simp [Db.policyFor, hm]⟩

/-- What the queries of a `login` read is no less strict than what is stored, unless the
query for the second factor fails. -/
theorem required_of_reads {req : LoginRequest} {fails : List Query} {u : User} {policy : Policy}
    (hreads : secondFactorRequired policy (readsEnrolled fails u)
      (readsKnown db req fails u) = false)
    (hfails : .enrolled ∉ fails) :
    secondFactorRequired policy u.enrolled (db.knownDevice u.id req.machineId) = false := by
  have henrolled : readsEnrolled fails u = u.enrolled := by
    simp [readsEnrolled, User.enrolled, hfails]
  rw [henrolled] at hreads
  unfold readsKnown at hreads
  split at hreads
  · exact secondFactorRequired_of_forgotten hreads
  · exact hreads

/-- A session of a `login` is bound if and only if the failed query hid nothing. -/
theorem bound_login {req : LoginRequest} {ip : Option IpAddr} {fails : List Query} {u : User}
    (h : Sound w) (hu : loginUser w.db req = some u)
    (hadmits : (w.db.policyFor u.id).admits ip (w.db.roleOf u.id) = true)
    (hfactor : secondFactorRequired (w.db.policyFor u.id) (readsEnrolled fails u)
      (readsKnown w.db req fails u) = false)
    (husers : w'.db.users = w.db.users) (hmembers : w'.db.members = w.db.members)
    (horgs : w'.db.orgs = w.db.orgs) (hs : s.user = u.id) :
    Bound w (.login req ip fails) w' s ↔ Held w (.login req ip fails) := by
  obtain ⟨huin, henabled⟩ := loginUser_some hu
  have hpolicy : ∀ org, w'.db.policyOf org = w.db.policyOf org := fun org => by
    rw [Db.policyOf, horgs, Db.policyOf]
  constructor
  · intro hb _ v hv
    obtain rfl := Option.some.inj (hv.symm.trans hu)
    by_contra hreq
    have hreq := Bool.not_eq_false _ ▸ hreq
    obtain ⟨m, hm, huser, heq⟩ := seat_of_required hreq
    obtain ⟨c, hc, _⟩ := hb.factor m (hmembers ▸ hm) v (husers ▸ huin) (huser.trans hs.symm) hs.symm
      (by rw [hpolicy, ← heq, hs]; exact hreq)
    cases hc
  · intro hheld
    have hunrequired : secondFactorRequired (w.db.policyFor u.id) u.enrolled
        (w.db.knownDevice u.id req.machineId) = false := by
      by_cases hfails : .enrolled ∈ fails
      · exact hheld hfails u hu
      · exact required_of_reads hfactor hfails
    refine ⟨?_, ?_, ?_⟩
    · intro m hm huser
      obtain ⟨heq, hrole⟩ := h.seat_policy (hmembers ▸ hm)
      rw [hpolicy, ← heq, ← hrole, huser, hs]
      exact hadmits
    · intro v hv hid
      obtain rfl := h.users.eq (husers ▸ hv) huin (hid.trans hs)
      exact henabled
    · intro m hm v hv huser hid hreq
      obtain rfl := h.users.eq (husers ▸ hv) huin (hid.trans hs)
      obtain ⟨heq, _⟩ := h.seat_policy (hmembers ▸ hm)
      rw [hpolicy, ← heq, huser, hs] at hreq
      exact absurd hreq (by rw [Bool.not_eq_true]; exact hunrequired)

/-- A session of somebody new is bound if and only if the organisation they join admits
the address. -/
theorem bound_joined {org : ℕ} {role : Role} (h : Sound w) (hj : Joined w.db w'.db org role)
    (hs : s.user = w.db.fresh) :
    Bound w a w' s ↔ (w'.db.policyOf org).admits (clientIp w a) role = true := by
  obtain ⟨⟨email, passwordHash, husers⟩, hmembers, _, _, _⟩ := hj
  have hseat : ∀ m ∈ w'.db.members, m.user = s.user → m = ⟨w.db.fresh, org, role⟩ := by
    intro m hm huser
    rw [hmembers] at hm
    rcases List.mem_cons.mp hm with rfl | hm
    · rfl
    · have := h.seated m hm
      omega
  have huser : ∀ u ∈ w'.db.users, u.id = s.user →
      u = ⟨w.db.fresh, email, passwordHash, none, false, false⟩ := by
    intro u hu hid
    rw [husers] at hu
    rcases List.mem_cons.mp hu with rfl | hu
    · rfl
    · have := h.drawn u hu
      omega
  constructor
  · exact fun hb => hb.admitted ⟨w.db.fresh, org, role⟩ (by simp [hmembers]) hs.symm
  · intro hadmits
    refine ⟨?_, ?_, ?_⟩
    · intro m hm hid
      rw [hseat m hm hid]
      exact hadmits
    · intro u hu hid
      rw [huser u hu hid]
    · intro m hm u hu _ hid hreq
      rw [huser u hu hid] at hreq
      cases hreq

/-- A session of `login_totp` is bound if and only if the user is not disabled and the
allowlist still admits the address of the password. -/
theorem bound_opens {id clock compared : ℕ} {f : Flight} {c : Challenge} {secret : List UInt8}
    {code : String} (h : Sound w) (hf : lookup Flight.id w.flights id = some f)
    (hstage : f.stage = .issuing c secret code compared) (husers : w'.db.users = w.db.users)
    (hmembers : w'.db.members = w.db.members) (horgs : w'.db.orgs = w.db.orgs)
    (hs : s.user = c.user) : Bound w (.runs id clock) w' s ↔ Held w (.runs id clock) := by
  have hparked : parked w (.runs id clock) = some c := by simp [parked, hf, hstage]
  have hip : clientIp w (.runs id clock) = c.ip := by simp [clientIp, hparked]
  have hpolicy : ∀ org, w'.db.policyOf org = w.db.policyOf org := fun org => by
    rw [Db.policyOf, horgs, Db.policyOf]
  constructor
  · intro hb d hd
    obtain rfl := Option.some.inj (hd.symm.trans hparked)
    refine ⟨fun u hu hid => hb.enabled u (husers ▸ hu) (hid.trans hs.symm), fun m hm hid => ?_⟩
    rw [← hpolicy, ← hip]
    exact hb.admitted m (hmembers ▸ hm) (hid.trans hs.symm)
  · intro hheld
    obtain ⟨henabled, hadmits⟩ := hheld c hparked
    refine ⟨?_, fun u hu hid => henabled u (husers ▸ hu) (hid.trans hs), ?_⟩
    · intro m hm hid
      rw [hpolicy, hip]
      exact hadmits m (hmembers ▸ hm) (hid.trans hs)
    · intro _ _ _ _ _ _ _
      have hin : f ∈ w.flights := (lookup_some hf).1
      refine ⟨c, hparked, ?_, h.right f hin c secret code compared (.inr hstage)⟩
      rw [hs]
      exact h.held f hin c (by rw [hstage]; rfl)

/-- In every state that can be reached, whatever happens next: a session it opens is
bound by the policy if and only if nothing lets it past. -/
theorem policy_binds (hr : Reached init (step crypto) anyStep w) (hs : step crypto w a = some w')
    (hin : s ∈ w'.db.sessions) (hnew : s ∉ w.db.sessions) : Bound w a w' s ↔ Held w a := by
  have h : Sound w := sound_reached hr
  have hadded : ∀ t, w'.db.sessions = t :: w.db.sessions → s = t := by
    intro t ht
    rcases List.mem_cons.mp (ht ▸ hin) with heq | hold
    · exact heq
    · exact absurd hold hnew
  cases a with
  | login req ip fails =>
    cases hs
    have hl := login_cases crypto w.db req ip fails
    revert hl hin hadded
    generalize login w.db req ip fails crypto = r
    intro hin hadded hl
    obtain ⟨db', opened⟩ := r
    cases hl with
    | refused events => exact absurd hin hnew
    | parked u events hu hadmits hright => exact absurd hin hnew
    | session u events hu hadmits hright hfactor =>
      obtain rfl := hadded _ rfl
      exact bound_login h hu hadmits hfactor rfl rfl rfl rfl
  | enrolls code passwordHash ip =>
    obtain ⟨db', hdb, rfl⟩ := Option.map_eq_some_iff.mp hs
    obtain ⟨i, hi, hj, hpolicy⟩ := completeEnrollment_some hdb
    obtain rfl := hadded _ hj.sessions
    rw [bound_joined h hj rfl, hpolicy]
    constructor
    · intro hadmits j hjfound org horg
      obtain rfl := Option.some.inj (hjfound.symm.trans hi)
      rw [horg] at hadmits
      exact hadmits
    · intro hheld
      cases horg : i.org with
      | none => rfl
      | some org => exact hheld i hi org horg
  | signsUp email passwordHash ip =>
    obtain ⟨db', hdb, rfl⟩ := Option.map_eq_some_iff.mp hs
    obtain ⟨hj, hpolicy⟩ := signup_some hdb
    obtain rfl := hadded _ hj.sessions
    rw [bound_joined h hj rfl, hpolicy]
    exact iff_of_true rfl trivial
  | presents challenge code =>
    cases hs
    exact absurd hin hnew
  | runs id clock =>
    obtain ⟨f, hf, rfl⟩ := Option.map_eq_some_iff.mp hs
    have hw := next_cases crypto w f clock
    revert hw hin hadded
    generalize next crypto w f clock = w'
    intro hin hadded hw
    cases hw with
    | @opens c secret code compared hstage =>
      obtain rfl := hadded _ rfl
      exact bound_opens h hf hstage rfl rfl rfl rfl
    | _ => exact absurd hin hnew
  | lost id =>
    cases hs
    exact absurd hin hnew
  | changes change =>
    obtain ⟨_, ⟨⟩⟩ := Option.ite_none_right_eq_some.mp hs
    exact absurd hin hnew
  | tick seconds =>
    cases hs
    exact absurd hin hnew

/-- A server where one password is right, with the HMAC of one secret for the first
minute. -/
def oneSecret : Crypto where
  verifyPassword password stored := password = "correct horse" && stored = "its hash"
  hmac _ counter :=
    if counter = 0 then
      [0xcc, 0x93, 0xcf, 0x18, 0x50, 0x8d, 0x94, 0x93, 0x4c, 0x64, 0xb6, 0x5d, 0x8b, 0xa7, 0x66,
        0x7f, 0xb7, 0xcd, 0xe4, 0xb0]
    else
      [0x75, 0xa4, 0x8a, 0x19, 0xd4, 0xcb, 0xe1, 0x00, 0x64, 0x4e, 0x8a, 0xc1, 0x39, 0x7e, 0xea,
        0x74, 0x7a, 0x2d, 0x33, 0xab]

example : codeAt oneSecret [] 10 = "755224" := by decide

/-- An address in the office, `10.0.0.5`. -/
def desk : IpAddr := .v4 0x0a000005#32

/-- One elsewhere, `203.0.113.9`. -/
def hotel : IpAddr := .v4 0xcb007109#32

/-- An organisation that admits `10.0.0.0/8` and always asks for a code, its member with a
second factor, and an invitation into it. -/
def office (disabled : Bool) (fresh : ℕ) : Change where
  users := [⟨1, "member@office", "its hash", some [1, 2, 3], true, disabled⟩]
  members := [⟨1, 0, .member⟩]
  orgs := [⟨0, .always, [⟨.v4 0x0a000000#32, 8⟩], true⟩]
  invitations := [⟨7, "new@office", some 0, .member, 1000, false⟩]
  fresh := fresh

/-- The member's request. -/
def fromDesk : LoginRequest := ⟨"member@office", "correct horse", some "laptop"⟩

/-- The member gives the password and the code, and the challenge is deleted. -/
def proven : List Label :=
  [.changes (office false 10), .login fromDesk (some desk) [], .presents 10 "755224", .runs 0 10,
    .runs 0 10, .runs 0 10]

theorem policy_binds_proven : Bound (after oneSecret proven) (.runs 0 10)
    (after oneSecret (proven ++ [.runs 0 10])) ⟨11, 1⟩ := by
  have hempty : Reached init (step oneSecret) anyStep empty := .start rfl
  have hproven : Reached init (step oneSecret) anyStep (after oneSecret proven) :=
    hempty.run_any proven (by decide)
  refine (policy_binds hproven (by decide) (by decide) (by decide)).mpr ?_
  have hparked : parked (after oneSecret proven) (.runs 0 10) =
      some ⟨10, 1, some desk, some "laptop", 0, 300⟩ := by
    decide
  intro c hc
  obtain rfl := Option.some.inj (hc.symm.trans hparked)
  decide

/-- A step from a state that can be reached opens a session the policy does not bind. -/
def LetsPast (crypto : Crypto) (labels : List Label) (a : Label) : Prop :=
  ∃ w w' s, run (step crypto) empty labels = some w ∧ step crypto w a = some w' ∧
    s ∈ w'.db.sessions ∧ s ∉ w.db.sessions ∧ ¬ Bound w a w' s

/-- Somebody enrols from a hotel; a query fails and the member needs no code; the member
is disabled while their code is on its way. -/
theorem sessions_let_past :
    LetsPast oneSecret [.changes (office false 10)] (.enrolls 7 "another hash" (some hotel)) ∧
    LetsPast oneSecret [.changes (office false 10)] (.login fromDesk (some desk) [.enrolled]) ∧
    LetsPast oneSecret (proven ++ [.changes (office true 11)]) (.runs 0 10) := by
  refine ⟨⟨after oneSecret [.changes (office false 10)],
      after oneSecret [.changes (office false 10), .enrolls 7 "another hash" (some hotel)],
      ⟨12, 10⟩, by decide, by decide, by decide, by decide, ?_⟩,
    ⟨after oneSecret [.changes (office false 10)],
      after oneSecret [.changes (office false 10), .login fromDesk (some desk) [.enrolled]],
      ⟨10, 1⟩, by decide, by decide, by decide, by decide, ?_⟩,
    ⟨after oneSecret (proven ++ [.changes (office true 11)]),
      after oneSecret (proven ++ [.changes (office true 11), .runs 0 10]),
      ⟨11, 1⟩, by decide, by decide, by decide, by decide, ?_⟩⟩
  · intro hb
    exact absurd (hb.admitted ⟨10, 0, .member⟩ (by decide) rfl) (by decide)
  · intro hb
    obtain ⟨c, hc, _⟩ := hb.factor ⟨1, 0, .member⟩ (by decide)
      ⟨1, "member@office", "its hash", some [1, 2, 3], true, false⟩ (by decide) rfl rfl
      (by decide)
    cases hc
  · intro hb
    exact absurd (hb.enabled ⟨1, "member@office", "its hash", some [1, 2, 3], true, true⟩
      (by decide) rfl) (by decide)

end FuryBrowser.SignIn
