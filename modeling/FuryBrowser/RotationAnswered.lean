import FuryBrowser.RotationMaterial

/-!
# A rotation that answers what it was asked for

A request that answers each item of the material, in the state the material is of, is refused as
incomplete exactly where a disabled member still holds a key: the material does not list them, and
the check requires them.
-/

namespace FuryBrowser.RotationMaterial

open AgentDisk RowTable
open TeamRequests (Caller)

section Gaps

variable {α β : Type} {x : Except Refusal α} {f : α → Except Refusal β}

/-- Whatever is refused, it is not because something is missing. -/
def NoGap (x : Except Refusal α) : Prop := ∀ r, x = .error r → r.isGap = false

theorem noGap_ok (a : α) : NoGap (.ok a) := fun _ h => by cases h

theorem noGap_error {r : Refusal} (h : r.isGap = false) : NoGap (.error r : Except Refusal α) := by
  intro r' hr
  cases hr
  exact h

/-- A sequence has no gap when its parts have none. -/
theorem noGap_bind (hx : NoGap x) (hf : ∀ a, x = .ok a → NoGap (f a)) : NoGap (x >>= f) := by
  cases x with
  | error r => exact noGap_error (hx r rfl)
  | ok a => exact hf a rfl

variable {ι : Type} {fits : Bytes → Bool} {write : ι → Bytes → Db → Db} {xs : List (Rotated ι)}
  {db db' : Db}

/-- A value that does not fit is no gap. -/
theorem noGap_supply : NoGap (supply fits write xs db) := by
  induction xs generalizing db with
  | nil => exact noGap_ok db
  | cons x xs ih =>
    rw [supply]
    cases x.wrapped.filter fits with
    | none => exact noGap_error rfl
    | some wrapped => exact ih

/-- What no write changes is as it was. -/
theorem supply_keeps {γ : Type} (view : Db → γ) (h : supply fits write xs db = .ok db')
    (hw : ∀ i w db, view (write i w db) = view db) : view db' = view db := by
  induction xs generalizing db with
  | nil =>
    cases h
    rfl
  | cons x xs ih =>
    rw [supply] at h
    cases hx : x.wrapped.filter fits with
    | none =>
      rw [hx] at h
      cases h
    | some wrapped =>
      rw [hx] at h
      exact (ih h).trans (hw x.id wrapped db)

/-- Nothing is missing of what is all supplied or named. -/
theorem noGap_cover [DecidableEq ι] {what : String} {name : ι → ℕ} {needed : List ι}
    {unreadable : List ℕ}
    (h : ∀ i ∈ needed, (∃ x ∈ xs, x.id = i) ∨ name i ∈ unreadable) :
    NoGap (cover what name needed xs unreadable) := by
  rw [cover]
  cases hfind : needed.find? fun i => !xs.any (fun x => x.id = i) && name i ∉ unreadable with
  | none => exact noGap_ok ()
  | some i =>
    have hlacks := List.find?_some hfind
    rcases h i (List.mem_of_find?_eq_some hfind) with ⟨x, hx, hid⟩ | hnamed
    · have hany : xs.any (fun x => x.id = i) = true :=
        List.any_eq_true.mpr ⟨x, hx, decide_eq_true hid⟩
      simp [hany] at hlacks
    · simp [hnamed] at hlacks

theorem noGap_mayRotate {caller : Caller} {steppedUp : Bool} {req : RotateRequest} :
    NoGap (mayRotate db caller steppedUp req) := by
  unfold mayRotate
  repeat' split
  all_goals first | exact noGap_error rfl | exact noGap_ok _

end Gaps

section Answers

variable {db : Db} {caller : Caller} {mat : Material} {req : RotateRequest} {steppedUp : Bool}

/-- The request removes nobody and answers everything it was asked for. A proxy without a key has
nothing to be wrapped again. -/
structure Answers (mat : Material) (req : RotateRequest) : Prop where
  removes : req.removeUser = none
  generation : req.generation = mat.generation
  members : ∀ m ∈ mat.members, ∃ x ∈ req.members, x.id = m.1
  proxies : ∀ p ∈ mat.proxies, p.2.isSome = true → ∃ x ∈ req.proxies, x.id = p.1
  profiles : ∀ p ∈ mat.profiles, (∃ x ∈ req.cookieKeys, x.id = p.1) ∨ p.1 ∈ req.unreadable
  bundles : ∀ b ∈ mat.bundles, (∃ x ∈ req.bundles, x.id = b.1) ∨ b.1 ∈ req.unreadable
  credentials : ∀ c ∈ mat.credentials,
    (∃ x ∈ req.credentials, x.id = c.1) ∨ c.1 ∈ req.unreadable
  shares : ∀ g ∈ mat.shares, ∃ x ∈ req.shares, x.id = (g.1, g.2.1)

/-- What the later checks read. -/
def later (db : Db) : List Profile × List Sealed × List Sealed × List Grant × List User :=
  (db.profiles, db.bundles, db.credentials, db.grants, db.users)

/-- A profile is of the organisation it was of when its cookie key is replaced. -/
theorem profileOf_wrapCookieKey (org org' id profile : ℕ) (wrapped : Bytes) (db : Db) :
    profileOf (wrapCookieKey org id wrapped db) org' profile = profileOf db org' profile := by
  simp only [profileOf, wrapCookieKey, updateWhere, List.any_map]
  congr 1
  funext p
  simp only [Function.comp_apply]
  split <;> rfl

/-- What the checks after the cookie keys read. -/
def afterProfiles (org : ℕ) (db : Db) :
    (ℕ → Bool) × List Sealed × List Sealed × List Grant × List User :=
  (profileOf db org, db.bundles, db.credentials, db.grants, db.users)

theorem rotationBundles_congr {db' : Db} {org : ℕ}
    (h : afterProfiles org db' = afterProfiles org db) :
    rotationBundles db' org = rotationBundles db org := by
  obtain ⟨hprofiles, hrest⟩ := Prod.mk.inj h
  obtain ⟨hbundles, -⟩ := Prod.mk.inj hrest
  simp only [rotationBundles, hprofiles, hbundles]

theorem rotationCredentials_congr {db' : Db} {org : ℕ}
    (hprofiles : profileOf db' org = profileOf db org) (h : db'.credentials = db.credentials) :
    rotationCredentials db' org = rotationCredentials db org := by
  simp only [rotationCredentials, hprofiles, h]

theorem rotationShares_congr {db' : Db} {org : ℕ}
    (hprofiles : profileOf db' org = profileOf db org) (h : db'.grants = db.grants)
    (husers : db'.users = db.users) : rotationShares db' org = rotationShares db org := by
  simp only [rotationShares, hprofiles, h, husers]

/-- What an owner or an admin is answered. -/
theorem rotationMaterial_ok (h : rotationMaterial db caller = .ok mat) :
    caller.administers = true ∧ ∃ o, lookup Org.id db.orgs caller.org = some o ∧
      mat = ⟨o.generation, rotationProfiles db caller.org, rotationBundles db caller.org,
        rotationCredentials db caller.org, rotationShares db caller.org,
        materialMembers db caller.org, materialProxies db caller.org⟩ := by
  unfold rotationMaterial at h
  split at h
  · cases h
  · rename_i hadmin
    refine ⟨by simpa using hadmin, ?_⟩
    cases hlook : lookup Org.id db.orgs caller.org with
    | none =>
      rw [hlook] at h
      cases h
    | some o =>
      rw [hlook] at h
      cases h
      exact ⟨o, rfl, rfl⟩

/-- Who is listed is a member with a key who is not disabled. -/
theorem mem_materialMembers {org : ℕ} {item : ℕ × String × Bytes} :
    item ∈ materialMembers db org ↔ ∃ m ∈ db.members, m.org = org ∧ m.wrappedOrk.isSome = true ∧
      ∃ u ∈ db.users, u.id = m.user ∧ u.disabled = false ∧
        (u.id, u.email, u.publicKey) = item := by
  simp only [materialMembers, List.mem_flatMap, List.mem_map, List.mem_filter, Bool.and_eq_true,
    decide_eq_true_eq, Bool.not_eq_true']
  constructor
  · rintro ⟨m, ⟨hm, horg, hkey⟩, u, ⟨hu, hid, hon⟩, heq⟩
    exact ⟨m, hm, horg, hkey, u, hu, hid, hon, heq⟩
  · rintro ⟨m, hm, horg, hkey, u, hu, hid, hon, heq⟩
    exact ⟨m, ⟨hm, horg, hkey⟩, u, ⟨hu, hid, hon⟩, heq⟩

/-- No disabled member of the organisation holds a key. -/
def NoneDisabled (db : Db) (org : ℕ) : Prop :=
  ∀ m ∈ db.members, m.org = org → m.wrappedOrk.isSome = true →
    ∀ u ∈ db.users, u.id = m.user → u.disabled = false

/-- Where no disabled member holds a key, the members' check finds all of them. -/
theorem noGap_coverMembers {org : ℕ} (hon : NoneDisabled db org)
    (h : ∀ m ∈ materialMembers db org, ∃ x ∈ req.members, x.id = m.1) :
    NoGap (coverMembers db org req) := by
  rw [coverMembers]
  cases hfind : (db.members.filter fun m => m.org = org && m.wrappedOrk.isSome).find? fun m =>
      !req.members.any fun x => x.id = m.user with
  | none => exact noGap_ok ()
  | some m =>
    obtain ⟨hm, hkept⟩ := List.mem_filter.mp (List.mem_of_find?_eq_some hfind)
    obtain ⟨horg, hkey⟩ : m.org = org ∧ m.wrappedOrk.isSome = true := by simpa using hkept
    obtain ⟨u, hu, hid⟩ := db.memberUsers m hm
    obtain ⟨x, hx, hxid⟩ := h _ (mem_materialMembers.mpr
      ⟨m, hm, horg, hkey, u, hu, hid, hon m hm horg hkey u hu hid, rfl⟩)
    have hany : req.members.any (fun x => x.id = m.user) = true :=
      List.any_eq_true.mpr ⟨x, hx, decide_eq_true (hxid.trans hid)⟩
    have hlacks := List.find?_some hfind
    simp [hany] at hlacks

/-- With no disabled member among the holders, an answer leaves no gap. -/
theorem noGap_of_noneDisabled (h : rotationMaterial db caller = .ok mat)
    (hon : NoneDisabled db caller.org) (ha : Answers mat req) :
    NoGap (rotateOrgKey db caller steppedUp req) := by
  obtain ⟨-, o, -, rfl⟩ := rotationMaterial_ok h
  unfold rotateOrgKey
  refine noGap_bind noGap_mayRotate fun o _ => ?_
  rw [ha.removes]
  refine noGap_bind (noGap_ok db) fun _ hdb => ?_
  cases hdb
  refine noGap_bind (noGap_coverMembers hon ha.members) fun _ _ => ?_
  refine noGap_bind noGap_supply fun db₁ h₁ => ?_
  refine noGap_bind noGap_supply fun db₂ h₂ => ?_
  have hlater : later db₂ = later db :=
    (supply_keeps later h₂ fun _ _ _ => rfl).trans (supply_keeps later h₁ fun _ _ _ => rfl)
  have hprofiles : db₂.profiles = db.profiles := congrArg (·.1) hlater
  have hof : profileOf db₂ caller.org = profileOf db caller.org := by
    funext profile
    rw [profileOf, hprofiles]
    rfl
  have hafter : afterProfiles caller.org db₂ = afterProfiles caller.org db := by
    rw [afterProfiles, hof]
    exact congrArg (Prod.mk _) (congrArg (·.2) hlater)
  refine noGap_bind (noGap_cover fun i hi => ?_) fun _ _ => ?_
  · obtain ⟨p, hp, rfl⟩ := List.mem_map.mp hi
    refine ha.profiles p ?_
    simpa only [rotationProfiles, hprofiles] using hp
  refine noGap_bind noGap_supply fun db₃ h₃ => ?_
  have hafter₃ : afterProfiles caller.org db₃ = afterProfiles caller.org db := by
    refine (supply_keeps (afterProfiles caller.org) h₃ fun i w db => ?_).trans hafter
    rw [afterProfiles, funext (profileOf_wrapCookieKey caller.org caller.org i · w db)]
    rfl
  refine noGap_bind (noGap_cover fun i hi => ?_) fun _ _ => ?_
  · obtain ⟨b, hb, rfl⟩ := List.mem_map.mp hi
    rw [rotationBundles_congr hafter₃] at hb
    exact ha.bundles b hb
  refine noGap_bind noGap_supply fun db₄ h₄ => ?_
  have hof₄ : profileOf db₄ caller.org = profileOf db caller.org :=
    (supply_keeps (profileOf · caller.org) h₄ fun _ _ _ => rfl).trans
      (congrArg (·.1) hafter₃)
  have hcredentials : db₄.credentials = db.credentials :=
    (supply_keeps Db.credentials h₄ fun _ _ _ => rfl).trans (congrArg (·.2.2.1) hafter₃)
  have hgrants : db₄.grants = db.grants :=
    (supply_keeps Db.grants h₄ fun _ _ _ => rfl).trans (congrArg (·.2.2.2.1) hafter₃)
  have husers : db₄.users = db.users :=
    (supply_keeps Db.users h₄ fun _ _ _ => rfl).trans (congrArg (·.2.2.2.2) hafter₃)
  refine noGap_bind (noGap_cover fun i hi => ?_) fun _ _ => ?_
  · obtain ⟨c, hc, rfl⟩ := List.mem_map.mp hi
    rw [rotationCredentials_congr hof₄ hcredentials] at hc
    exact ha.credentials c hc
  refine noGap_bind noGap_supply fun db₅ h₅ => ?_
  refine noGap_bind (noGap_cover fun i hi => ?_) fun _ _ => ?_
  · obtain ⟨g, hg, rfl⟩ := List.mem_map.mp hi
    rw [rotationShares_congr
      ((supply_keeps (profileOf · caller.org) h₅ fun _ _ _ => rfl).trans hof₄)
      ((supply_keeps Db.grants h₅ fun _ _ _ => rfl).trans hgrants)
      ((supply_keeps Db.users h₅ fun _ _ _ => rfl).trans husers)] at hg
    exact .inl (ha.shares g hg)
  refine noGap_bind noGap_supply fun db₆ _ => ?_
  exact noGap_ok _

/-- A key of the length that is asked for. -/
def filled (n : ℕ) : Option Bytes := some (utf8 "fury:ork1:" ++ List.replicate n 0)

/-- The request that sends back just what was listed. -/
def answerOf (mat : Material) : RotateRequest where
  removeUser := none
  members := mat.members.map fun m => ⟨m.1, filled 104⟩
  proxies := (mat.proxies.filter fun p => p.2.isSome).map fun p => ⟨p.1, filled 40⟩
  generation := mat.generation
  cookieKeys := mat.profiles.map fun p => ⟨p.1, filled 40⟩
  bundles := mat.bundles.map fun b => ⟨b.1, filled 60⟩
  credentials := mat.credentials.map fun c => ⟨c.1, filled 40⟩
  shares := mat.shares.map fun g => ⟨(g.1, g.2.1), filled 104⟩
  unreadable := []

theorem answers_answerOf (mat : Material) : Answers mat (answerOf mat) where
  removes := rfl
  generation := rfl
  members := fun m hm => ⟨_, List.mem_map.mpr ⟨m, hm, rfl⟩, rfl⟩
  proxies := fun p hp hkey =>
    ⟨_, List.mem_map.mpr ⟨p, List.mem_filter.mpr ⟨hp, hkey⟩, rfl⟩, rfl⟩
  profiles := fun p hp => .inl ⟨_, List.mem_map.mpr ⟨p, hp, rfl⟩, rfl⟩
  bundles := fun b hb => .inl ⟨_, List.mem_map.mpr ⟨b, hb, rfl⟩, rfl⟩
  credentials := fun c hc => .inl ⟨_, List.mem_map.mpr ⟨c, hc, rfl⟩, rfl⟩
  shares := fun g hg => ⟨_, List.mem_map.mpr ⟨g, hg, rfl⟩, rfl⟩

/-- What was listed does not cover a disabled member who holds a key. -/
theorem coverMembers_disabled {org : ℕ} {m : Member} {u : User} (hm : m ∈ db.members)
    (horg : m.org = org) (hkey : m.wrappedOrk.isSome = true) (hu : u ∈ db.users)
    (hid : u.id = m.user) (hoff : u.disabled = true)
    (hmembers : mat.members = materialMembers db org) :
    ∃ user, coverMembers db org (answerOf mat) = .error (.lockedOut user) := by
  have huncovered : (answerOf mat).members.any (fun x => x.id = m.user) = false := by
    refine List.any_eq_false.mpr fun x hx => ?_
    obtain ⟨item, hitem, rfl⟩ := List.mem_map.mp hx
    rw [hmembers] at hitem
    obtain ⟨m', -, -, -, u', hu', -, hon, rfl⟩ := mem_materialMembers.mp hitem
    intro hsame
    have heq : u' = u := db.userIds.eq hu' hu ((of_decide_eq_true hsame).trans hid.symm)
    rw [heq, hoff] at hon
    cases hon
  rw [coverMembers]
  cases hfind : (db.members.filter fun m => m.org = org && m.wrappedOrk.isSome).find? fun m =>
      !(answerOf mat).members.any fun x => x.id = m.user with
  | some m' => exact ⟨m'.user, rfl⟩
  | none =>
    have hall := List.find?_eq_none.mp hfind m
      (List.mem_filter.mpr ⟨hm, by simp [horg, hkey]⟩)
    simp [huncovered] at hall

/-- Every request that answers the material passes whatever is checked for completeness, exactly
when no disabled member of the organisation holds a key. -/
theorem answered_passes_iff (steppedUp : Bool) (h : rotationMaterial db caller = .ok mat) :
    (∀ req, Answers mat req → NoGap (rotateOrgKey db caller steppedUp req)) ↔
      NoneDisabled db caller.org := by
  constructor
  · intro hall m hm horg hkey u hu hid
    by_contra hoff
    obtain ⟨hadmin, o, ho, hmat⟩ := rotationMaterial_ok h
    obtain ⟨user, hcover⟩ := coverMembers_disabled hm horg hkey hu hid (by simpa using hoff)
      (congrArg Material.members hmat)
    have hrotate : mayRotate db caller steppedUp (answerOf mat) = .ok o := by
      simp [mayRotate, hadmin, ho, answerOf, hmat]
    have hresult : rotateOrgKey db caller steppedUp (answerOf mat) = .error (.lockedOut user) := by
      have hremove : remove db caller (answerOf mat).removeUser = .ok db := rfl
      simp only [rotateOrgKey, hrotate, hremove, hcover, bind, Except.bind]
    have hgap := hall (answerOf mat) (answers_answerOf mat) _ hresult
    cases hgap
  · exact fun hon req ha => noGap_of_noneDisabled h hon ha

/-- An organisation with an owner, another member, and something of each kind. -/
def office (disabled : Bool) : Db where
  orgs := [⟨1, 3⟩]
  users := [⟨7, "owner@example.com", [1], false⟩, ⟨8, "left@example.com", [2], disabled⟩,
    ⟨9, "friend@example.com", [3], false⟩]
  members := [⟨1, 7, .owner, some [0], 3⟩, ⟨1, 8, .member, some [0], 3⟩]
  proxies := [⟨20, 1, some [0], false⟩, ⟨21, 1, none, false⟩, ⟨22, 1, some [0], true⟩]
  profiles := [⟨30, 1, some [0], false⟩, ⟨31, 1, none, true⟩]
  bundles := [⟨40, 31, utf8 "fury:ork1:AA"⟩, ⟨41, 30, [1, 2]⟩]
  credentials := [⟨50, 30, [0]⟩]
  grants := [⟨30, 9, some [0], some 0⟩]
  userIds := by
    unfold KeyUnique
    cases disabled <;> decide
  memberUsers := by cases disabled <;> decide

/-- An owner. -/
def owner : Caller := ⟨7, 1, .owner⟩

/-- What they are asked for. -/
def asked (disabled : Bool) : Material where
  generation := 3
  profiles := [(30, some [0]), (31, none)]
  bundles := [(40, 31, utf8 "fury:ork1:AA")]
  credentials := [(50, [0])]
  shares := [(30, 9, [3])]
  members := (7, "owner@example.com", [1]) ::
    if disabled then [] else [(8, "left@example.com", [2])]
  proxies := [(20, some [0]), (21, none)]

theorem answered_passes_iff_enabled :
    NoGap (rotateOrgKey (office false) owner true (answerOf (asked false))) := by
  have hasked : rotationMaterial (office false) owner = .ok (asked false) := rfl
  have hon : NoneDisabled (office false) owner.org := by
    unfold NoneDisabled
    decide
  exact (answered_passes_iff true hasked).mpr hon _ (answers_answerOf _)

/-- The refusal of a request, if it is refused. -/
def refusal {α : Type} : Except Refusal α → Option Refusal
  | .error r => some r
  | .ok _ => none

theorem refusal_some {α : Type} {x : Except Refusal α} {r : Refusal} (h : refusal x = some r) :
    x = .error r := by
  cases x with
  | error r' =>
    cases h
    rfl
  | ok a => cases h

/-- The other member is disabled, and the request that answers everything is refused. -/
theorem disabled_member_blocks_rotation :
    ¬ ∀ (db : Db) (caller : Caller) (mat : Material), rotationMaterial db caller = .ok mat →
      ∀ req, Answers mat req → NoGap (rotateOrgKey db caller false req) := by
  intro h
  have hasked : rotationMaterial (office true) owner = .ok (asked true) := rfl
  have hpasses := h (office true) owner (asked true) hasked (answerOf (asked true))
    (answers_answerOf _)
  have hrefused : refusal (rotateOrgKey (office true) owner false (answerOf (asked true))) =
      some (.lockedOut 8) := by decide
  have hgap := hpasses _ (refusal_some hrefused)
  cases hgap

end Answers

end FuryBrowser.RotationMaterial
