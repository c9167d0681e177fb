import FuryBrowser.OrgKeySteps

/-!
# The generation on a member's key

A member's row says which generation of the organisation key it holds, and a
client that unwraps it relies on that. `rotate_org_key` labels the keys it is
given with the generation it makes. `hand_over_key` labels a key with the
generation it finds, whatever the key was wrapped from, and
`complete_enrollment` labels whatever came with the request with generation 1.

In runs in which a key that is handed over is wrapped from the one in force when
the request is read, and nobody joins an existing organisation with a key of
another generation than the first, every label is true.
-/

namespace FuryBrowser.KeyGeneration

open GuardedRuns RowTable OrgKeys

/-- A member's row carries the generation of the key inside it. -/
def Labelled (r : Row) : Prop :=
  r.ref.kind = .members → ∀ k ∈ r.key, r.label = some k.generation

instance (r : Row) : Decidable (Labelled r) := by
  unfold Labelled
  infer_instance

/-- Every member's row does. -/
def LabelsTrue (w : World) : Prop := ∀ r ∈ w.rows, Labelled r

instance (w : World) : Decidable (LabelsTrue w) := by
  unfold LabelsTrue
  infer_instance

/-- A key that is handed over was wrapped from the organisation key in force when
the request is read, and a key that somebody joins with is of the first. -/
def FromKeyInForce (w : World) (a : Label) : Prop :=
  match a with
  | .handOverReads caller _ wrappedOrk =>
    ∀ s ∈ w.administers caller, w.generation s.org = some wrappedOrk.generation
  | .enroll invitation _ _ wrappedOrk =>
    ∀ inv ∈ lookup Invitation.id w.invitations invitation, inv.org.isSome = true →
      ∀ k ∈ wrappedOrk, k.generation = 1
  | _ => True

instance : DecidableRel FromKeyInForce := fun w a => by
  rcases a with _ | _ <;> dsimp only [FromKeyInForce] <;> infer_instance

/-- What those runs keep. -/
structure Inv (w : World) : Prop where
  labels : LabelsTrue w
  /-- A key on its way to a member will get a true one. -/
  handed : ∀ h ∈ w.handOvers, h.key.generation = h.generation

theorem inv_empty : Inv empty := ⟨List.forall_mem_nil _, List.forall_mem_nil _⟩

/-- A rotation labels what it writes with the generation it makes. -/
theorem labelled_applied {rot : Rotation} {r : Row} (h : Labelled r) :
    Labelled (rot.applied r) := by
  rcases applied_cases rot r with ⟨s, _, _, _, hkey, hlabel⟩ | ⟨hsame, _⟩
  · intro hkind k hk
    rw [applied_ref] at hkind
    rw [hkey] at hk
    cases hk
    exact hlabel hkind
  · rw [hsame]
    exact h

theorem inv_step : Preserved step FromKeyInForce Inv := by
  intro w a w' h hg hs
  refine ⟨fun r hr hkind => ?_, fun x hx => ?_⟩
  · obtain ⟨user, href⟩ : ∃ user, r.ref = .member user := by
      cases href : r.ref <;> rw [href] at hkind <;> cases hkind
      exact ⟨_, rfl⟩
    have hrow := step_members hs hr href
    cases hrow with
    | same hin _ => exact h.labels r hin hkind
    | signup _ =>
      rintro k ⟨rfl⟩
      rfl
    | @joins invitation newOrg org inv wrappedOrk hinv horg _ =>
      intro k hk
      have hfirst := hg inv hinv (by rw [horg]; rfl) k hk
      have hsome : wrappedOrk = some k := hk
      subst hsome
      rw [hfirst]
      rfl
    | founds _ _ _ =>
      intro k hk
      obtain ⟨x, rfl, rfl⟩ := Option.map_eq_some_iff.mp hk
      rfl
    | handed hh _ _ _ _ =>
      rintro k ⟨rfl⟩
      rw [h.handed _ (lookup_some hh).1]
    | rotated hrot hold _ => exact labelled_applied (h.labels _ hold) hkind
  · rcases step_handOvers hs hx with hin | ⟨caller, s, rfl, hseat, _, hgen⟩
    · exact h.handed x hin
    · have hforce := hg s hseat
      rw [hgen] at hforce
      exact (Option.some.inj hforce).symm

/-- However enrolments, hand-overs and rotations interleave, in those runs every
member's row with a key carries the generation of the key inside it. -/
theorem labels_are_true {w : World} (hr : Reached init step FromKeyInForce w) : LabelsTrue w :=
  (hr.invariant Inv (fun _ hi => hi ▸ inv_empty) inv_step).labels

/-- An owner and a member who is still to be handed the key. -/
def joined : List Label :=
  [.signup 1 0 sealedKey, .invite 1 .member, .enroll 0 2 9 none]

/-- A rotation that gives these members the new key. -/
def newKeyFor (users : List ℕ) : RotateRequest :=
  { removeUserId := none
    members := users.map fun user => (user, sealedKey)
    proxies := []
    generation := 1
    cookieKeys := []
    bundles := []
    credentials := []
    shares := []
    unreadable := [] }

/-- The key is handed over, and then replaced. -/
def handedThenRotated : List Label :=
  joined ++ [.handOverReads 1 2 ⟨sealedKey, 1⟩, .handOverWrites 1] ++
    wholeRotation 2 1 (newKeyFor [1, 2])

theorem labels_are_true_rotated : LabelsTrue (after handedThenRotated) := by
  have hempty : Reached init step FromKeyInForce empty := .start rfl
  exact labels_are_true
    (hempty.run handedThenRotated (by decide) (by decide))

/-- The key is replaced, and then the old one is handed over. -/
def rotatedThenHanded : List Label :=
  joined ++ wholeRotation 1 1 (newKeyFor [1]) ++
    [.handOverReads 1 2 ⟨sealedKey, 1⟩, .handOverWrites 2]

/-- A key wrapped before a rotation and handed over after it is stored with the
generation of the new key. -/
theorem retired_key_labelled_new :
    Reached init step anyStep (after rotatedThenHanded) ∧
      ⟨.member 2, 0, some ⟨sealedKey, 1⟩, some 2, false⟩ ∈ (after rotatedThenHanded).rows ∧
      ¬ LabelsTrue (after rotatedThenHanded) := by
  have hempty : Reached init step anyStep empty := .start rfl
  refine ⟨?_, by decide, by decide⟩
  exact hempty.run_any rotatedThenHanded (by decide)

end FuryBrowser.KeyGeneration

/-!
# Who is admitted to the organisation key

A member's wrapped organisation key is null until somebody hands it over, and a
rotation gives the new key to those whose key is not null and to nobody else. An
owner's key comes with the enrolment, for there is nobody to hand it over yet,
but the enrolment of any other member takes one too.

In runs in which only owners bring a key, every member with a key on record
founded the organisation or was handed it by an owner or an admin.
-/

namespace FuryBrowser.KeyAdmission

open GuardedRuns RowTable OrgKeys

/-- The member founded the organisation, or somebody called `hand_over_key`. -/
def Admitted (w : World) (user org : ℕ) : Prop :=
  ∃ s ∈ w.seats, s.user = user ∧ s.org = org ∧ (s.founder = true ∨ s.admitted = true)

instance (w : World) (user org : ℕ) : Decidable (Admitted w user org) := by
  unfold Admitted
  infer_instance

/-- Only those have a key on record. -/
def OnlyAdmitted (w : World) : Prop :=
  ∀ r ∈ w.rows, r.key.isSome = true → ∀ user, r.ref = .member user → Admitted w user r.org

/-- Who is not invited as owner brings no key. -/
def OnlyOwnersBringKeys (w : World) (a : Label) : Prop :=
  match a with
  | .enroll invitation _ _ wrappedOrk =>
    ∀ inv ∈ lookup Invitation.id w.invitations invitation, inv.role ≠ .owner →
      wrappedOrk = none
  | _ => True

instance : DecidableRel OnlyOwnersBringKeys := fun w a => by
  unfold OnlyOwnersBringKeys
  split <;> infer_instance

/-- What those runs keep. -/
structure Inv (w : World) : Prop where
  /-- Rotations are separate. -/
  separate : Separate w
  /-- Nobody is invited to be a second owner. -/
  oneOwner : ∀ inv ∈ w.invitations, inv.org.isSome = true → inv.role ≠ .owner
  /-- A member's row has its seat. -/
  seated : ∀ r ∈ w.rows, ∀ user, r.ref = .member user →
    ∃ s ∈ w.seats, s.user = user ∧ s.org = r.org
  /-- Only those admitted have a key. -/
  keyed : OnlyAdmitted w
  /-- A rotation gives the new key to those admitted. -/
  written : ∀ rot ∈ w.rotations, ∀ x ∈ rot.writes, ∀ user, x.1 = .member user →
    Admitted w user rot.org

theorem inv_empty : Inv empty :=
  ⟨separate_empty, List.forall_mem_nil _, List.forall_mem_nil _, List.forall_mem_nil _,
    List.forall_mem_nil _⟩

section Steps

variable {w w' : World} {a : Label} {user org : ℕ}

/-- The rotation that commits, if this is one, does not remove the member. -/
def Stays (w : World) (a : Label) (user org : ℕ) : Prop :=
  ∀ id rot, a = .rotateCommits id → lookup Rotation.id w.rotations id = some rot →
    org = rot.org → rot.removes (.member user) = false

theorem stays_of_not_commit (ha : ∀ id, a ≠ .rotateCommits id) : Stays w a user org :=
  fun id _ heq => absurd heq (ha id)

/-- Who has a seat and stays keeps it. -/
theorem seat_step (hs : step w a = some w') (hstays : Stays w a user org)
    (h : ∃ s ∈ w.seats, s.user = user ∧ s.org = org) :
    ∃ s ∈ w'.seats, s.user = user ∧ s.org = org := by
  obtain ⟨s, hseat, rfl, rfl⟩ := h
  rcases step_seats hs hseat with ⟨s', hs', huser, horg, _⟩ | ⟨id, rot, ha, hrot, horg, hgone⟩
  · exact ⟨s', hs', huser, horg⟩
  · rw [hstays id rot ha hrot horg] at hgone
    cases hgone

/-- Who is admitted and stays is still admitted. -/
theorem admitted_step (hs : step w a = some w') (hstays : Stays w a user org)
    (h : Admitted w user org) : Admitted w' user org := by
  obtain ⟨s, hseat, rfl, rfl, hwhy⟩ := h
  rcases step_seats hs hseat with ⟨s', hs', huser, horg, hkeeps⟩ | ⟨id, rot, ha, hrot, horg, hgone⟩
  · exact ⟨s', hs', huser, horg, hkeeps hwhy⟩
  · rw [hstays id rot ha hrot horg] at hgone
    cases hgone

/-- A rotation that is not over is not the one that commits, so it keeps the
members of its organisation. -/
theorem stays_of_rotating (h : Separate w) {rot : Rotation} {id : ℕ} (hin : rot ∈ w.rotations)
    (hid : rot.id ≠ id) (ha : ∀ other, a = .rotateCommits other → other = id) :
    Stays w a user rot.org := by
  intro other found heq hfound horg
  obtain ⟨hmem, hfid⟩ := lookup_some hfound
  have hsame := h.orgs.eq hin hmem horg
  rw [hsame, hfid, ha other heq] at hid
  exact absurd rfl hid

/-- A rotation keeps who it does not remove. -/
theorem stays_of_kept {id : ℕ} {rot : Rotation}
    (hrot : lookup Rotation.id w.rotations id = some rot)
    (hkept : org = rot.org → rot.removes (.member user) = false) :
    Stays w (.rotateCommits id) user org := by
  intro other found heq hfound horg
  cases heq
  cases hrot.symm.trans hfound
  exact hkept horg

/-- Invitations to an existing organisation are never for an owner. -/
theorem oneOwner_step (h : Inv w) (hs : step w a = some w') :
    ∀ inv ∈ w'.invitations, inv.org.isSome = true → inv.role ≠ .owner := by
  intro inv hinv hsome
  rcases step_invitations hs hinv with hin | hnot
  · exact h.oneOwner inv hin hsome
  · exact hnot hsome

theorem seated_step (h : Inv w) (hs : step w a = some w') :
    ∀ r ∈ w'.rows, ∀ user, r.ref = .member user →
      ∃ s ∈ w'.seats, s.user = user ∧ s.org = r.org := by
  intro r hr user href
  cases step_members hs hr href with
  | same hin ha => exact seat_step hs (stays_of_not_commit ha) (h.seated r hin user href)
  | signup hseat => exact ⟨_, hseat, rfl, rfl⟩
  | joins _ _ hseat => exact ⟨_, hseat, rfl, rfl⟩
  | founds _ _ hseat => exact ⟨_, hseat, rfl, rfl⟩
  | handed _ hold _ _ _ =>
    exact seat_step hs (stays_of_not_commit nofun) (h.seated _ hold user href)
  | @rotated id rot old hrot hold hkept =>
    rw [applied_ref] at href
    rw [applied_org]
    rw [href] at hkept
    exact seat_step hs (stays_of_kept hrot hkept) (h.seated old hold user href)

theorem keyed_step (h : Inv w) (hg : OnlyOwnersBringKeys w a) (hs : step w a = some w') :
    OnlyAdmitted w' := by
  intro r hr hkey user href
  cases step_members hs hr href with
  | same hin ha => exact admitted_step hs (stays_of_not_commit ha) (h.keyed r hin hkey user href)
  | signup hseat => exact ⟨_, hseat, rfl, rfl, .inl rfl⟩
  | joins hinv horg _ =>
    -- Nobody joins as owner, and the others bring no key.
    have hrole := h.oneOwner _ (lookup_some hinv).1 (by rw [horg]; rfl)
    have hnone := hg _ hinv hrole
    rw [hnone] at hkey
    cases hkey
  | @founds invitation newOrg inv wrappedOrk hinv horg hseat =>
    by_cases hrole : inv.role = .owner
    · exact ⟨_, hseat, rfl, rfl, .inl (decide_eq_true hrole)⟩
    · have hnone := hg inv hinv hrole
      rw [hnone] at hkey
      cases hkey
  | @handed id x old hh hold hxref horg hseats =>
    have heq : user = x.user := Ref.member.inj (href.symm.trans hxref)
    obtain ⟨s, hseat, huser, hsorg⟩ := h.seated old hold user href
    refine ⟨_, hseats s hseat (huser.trans heq) (hsorg.trans horg), huser, hsorg, .inr rfl⟩
  | @rotated id rot old hrot hold hkept =>
    rw [applied_ref] at href
    rw [applied_org]
    rw [href] at hkept
    refine admitted_step hs (stays_of_kept hrot hkept) ?_
    rcases applied_cases rot old with ⟨x, hx, hxref, horg, _⟩ | ⟨hsame, _⟩
    · rw [horg]
      exact h.written rot (lookup_some hrot).1 x hx user (hxref.trans href)
    · rw [hsame] at hkey
      exact h.keyed old hold hkey user href

theorem written_step (h : Inv w) (hs : step w a = some w') :
    ∀ rot ∈ w'.rotations, ∀ x ∈ rot.writes, ∀ user, x.1 = .member user →
      Admitted w' user rot.org := by
  intro rot hrot x hx user href
  cases step_rotations hs with
  | same hrots _ ha =>
    rw [hrots] at hrot
    exact admitted_step hs (stays_of_not_commit ha) (h.written rot hrot x hx user href)
  | ends hrots _ ha =>
    rw [hrots] at hrot
    obtain ⟨hin, hid⟩ := mem_deleteWhere.mp hrot
    exact admitted_step hs (stays_of_rotating h.separate hin (by simpa using hid) ha)
      (h.written rot hin x hx user href)
  | begins _ hrots _ =>
    rw [hrots] at hrot
    rcases List.mem_cons.mp hrot with rfl | hin
    · cases hx
    · exact admitted_step hs (stays_of_not_commit nofun) (h.written rot hin x hx user href)
  | @runs id found phase rest writes hfound htodo hruns hrots _ =>
    rw [hrots] at hrot
    refine admitted_step hs (stays_of_not_commit nofun) ?_
    rcases updateWhere_cases hrot with ⟨hin, _⟩ | ⟨old, hin, hid, rfl⟩
    · exact h.written rot hin x hx user href
    · obtain ⟨hmem, hfid⟩ := lookup_some hfound
      have heq : old = found := h.separate.ids.eq hin hmem (by simpa [hfid] using hid)
      subst heq
      rcases writes_of_runs hruns hx with hold | ⟨r, hr, hsees, hrref, hupdates⟩
      · exact h.written old hin x hold user href
      · -- The update matches only members who hold a key already.
        rw [href] at hrref hupdates
        have horg : r.org = old.org := by
          simpa using (Bool.and_eq_true_iff.mp hsees).1
        show Admitted w user old.org
        rw [← horg]
        exact h.keyed r hr hupdates user hrref

theorem inv_step : Preserved step OnlyOwnersBringKeys Inv := fun _ _ _ h hg hs =>
  { separate := separate_step h.separate hs
    oneOwner := oneOwner_step h hs
    seated := seated_step h hs
    keyed := keyed_step h hg hs
    written := written_step h hs }

end Steps

/-- Over all invitations, enrolments, hand-overs and rotations of those runs, a
member with a wrapped organisation key founded the organisation or was handed
it. -/
theorem only_admitted_hold_keys {w : World} (hr : Reached init step OnlyOwnersBringKeys w) :
    OnlyAdmitted w :=
  (hr.invariant Inv (fun _ hi => hi ▸ inv_empty) inv_step).keyed

/-- A member is invited, enrols without a key, and is handed it. -/
def admittedByHand : List Label :=
  [.signup 1 0 sealedKey, .invite 1 .member, .enroll 0 2 9 none,
    .handOverReads 1 2 ⟨sealedKey, 1⟩, .handOverWrites 1]

theorem only_admitted_hold_keys_handed : Admitted (after admittedByHand) 2 0 := by
  have hempty : Reached init step OnlyOwnersBringKeys empty := .start rfl
  have hreached : Reached init step OnlyOwnersBringKeys (after admittedByHand) :=
    hempty.run admittedByHand (by decide) (by decide)
  exact only_admitted_hold_keys hreached ⟨.member 2, 0, some ⟨sealedKey, 1⟩, some 1, false⟩
    (by decide) rfl 2 rfl

/-- A member is invited and enrols with something in the place of a key. -/
def broughtAlong : List Label :=
  [.signup 1 0 sealedKey, .invite 1 .member, .enroll 0 2 9 (some ⟨⟨4, some 3, false⟩, 0⟩)]

/-- The next rotation, which the member's row makes supply the new key to it. -/
def nextRotation : RotateRequest :=
  { removeUserId := none
    members := [(1, sealedKey), (2, sealedKey)]
    proxies := []
    generation := 1
    cookieKeys := []
    bundles := []
    credentials := []
    shares := []
    unreadable := [] }

/-- The enrolment of somebody who was not admitted puts a key on record, and the
next rotation gives them the new one. -/
theorem enrolment_admits_itself :
    Reached init step anyStep (after broughtAlong) ∧ ¬ OnlyAdmitted (after broughtAlong) ∧
      Reached init step anyStep (after (broughtAlong ++ wholeRotation 1 1 nextRotation)) ∧
      ⟨.member 2, 0, some ⟨sealedKey, 2⟩, some 2, false⟩ ∈
        (after (broughtAlong ++ wholeRotation 1 1 nextRotation)).rows := by
  have hempty : Reached init step anyStep empty := .start rfl
  refine ⟨?_, fun h => ?_, ?_, by decide⟩
  · exact hempty.run_any broughtAlong (by decide)
  · exact absurd (h ⟨.member 2, 0, some ⟨⟨4, some 3, false⟩, 0⟩, some 1, false⟩
      (by decide) rfl 2 rfl) (by decide)
  · exact hempty.run_any (broughtAlong ++ wholeRotation 1 1 nextRotation) (by decide)

end FuryBrowser.KeyAdmission
