import FuryBrowser.KeyRotation

/-!
# What can be read after a rotation

A rotation that is accepted keeps readable what was readable exactly when the key that the
machine holds opens, in what it was given, all that the current key opens, and to the same
values. That is so when the machine holds the current key and nothing has changed since. A
machine with an earlier key passes if the organisation has nothing at all; else bundles and
saved logins stay under a key that nobody has, and a cookie key is replaced by another.
-/

namespace FuryBrowser.RotationReadable

open RowTable WrappedKeys KeyRotation
open OrgKeys (Ref)

universe u v w x y

variable {κ : Type u} {η : Type v} {β : Type w} {ν : Type x} {π : Type y}

section Statements

variable (K : KeyScheme κ η β ν π)

/-- What could be read under one key can be read under another after a rotation. -/
structure Readable (current new : κ) (before after : Server β π) : Prop where
  /-- Data keys of proxies that are not deleted. -/
  proxies : ∀ x ∈ before.proxies, x.deleted = false → ∀ v, proxyDek K current x = some v →
    ∃ y ∈ after.proxies, y.id = x.id ∧ proxyDek K new y = some v
  cookieKeys : ∀ p ∈ before.profiles, ∀ ck, cookieKey K current p = some ck →
    ∃ q ∈ after.profiles, q.id = p.id ∧ cookieKey K new q = some ck
  bundles : ∀ b ∈ before.bundles, ∀ v, bundleDek K current b = some v →
    ∃ d ∈ after.bundles, d.id = b.id ∧ bundleDek K new d = some v
  /-- Data keys of saved logins. -/
  credentials : ∀ c ∈ before.credentials, ∀ v, credentialDek K current c = some v →
    ∃ d ∈ after.credentials, d.id = c.id ∧ credentialDek K new d = some v
  logins : ∀ c ∈ before.credentials, ∀ v, openCredential K current c = some v →
    ∃ d ∈ after.credentials, d.id = c.id ∧ openCredential K new d = some v

/-- The key that is held opens, in what was given, all that the current key opens in what there
is, to the same values. -/
structure Agrees (held current : κ) (asked told : Server β π) : Prop where
  proxies : ∀ x ∈ told.proxies, x.deleted = false → ∀ v, proxyDek K current x = some v →
    ∃ y ∈ asked.proxies, y.id = x.id ∧ y.deleted = false ∧ proxyDek K held y = some v
  cookieKeys : ∀ p ∈ told.profiles, ∀ ck, cookieKey K current p = some ck →
    ∃ q ∈ asked.profiles, q.id = p.id ∧ cookieKey K held q = some ck
  bundles : ∀ b ∈ told.bundles, ∀ v, bundleDek K current b = some v →
    ∃ d ∈ asked.bundles, d.id = b.id ∧ d.profile = b.profile ∧ bundleDek K held d = some v
  /-- Data keys of saved logins. -/
  credentials : ∀ c ∈ told.credentials, ∀ v, credentialDek K current c = some v →
    ∃ d ∈ asked.credentials, d.id = c.id ∧ credentialDek K held d = some v

/-- There is nothing that a key opens. -/
structure Nothing (k : κ) (s : Server β π) : Prop where
  proxies : ∀ x ∈ s.proxies, x.deleted = false → proxyDek K k x = none
  cookieKeys : ∀ p ∈ s.profiles, cookieKey K k p = none
  bundles : ∀ b ∈ s.bundles, bundleDek K k b = none
  credentials : ∀ c ∈ s.credentials, credentialDek K k c = none

end Statements

section Rows

variable {K : KeyScheme κ η β ν π} {k k' : κ} {v : ν}

theorem proxyDek_unique {x : Proxy β} {v' : ν} (h : proxyDek K k x = some v)
    (h' : proxyDek K k' x = some v') : k = k' := by
  obtain ⟨w, hw, hv⟩ := Option.bind_eq_some_iff.mp h
  obtain ⟨w', hw', hv'⟩ := Option.bind_eq_some_iff.mp h'
  cases hw.symm.trans hw'
  exact K.opensOnce hv hv'

/-- A cookie key is the same under two keys only if they are. -/
theorem cookieKey_unique {p : Profile β} {ck : κ} (h : cookieKey K k p = some ck)
    (h' : cookieKey K k' p = some ck) : k = k' := by
  unfold cookieKey at h h'
  cases hw : p.wrappedCookieKey with
  | none =>
    simp only [hw] at h h'
    have hsame := Option.some.inj (h.trans h'.symm)
    exact (K.derive_inj (K.derive_inj hsame).1).1
  | some w =>
    simp only [hw] at h h'
    obtain ⟨_, hv, _⟩ := Option.bind_eq_some_iff.mp h
    obtain ⟨_, hv', _⟩ := Option.bind_eq_some_iff.mp h'
    exact (K.derive_inj (K.opensOnce hv hv')).1

theorem bundleDek_unique {b : Bundle β} {v' : ν} (h : bundleDek K k b = some v)
    (h' : bundleDek K k' b = some v') : k = k' := by
  obtain ⟨_, h⟩ := Option.ite_none_right_eq_some.mp h
  obtain ⟨_, h'⟩ := Option.ite_none_right_eq_some.mp h'
  exact (K.derive_inj (K.opensOnce h h')).1

theorem credentialDek_unique {c : Credential β} {v' : ν} (h : credentialDek K k c = some v)
    (h' : credentialDek K k' c = some v') : k = k' := K.opensOnce h h'

end Rows

section Written

variable {told : Server β π} {req : RotateRequest β}

theorem exists_rotated_proxy {x : Proxy β} (h : x ∈ told.proxies) {P : Proxy β → Prop} :
    (∃ y ∈ (rotated told req).proxies, y.id = x.id ∧ P y) ↔ P (moveProxy req x) := by
  have hset : ∀ (w : β) (x : Proxy β), ({ x with wrappedDek := some w } : Proxy β).id = x.id :=
    fun _ _ => rfl
  exact exists_written told.proxyIds hset h

theorem exists_rotated_profile {p : Profile β} (h : p ∈ told.profiles) {P : Profile β → Prop} :
    (∃ q ∈ (rotated told req).profiles, q.id = p.id ∧ P q) ↔ P (moveProfile req p) := by
  have hset : ∀ (w : β) (p : Profile β),
      ({ p with wrappedCookieKey := some w } : Profile β).id = p.id := fun _ _ => rfl
  exact exists_written told.profileIds hset h

theorem exists_rotated_bundle {b : Bundle β} (h : b ∈ told.bundles) {P : Bundle β → Prop} :
    (∃ d ∈ (rotated told req).bundles, d.id = b.id ∧ P d) ↔ P (moveBundle req b) := by
  have hset : ∀ (w : β) (b : Bundle β),
      ({ b with wrappedDek := w, shared := true } : Bundle β).id = b.id := fun _ _ => rfl
  exact exists_written told.bundleIds hset h

theorem exists_rotated_credential {c : Credential β} (h : c ∈ told.credentials)
    {P : Credential β → Prop} :
    (∃ d ∈ (rotated told req).credentials, d.id = c.id ∧ P d) ↔ P (moveCredential req c) := by
  have hset : ∀ (w : β) (c : Credential β),
      ({ c with wrappedDek := w } : Credential β).id = c.id := fun _ _ => rfl
  exact exists_written told.credentialIds hset h

end Written

section Carried

variable {K : KeyScheme κ η β ν π} {nonce : Ref → η} {held current new : κ}
variable {asked told : Server β π} {removeUser : Option ℕ} {req : RotateRequest β}

theorem rotateRequest_some (h : rotateRequest K nonce held new asked removeUser = some req) :
    req.proxies = carried Proxy.id (proxyDek K held)
        (fun x v => K.wrap new (nonce (.proxy x.id)) v) (materialProxies asked) ∧
      req.cookieKeys = carried Profile.id (cookieKey K held) (fun p v =>
        K.wrap (profileKey K new p.id) (nonce (.cookieKey p.id)) (K.ofKey v)) asked.profiles ∧
      req.bundles = carried Bundle.id (bundleDek K held) (fun b v =>
        K.wrap (profileKey K new b.profile) (nonce (.bundle b.id)) v) (materialBundles asked) ∧
      req.credentials = carried Credential.id (credentialDek K held)
        (fun c v => K.wrap new (nonce (.credential c.id)) v) asked.credentials := by
  unfold rotateRequest at h
  obtain ⟨_, h⟩ := Option.ite_none_right_eq_some.mp h
  cases h
  exact ⟨rfl, rfl, rfl, rfl⟩

variable (told) in
/-- Proxies are carried over as far as the held key opens what was given. -/
theorem proxies_iff (hnew : new ≠ current)
    (hreq : rotateRequest K nonce held new asked removeUser = some req) :
    (∀ x ∈ told.proxies.filter (fun x => !x.deleted), ∀ v, proxyDek K current x = some v →
      proxyDek K new (moveProxy req x) = some v) ↔
    ∀ x ∈ told.proxies.filter (fun x => !x.deleted), ∀ v, proxyDek K current x = some v →
      ∃ y ∈ materialProxies asked, y.id = x.id ∧ True ∧ proxyDek K held y = some v := by
  have hids : KeyUnique Proxy.id (materialProxies asked) :=
    asked.proxyIds.sublist (List.filter_sublist.map _)
  unfold moveProxy
  rw [(rotateRequest_some hreq).1]
  refine carried_iff _ _ _ _ _ _ (fun _ _ => True) hids (fun _ _ => rfl) (fun y x v v' _ => ?_)
    fun x v h h' => hnew (proxyDek_unique h' h)
  simp [proxyDek, KeyScheme.unwrap_wrap_iff]

variable (told) in
theorem cookieKeys_iff (hnew : new ≠ current)
    (hreq : rotateRequest K nonce held new asked removeUser = some req) :
    (∀ p ∈ told.profiles, ∀ ck, cookieKey K current p = some ck →
      cookieKey K new (moveProfile req p) = some ck) ↔
    ∀ p ∈ told.profiles, ∀ ck, cookieKey K current p = some ck →
      ∃ q ∈ asked.profiles, q.id = p.id ∧ True ∧ cookieKey K held q = some ck := by
  unfold moveProfile
  rw [(rotateRequest_some hreq).2.1]
  refine carried_iff _ _ _ _ _ _ (fun _ _ => True) asked.profileIds (fun _ _ => rfl)
    (fun q p v v' hid => ?_) fun p v h h' => hnew (cookieKey_unique h' h)
  have hopens : cookieKey K new { p with wrappedCookieKey := some (K.wrap (profileKey K new q.id)
      (nonce (.cookieKey q.id)) (K.ofKey v)) } = some v := by
    unfold cookieKey
    simp only [hid, K.unwrap_wrap, Option.bind_some, K.toKey_ofKey]
  rw [hopens]
  simp [eq_comm]

variable (told) in
/-- And data keys of bundles, where the bundle is of the same profile. -/
theorem bundles_iff (hnew : new ≠ current)
    (hreq : rotateRequest K nonce held new asked removeUser = some req) :
    (∀ b ∈ told.bundles, ∀ v, bundleDek K current b = some v →
      bundleDek K new (moveBundle req b) = some v) ↔
    ∀ b ∈ told.bundles, ∀ v, bundleDek K current b = some v →
      ∃ d ∈ materialBundles asked, d.id = b.id ∧ d.profile = b.profile ∧
        bundleDek K held d = some v := by
  have hids : KeyUnique Bundle.id (materialBundles asked) :=
    asked.bundleIds.sublist (List.filter_sublist.map _)
  unfold moveBundle
  rw [(rotateRequest_some hreq).2.2.1]
  refine carried_iff _ _ _ _ _ _ (fun d b : Bundle β => d.profile = b.profile) hids
    (fun _ _ => rfl) (fun d b v v' _ => ?_) fun b v h h' => hnew (bundleDek_unique h' h)
  unfold bundleDek
  rw [if_pos rfl, KeyScheme.unwrap_wrap_iff]
  refine and_congr_left fun _ => ⟨fun h => ((K.derive_inj h).2).symm, fun h => ?_⟩
  rw [h]

variable (told) in
theorem credentials_iff (hnew : new ≠ current)
    (hreq : rotateRequest K nonce held new asked removeUser = some req) :
    (∀ c ∈ told.credentials, ∀ v, credentialDek K current c = some v →
      credentialDek K new (moveCredential req c) = some v) ↔
    ∀ c ∈ told.credentials, ∀ v, credentialDek K current c = some v →
      ∃ d ∈ asked.credentials, d.id = c.id ∧ True ∧ credentialDek K held d = some v := by
  unfold moveCredential
  rw [(rotateRequest_some hreq).2.2.2]
  refine carried_iff _ _ _ _ _ _ (fun _ _ => True) asked.credentialIds (fun _ _ => rfl)
    (fun d c v v' _ => ?_) fun c v h h' => hnew (credentialDek_unique h' h)
  simp [credentialDek, KeyScheme.unwrap_wrap_iff]

/-- A saved login opens as long as its data key does. -/
theorem login_of_dek {c d : Credential β} {v : ν} {k k' : κ} (hpayload : d.payload = c.payload)
    (hdek : ∀ v, credentialDek K k c = some v → credentialDek K k' d = some v)
    (h : openCredential K k c = some v) : openCredential K k' d = some v := by
  obtain ⟨dek, hdek', hopen⟩ := Option.bind_eq_some_iff.mp h
  unfold openCredential
  rw [hdek dek hdek', Option.bind_some, hpayload]
  exact hopen

theorem payload_moveCredential (c : Credential β) : (moveCredential req c).payload = c.payload := by
  unfold moveCredential write
  induction req.credentials generalizing c with
  | nil => rfl
  | cons w writes ih =>
    rw [List.foldl_cons, ih]
    split <;> rfl

/-- What can be read after a rotation is what was carried over. -/
theorem readable_iff (hnew : new ≠ current)
    (hreq : rotateRequest K nonce held new asked removeUser = some req) :
    Readable K current new told (rotated told req) ↔ Agrees K held current asked told := by
  have hproxies := proxies_iff told hnew hreq
  have hcookies := cookieKeys_iff told hnew hreq
  have hbundles := bundles_iff told hnew hreq
  have hcredentials := credentials_iff told hnew hreq
  constructor
  · intro h
    refine ⟨fun x hx hlive v hv => ?_, fun p hp ck hck => ?_, fun b hb v hv => ?_,
      fun c hc v hv => ?_⟩
    · have hcarried := hproxies.mp fun x hx v hv =>
        (exists_rotated_proxy (List.mem_filter.mp hx).1).mp
          (h.proxies x (List.mem_filter.mp hx).1 (by simpa using (List.mem_filter.mp hx).2) v hv)
      obtain ⟨y, hy, hid, _, hopens⟩ := hcarried x (List.mem_filter.mpr ⟨hx, by simp [hlive]⟩) v hv
      obtain ⟨hin, hdeleted⟩ := List.mem_filter.mp hy
      exact ⟨y, hin, hid, by simpa using hdeleted, hopens⟩
    · have hcarried := hcookies.mp fun p hp ck hck =>
        (exists_rotated_profile hp).mp (h.cookieKeys p hp ck hck)
      obtain ⟨q, hq, hid, _, hopens⟩ := hcarried p hp ck hck
      exact ⟨q, hq, hid, hopens⟩
    · have hcarried := hbundles.mp fun b hb v hv =>
        (exists_rotated_bundle hb).mp (h.bundles b hb v hv)
      obtain ⟨d, hd, hid, hprofile, hopens⟩ := hcarried b hb v hv
      exact ⟨d, (List.mem_filter.mp hd).1, hid, hprofile, hopens⟩
    · have hcarried := hcredentials.mp fun c hc v hv =>
        (exists_rotated_credential hc).mp (h.credentials c hc v hv)
      obtain ⟨d, hd, hid, _, hopens⟩ := hcarried c hc v hv
      exact ⟨d, hd, hid, hopens⟩
  · intro h
    have hdeks : ∀ c ∈ told.credentials, ∀ v, credentialDek K current c = some v →
        credentialDek K new (moveCredential req c) = some v := by
      refine hcredentials.mpr fun c hc v hv => ?_
      obtain ⟨d, hd, hid, hopens⟩ := h.credentials c hc v hv
      exact ⟨d, hd, hid, trivial, hopens⟩
    refine ⟨fun x hx hlive v hv => ?_, fun p hp ck hck => ?_, fun b hb v hv => ?_,
      fun c hc v hv => ?_, fun c hc v hv => ?_⟩
    · refine (exists_rotated_proxy hx).mpr (hproxies.mpr ?_ x
        (List.mem_filter.mpr ⟨hx, by simp [hlive]⟩) v hv)
      intro x hx v hv
      obtain ⟨hin, hlive⟩ := List.mem_filter.mp hx
      obtain ⟨y, hy, hid, hdeleted, hopens⟩ := h.proxies x hin (by simpa using hlive) v hv
      exact ⟨y, List.mem_filter.mpr ⟨hy, by simp [hdeleted]⟩, hid, trivial, hopens⟩
    · refine (exists_rotated_profile hp).mpr (hcookies.mpr ?_ p hp ck hck)
      intro p hp ck hck
      obtain ⟨q, hq, hid, hopens⟩ := h.cookieKeys p hp ck hck
      exact ⟨q, hq, hid, trivial, hopens⟩
    · refine (exists_rotated_bundle hb).mpr (hbundles.mpr ?_ b hb v hv)
      intro b hb v hv
      obtain ⟨d, hd, hid, hprofile, hopens⟩ := h.bundles b hb v hv
      have hshared : d.shared = true := (Option.ite_none_right_eq_some.mp hopens).1
      exact ⟨d, List.mem_filter.mpr ⟨hd, hshared⟩, hid, hprofile, hopens⟩
    · exact (exists_rotated_credential hc).mpr (hdeks c hc v hv)
    · refine (exists_rotated_credential hc).mpr ?_
      exact login_of_dek (payload_moveCredential c) (hdeks c hc) hv

/-- Where nothing has changed, the held key is the current one, or there is nothing to carry. -/
theorem agrees_iff {s : Server β π} :
    Agrees K held current s s ↔ held = current ∨ Nothing K current s := by
  constructor
  · intro h
    by_cases hheld : held = current
    · exact .inl hheld
    refine .inr ⟨fun x hx hlive => ?_, fun p hp => ?_, fun b hb => ?_, fun c hc => ?_⟩
    · refine Option.eq_none_iff_forall_ne_some.mpr fun v hv => ?_
      obtain ⟨y, hy, hid, _, hopens⟩ := h.proxies x hx hlive v hv
      obtain rfl := s.proxyIds.eq hy hx hid
      exact hheld (proxyDek_unique hopens hv)
    · refine Option.eq_none_iff_forall_ne_some.mpr fun ck hck => ?_
      obtain ⟨q, hq, hid, hopens⟩ := h.cookieKeys p hp ck hck
      obtain rfl := s.profileIds.eq hq hp hid
      exact hheld (cookieKey_unique hopens hck)
    · refine Option.eq_none_iff_forall_ne_some.mpr fun v hv => ?_
      obtain ⟨d, hd, hid, _, hopens⟩ := h.bundles b hb v hv
      obtain rfl := s.bundleIds.eq hd hb hid
      exact hheld (bundleDek_unique hopens hv)
    · refine Option.eq_none_iff_forall_ne_some.mpr fun v hv => ?_
      obtain ⟨d, hd, hid, hopens⟩ := h.credentials c hc v hv
      obtain rfl := s.credentialIds.eq hd hc hid
      exact hheld (credentialDek_unique hopens hv)
  · rintro (rfl | h)
    · exact ⟨fun x hx hlive v hv => ⟨x, hx, rfl, hlive, hv⟩, fun p hp ck hck => ⟨p, hp, rfl, hck⟩,
        fun b hb v hv => ⟨b, hb, rfl, rfl, hv⟩, fun c hc v hv => ⟨c, hc, rfl, hv⟩⟩
    · refine ⟨fun x hx hlive v hv => ?_, fun p hp ck hck => ?_, fun b hb v hv => ?_,
        fun c hc v hv => ?_⟩
      · exact absurd (hv.symm.trans (h.proxies x hx hlive)) (by simp)
      · exact absurd (hck.symm.trans (h.cookieKeys p hp)) (by simp)
      · exact absurd (hv.symm.trans (h.bundles b hb)) (by simp)
      · exact absurd (hv.symm.trans (h.credentials c hc)) (by simp)

/-- The command rotates with the key that the machine holds. -/
theorem removeMember_some {m m' : Machine κ} {c : Caller} {after : Server β π}
    (h : removeMember K nonce new m asked told c removeUser = some (m', after)) :
    ∃ held req, m.orgKey = some held ∧
      rotateRequest K nonce held new asked removeUser = some req ∧ after = rotated told req := by
  obtain ⟨_, h⟩ := Option.ite_none_right_eq_some.mp h
  obtain ⟨held, hheld, h⟩ := Option.bind_eq_some_iff.mp h
  obtain ⟨req, hreq, h⟩ := Option.bind_eq_some_iff.mp h
  obtain ⟨s, hs, h⟩ := Option.map_eq_some_iff.mp h
  obtain ⟨_, hs⟩ := Option.ite_none_right_eq_some.mp hs
  obtain ⟨rfl, rfl⟩ := Prod.mk.inj h
  exact ⟨held, req, hheld, hreq, (Option.some.inj hs).symm⟩

end Carried

/-- An accepted rotation keeps readable what was readable exactly when the key that the machine
holds opens, in what it was given, what the current key opens in what there is; where nothing
has changed in between, when it is the current key or there is nothing to read. -/
theorem rotation_keeps_readable (K : KeyScheme κ η β ν π) (nonce : Ref → η) (current new : κ)
    (hnew : new ≠ current) (m : Machine κ) (asked told : Server β π) (c : Caller)
    (removeUser : Option ℕ) :
    ((∀ m' after, removeMember K nonce new m asked told c removeUser = some (m', after) →
        Readable K current new told after) ↔
      ((removeMember K nonce new m asked told c removeUser).isSome = true →
        ∀ held ∈ m.orgKey, Agrees K held current asked told)) ∧
    ∀ held (s : Server β π), Agrees K held current s s ↔ held = current ∨ Nothing K current s := by
  refine ⟨⟨fun h hsome held hheld => ?_, fun h m' after hremove => ?_⟩, fun _ _ => agrees_iff⟩
  · obtain ⟨⟨m', after⟩, hremove⟩ := Option.isSome_iff_exists.mp hsome
    obtain ⟨held', req, hheld', hreq, rfl⟩ := removeMember_some hremove
    obtain rfl := Option.some.inj (hheld'.symm.trans hheld)
    exact (readable_iff hnew hreq).mp (h m' _ hremove)
  · obtain ⟨held, req, hheld, hreq, rfl⟩ := removeMember_some hremove
    have hsome : (removeMember K nonce new m asked told c removeUser).isSome = true := by
      rw [hremove]
      rfl
    exact (readable_iff hnew hreq).mpr (h hsome held hheld)

section Examples

/-- Someone who may rotate. -/
def owner : Caller := ⟨1, .owner, true⟩

/-- A proxy, two profiles, of which one has no stored cookie key, a bundle and a saved login,
under the key `root 1`. -/
def filled : Server (Term × Term) ℕ where
  generation := 1
  members := [⟨1, .owner, some (.root 11, .root 1), false, 11⟩,
    ⟨2, .member, some (.root 12, .root 1), false, 12⟩]
  proxies := [⟨5, some (.root 1, .root 50), false⟩]
  profiles := [⟨6, some (profileKey terms (.root 1) 6, .root 60)⟩, ⟨7, none⟩]
  bundles := [⟨8, 6, true, (profileKey terms (.root 1) 6, .root 80)⟩]
  credentials := [⟨9, (.root 1, .root 90), (.root 90, .root 91)⟩]
  shares := []
  proxyIds := by simp [KeyUnique]
  profileIds := by simp [KeyUnique]
  bundleIds := by simp [KeyUnique]
  credentialIds := by simp [KeyUnique]

/-- One profile, without a stored cookie key, at the second generation. -/
def bare : Server (Term × Term) ℕ where
  generation := 2
  members := [⟨1, .owner, some (.root 11, .root 2), false, 11⟩]
  proxies := []
  profiles := [⟨6, none⟩]
  bundles := []
  credentials := []
  shares := []
  proxyIds := by simp [KeyUnique]
  profileIds := by simp [KeyUnique]
  bundleIds := by simp [KeyUnique]
  credentialIds := by simp [KeyUnique]

/-- A machine that holds a key in memory. -/
def holding (k : Term) : Machine Term := ⟨some k, none, false⟩

/-- The member who goes takes the key along, and everything can still be read. -/
theorem rotation_keeps_readable_filled :
    (removeMember terms (fun _ => ()) (.root 2) (holding (.root 1)) filled filled owner
        (some 2)).isSome = true ∧
      ∀ m' after, removeMember terms (fun _ => ()) (.root 2) (holding (.root 1)) filled filled
          owner (some 2) = some (m', after) →
        Readable terms (.root 1) (.root 2) filled after := by
  refine ⟨by decide, ?_⟩
  have hnew : (Term.root 2) ≠ .root 1 := by decide
  refine (rotation_keeps_readable terms (fun _ => ()) (.root 1) (.root 2) hnew
    (holding (.root 1)) filled filled owner (some 2)).1.mpr fun _ held hheld => ?_
  obtain rfl : Term.root 1 = held := Option.some.inj hheld
  exact agrees_iff.mpr (.inl rfl)

/-- A machine that still has the first key takes a cookie key from it, and stores that in the
place of the one there was. -/
theorem rotation_changes_cookieKey :
    ¬ ∀ (current new : Term) (m : Machine Term) (s : Server (Term × Term) ℕ) (c : Caller)
        (removeUser : Option ℕ) (m' : Machine Term) (after : Server (Term × Term) ℕ),
        new ≠ current →
        removeMember terms (fun _ => ()) new m s s c removeUser = some (m', after) →
        Readable terms current new s after := by
  intro h
  have hremove : (removeMember terms (fun _ => ()) (.root 3) (holding (.root 1)) bare bare owner
      none).map (fun r => r.2.profiles.map (cookieKey terms (.root 3))) =
      some [some (osCryptKey terms (profileKey terms (.root 1) 6) 6)] := by decide
  obtain ⟨⟨m', after⟩, hafter, hkeys⟩ := Option.map_eq_some_iff.mp hremove
  have hread := h (.root 2) (.root 3) (holding (.root 1)) bare owner none m' after (by decide)
    hafter
  obtain ⟨q, hq, _, hkey⟩ := hread.cookieKeys ⟨6, none⟩ List.mem_cons_self _ rfl
  have hin : some (osCryptKey terms (profileKey terms (.root 2) 6) 6) ∈
      after.profiles.map (cookieKey terms (.root 3)) := List.mem_map.mpr ⟨q, hq, hkey⟩
  have hkeys : after.profiles.map (cookieKey terms (.root 3)) =
      [some (osCryptKey terms (profileKey terms (.root 1) 6) 6)] := hkeys
  rw [hkeys] at hin
  exact absurd hin (by decide)

end Examples

end FuryBrowser.RotationReadable
