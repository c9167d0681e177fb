import FuryBrowser.ProxyEdits
import FuryBrowser.TotpRoundTrip

/-!
# What saving an edited proxy leaves

The mask of a host is trimmed, so that the form gives it back as it was shown. A save that writes
leaves what was typed, and of the login and the password what is stored where just one was typed
for a proxy that has both.
-/

namespace FuryBrowser.TeamSecrets

open AgentDisk TextBytes TextTrims RowTable
open HostMask (maskHost)

section Masks

variable {sha256 : List UInt8 → Vector UInt8 32} {host : Text}

theorem splitOnce_some {l a b : Text} (h : HostMask.splitOnce '.' l = some (a, b)) :
    l = a ++ '.' :: b := by
  induction l generalizing a with
  | nil => cases h
  | cons c l ih =>
    rw [HostMask.splitOnce] at h
    split at h
    · rename_i hdot
      cases h
      rw [hdot]
      rfl
    · obtain ⟨⟨before, after⟩, hsplit, heq⟩ := Option.map_eq_some_iff.mp h
      cases heq
      rw [ih hsplit]
      rfl

theorem solid_append {a b : Text} (ha : ∀ c ∈ a.head?, isWhiteSpace c = false) (hne : a ≠ [])
    (hb : ∀ c ∈ b.getLast?, isWhiteSpace c = false) (hne' : b ≠ []) : Solid (a ++ b) := by
  constructor
  · rw [List.head?_append_of_ne_nil _ hne]
    exact ha
  · rw [List.getLast?_append_of_ne_nil _ hne']
    exact hb

/-- The mask of a trimmed host is trimmed: it begins with a star or as the host does, and ends as
the host does or with a digit. -/
theorem maskHost_solid (h : Solid host) : Solid (maskHost sha256 host) := by
  have hdigit : ∀ n < 16, isWhiteSpace (Nat.digitChar n) = false := by decide
  have hstar : ∀ tail : Text, ∀ c ∈ (['*', '*', '*'] ++ tail).head?, isWhiteSpace c = false := by
    intro tail c hc
    cases hc
    rfl
  rw [maskHost]
  split
  · rename_i first rest hsplit
    have hhost := splitOnce_some hsplit
    have hlast : ∀ c ∈ ('.' :: rest).getLast?, isWhiteSpace c = false := by
      intro c hc
      apply h.last c
      rw [hhost, List.getLast?_append_of_ne_nil _ (List.cons_ne_nil '.' rest)]
      exact hc
    split
    · rename_i hlong
      apply solid_append _ (by simp) hlast (List.cons_ne_nil '.' rest)
      intro c hc
      apply h.head c
      cases first with
      | nil => cases hlong
      | cons d first =>
        rw [hhost]
        exact hc
    · exact solid_append (hstar _) (by simp) hlast (List.cons_ne_nil '.' rest)
  · apply solid_append _ (by simp) _ (by simp [HostMask.hexByte])
    · exact hstar []
    · intro c hc
      simp only [HostMask.hexByte] at hc
      rw [List.getLast?_append_of_ne_nil _ (List.cons_ne_nil _ _)] at hc
      cases hc
      exact hdigit _ (Nat.mod_lt _ (by decide))

/-- A trimmed host that is sent back as it was shown is the stored one. -/
theorem chosenHost_shown (h : trimText host = host) (reveal : Bool) :
    chosenHost sha256 host (if reveal then host else maskHost sha256 host) = host := by
  have hsolid : Solid host := h ▸ trimText_solid host
  rw [chosenHost]
  cases reveal with
  | false => rw [if_neg Bool.false_ne_true, trimText_of_solid (maskHost_solid hsolid), if_pos rfl]
  | true =>
    rw [if_pos rfl, h]
    exact ite_self host

end Masks

section Showing

variable {κ : Type} {sha256 : List UInt8 → Vector UInt8 32} {k : κ} {c : Caller} {r : ProxyRow κ}
  {e : ProxyEdits} {rows : List (ProxyRow κ)}

/-- The list shows a row as it is, except for the host. -/
theorem showProxy_eq : showProxy sha256 c r = ⟨r.id, r.details.name, r.details.kind,
    if c.reveal then r.details.host else maskHost sha256 r.details.host, r.details.port⟩ := by
  rw [showProxy, display, HostMask.address,
    HostMask.rsplitOnce_append (HostMask.colon_not_mem_port r.details.port)]
  dsimp only
  rw [Totp.parseUnsigned_toDigits r.details.port_range.2, Option.getD_some]

theorem form_eq : (showProxy sha256 c r).form e = ⟨some r.id, e.name.getD r.details.name,
    e.kind.getD r.details.kind, e.host.getD (showProxy sha256 c r).host,
    e.port.getD r.details.port, e.username, e.password⟩ := by
  rw [ShownProxy.form, showProxy_eq]

theorem form_credentials : ((showProxy sha256 c r).form e).credentials =
    ⟨filled e.username, filled e.password⟩ := rfl

theorem form_needsStored :
    ((showProxy sha256 c r).form e).needsStored = true ↔ e.resealsStored r := by
  rw [ProxyForm.needsStored, form_credentials, form_eq, Credentials.oneHalf,
    ProxyEdits.resealsStored, Kind.isTunnel, Bool.and_eq_true, bne_iff_ne, decide_eq_true_iff,
    decide_eq_false_iff_not]

/-- The login and the password that a save seals. -/
def sealedPair (r : ProxyRow κ) (e : ProxyEdits) : Credentials :=
  if e.resealsStored r then
    ⟨(filled e.username).or r.credentials.username, (filled e.password).or r.credentials.password⟩
  else ⟨filled e.username, filled e.password⟩

theorem editProxy_ok {req : EditProxyRequest κ} (hr : lookup ProxyRow.id rows r.id = some r)
    {after : List (ProxyRow κ)} : editProxy sha256 c r.id req rows = .ok after ↔
      c.change r.id = .allowed ∧ ∃ d, r.details.edited sha256 req = some d ∧
        after = updateWhere (fun x => x.id = r.id) (ProxyRow.saved d req.secret) rows := by
  rw [editProxy, hr]
  dsimp only
  cases c.change r.id with
  | notTheirs => simp
  | noLongerPermitted => simp
  | allowed =>
    cases r.details.edited sha256 req with
    | none => simp
    | some d => simp [eq_comm]

/-- The request that a save sends for a row. -/
def request (sha256 : List UInt8 → Vector UInt8 32) (k : κ) (c : Caller) (r : ProxyRow κ)
    (e : ProxyEdits) : EditProxyRequest κ :=
  ((showProxy sha256 c r).form e).request k (sealedPair r e)

theorem edited_eq_some {req : EditProxyRequest κ} :
    (∃ d, r.details.edited sha256 req = some d) ↔
      (1 ≤ req.port ∧ req.port ≤ 65535) ∧ trimText req.host ≠ [] := by
  by_cases h : (1 ≤ req.port ∧ req.port ≤ 65535) ∧ trimText req.host ≠ []
  · rw [Details.edited, dif_pos h]
    exact iff_of_true ⟨_, rfl⟩ h
  · rw [Details.edited, dif_neg h]
    exact iff_of_false (by simp) h

theorem request_port : (request sha256 k c r e).port = e.port.getD r.details.port := by
  rw [request, form_eq]
  rfl

theorem request_host : (request sha256 k c r e).host = e.host.getD (showProxy sha256 c r).host := by
  rw [request, form_eq]
  rfl

theorem edited_isSome :
    (∃ d, r.details.edited sha256 (request sha256 k c r e) = some d) ↔
      (1 ≤ e.port.getD r.details.port ∧ e.port.getD r.details.port ≤ 65535) ∧
        trimText (e.host.getD (showProxy sha256 c r).host) ≠ [] := by
  rw [edited_eq_some, request_port, request_host]

/-- The login and the password that a save leaves in a row. -/
def leftPair (r : ProxyRow κ) (e : ProxyEdits) : Credentials :=
  if filled e.username = none ∧ filled e.password = none then r.credentials else sealedPair r e

theorem leftPair_username (hu : filled e.username = none)
    (ht : (e.kind.getD r.details.kind).isTunnel = false) :
    (leftPair r e).username = r.credentials.username := by
  cases hp : filled e.password with
  | none => rw [leftPair, if_pos ⟨hu, hp⟩]
  | some p =>
    have hs : e.resealsStored r := ⟨by simp [hu, hp], ht⟩
    rw [leftPair, if_neg (by simp [hp]), sealedPair, if_pos hs, hu, Option.none_or]

theorem leftPair_password (hp : filled e.password = none) :
    (leftPair r e).password =
      if filled e.username ≠ none ∧ (e.kind.getD r.details.kind).isTunnel = true then none
      else r.credentials.password := by
  cases hu : filled e.username with
  | none => rw [leftPair, if_pos ⟨hu, hp⟩, if_neg (by simp)]
  | some u =>
    rw [leftPair, if_neg (by simp [hu]), sealedPair]
    cases ht : (e.kind.getD r.details.kind).isTunnel with
    | false =>
      have hs : e.resealsStored r := ⟨by simp [hu, hp], ht⟩
      rw [if_pos hs, if_neg (by simp), hp, Option.none_or]
    | true =>
      have hs : ¬ e.resealsStored r := fun hs => by simp [hs.2] at ht
      rw [if_neg hs, if_pos (by simp), hp]

/-- A row as a save of an edited row leaves it. -/
structure SavedOver (sha256 : List UInt8 → Vector UInt8 32) (c : Caller) (r : ProxyRow κ)
    (e : ProxyEdits) (r' : ProxyRow κ) : Prop where
  name : r'.details.name = trimText (e.name.getD r.details.name)
  kind : r'.details.kind = e.kind.getD r.details.kind
  host : r'.details.host =
    chosenHost sha256 r.details.host (e.host.getD (showProxy sha256 c r).host)
  port : r'.details.port = e.port.getD r.details.port
  credentials : r'.credentials = leftPair r e

/-- What a save leaves is what was stored where nothing was typed, just where it is harmless. -/
theorem SavedOver.kept_iff {r' : ProxyRow κ} (h : SavedOver sha256 c r e r') :
    ProxyKept r r' e ↔ ProxyHarmless r e := by
  constructor
  · intro hk
    refine ⟨?_, ?_, ?_⟩
    · intro hu ht hr
      have heq := hk.username hu (h.kind ▸ ht)
      rwa [h.credentials, leftPair_username hu ht, if_pos hr] at heq
    · intro hp hne hu
      have heq := hk.password hp
      rwa [h.credentials, h.kind, leftPair_password hp, if_neg (fun hand => hand.1 (hu hand.2)),
        if_neg hne] at heq
    · intro hp hu ht hr
      have heq := hk.password hp
      rw [h.credentials, h.kind, leftPair_password hp, if_pos ⟨hu, ht⟩,
        if_pos (ht.trans hr.symm)] at heq
      exact heq.symm
  · intro hh
    refine ⟨?_, ?_, ?_, ?_, ?_, ?_⟩
    · intro hname
      rw [h.name, hname, Option.getD_none, r.details.name_trimmed]
    · intro hkind
      rw [h.kind, hkind, Option.getD_none]
    · intro hhost
      rw [h.host, hhost, Option.getD_none, showProxy_eq]
      exact chosenHost_shown r.details.host_trimmed c.reveal
    · intro hport
      rw [h.port, hport, Option.getD_none]
    · intro hu ht
      rw [h.kind] at ht
      rw [h.credentials, leftPair_username hu ht]
      cases hr : r.details.kind.isTunnel with
      | false => rfl
      | true => exact hh.username hu ht hr
    · intro hp
      rw [h.credentials, h.kind, leftPair_password hp]
      split
      · rename_i hand
        split
        · rename_i hsame
          exact (hh.erased hp hand.1 hand.2 (hsame ▸ hand.2)).symm
        · rfl
      · rename_i hnot
        split
        · rfl
        · rename_i hne
          exact hh.mixed hp hne fun ht => by_contra fun hu => hnot ⟨hu, ht⟩

theorem edited_fields {d : Details} {req : EditProxyRequest κ}
    (h : r.details.edited sha256 req = some d) :
    d.name = trimText req.name ∧ d.kind = req.kind ∧
      d.host = chosenHost sha256 r.details.host req.host ∧ d.port = req.port := by
  rw [Details.edited] at h
  split at h
  · cases h
    exact ⟨rfl, rfl, rfl, rfl⟩
  · cases h

theorem saved_credentials {d : Details} :
    (ProxyRow.saved d (request sha256 k c r e).secret r).credentials = leftPair r e := by
  have hid : ((showProxy sha256 c r).form e).id = some r.id := by rw [form_eq]
  rw [request, ProxyForm.request, hid, form_credentials, leftPair, ProxyRow.credentials,
    ProxyRow.saved]
  cases filled e.username <;> cases filled e.password <;> rfl

theorem ProxyKept.refl : ProxyKept r r e := by
  refine ⟨fun _ => rfl, fun _ => rfl, fun _ => rfl, fun _ => rfl, ?_, ?_⟩
  · intro _ ht
    rw [ht, if_neg Bool.false_ne_true]
  · intro _
    rw [if_pos rfl]

end Showing

section Saving

variable {κ : Type} [DecidableEq κ] {sha256 : List UInt8 → Vector UInt8 32} {key : Option κ} {k : κ}
  {c : Caller} {calls : Calls} {new : ℕ} {r : ProxyRow κ} {e : ProxyEdits}
  {rows : List (ProxyRow κ)}

theorem storedProxyCredentials_ok (hr : lookup ProxyRow.id rows r.id = some r)
    (h : Available k c calls r) :
    storedProxyCredentials k c calls r.id rows = .ok r.credentials := by
  obtain ⟨hfetch, hreveal, s, hs, hkey⟩ := h
  rw [storedProxyCredentials, if_pos hfetch, revealProxy, hreveal, if_neg (by decide), hr]
  dsimp only
  rw [Option.mem_def.mp hs]
  dsimp only
  rw [Sealed.openWith, if_pos hkey, ProxyRow.credentials, Option.mem_def.mp hs]
  rfl

theorem storedProxyCredentials_error (hr : lookup ProxyRow.id rows r.id = some r)
    (h : ¬ Available k c calls r) :
    ∃ why, storedProxyCredentials k c calls r.id rows = .error why := by
  cases hstored : storedProxyCredentials k c calls r.id rows with
  | error why => exact ⟨why, rfl⟩
  | ok x =>
    exfalso
    apply h
    rw [storedProxyCredentials] at hstored
    split at hstored
    · rename_i hfetch
      refine ⟨hfetch, ?_⟩
      rw [revealProxy, hr] at hstored
      cases hreveal : c.reveal with
      | false =>
        rw [hreveal, if_pos (by decide)] at hstored
        cases hstored
      | true =>
        rw [hreveal, if_neg (by decide)] at hstored
        cases hs : r.secret with
        | none =>
          simp only [hs] at hstored
          cases hstored
        | some s =>
          simp only [hs, Sealed.openWith] at hstored
          split at hstored
          · cases hstored
          · rename_i hopen
            split at hopen
            · rename_i hkey
              exact ⟨rfl, s, rfl, hkey⟩
            · cases hopen
    · cases hstored

theorem completed_ok (hr : lookup ProxyRow.id rows r.id = some r)
    (h : e.resealsStored r → Available k c calls r) :
    completed k c calls ((showProxy sha256 c r).form e) rows = .ok (sealedPair r e) := by
  have hid : ((showProxy sha256 c r).form e).id = some r.id := by rw [form_eq]
  rw [completed, sealedPair, hid, form_credentials]
  dsimp only
  by_cases hs : e.resealsStored r
  · rw [if_pos (form_needsStored.mpr hs), if_pos hs, storedProxyCredentials_ok hr (h hs)]
  · rw [if_neg (mt form_needsStored.mp hs), if_neg hs]

theorem completed_error (sha256 : List UInt8 → Vector UInt8 32)
    (hr : lookup ProxyRow.id rows r.id = some r) (hs : e.resealsStored r)
    (h : ¬ Available k c calls r) :
    ∃ why, completed k c calls ((showProxy sha256 c r).form e) rows = .error why := by
  obtain ⟨why, hwhy⟩ := storedProxyCredentials_error hr h
  have hid : ((showProxy sha256 c r).form e).id = some r.id := by rw [form_eq]
  rw [completed, hid]
  dsimp only
  rw [if_pos (form_needsStored.mpr hs), hwhy]
  split
  · exact ⟨_, rfl⟩
  · exact ⟨_, rfl⟩
  · rename_i heq
    cases heq

/-- What a save comes to, when it has what it needs. -/
theorem saveProxy_eq (hkey : key = some k) (hr : lookup ProxyRow.id rows r.id = some r)
    (h : e.resealsStored r → Available k c calls r) :
    saveProxy sha256 key c calls new ((showProxy sha256 c r).form e) rows =
      written calls.send (editProxy sha256 c r.id (request sha256 k c r e) rows) rows := by
  subst hkey
  have hid : ((showProxy sha256 c r).form e).id = some r.id := by rw [form_eq]
  unfold saveProxy
  dsimp only
  rw [completed_ok hr h, hid]
  rfl

/-- A save that does not get as far as writing fails and changes nothing. -/
theorem saveProxy_unwritten (new : ℕ) (hr : lookup ProxyRow.id rows r.id = some r)
    (h : ¬ ProxyWrites sha256 key c calls r e) :
    (∃ why, (saveProxy sha256 key c calls new ((showProxy sha256 c r).form e) rows).1 =
      .error why) ∧
    (saveProxy sha256 key c calls new ((showProxy sha256 c r).form e) rows).2 = rows := by
  cases hkey : key with
  | none => exact ⟨⟨.noKey, rfl⟩, rfl⟩
  | some k =>
    by_cases hhad : e.resealsStored r → Available k c calls r
    · rw [saveProxy_eq rfl hr hhad]
      cases hedit : editProxy sha256 c r.id (request sha256 k c r e) rows with
      | error why => cases calls.send <;> exact ⟨⟨_, rfl⟩, rfl⟩
      | ok after =>
        cases hsend : calls.send with
        | failed => exact ⟨⟨_, rfl⟩, rfl⟩
        | _ =>
          exfalso
          obtain ⟨hchange, d, hd, -⟩ := (editProxy_ok hr).mp hedit
          obtain ⟨hport, hhost⟩ := edited_isSome.mp ⟨d, hd⟩
          exact h ⟨k, hkey, by simp [hsend], hchange, hport, hhost, hhad⟩
    · obtain ⟨hs, hnot⟩ := Classical.not_imp.mp hhad
      obtain ⟨why, hwhy⟩ := completed_error sha256 hr hs hnot
      unfold saveProxy
      dsimp only
      rw [hwhy]
      exact ⟨⟨_, rfl⟩, rfl⟩

/-- A save that gets as far as writing leaves the row as it was edited. -/
theorem saveProxy_written (new : ℕ) (hr : lookup ProxyRow.id rows r.id = some r)
    (h : ProxyWrites sha256 key c calls r e) :
    ∃ r', lookup ProxyRow.id
        (saveProxy sha256 key c calls new ((showProxy sha256 c r).form e) rows).2 r.id = some r' ∧
      SavedOver sha256 c r e r' := by
  obtain ⟨k, hkey, hsend, hchange, hport, hhost, hhad⟩ := h
  obtain ⟨d, hd⟩ := edited_isSome (k := k) |>.mpr ⟨hport, hhost⟩
  have hedit := (editProxy_ok hr).mpr ⟨hchange, d, hd, rfl⟩
  refine ⟨ProxyRow.saved d (request sha256 k c r e).secret r, ?_, ?_⟩
  · rw [saveProxy_eq hkey hr hhad, hedit]
    have hfound : lookup ProxyRow.id (updateWhere (fun x => x.id = r.id)
        (ProxyRow.saved d (request sha256 k c r e).secret) rows) r.id =
          some (ProxyRow.saved d (request sha256 k c r e).secret r) := by
      rw [lookup_updateWhere (f := ProxyRow.saved d (request sha256 k c r e).secret)
        (fun _ _ => rfl), hr]
      simp
    cases hcase : calls.send with
    | failed => exact absurd hcase hsend
    | _ => exact hfound
  · obtain ⟨hname, hkind, hhost', hport'⟩ := edited_fields hd
    refine ⟨?_, ?_, ?_, ?_, saved_credentials⟩
    · rw [ProxyRow.saved, hname, request, form_eq]
      rfl
    · rw [ProxyRow.saved, hkind, request, form_eq]
      rfl
    · rw [ProxyRow.saved, hhost', request_host]
    · rw [ProxyRow.saved, hport', request_port]

/-- An edited proxy is saved as it was typed exactly where nothing is written or it is harmless. -/
theorem proxySaved_iff (hr : lookup ProxyRow.id rows r.id = some r) :
    ProxySaved key r e rows
        (saveProxy sha256 key c calls new ((showProxy sha256 c r).form e) rows) ↔
      (ProxyWrites sha256 key c calls r e → ProxyHarmless r e) := by
  constructor
  · intro h hwrites
    obtain ⟨r', hfound, hover⟩ := saveProxy_written new hr hwrites
    exact hover.kept_iff.mp (h.kept r' hfound)
  · intro h
    by_cases hwrites : ProxyWrites sha256 key c calls r e
    · obtain ⟨r', hfound, hover⟩ := saveProxy_written new hr hwrites
      constructor
      · intro r'' hfound'
        obtain rfl := Option.some.inj (hfound.symm.trans hfound')
        exact hover.kept_iff.mpr (h hwrites)
      · intro s hs hshut hneeds
        obtain ⟨k, hkey, -, -, -, -, hhad⟩ := hwrites
        obtain ⟨-, -, s', hs', hkeys⟩ := hhad hneeds
        obtain rfl := Option.some.inj (hs.symm.trans hs')
        have hnone := hshut k hkey
        rw [Sealed.openWith, if_pos hkeys] at hnone
        cases hnone
    · obtain ⟨herror, hsame⟩ := saveProxy_unwritten new hr hwrites
      rw [← hsame] at hr
      constructor
      · intro r' hfound
        obtain rfl := Option.some.inj (hr.symm.trans hfound)
        exact ProxyKept.refl
      · exact fun _ _ _ _ => ⟨herror, hsame⟩

end Saving

end FuryBrowser.TeamSecrets
