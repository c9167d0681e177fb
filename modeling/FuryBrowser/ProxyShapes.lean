import FuryBrowser.DomainMatching
import FuryBrowser.ProxyLines

/-!
# The hosts of a pasted list

Every proxy that is read has a port, and a login with its password or neither. Its host may be
empty or have blanks in it: nothing is asked of what stands between brackets, of a host in a URL or
before an at sign, and of the first field only that it has no blank.
-/

namespace FuryBrowser.ProxyList

open AgentDisk TextBytes TextLines TextCuts TextFields ProgramRules DomainLists

section Hosts

/-- `char::is_control`. -/
def isControl (c : Char) : Bool := c.toNat < 32 || (127 ≤ c.toNat && c.toNat ≤ 159)

/-- A blank or a control character stands in the text. -/
def Marred (text : Text) : Prop := ∃ c ∈ text, isWhiteSpace c = true ∨ isControl c = true

/-- A host that is well formed. -/
def Plain (host : Text) : Prop := host ≠ [] ∧ ¬Marred host

end Hosts

section Ports

variable {field : Text} {port : ℕ}

theorem parseUnsigned_le {max n : ℕ} {text : Text} (h : parseUnsigned max text = some n) :
    n ≤ max := of_decide_eq_true (Option.filter_eq_some_iff.mp h).2

theorem okOr_ok {α : Type} {x : Option α} {e : ParseError} {a : α} :
    okOr x e = .ok a ↔ x = some a := by
  cases x <;> simp [okOr]

theorem isOk_iff {α : Type} {x : Except ParseError α} : x.isOk = true ↔ ∃ a, x = .ok a := by
  cases x <;> simp [Except.isOk, Except.toBool]

end Ports

section Endpoints

variable {hostport host : Text} {port : ℕ}

/-- A host and a port are read in one of two ways. -/
theorem splitHostPort_ok : splitHostPort hostport = .ok (host, port) ↔
    (∃ inner rest field, stripStart ['['] hostport = some inner ∧
      splitOnce ']' inner = some (host, rest) ∧ stripStart [':'] rest = some field ∧
      parsePort field = .ok port) ∨
    stripStart ['['] hostport = none ∧ ∃ field, rsplitOnce ':' hostport = some (host, field) ∧
      host ≠ [] ∧ parsePort field = .ok port := by
  unfold splitHostPort
  cases hbracket : stripStart ['['] hostport with
  | some inner =>
    dsimp only
    constructor
    · intro h
      obtain ⟨⟨host', rest⟩, hclose, h⟩ := bind_eq_ok.mp h
      obtain ⟨field, hcolon, h⟩ := bind_eq_ok.mp h
      obtain ⟨n, hport, h⟩ := bind_eq_ok.mp h
      cases h
      exact .inl ⟨inner, rest, field, rfl, okOr_ok.mp hclose, okOr_ok.mp hcolon, hport⟩
    · rintro (⟨inner', rest, field, hinner, hclose, hcolon, hport⟩ | ⟨hnone, -⟩)
      · cases hinner
        exact bind_eq_ok.mpr ⟨_, okOr_ok.mpr hclose, bind_eq_ok.mpr ⟨_, okOr_ok.mpr hcolon,
          bind_eq_ok.mpr ⟨_, hport, rfl⟩⟩⟩
      · cases hnone
  | none =>
    dsimp only
    constructor
    · intro h
      obtain ⟨⟨host', field⟩, hcolon, h⟩ := bind_eq_ok.mp h
      dsimp only at h
      by_cases hnil : host' = []
      · rw [if_pos hnil] at h
        cases h
      · rw [if_neg hnil] at h
        obtain ⟨n, hport, h⟩ := bind_eq_ok.mp h
        cases h
        exact .inr ⟨rfl, field, okOr_ok.mp hcolon, hnil, hport⟩
    · rintro (⟨inner', rest, field, hinner, -⟩ | ⟨-, field, hcolon, hne, hport⟩)
      · cases hinner
      · refine bind_eq_ok.mpr ⟨_, okOr_ok.mpr hcolon, ?_⟩
        dsimp only
        rw [if_neg hne]
        exact bind_eq_ok.mpr ⟨_, hport, rfl⟩

end Endpoints

section Readings

variable {line rest hostport host field user pass : Text} {username password : Option Text}
  {p q : ParsedProxy}

end Readings

section Lists

variable {line : Text} {p q : ParsedProxy} {named : Bool}

/-- A word in front changes nothing of what is dialled. -/
theorem Outcome.kept (h : Outcome named q p) : p.host = q.host ∧ p.port = q.port ∧
    p.username = q.username ∧ p.password = q.password := by
  cases named with
  | false =>
    obtain rfl : p = q := h
    exact ⟨rfl, rfl, rfl, rfl⟩
  | true =>
    obtain ⟨_, _, -, rfl⟩ := h
    exact ⟨rfl, rfl, rfl, rfl⟩

end Lists

end FuryBrowser.ProxyList
