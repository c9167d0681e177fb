import Mathlib.Data.List.Basic

/-!
# What of a host is shown

Whoever may use a proxy but not see its secrets is shown a mask of its host: the end of the
name, at most three characters of its beginning, and two bytes of a digest, by which two hosts
can still be told apart. The listing of a project gets host and port as one text and splits it
again at the last colon; a port has none, so what is masked is the host as it was stored.
-/

namespace FuryBrowser.HostMask

universe u

section Splitting

variable {α : Type u} [DecidableEq α]

/-- `split_once`: what stands before the first separator, and what after it. -/
def splitOnce (sep : α) : List α → Option (List α × List α)
  | [] => none
  | a :: l => if a = sep then some ([], l) else (splitOnce sep l).map fun p => (a :: p.1, p.2)

/-- `rsplit_once`: before and after the last one. -/
def rsplitOnce (sep : α) (l : List α) : Option (List α × List α) :=
  (splitOnce sep l.reverse).map fun p => (p.2.reverse, p.1.reverse)

variable {sep : α} {l r : List α}

theorem splitOnce_append (h : sep ∉ l) : splitOnce sep (l ++ sep :: r) = some (l, r) := by
  induction l with
  | nil => simp [splitOnce]
  | cons a l ih =>
    have hne : a ≠ sep := fun heq => h (heq ▸ List.mem_cons_self)
    rw [List.cons_append, splitOnce, if_neg hne, ih fun hin => h (List.mem_cons_of_mem _ hin)]
    rfl

/-- What comes after the last separator has none. -/
theorem rsplitOnce_append (h : sep ∉ r) : rsplitOnce sep (l ++ sep :: r) = some (l, r) := by
  have hreverse : (l ++ sep :: r).reverse = r.reverse ++ sep :: l.reverse := by simp
  unfold rsplitOnce
  rw [hreverse, splitOnce_append (by simpa using h)]
  simp

end Splitting

/-- A text, as its characters. -/
abbrev Text := List Char

/-- A byte in two hexadecimal digits. -/
def hexByte (b : UInt8) : Text := [Nat.digitChar (b.toNat / 16), Nat.digitChar (b.toNat % 16)]

section Masking

variable (sha256 : List UInt8 → Vector UInt8 32)

/-- `mask_host`. -/
def maskHost (host : Text) : Text :=
  let digest := sha256 (host.flatMap String.utf8EncodeChar)
  let tag := hexByte digest[0] ++ hexByte digest[1]
  match splitOnce '.' host with
  | some (first, rest) =>
    if 4 < first.length then first.take 3 ++ "***".toList ++ tag ++ '.' :: rest
    else "***".toList ++ tag ++ '.' :: rest
  | none => "***".toList ++ tag

/-- `host:port`. -/
def address (host : Text) (port : ℕ) : Text := host ++ ':' :: Nat.toDigits 10 port

/-- What `profiles_in` shows of an address that the query has put together. -/
def shown (reveal : Bool) (hostPort : Text) : Text :=
  if reveal then hostPort
  else match rsplitOnce ':' hostPort with
    | some (host, port) => maskHost sha256 host ++ ':' :: port
    | none => maskHost sha256 hostPort

theorem colon_not_mem_port (port : ℕ) : ':' ∉ Nat.toDigits 10 port := by
  intro h
  have hdigit := Nat.isDigit_of_mem_toDigits (by decide) (by decide) h
  exact absurd hdigit (by decide)

/-- The host is masked whole, colons and all. -/
theorem shown_address (host : Text) (port : ℕ) :
    shown sha256 false (address host port) = address (maskHost sha256 host) port := by
  unfold shown address
  rw [rsplitOnce_append (colon_not_mem_port port)]
  rfl

variable {sha256} {host host' : Text} {port : ℕ}

@[simp] theorem address_inj : address host port = address host' port ↔ host = host' :=
  List.append_left_inj _

end Masking

end FuryBrowser.HostMask
