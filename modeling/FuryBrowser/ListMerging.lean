import FuryBrowser.DomainMatching
import Mathlib.Data.List.Dedup
import Mathlib.Data.Multiset.Lattice
import Mathlib.Order.CompletePartialOrder
import Mathlib.Order.ConditionallyCompleteLattice.Basic
import Mathlib.Order.WithBot

/-!
# Several lists as one

A launch merges the profile's lists, the lists of this machine's network and those of the
organisation. What a merged list names is the union of what they name, so the order does not
matter: a list of the network refuses nothing, a blocklist refuses more, and a whitelist admits
what it names as well.
-/

namespace FuryBrowser.ListMerging

open TextBytes TextLines IpAddress DomainLists DomainMatching

section Merging

/-- `Blocklist::len`: how many entries are named, each of them once. -/
def len (list : Blocklist) : ℕ :=
  list.domains.dedup.length + (list.allowed.map fun allowed => allowed.dedup.length).getD 0 +
    list.localNames.dedup.length + list.localNets.dedup.length

/-- `Blocklist::is_empty`. -/
def isEmpty (list : Blocklist) : Bool := list.refusesNothing && !list.isLocal

end Merging

section Launch

variable (dir : List ListFile)

end Launch

section Folding

variable {a b c : Blocklist}

end Folding

section Meaning

variable {a b : Blocklist}

/-- The members of a list. -/
def members {α : Type} (l : List α) : Set α := {x | x ∈ l}

/-- A whitelist that admits nothing is not the same as none. -/
def admitted : Option (List Text) → WithBot (Set Text)
  | none => ⊥
  | some allowed => ((members allowed : Set Text) : WithBot (Set Text))

end Meaning

section Answers

variable {a b : Blocklist}

end Answers

section Kinds

variable {text : Text}

end Kinds

section Policy

/-- A blocklist and a whitelist, either first. -/
def ads : Text := "ads.example.com".toList

/-- A whitelist of the domain that the advertisements are under. -/
def only : Text := "@allow-only\nexample.com".toList

end Policy

end FuryBrowser.ListMerging
