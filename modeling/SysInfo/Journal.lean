/-!
# Journals

Entries are offered to a journal one after the other. It only grows at its end,
and it keeps every entry that is acknowledged; an entry that is not may have been
kept or lost.
-/

namespace SysInfo.Journal
universe u v

variable {Entry : Type u}

/-- The journal after some offers, each with its acknowledgement. -/
inductive Keeps : List (Entry × Bool) → List Entry → Prop where
  | empty : Keeps [] []
  | kept {offers entries entry acknowledged} : Keeps offers entries →
      Keeps (offers ++ [(entry,acknowledged)]) (entries ++ [entry])
  | lost {offers entries entry} : Keeps offers entries → Keeps (offers ++ [(entry,false)]) entries

/-- The entries whose offers were acknowledged. -/
def acknowledged (offers : List (Entry × Bool)) : List Entry := (offers.filter Prod.snd).map Prod.fst

/-- Nothing but what was offered, each offer at most once and in the order of the
    offers. -/
theorem Keeps.sublist_offers {offers : List (Entry × Bool)} {entries : List Entry} (keeps : Keeps offers entries) :
    entries.Sublist (offers.map Prod.fst) := by
  induction keeps with
  | empty => exact .slnil
  | kept _ ih =>
    rw [List.map_append]
    exact ih.append (List.Sublist.refl _)
  | lost _ ih =>
    rw [List.map_append]
    exact ih.trans (List.sublist_append_left _ _)

/-- No acknowledged entry is missing. -/
theorem Keeps.acknowledged_sublist {offers : List (Entry × Bool)} {entries : List Entry} (keeps : Keeps offers entries) :
    (acknowledged offers).Sublist entries := by
  unfold acknowledged
  induction keeps with
  | empty => exact .slnil
  | @kept offers entries entry acknowledged _ ih =>
    rw [List.filter_append,List.map_append]
    refine ih.append ?_
    cases acknowledged <;> simp
  | lost _ ih => simpa using ih

/-- A journal whose offers are all acknowledged is what was offered. -/
theorem Keeps.eq_of_acknowledged {offers : List (Entry × Bool)} {entries : List Entry} (keeps : Keeps offers entries)
    (all : ∀ offer ∈ offers, offer.2 = true) : entries = offers.map Prod.fst := by
  have every : acknowledged offers = offers.map Prod.fst := by
    unfold acknowledged
    rw [List.filter_eq_self.mpr all]
  have some := keeps.acknowledged_sublist
  rw [every] at some
  exact keeps.sublist_offers.eq_of_length_le some.length_le

end SysInfo.Journal
