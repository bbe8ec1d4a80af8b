import Mathlib.Data.List.Nodup

/-! Lists of keys with values, looked up from the front. -/
namespace Sunshine.Entries
set_option autoImplicit false

variable {κ ν : Type} [BEq κ] [LawfulBEq κ] {entries : List (κ × ν)} {key : κ} {value : ν}

theorem mem_of_lookup (h : entries.lookup key = some value) : (key, value) ∈ entries := by
  obtain ⟨front, back, rfl, -⟩ := List.lookup_eq_some_iff.mp h
  exact List.mem_append_right front List.mem_cons_self

theorem lookup_of_mem (h : (key, value) ∈ entries) : entries.lookup key ≠ none := by
  intro hnone
  exact absurd (List.lookup_eq_none_iff.mp hnone (key, value) h) (by simp)

/-- Where no key is there twice, each has its own value. -/
theorem lookup_of_nodup (hnodup : (entries.map Prod.fst).Nodup) {entry : κ × ν} (hentry : entry ∈ entries) :
    entries.lookup entry.1 = some entry.2 := by
  obtain ⟨front, back, rfl⟩ := List.append_of_mem hentry
  refine List.lookup_eq_some_iff.mpr ⟨front, back, rfl, fun other hother => ?_⟩
  rw [List.map_append, List.map_cons] at hnodup
  have hne := (List.nodup_append.mp hnodup).2.2 other.1 (List.mem_map_of_mem hother) entry.1 List.mem_cons_self
  exact bne_iff_ne.mpr hne.symm

theorem lookup_cons_ne {entry : κ × ν} (h : key ≠ entry.1) : (entry :: entries).lookup key = entries.lookup key := by
  rw [List.lookup_cons, beq_eq_false_iff_ne.mpr h]

/-- Where no key is there twice, a filter keeps the value of a key or leaves the key without one. -/
theorem lookup_filter (hnodup : (entries.map Prod.fst).Nodup) (p : κ × ν → Bool) (key : κ) :
    (entries.filter p).lookup key = (entries.lookup key).filter fun value => p (key, value) := by
  induction entries with
  | nil => rfl
  | cons entry entries ih =>
    obtain ⟨key', value⟩ := entry
    obtain ⟨hnew, hnodup'⟩ := List.nodup_cons.mp hnodup
    have hrest := ih hnodup'
    by_cases hkey : key = key'
    · subst hkey
      rw [List.lookup_cons_self]
      cases hp : p (key, value) with
      | true =>
        rw [List.filter_cons_of_pos hp, List.lookup_cons_self]
        exact (if_pos hp).symm
      | false =>
        have hnone : entries.lookup key = none := by
          refine List.lookup_eq_none_iff.mpr fun other hother => bne_iff_ne.mpr fun heq => hnew ?_
          exact List.mem_map.mpr ⟨other, hother, heq.symm⟩
        rw [List.filter_cons_of_neg (by simp [hp]), hrest, hnone]
        exact (if_neg (by simp [hp])).symm
    · rw [lookup_cons_ne hkey, ← hrest]
      cases hp : p (key', value) with
      | true => rw [List.filter_cons_of_pos hp, lookup_cons_ne hkey]
      | false => rw [List.filter_cons_of_neg (by simp [hp])]

omit [BEq κ] [LawfulBEq κ] in
/-- One more entry is counted where a predicate comes to hold of one entry. -/
theorem countP_succ (hnodup : entries.Nodup) {entry : κ × ν} (hentry : entry ∈ entries) {p q : κ × ν → Bool}
    (hp : p entry = false) (hq : q entry = true) (hothers : ∀ other ∈ entries, other ≠ entry → q other = p other) :
    entries.countP q = entries.countP p + 1 := by
  obtain ⟨front, back, rfl⟩ := List.append_of_mem hentry
  obtain ⟨hnot, -⟩ := List.nodup_cons.mp (List.nodup_middle.mp hnodup)
  rw [List.mem_append, not_or] at hnot
  have hsame : ∀ other ∈ front ++ back, q other = p other := by
    intro other hother
    refine hothers other ?_ fun heq => ?_
    · rw [List.mem_append, List.mem_cons]
      exact (List.mem_append.mp hother).imp_right .inr
    · rw [heq, List.mem_append] at hother
      exact hother.elim hnot.1 hnot.2
  have hfront : front.countP q = front.countP p :=
    List.countP_congr fun other hother => by rw [hsame other (List.mem_append_left back hother)]
  have hback : back.countP q = back.countP p :=
    List.countP_congr fun other hother => by rw [hsame other (List.mem_append_right front hother)]
  rw [List.countP_append, List.countP_append, List.countP_cons_of_pos hq, List.countP_cons_of_neg (by simp [hp]),
    hfront, hback, Nat.add_assoc]

end Sunshine.Entries

/-! Values under keys, each good until a time.

The table has one value for a key, and loses those whose time is over at times that do not matter: at a `put`, or when
somebody has asked for them. The history has every value that was put, the last one first. `Tracks` is kept by all of
it, and with it the table answers as the history does (`current_iff`). -/
namespace Sunshine.Expiring
open Entries
set_option autoImplicit false

variable {κ ν : Type} [DecidableEq κ] [BEq κ] [LawfulBEq κ] {deadline : ν → ℕ} {clock now : ℕ}
  {entries history : List (κ × ν)} {key : κ} {value : ν}

def remove (key : κ) (entries : List (κ × ν)) : List (κ × ν) := entries.filter (·.1 ≠ key)

omit [DecidableEq κ] [BEq κ] [LawfulBEq κ] in
def prune (deadline : ν → ℕ) (now : ℕ) (entries : List (κ × ν)) : List (κ × ν) :=
  entries.filter fun entry => ¬ deadline entry.2 < now

def put (deadline : ν → ℕ) (now : ℕ) (key : κ) (value : ν) (entries : List (κ × ν)) : List (κ × ν) :=
  (key, value) :: remove key (prune deadline now entries)

/-- The table has nothing but the last value of each key, and lacks it only if its time is over at `clock`. -/
structure Tracks (deadline : ν → ℕ) (clock : ℕ) (entries history : List (κ × ν)) : Prop where
  nodup : (entries.map Prod.fst).Nodup
  sound : ∀ key value, entries.lookup key = some value → history.lookup key = some value
  complete : ∀ key value, history.lookup key = some value → clock ≤ deadline value → entries.lookup key = some value

omit [DecidableEq κ] [LawfulBEq κ] in
theorem Tracks.nil : Tracks deadline clock ([] : List (κ × ν)) [] where
  nodup := List.nodup_nil
  sound _ _ h := h
  complete _ _ h _ := h

omit [DecidableEq κ] [LawfulBEq κ] in
theorem Tracks.later (h : Tracks deadline clock entries history) (hle : clock ≤ now) :
    Tracks deadline now entries history :=
  ⟨h.nodup, h.sound, fun key value hlast hgood => h.complete key value hlast (Nat.le_trans hle hgood)⟩

omit [DecidableEq κ] in
/-- A table may lose what is over. -/
theorem Tracks.filter (h : Tracks deadline now entries history) (p : κ × ν → Bool)
    (hover : ∀ key value, entries.lookup key = some value → now ≤ deadline value → p (key, value) = true) :
    Tracks deadline now (entries.filter p) history where
  nodup := h.nodup.sublist (List.filter_sublist.map Prod.fst)
  sound key value hlookup := by
    rw [lookup_filter h.nodup] at hlookup
    exact h.sound key value (Option.filter_eq_some_iff.mp hlookup).1
  complete key value hlast hgood := by
    have hkept := h.complete key value hlast hgood
    rw [lookup_filter h.nodup, Option.filter_eq_some_iff]
    exact ⟨hkept, hover key value hkept hgood⟩

theorem Tracks.remove (h : Tracks deadline now entries history) (hkey : entries.lookup key = some value)
    (hover : deadline value < now) : Tracks deadline now (remove key entries) history := by
  refine h.filter _ fun other found hfound hgood => decide_eq_true fun heq => ?_
  obtain rfl : other = key := heq
  obtain rfl := Option.some.inj (hkey.symm.trans hfound)
  exact absurd hgood (Nat.not_le.mpr hover)

omit [DecidableEq κ] in
theorem Tracks.prune (h : Tracks deadline now entries history) :
    Tracks deadline now (prune deadline now entries) history :=
  h.filter _ fun _ _ _ hgood => decide_eq_true (Nat.not_lt.mpr hgood)

theorem Tracks.put (h : Tracks deadline now entries history) (key : κ) (value : ν) :
    Tracks deadline now (put deadline now key value entries) ((key, value) :: history) where
  nodup := by
    refine List.nodup_cons.mpr ⟨fun hmem => ?_, h.prune.nodup.sublist (List.filter_sublist.map Prod.fst)⟩
    obtain ⟨entry, hentry, heq⟩ := List.mem_map.mp hmem
    exact absurd heq (of_decide_eq_true (List.mem_filter.mp hentry).2)
  sound other found hlookup := by
    by_cases hother : other = key
    · subst hother
      rw [Expiring.put, List.lookup_cons_self] at hlookup
      rw [List.lookup_cons_self, hlookup]
    · rw [Expiring.put, lookup_cons_ne hother, Expiring.remove, lookup_filter h.prune.nodup] at hlookup
      rw [lookup_cons_ne hother]
      exact h.prune.sound other found (Option.filter_eq_some_iff.mp hlookup).1
  complete other found hlast hgood := by
    by_cases hother : other = key
    · subst hother
      rw [List.lookup_cons_self] at hlast
      rw [Expiring.put, List.lookup_cons_self, hlast]
    · rw [lookup_cons_ne hother] at hlast
      rw [Expiring.put, lookup_cons_ne hother, Expiring.remove, lookup_filter h.prune.nodup, Option.filter_eq_some_iff]
      exact ⟨h.prune.complete other found hlast hgood, decide_eq_true hother⟩

omit [DecidableEq κ] [LawfulBEq κ] in
/-- Which value of a key is good: the last one, until its time is over. -/
theorem Tracks.current_iff (h : Tracks deadline now entries history) :
    entries.lookup key = some value ∧ ¬ deadline value < now ↔ history.lookup key = some value ∧ now ≤ deadline value := by
  constructor
  · rintro ⟨hlookup, hgood⟩
    exact ⟨h.sound key value hlookup, Nat.not_lt.mp hgood⟩
  · rintro ⟨hlast, hgood⟩
    exact ⟨h.complete key value hlast hgood, Nat.not_lt.mpr hgood⟩

end Sunshine.Expiring

/-! Tables of keys with values in which a key is set: its entry is replaced, or comes behind the others. -/
namespace Sunshine.Tables
set_option autoImplicit false

variable {κ ν : Type} [DecidableEq κ] {entries : List (κ × ν)} {key other : κ} {value : ν}

def put (key : κ) (value : ν) : List (κ × ν) → List (κ × ν)
  | [] => [(key, value)]
  | entry :: entries => if entry.1 = key then (key, value) :: entries else entry :: put key value entries

theorem lookup_put_self (key : κ) (value : ν) (entries : List (κ × ν)) : (put key value entries).lookup key = some value := by
  induction entries with
  | nil => exact List.lookup_cons_self
  | cons entry entries ih =>
    rw [put]
    split_ifs with h
    · exact List.lookup_cons_self
    · rw [Entries.lookup_cons_ne (Ne.symm h), ih]

theorem lookup_put_ne (h : other ≠ key) (value : ν) (entries : List (κ × ν)) :
    (put key value entries).lookup other = entries.lookup other := by
  induction entries with
  | nil => exact Entries.lookup_cons_ne h
  | cons entry entries ih =>
    rw [put]
    split_ifs with heq
    · rw [Entries.lookup_cons_ne h, Entries.lookup_cons_ne (heq ▸ h)]
    · by_cases hother : other = entry.1
      · rw [hother]
        exact List.lookup_cons_self.trans List.lookup_cons_self.symm
      · rw [Entries.lookup_cons_ne hother, Entries.lookup_cons_ne hother, ih]

theorem mem_keys_put : other ∈ (put key value entries).map Prod.fst ↔ other = key ∨ other ∈ entries.map Prod.fst := by
  induction entries with
  | nil => simp [put]
  | cons entry entries ih =>
    rw [put]
    split_ifs with heq
    · simp [← heq]
    · rw [List.map_cons, List.mem_cons, ih, List.map_cons, List.mem_cons, or_left_comm]

theorem nodup_put (h : (entries.map Prod.fst).Nodup) : ((put key value entries).map Prod.fst).Nodup := by
  induction entries with
  | nil => exact List.nodup_singleton key
  | cons entry entries ih =>
    obtain ⟨hnew, hrest⟩ := List.nodup_cons.mp h
    rw [put]
    split_ifs with heq
    · exact List.nodup_cons.mpr ⟨heq ▸ hnew, hrest⟩
    · refine List.nodup_cons.mpr ⟨fun hmem => ?_, ih hrest⟩
      exact (mem_keys_put.mp hmem).elim heq hnew

end Sunshine.Tables
