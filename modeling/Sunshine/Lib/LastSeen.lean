import Mathlib.Data.List.Basic

/-! The largest value seen in a window of time, from a table of the times when each value was seen last.

`largest` looks at the whole history. The table has one time for each value, and drops what is above the largest recent
one (`resize`); `Tracks` says that nothing recent is missing from it, and `target_eq` that the table is enough. -/
namespace Sunshine.LastSeen
set_option autoImplicit false

abbrev Table := List (Option ℕ)

variable {window clock now value count : ℕ} {table : Table} {history : List (ℕ × ℕ)}

def resize (count : ℕ) (table : Table) : Table :=
  table.take count ++ List.replicate (count - table.length) none

def see (value now : ℕ) (table : Table) : Table :=
  (if table.length ≤ value then resize (value + 1) table else table).set value (some now)

def recent (window now : ℕ) (table : Table) (i : ℕ) : Bool :=
  (table[i]?.join).any fun seen => now - seen < window

/-- The last recent value from `value` on. -/
def target (window now value : ℕ) (table : Table) : ℕ :=
  (List.range' value (table.length - value)).foldl
    (fun best i => if recent window now table i then i else best) value

/-- The largest value with a time in the window. -/
def largest (window now : ℕ) : List (ℕ × ℕ) → ℕ
  | [] => 0
  | entry :: history =>
    if now - entry.2 < window then max entry.1 (largest window now history) else largest window now history

/-- The table has the last time of each value that is recent at `clock`. -/
structure Tracks (window clock : ℕ) (table : Table) (history : List (ℕ × ℕ)) : Prop where
  past : ∀ entry ∈ history, entry.2 ≤ clock
  sound : ∀ i seen, table[i]? = some (some seen) → (i, seen) ∈ history
  complete : ∀ entry ∈ history,
    window ≤ clock - entry.2 ∨ ∃ seen, entry.2 ≤ seen ∧ table[entry.1]? = some (some seen)

theorem tracks_nil : Tracks window clock [] [] := ⟨nofun, nofun, nofun⟩

theorem Tracks.later (h : Tracks window clock table history) (hle : clock ≤ now) :
    Tracks window now table history where
  past entry hentry := Nat.le_trans (h.past entry hentry) hle
  sound := h.sound
  complete entry hentry := by
    cases h.complete entry hentry with
    | inl hold => exact .inl (Nat.le_trans hold (Nat.sub_le_sub_right hle _))
    | inr hseen => exact .inr hseen

/-! ## The largest value -/

theorem le_largest {entry : ℕ × ℕ} (hentry : entry ∈ history) (hrecent : now - entry.2 < window) :
    entry.1 ≤ largest window now history := by
  induction history with
  | nil => cases hentry
  | cons other history ih =>
    unfold largest
    cases List.mem_cons.mp hentry with
    | inl heq =>
      subst heq
      rw [if_pos hrecent]
      exact Nat.le_max_left _ _
    | inr hmem =>
      split_ifs
      · exact Nat.le_trans (ih hmem) (Nat.le_max_right _ _)
      · exact ih hmem

theorem largest_le {bound : ℕ} (h : ∀ entry ∈ history, now - entry.2 < window → entry.1 ≤ bound) :
    largest window now history ≤ bound := by
  induction history with
  | nil => exact Nat.zero_le _
  | cons entry history ih =>
    have hrest := ih fun other hother => h other (List.mem_cons_of_mem _ hother)
    unfold largest
    split_ifs with hrecent
    · exact Nat.max_le.mpr ⟨h entry List.mem_cons_self hrecent, hrest⟩
    · exact hrest

theorem largest_later {later : ℕ} (hle : now ≤ later) :
    largest window later history ≤ largest window now history := by
  apply largest_le
  intro entry hentry hrecent
  exact le_largest hentry (by omega)

/-! ## The table -/

theorem getElem?_resize (i : ℕ) (seen : ℕ) :
    (resize count table)[i]? = some (some seen) ↔ i < count ∧ table[i]? = some (some seen) := by
  unfold resize
  by_cases hi : i < (table.take count).length
  · rw [List.getElem?_append_left hi, List.getElem?_take]
    rw [List.length_take] at hi
    have hlt : i < count := by omega
    rw [if_pos hlt]
    exact ⟨fun hseen => ⟨hlt, hseen⟩, fun hboth => hboth.2⟩
  · rw [List.getElem?_append_right (by omega), List.getElem?_replicate]
    rw [List.length_take] at hi
    constructor
    · intro hnone
      split_ifs at hnone
      cases hnone
    · rintro ⟨hlt, hseen⟩
      have hlength := (List.getElem?_eq_some_iff.mp hseen).1
      omega

theorem resize_length : (resize count table).length = count := by
  unfold resize
  rw [List.length_append, List.length_take, List.length_replicate]
  omega

theorem getElem?_see (i seen : ℕ) :
    (see value now table)[i]? = some (some seen) ↔
      (i = value ∧ seen = now) ∨ (i ≠ value ∧ table[i]? = some (some seen)) := by
  have hlength : value < (if table.length ≤ value then resize (value + 1) table else table).length := by
    split_ifs with hshort
    · rw [resize_length]
      omega
    · omega
  unfold see
  rw [List.getElem?_set]
  by_cases hi : value = i
  · subst hi
    rw [if_pos rfl, if_pos hlength]
    simp [eq_comm]
  · rw [if_neg hi]
    have hgrown : (if table.length ≤ value then resize (value + 1) table else table)[i]? = some (some seen) ↔
        table[i]? = some (some seen) := by
      split_ifs with hshort
      · rw [getElem?_resize]
        refine ⟨fun hboth => hboth.2, fun hseen => ⟨?_, hseen⟩⟩
        have hlt := (List.getElem?_eq_some_iff.mp hseen).1
        omega
      · exact Iff.rfl
    rw [hgrown]
    simp [Ne.symm hi]

/-- A value is seen. -/
theorem Tracks.see (h : Tracks window clock table history) (hle : clock ≤ now) (value : ℕ) :
    Tracks window now (see value now table) ((value, now) :: history) where
  past entry hentry := by
    cases List.mem_cons.mp hentry with
    | inl heq => exact Nat.le_of_eq (congrArg Prod.snd heq)
    | inr hmem => exact (h.later hle).past entry hmem
  sound i seen hseen := by
    cases (getElem?_see i seen).mp hseen with
    | inl hnew =>
      rw [hnew.1, hnew.2]
      exact List.mem_cons_self
    | inr hold => exact List.mem_cons_of_mem _ (h.sound i seen hold.2)
  complete entry hentry := by
    cases List.mem_cons.mp hentry with
    | inl heq =>
      rw [heq]
      exact .inr ⟨now, Nat.le_refl now, (getElem?_see _ _).mpr (.inl ⟨rfl, rfl⟩)⟩
    | inr hmem =>
      have hpast := (h.later hle).past entry hmem
      by_cases hvalue : entry.1 = value
      · exact .inr ⟨now, hpast, (getElem?_see _ _).mpr (.inl ⟨hvalue, rfl⟩)⟩
      · cases (h.later hle).complete entry hmem with
        | inl hold => exact .inl hold
        | inr hseen =>
          obtain ⟨seen, hafter, htable⟩ := hseen
          exact .inr ⟨seen, hafter, (getElem?_see _ _).mpr (.inr ⟨hvalue, htable⟩)⟩

/-- Values above all recent ones are forgotten. -/
theorem Tracks.resize (h : Tracks window clock table history)
    (hlargest : largest window clock history < count) : Tracks window clock (resize count table) history where
  past := h.past
  sound i seen hseen := h.sound i seen ((getElem?_resize i seen).mp hseen).2
  complete entry hentry := by
    by_cases hrecent : clock - entry.2 < window
    · have hle := le_largest hentry hrecent
      cases h.complete entry hentry with
      | inl hold => omega
      | inr hseen =>
        obtain ⟨seen, hafter, htable⟩ := hseen
        exact .inr ⟨seen, hafter, (getElem?_resize _ _).mpr ⟨by omega, htable⟩⟩
    · exact .inl (Nat.le_of_not_lt hrecent)

/-! ## The target -/

theorem foldl_last {p : ℕ → Bool} (n first best : ℕ) (hbest : best ≤ first) :
    let last := (List.range' first n).foldl (fun best i => if p i then i else best) best
    best ≤ last ∧ (last = best ∨ p last) ∧ ∀ i, first ≤ i → i < first + n → p i → i ≤ last := by
  induction n generalizing first best with
  | zero => exact ⟨Nat.le_refl _, .inl rfl, fun i hfirst hlast => by omega⟩
  | succ n ih =>
    simp only [List.range'_succ, List.foldl_cons]
    by_cases hp : p first
    · rw [if_pos hp]
      obtain ⟨hle, hlast, hmax⟩ := ih (first + 1) first (Nat.le_succ first)
      refine ⟨Nat.le_trans hbest hle, .inr ?_, fun i hfirst hend hi => ?_⟩
      · cases hlast with
        | inl heq =>
          rw [heq]
          exact hp
        | inr hpl => exact hpl
      · by_cases heq : i = first
        · rw [heq]
          exact hle
        · exact hmax i (by omega) (by omega) hi
    · rw [if_neg hp]
      obtain ⟨hle, hlast, hmax⟩ := ih (first + 1) best (Nat.le_succ_of_le hbest)
      refine ⟨hle, hlast, fun i hfirst hend hi => ?_⟩
      by_cases heq : i = first
      · rw [heq] at hi
        exact absurd hi hp
      · exact hmax i (by omega) (by omega) hi

theorem recent_iff {i : ℕ} :
    recent window now table i ↔ ∃ seen, table[i]? = some (some seen) ∧ now - seen < window := by
  unfold recent
  cases h : table[i]? with
  | none => simp
  | some entry =>
    cases entry with
    | none => simp
    | some seen => simp

/-- From a value seen now on, the last recent value of the table is the largest one of the history. -/
theorem Tracks.target_eq (h : Tracks window now table history) (hvalue : table[value]? = some (some now))
    (hwindow : 0 < window) : target window now value table = largest window now history := by
  have hvalue_recent : recent window now table value := recent_iff.mpr ⟨now, hvalue, by omega⟩
  obtain ⟨hle, hlast, hmax⟩ := foldl_last (p := recent window now table) (table.length - value) value value
    (Nat.le_refl value)
  have htarget : recent window now table (target window now value table) := by
    cases hlast with
    | inl heq =>
      unfold target
      rw [heq]
      exact hvalue_recent
    | inr hrecent => exact hrecent
  apply Nat.le_antisymm
  · obtain ⟨seen, hseen, hrecent⟩ := recent_iff.mp htarget
    exact le_largest (h.sound _ seen hseen) hrecent
  · apply largest_le
    intro entry hentry hrecent
    by_cases hsmall : entry.1 < value
    · exact Nat.le_trans (Nat.le_of_lt hsmall) hle
    · cases h.complete entry hentry with
      | inl hold => omega
      | inr hseen =>
        obtain ⟨seen, hafter, htable⟩ := hseen
        have hlength := (List.getElem?_eq_some_iff.mp htable).1
        exact hmax entry.1 (by omega) (by omega) (recent_iff.mpr ⟨seen, htable, by omega⟩)

theorem le_target : value ≤ target window now value table :=
  (foldl_last (p := recent window now table) (table.length - value) value value (Nat.le_refl value)).1

end Sunshine.LastSeen
