import Mathlib.Data.Nat.Basic
import Mathlib.Data.Option.Basic
import Mathlib.Data.List.Basic
import Mathlib.Order.Lattice

/-! Hits that are counted for a fixed time from the first use on.

A counter older than the window is dropped, and the next use makes one. No hit is let into a counter that is full, and
a window of time laid anywhere meets two counters at most: `Trace.le`. Who is refused has filled the counter itself:
`Trace.refused`. -/
namespace Sunshine.FixedWindow
set_option autoImplicit false

structure Counter where
  start : ℕ
  hits : ℕ

def hits (slot : Option Counter) : ℕ := slot.elim 0 Counter.hits

def expire (window now : ℕ) (slot : Option Counter) : Option Counter :=
  slot.filter fun counter => ¬window < now - counter.start

def use (made : ℕ) (slot : Option Counter) : Option Counter := some (slot.getD ⟨made, 0⟩)

def hit (slot : Option Counter) : Option Counter :=
  slot.map fun counter => { counter with hits := counter.hits + 1 }

/-- The readings of the clock: at the first use and where a counter is made for it, and the same at a hit. -/
structure Times where
  now : ℕ
  made : ℕ
  hitNow : ℕ
  hitMade : ℕ
  now_le : now ≤ made
  made_le : made ≤ hitNow
  hitNow_le : hitNow ≤ hitMade

/-- One reading for all. -/
def Times.once (now : ℕ) : Times := ⟨now, now, now, now, Nat.le_refl now, Nat.le_refl now, Nat.le_refl now⟩

inductive Outcome where
  | elsewhere
  | refused
  | idle
  | cleared
  | hit
  deriving DecidableEq

/-- A use that is counted, or one of another counter, which may drop what is old. -/
inductive Step (limit window : ℕ) (times : Times) (slot : Option Counter) : Outcome → Option Counter → Prop where
  | stays : Step limit window times slot .elsewhere slot
  | elsewhere : Step limit window times slot .elsewhere (expire window times.now slot)
  | elsewhereHit : Step limit window times slot .elsewhere
      (expire window times.hitNow (expire window times.now slot))
  | refused (full : limit ≤ hits (use times.made (expire window times.now slot))) :
      Step limit window times slot .refused (use times.made (expire window times.now slot))
  | idle : Step limit window times slot .idle (use times.made (expire window times.now slot))
  | cleared : Step limit window times slot .cleared none
  | hit (room : hits (use times.made (expire window times.now slot)) < limit) :
      Step limit window times slot .hit (FixedWindow.hit (use times.hitMade (expire window times.hitNow
        (use times.made (expire window times.now slot)))))

inductive Trace (limit window : ℕ) : Option Counter → List (Times × Outcome) → Option Counter → Prop where
  | nil (slot : Option Counter) : Trace limit window slot [] slot
  | cons {slot slot' slot'' : Option Counter} {times : Times} {outcome : Outcome} {l : List (Times × Outcome)}
      (step : Step limit window times slot outcome slot') (rest : Trace limit window slot' l slot'') :
      Trace limit window slot ((times, outcome) :: l) slot''

/-- The clock does not go back. -/
def Ordered : ℕ → List (Times × Outcome) → Prop
  | _, [] => True
  | t, entry :: l => t ≤ entry.1.now ∧ Ordered entry.1.hitMade l

variable {limit window base t now made count : ℕ} {slot slot' : Option Counter} {l : List (Times × Outcome)}

/-! ## Counters -/

@[simp]
theorem hits_use (made : ℕ) (slot : Option Counter) : hits (use made slot) = hits slot := by
  cases slot <;> rfl

theorem expire_old {counter : Counter} (h : window < now - counter.start) : expire window now (some counter) = none :=
  Option.filter_some_neg (by simp [h])

theorem expire_fresh {counter : Counter} (h : ¬window < now - counter.start) :
    expire window now (some counter) = some counter :=
  Option.filter_some_pos (by simp [h])

theorem hits_expire_le (window now : ℕ) (slot : Option Counter) : hits (expire window now slot) ≤ hits slot := by
  cases slot with
  | none => exact Nat.le_refl _
  | some counter =>
    by_cases hold : window < now - counter.start
    · rw [expire_old hold]
      exact Nat.zero_le _
    · rw [expire_fresh hold]

theorem hits_hit_use (made : ℕ) (slot : Option Counter) : hits (hit (use made slot)) = hits slot + 1 := by
  cases slot <;> rfl

theorem Step.hits_le {times : Times} {outcome : Outcome} (h : Step limit window times slot outcome slot')
    (hslot : hits slot ≤ limit) : hits slot' ≤ limit := by
  have hexpire := (hits_expire_le window times.now slot).trans hslot
  cases h with
  | stays => exact hslot
  | elsewhere => exact hexpire
  | elsewhereHit => exact (hits_expire_le _ _ _).trans hexpire
  | refused full => rwa [hits_use]
  | idle => rwa [hits_use]
  | cleared => exact Nat.zero_le _
  | hit room =>
    rw [hits_hit_use]
    exact (Nat.succ_le_succ (hits_expire_le _ _ _)).trans room

/-! ## A window laid anywhere -/

/-- A hit of the window that starts at `base`. -/
def counted (base window : ℕ) (entry : Times × Outcome) : Bool :=
  entry.2 = .hit ∧ base ≤ entry.1.hitMade ∧ entry.1.hitMade ≤ base + window

/-- `count` hits of the window that starts at `base` are all in the counter, or in it and one before it that had begun
no earlier than the window, or the window is over. -/
structure Seam (limit window base t count : ℕ) (slot : Option Counter) : Prop where
  begun : 0 < count → base ≤ t
  few : count ≤ hits slot ∨ (count ≤ limit + hits slot ∧ ∀ counter ∈ slot, base ≤ counter.start) ∨
    base + window < t ∧ count ≤ 2 * limit

theorem Seam.le (h : Seam limit window base t count slot) (hslot : hits slot ≤ limit) : count ≤ 2 * limit := by
  have hfew := h.few
  omega

theorem Seam.later {t' : ℕ} (h : Seam limit window base t count slot) (ht : t ≤ t') :
    Seam limit window base t' count slot := by
  have hbegun := h.begun
  refine ⟨fun hcount => (hbegun hcount).trans ht, ?_⟩
  exact h.few.imp_right fun hfew => hfew.imp_right fun hover => ⟨hover.1.trans_le ht, hover.2⟩

theorem Seam.of_expire (h : Seam limit window base t count slot) (ht : t ≤ now) (hslot : hits slot ≤ limit) :
    Seam limit window base now count (expire window now slot) := by
  have hlater := h.later ht
  cases slot with
  | none => exact hlater
  | some counter =>
    by_cases hold : window < now - counter.start
    · have hhits : hits (some counter) = counter.hits := rfl
      rw [expire_old hold]
      refine ⟨hlater.begun, ?_⟩
      obtain hfew | hfew | hover := hlater.few
      · exact .inr (.inl ⟨hfew.trans (hslot.trans (Nat.le_add_right _ _)), fun _ hmem => nomatch hmem⟩)
      · have hstart := hfew.2 counter rfl
        exact .inr (.inr ⟨by omega, by omega⟩)
      · exact .inr (.inr hover)
    · rwa [expire_fresh hold]

theorem Seam.of_use (h : Seam limit window base t count slot) (ht : t ≤ made) :
    Seam limit window base made count (use made slot) := by
  have hlater := h.later ht
  refine ⟨hlater.begun, ?_⟩
  rw [hits_use]
  cases slot with
  | some counter => exact hlater.few
  | none =>
    obtain hfew | hfew | hover := hlater.few
    · exact .inl hfew
    · by_cases hcount : 0 < count
      · refine .inr (.inl ⟨hfew.1, fun counter hmem => ?_⟩)
        obtain rfl := Option.some.inj hmem
        exact hlater.begun hcount
      · exact .inl (by omega)
    · exact .inr (.inr hover)

theorem Seam.of_hit (h : Seam limit window base t count (use made slot)) (hbase : base ≤ t) (ht : t ≤ base + window) :
    Seam limit window base t (count + 1) (hit (use made slot)) := by
  refine ⟨fun _ => hbase, ?_⟩
  have hfew := h.few
  rw [hits_use] at hfew
  rw [hits_hit_use]
  obtain hfew | hfew | hover := hfew
  · exact .inl (Nat.succ_le_succ hfew)
  · refine .inr (.inl ⟨by omega, fun counter hmem => ?_⟩)
    obtain ⟨counter', hmem', rfl⟩ := Option.map_eq_some_iff.mp hmem
    exact hfew.2 counter' hmem'
  · omega

theorem Seam.of_uncounted (h : Seam limit window base t count (use made slot)) :
    Seam limit window base t count (hit (use made slot)) := by
  refine ⟨h.begun, ?_⟩
  have hfew := h.few
  rw [hits_use] at hfew
  rw [hits_hit_use]
  obtain hfew | hfew | hover := hfew
  · exact .inl (by omega)
  · refine .inr (.inl ⟨by omega, fun counter hmem => ?_⟩)
    obtain ⟨counter', hmem', rfl⟩ := Option.map_eq_some_iff.mp hmem
    exact hfew.2 counter' hmem'
  · exact .inr (.inr hover)

theorem Step.seam {times : Times} {outcome : Outcome} (h : Step limit window times slot outcome slot')
    (hseam : Seam limit window base t count slot) (ht : t ≤ times.now) (hslot : hits slot ≤ limit)
    (houtcome : outcome ≠ .cleared) :
    Seam limit window base times.hitMade (count + if counted base window (times, outcome) then 1 else 0) slot' := by
  have hnow := times.now_le
  have hmade := times.made_le
  have hhit := times.hitNow_le
  have hexpire := hseam.of_expire ht hslot
  have huse := hexpire.of_use hnow
  have hlimit : hits (use times.made (expire window times.now slot)) ≤ limit := by
    rw [hits_use]
    exact (hits_expire_le _ _ _).trans hslot
  cases h with
  | stays => exact hseam.later (by omega)
  | elsewhere => exact hexpire.later (by omega)
  | elsewhereHit =>
    refine (hexpire.of_expire (hnow.trans hmade) ?_).later hhit
    exact (hits_expire_le _ _ _).trans hslot
  | refused full => exact huse.later (by omega)
  | idle => exact huse.later (by omega)
  | cleared => exact absurd rfl houtcome
  | hit room =>
    have hagain := (huse.of_expire hmade hlimit).of_use hhit
    by_cases hin : base ≤ times.hitMade ∧ times.hitMade ≤ base + window
    · have hcounted : counted base window (times, .hit) = true := decide_eq_true ⟨rfl, hin⟩
      rw [if_pos hcounted]
      exact hagain.of_hit hin.1 hin.2
    · rw [if_neg (by simpa [counted] using hin)]
      exact hagain.of_uncounted

theorem Trace.seam (h : Trace limit window slot l slot') (hseam : Seam limit window base t count slot)
    (hordered : Ordered t l) (hslot : hits slot ≤ limit) (hl : ∀ entry ∈ l, entry.2 ≠ .cleared) :
    count + l.countP (counted base window) ≤ 2 * limit := by
  induction h generalizing t count with
  | nil slot => exact hseam.le hslot
  | cons step rest ih =>
    have hnext := step.seam hseam hordered.1 hslot (hl _ List.mem_cons_self)
    have hrest := ih hnext hordered.2 (step.hits_le hslot) fun entry hentry => hl entry (List.mem_cons_of_mem _ hentry)
    rw [List.countP_cons]
    omega

theorem Trace.split {m : List (Times × Outcome)} (h : Trace limit window slot (l ++ m) slot') :
    ∃ slot'', Trace limit window slot l slot'' ∧ Trace limit window slot'' m slot' := by
  induction l generalizing slot with
  | nil => exact ⟨slot, .nil slot, h⟩
  | cons entry l ih =>
    cases h with
    | cons step rest =>
      obtain ⟨slot'', hfront, hback⟩ := ih rest
      exact ⟨slot'', .cons step hfront, hback⟩

theorem Trace.hits_le (h : Trace limit window slot l slot') (hslot : hits slot ≤ limit) : hits slot' ≤ limit := by
  induction h with
  | nil slot => exact hslot
  | cons step rest ih => exact ih (step.hits_le hslot)

theorem Ordered.behind {m : List (Times × Outcome)} (h : Ordered t (l ++ m)) : ∃ t', Ordered t' m := by
  induction l generalizing t with
  | nil => exact ⟨t, h⟩
  | cons entry l ih => exact ih h.2

theorem Ordered.front {m : List (Times × Outcome)} (h : Ordered t (l ++ m)) : Ordered t l := by
  induction l generalizing t with
  | nil => trivial
  | cons entry l ih => exact ⟨h.1, ih h.2⟩

/-- Where no counter is cleared, a window has twice as many hits as fit in a counter, at most. -/
theorem Trace.le {before segment after : List (Times × Outcome)}
    (h : Trace limit window none (before ++ segment ++ after) slot') (hordered : Ordered 0 (before ++ segment ++ after))
    (hsegment : ∀ entry ∈ segment, entry.2 ≠ .cleared) (base : ℕ) :
    segment.countP (counted base window) ≤ 2 * limit := by
  obtain ⟨slot₂, hfront, -⟩ := h.split
  obtain ⟨slot₁, hbefore, htrace⟩ := hfront.split
  obtain ⟨t, ht⟩ := hordered.front.behind
  have hnone : Seam limit window base t 0 slot₁ := ⟨fun h => absurd h (Nat.lt_irrefl 0), .inl (Nat.zero_le _)⟩
  have hle := htrace.seam hnone ht (hbefore.hits_le (Nat.zero_le _)) hsegment
  rwa [Nat.zero_add] at hle

/-! ## Who is refused -/

/-- A hit no longer than a window before `now`. -/
def recently (window now : ℕ) (entry : Times × Outcome) : Bool := entry.2 = .hit ∧ now ≤ entry.1.hitMade + window

/-- The hits in the counter were made since it began and since one was last cleared. -/
structure Own (t : ℕ) (slot : Option Counter) (l : List (Times × Outcome)) : Prop where
  begun : ∀ counter ∈ slot, counter.start ≤ t
  hits : ∃ old recent, l = old ++ recent ∧ (∀ entry ∈ recent, entry.2 ≠ .cleared) ∧ ∀ counter ∈ slot,
    counter.hits ≤ recent.countP fun entry => entry.2 = .hit ∧ counter.start ≤ entry.1.hitMade

theorem own_none (t : ℕ) : Own t none [] :=
  ⟨(nomatch ·, ·), [], [], rfl, List.forall_mem_nil _, (nomatch ·, ·)⟩

theorem Own.of_expire (h : Own t slot l) (ht : t ≤ now) : Own now (expire window now slot) l := by
  have hmem (counter : Counter) (hcounter : counter ∈ expire window now slot) : counter ∈ slot :=
    (Option.mem_filter_iff.mp hcounter).1
  obtain ⟨old, recent, hl, hrecent, hhits⟩ := h.hits
  exact ⟨fun counter hcounter => (h.begun counter (hmem counter hcounter)).trans ht,
    old, recent, hl, hrecent, fun counter hcounter => hhits counter (hmem counter hcounter)⟩

theorem Own.of_use (h : Own t slot l) (ht : t ≤ made) : Own made (use made slot) l := by
  obtain ⟨old, recent, hl, hrecent, hhits⟩ := h.hits
  cases slot with
  | none =>
    refine ⟨fun counter hcounter => ?_, old, recent, hl, hrecent, fun counter hcounter => ?_⟩
    · obtain rfl := Option.some.inj hcounter
      exact Nat.le_refl _
    · obtain rfl := Option.some.inj hcounter
      exact Nat.zero_le _
  | some counter => exact ⟨fun _ hcounter => (h.begun _ hcounter).trans ht, old, recent, hl, hrecent, hhits⟩

theorem Own.later {t' : ℕ} (h : Own t slot l) (ht : t ≤ t') : Own t' slot l :=
  ⟨fun counter hcounter => (h.begun counter hcounter).trans ht, h.hits⟩

theorem Own.concat (h : Own t slot l) {entry : Times × Outcome} (hentry : entry.2 ≠ .cleared) :
    Own t slot (l ++ [entry]) := by
  obtain ⟨old, recent, rfl, hrecent, hhits⟩ := h.hits
  refine ⟨h.begun, old, recent ++ [entry], List.append_assoc _ _ _, ?_, fun counter hcounter => ?_⟩
  · intro other hother
    cases List.mem_append.mp hother with
    | inl hother => exact hrecent other hother
    | inr hother =>
      rw [List.mem_singleton.mp hother]
      exact hentry
  · rw [List.countP_append]
    exact (hhits counter hcounter).trans (Nat.le_add_right _ _)

theorem Own.of_hit {times : Times} (h : Own times.hitMade slot l) :
    Own times.hitMade (hit slot) (l ++ [(times, .hit)]) := by
  have hbegun (counter : Counter) (hcounter : counter ∈ hit slot) :
      ∃ counter' ∈ slot, counter'.start = counter.start ∧ counter.hits = counter'.hits + 1 := by
    obtain ⟨counter', hcounter', rfl⟩ := Option.map_eq_some_iff.mp hcounter
    exact ⟨counter', hcounter', rfl, rfl⟩
  obtain ⟨old, recent, rfl, hrecent, hhits⟩ := h.hits
  refine ⟨fun counter hcounter => ?_, old, recent ++ [(times, .hit)], List.append_assoc _ _ _, ?_,
    fun counter hcounter => ?_⟩
  · obtain ⟨counter', hcounter', hstart, -⟩ := hbegun counter hcounter
    rw [← hstart]
    exact h.begun counter' hcounter'
  · intro other hother
    cases List.mem_append.mp hother with
    | inl hother => exact hrecent other hother
    | inr hother =>
      rw [List.mem_singleton.mp hother]
      exact Outcome.noConfusion
  · obtain ⟨counter', hcounter', hstart, hcount⟩ := hbegun counter hcounter
    have hin : counter.start ≤ times.hitMade := by
      rw [← hstart]
      exact h.begun counter' hcounter'
    have hle := hhits counter' hcounter'
    rw [hstart] at hle
    rw [List.countP_append, hcount, List.countP_singleton, if_pos (decide_eq_true ⟨rfl, hin⟩)]
    exact Nat.succ_le_succ hle

theorem Step.own {times : Times} {outcome : Outcome} (h : Step limit window times slot outcome slot')
    (hown : Own t slot l) (ht : t ≤ times.now) : Own times.hitMade slot' (l ++ [(times, outcome)]) := by
  have hnow := times.now_le
  have hmade := times.made_le
  have hhit := times.hitNow_le
  have hexpire : Own times.now (expire window times.now slot) l := hown.of_expire ht
  have huse := hexpire.of_use hnow
  cases h with
  | stays => exact (hown.later (by omega)).concat Outcome.noConfusion
  | elsewhere => exact (hexpire.later (by omega)).concat Outcome.noConfusion
  | elsewhereHit => exact ((hexpire.of_expire (hnow.trans hmade)).later hhit).concat Outcome.noConfusion
  | refused full => exact (huse.later (by omega)).concat Outcome.noConfusion
  | idle => exact (huse.later (by omega)).concat Outcome.noConfusion
  | cleared =>
    exact ⟨(nomatch ·, ·), l ++ [(times, .cleared)], [], (List.append_nil _).symm, List.forall_mem_nil _,
      (nomatch ·, ·)⟩
  | hit room => exact ((huse.of_expire hmade).of_use hhit).of_hit

/-- A counter that refuses is full of hits of the last window. -/
theorem Step.refused_own {times : Times} (h : Step limit window times slot .refused slot') (hlimit : 0 < limit)
    (hown : Own t slot l) : ∃ old recent, l = old ++ recent ∧ (∀ entry ∈ recent, entry.2 ≠ .cleared) ∧
      limit ≤ recent.countP (recently window times.now) := by
  obtain ⟨old, recent, hl, hrecent, hhits⟩ := hown.hits
  refine ⟨old, recent, hl, hrecent, ?_⟩
  cases h with
  | refused full =>
    rw [hits_use] at full
    cases slot with
    | none => exact absurd (hlimit.trans_le full) (Nat.lt_irrefl 0)
    | some counter =>
      by_cases hold : window < times.now - counter.start
      · rw [expire_old hold] at full
        exact absurd (hlimit.trans_le full) (Nat.lt_irrefl 0)
      · rw [expire_fresh hold] at full
        refine (full.trans (hhits counter rfl)).trans (List.countP_mono_left fun entry _ hentry => ?_)
        obtain ⟨hoccured, hstart⟩ := of_decide_eq_true hentry
        exact decide_eq_true ⟨hoccured, by omega⟩

theorem Trace.refused_own (h : Trace limit window slot l slot') {before after front : List (Times × Outcome)}
    {times : Times} (hl : l = before ++ (times, .refused) :: after) (hlimit : 0 < limit) (hown : Own t slot front)
    (hordered : Ordered t l) : ∃ old recent, front ++ before = old ++ recent ∧
      (∀ entry ∈ recent, entry.2 ≠ .cleared) ∧ limit ≤ recent.countP (recently window times.now) := by
  induction h generalizing t front before with
  | nil slot => cases before <;> cases hl
  | cons step rest ih =>
    cases before with
    | nil =>
      obtain ⟨hentry, rfl⟩ := List.cons.inj hl
      obtain ⟨rfl, rfl⟩ := Prod.mk.inj hentry
      rw [List.append_nil]
      exact step.refused_own hlimit hown
    | cons entry before =>
      obtain ⟨rfl, rfl⟩ := List.cons.inj hl
      have hrest := ih rfl (step.own hown hordered.1) hordered.2
      rwa [List.append_assoc, List.singleton_append] at hrest

/-- From no counter on, who is refused has made as many hits as fit in a counter, in the last window and with none
cleared behind them. -/
theorem Trace.refused {before after : List (Times × Outcome)} {times : Times}
    (h : Trace limit window none (before ++ (times, .refused) :: after) slot') (hlimit : 0 < limit)
    (hordered : Ordered 0 (before ++ (times, .refused) :: after)) : ∃ old recent, before = old ++ recent ∧
      (∀ entry ∈ recent, entry.2 ≠ .cleared) ∧ limit ≤ recent.countP (recently window times.now) :=
  h.refused_own rfl hlimit (own_none 0) hordered

end Sunshine.FixedWindow
