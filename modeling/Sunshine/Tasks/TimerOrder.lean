import Mathlib.Data.List.TakeWhile
import Sunshine.Tasks.TaskPool

/-! In which runs the timer tasks stay in order.

An id is found at one place at most; `Split` cuts the list there, and each loop is what it does at the cut. -/
namespace Sunshine.Tasks
open Agenda Transitions
set_option autoImplicit false

section Ids

variable {Time : Type} {taskId : ℕ} {entries front back : List (TimerTask Time)}
  {entry : TimerTask Time}

/-! ## Where an id is found -/

/-- The first entry with the id, with the entries in front of it and behind. -/
structure Split (taskId : ℕ) (entries front : List (TimerTask Time)) (entry : TimerTask Time)
    (back : List (TimerTask Time)) : Prop where
  eq : entries = front ++ entry :: back
  found : entry.task = some taskId
  front_ne : ∀ other ∈ front, other.task ≠ some taskId

def Absent (taskId : ℕ) (entries : List (TimerTask Time)) : Prop := ∀ entry ∈ entries, entry.task ≠ some taskId

theorem absent_or_split (taskId : ℕ) (entries : List (TimerTask Time)) :
    Absent taskId entries ∨ ∃ front entry back, Split taskId entries front entry back := by
  induction entries with
  | nil => exact .inl fun entry h => by cases h
  | cons entry rest ih =>
    by_cases hfound : entry.task = some taskId
    · exact .inr ⟨[], entry, rest, rfl, hfound, fun other h => by cases h⟩
    · rcases ih with habsent | ⟨front, found, back, rfl, htask, hfront⟩
      · exact .inl (List.forall_mem_cons.mpr ⟨hfound, habsent⟩)
      · exact .inr ⟨entry :: front, found, back, rfl, htask, List.forall_mem_cons.mpr ⟨hfound, hfront⟩⟩

theorem Split.mem (h : Split taskId entries front entry back) : entry ∈ entries :=
  h.eq ▸ List.mem_append_right _ List.mem_cons_self

theorem Split.behind_eq (h : Split taskId entries front entry back) : behind taskId entries = back := by
  obtain ⟨rfl, hfound, hfront⟩ := h
  unfold behind
  rw [List.dropWhile_append_of_pos (by simpa using hfront), List.dropWhile_cons_of_neg (by simpa using hfound),
    List.tail_cons]

theorem behind_absent (h : Absent taskId entries) : behind taskId entries = [] := by
  have hnil : entries.dropWhile (·.task ≠ some taskId) = [] :=
    List.dropWhile_eq_nil_iff.mpr (by simpa [Absent] using h)
  rw [behind, hnil]
  rfl

/-! ## The loops -/

theorem cancelLoop_absent (h : Absent taskId entries) : cancelLoop taskId entries = (false, entries) := by
  induction entries with
  | nil => rfl
  | cons entry rest ih =>
    obtain ⟨hentry, hrest⟩ := List.forall_mem_cons.mp h
    unfold cancelLoop
    rw [if_neg hentry, ih hrest]

theorem cancelLoop_split (h : Split taskId entries front entry back) :
    cancelLoop taskId entries = (true, front ++ back) := by
  obtain ⟨rfl, hfound, hfront⟩ := h
  induction front with
  | nil => exact if_pos hfound
  | cons other front ih =>
    obtain ⟨hother, hfront⟩ := List.forall_mem_cons.mp hfront
    rw [List.cons_append, cancelLoop, if_neg hother, ih hfront]
    rfl

theorem popIdLoop_absent (h : Absent taskId entries) : popIdLoop taskId entries = (none, entries) := by
  induction entries with
  | nil => rfl
  | cons entry rest ih =>
    obtain ⟨hentry, hrest⟩ := List.forall_mem_cons.mp h
    unfold popIdLoop
    rw [if_neg hentry, ih hrest]

theorem popIdLoop_split (h : Split taskId entries front entry back) :
    popIdLoop taskId entries = (some entry, front ++ { entry with task := none } :: back) := by
  obtain ⟨rfl, hfound, hfront⟩ := h
  induction front with
  | nil => exact if_pos hfound
  | cons other front ih =>
    obtain ⟨hother, hfront⟩ := List.forall_mem_cons.mp hfront
    rw [List.cons_append, popIdLoop, if_neg hother, ih hfront]
    rfl

/-! ## Ids -/

/-- No two entries have one task. -/
def UniqueIds (entries : List (TimerTask Time)) : Prop := (entries.filterMap TimerTask.task).Nodup

theorem UniqueIds.sublist (h : UniqueIds entries) (hsub : front.Sublist entries) : UniqueIds front :=
  List.Nodup.sublist (hsub.filterMap _) h

theorem UniqueIds.perm (h : UniqueIds entries) (hperm : front.Perm entries) : UniqueIds front :=
  (hperm.filterMap _).nodup_iff.mpr h

theorem uniqueIds_cons_some {time : Time} {task : ℕ} :
    UniqueIds (⟨time, some task⟩ :: entries) ↔ Absent task entries ∧ UniqueIds entries := by
  unfold UniqueIds Absent
  have hcons : (⟨time, some task⟩ :: entries : List (TimerTask Time)).filterMap TimerTask.task =
      task :: entries.filterMap TimerTask.task := rfl
  rw [hcons, List.nodup_cons]
  simp only [List.mem_filterMap, not_exists, not_and]

theorem Split.back_ne (h : Split taskId entries front entry back) (hunique : UniqueIds entries) :
    Absent taskId back := by
  obtain ⟨rfl, hfound, -⟩ := h
  obtain ⟨time, task⟩ := entry
  cases hfound
  exact (uniqueIds_cons_some.mp (hunique.sublist (List.sublist_append_right _ _))).1

theorem filter_absent (h : Absent taskId entries) : entries.filter (·.task = some taskId) = [] :=
  List.filter_eq_nil_iff.mpr (by simpa [Absent] using h)

end Ids

section Delay

variable {Time : Type} [LinearOrder Time] {taskId : ℕ} {entries front back : List (TimerTask Time)}
  {entry : TimerTask Time}

/-! ## Delaying a task -/

theorem delayLoop_absent (h : Absent taskId entries) (time : Time) (front : List (TimerTask Time)) :
    delayLoop taskId time front entries = front.reverse ++ entries := by
  induction entries generalizing front with
  | nil => simp [delayLoop]
  | cons entry rest ih =>
    obtain ⟨hentry, hrest⟩ := List.forall_mem_cons.mp h
    unfold delayLoop
    rw [if_neg hentry, ih hrest, List.reverse_cons, List.append_assoc, List.singleton_append]

theorem delayLoop_split (h : Split taskId entries front entry back) (time : Time) (passed : List (TimerTask Time)) :
    delayLoop taskId time passed entries =
      sift TimerTask.time { entry with time } (front.reverse ++ passed) back := by
  obtain ⟨rfl, hfound, hfront⟩ := h
  induction front generalizing passed with
  | nil =>
    rw [List.nil_append, delayLoop, if_pos hfound]
    rfl
  | cons other front ih =>
    obtain ⟨hother, hfront⟩ := List.forall_mem_cons.mp hfront
    rw [List.cons_append, delayLoop, if_neg hother, ih _ hfront, List.reverse_cons, List.append_assoc,
      List.singleton_append]

end Delay

section Order

variable {Time : Type} [LinearOrder Time] {p : TaskPool Time}

/-! ## What order means for `pop` -/

/-- The timer tasks are in descending order, and none was moved out. -/
structure TimersOk (entries : List (TimerTask Time)) : Prop where
  sorted : Descending TimerTask.time entries
  full : ∀ entry ∈ entries, entry.task ≠ none

theorem TimersOk.sublist {entries kept : List (TimerTask Time)} (h : TimersOk entries) (hsub : kept.Sublist entries) :
    TimersOk kept :=
  ⟨h.sorted.sublist hsub, fun entry hentry => h.full entry (hsub.subset hentry)⟩

/-- What `pop` does when no task is to be run at once. -/
theorem pop_timer (htasks : p.tasks = []) {front : List (TimerTask Time)} {entry : TimerTask Time}
    (hlast : p.timerTasks = front ++ [entry]) (now : Time) :
    p.pop now = if entry.time ≤ now then (some entry.task, { p with timerTasks := front }) else (none, p) := by
  unfold TaskPool.pop
  rw [htasks, hlast, List.getLast?_concat, List.dropLast_concat]

theorem pop_nothing (htasks : p.tasks = []) (hempty : p.timerTasks = []) (now : Time) : p.pop now = (none, p) := by
  unfold TaskPool.pop
  rw [htasks, hempty]
  rfl

theorem pop_tasks {task : ℕ} {tasks : List ℕ} (htasks : p.tasks = task :: tasks) (now : Time) :
    p.pop now = (some (some task), { p with tasks }) := by
  unfold TaskPool.pop
  rw [htasks]

theorem pop_sublist (p : TaskPool Time) (now : Time) : (p.pop now).2.timerTasks.Sublist p.timerTasks := by
  cases htasks : p.tasks with
  | cons task tasks =>
    rw [pop_tasks htasks]
  | nil =>
    rcases List.eq_nil_or_concat p.timerTasks with hempty | ⟨front, entry, hlast⟩
    · rw [pop_nothing htasks hempty]
    · rw [List.concat_eq_append] at hlast
      rw [pop_timer htasks hlast]
      split
      · rw [hlast]
        exact List.sublist_append_left front [entry]
      · exact List.Sublist.refl _

theorem TimersOk.pops (h : TimersOk p.timerTasks) {now : Time}
    (hdue : p.tasks ≠ [] ∨ ∃ entry ∈ p.timerTasks, entry.time ≤ now) : ∃ task, (p.pop now).1 = some (some task) := by
  cases htasks : p.tasks with
  | cons task tasks =>
    rw [pop_tasks htasks]
    exact ⟨task, rfl⟩
  | nil =>
    obtain ⟨entry, hentry, hnow⟩ := hdue.resolve_left (not_not.mpr htasks)
    rcases List.eq_nil_or_concat p.timerTasks with hempty | ⟨front, last, hlast⟩
    · rw [hempty] at hentry
      cases hentry
    · rw [List.concat_eq_append] at hlast
      rw [hlast] at hentry
      have hle : last.time ≤ entry.time := by
        have hsorted := h.sorted
        rw [hlast] at hsorted
        exact hsorted.last_le hentry
      rw [pop_timer htasks hlast, if_pos (hle.trans hnow)]
      cases htask : last.task with
      | none => exact absurd htask (h.full last (hlast ▸ List.mem_append_right _ List.mem_cons_self))
      | some task => exact ⟨task, rfl⟩

theorem TimersOk.first (h : TimersOk p.timerTasks) (htasks : p.tasks = []) {now : Time} {task : ℕ}
    (hpop : (p.pop now).1 = some (some task)) : ∃ entry ∈ p.timerTasks, entry.task = some task ∧ entry.time ≤ now ∧
      ∀ other ∈ p.timerTasks, entry.time ≤ other.time := by
  rcases List.eq_nil_or_concat p.timerTasks with hempty | ⟨front, last, hlast⟩
  · rw [pop_nothing htasks hempty] at hpop
    cases hpop
  · rw [List.concat_eq_append] at hlast
    rw [pop_timer htasks hlast] at hpop
    split at hpop
    · rename_i hnow
      refine ⟨last, hlast ▸ List.mem_append_right _ List.mem_cons_self, Option.some.inj hpop, hnow, ?_⟩
      have hsorted := h.sorted
      rw [hlast] at hsorted ⊢
      exact fun other hother => hsorted.last_le hother
    · cases hpop

/-- What comes out at one clock is the last entry, which is not behind what stays. -/
theorem poppedTimes_sublist (clocks : List Time) (p : TaskPool Time) :
    (poppedTimes clocks p).Sublist (p.timerTasks.map TimerTask.time).reverse := by
  induction clocks generalizing p with
  | nil => exact List.nil_sublist _
  | cons now clocks ih =>
    unfold poppedTimes
    cases htasks : p.tasks with
    | cons task tasks =>
      rw [if_neg (List.cons_ne_nil _ _), List.nil_append, pop_tasks htasks]
      exact ih _
    | nil =>
      rw [if_pos rfl]
      rcases List.eq_nil_or_concat p.timerTasks with hempty | ⟨front, last, hlast⟩
      · have hpopped := ih (p.pop now).2
        rw [pop_nothing htasks hempty] at hpopped ⊢
        rw [hempty]
        rw [hempty] at hpopped
        exact hpopped
      · rw [List.concat_eq_append] at hlast
        rw [hlast, List.getLast?_concat, List.map_append, List.reverse_append, pop_timer htasks hlast]
        by_cases hnow : last.time ≤ now
        · rw [if_pos hnow, Option.filter_some_pos (by simpa using hnow)]
          exact List.Sublist.cons_cons _ (ih _)
        · rw [if_neg hnow, Option.filter_some_neg (by simpa using hnow)]
          have hpopped := ih p
          rw [hlast, List.map_append, List.reverse_append] at hpopped
          exact hpopped

theorem orderly_iff : Orderly p ↔ TimersOk p.timerTasks := by
  constructor
  · exact fun h => ⟨h.sorted, h.full⟩
  · intro h
    refine ⟨h.sorted, h.full, fun now => h.pops, fun htasks now task => h.first htasks, fun clocks => ?_⟩
    refine List.Pairwise.sublist (poppedTimes_sublist clocks p) ?_
    rw [List.pairwise_reverse, List.pairwise_map]
    exact h.sorted

/-! ## Steps -/

theorem UniqueIds.next (h : UniqueIds p.timerTasks) {e : Event Time} (he : Enabled p e) :
    UniqueIds (next p e).timerTasks := by
  cases e with
  | push task => exact h
  | pushDelayed time task => exact (uniqueIds_cons_some.mpr ⟨he, h⟩).perm (place_perm _ _)
  | delay taskId time =>
    show UniqueIds (delayLoop taskId time [] p.timerTasks)
    rcases absent_or_split taskId p.timerTasks with habsent | ⟨front, entry, back, hsplit⟩
    · rw [delayLoop_absent habsent]
      exact h
    · rw [delayLoop_split hsplit]
      have hsame : UniqueIds ({ entry with time } :: (front ++ back)) := by
        have hperm : UniqueIds (entry :: (front ++ back)) := (hsplit.eq ▸ h).perm List.perm_middle.symm
        exact hperm
      refine hsame.perm ((sift_perm _ _ _).trans (List.Perm.cons _ (List.Perm.append_right back ?_)))
      rw [List.append_nil]
      exact List.reverse_perm front
  | cancel taskId =>
    show UniqueIds (cancelLoop taskId p.timerTasks).2
    rcases absent_or_split taskId p.timerTasks with habsent | ⟨front, entry, back, hsplit⟩
    · rw [cancelLoop_absent habsent]
      exact h
    · rw [cancelLoop_split hsplit]
      rw [hsplit.eq] at h
      exact h.sublist (List.Sublist.append_left (List.sublist_cons_self entry back) front)
  | popId taskId =>
    show UniqueIds (popIdLoop taskId p.timerTasks).2
    rcases absent_or_split taskId p.timerTasks with habsent | ⟨front, entry, back, hsplit⟩
    · rw [popIdLoop_absent habsent]
      exact h
    · rw [popIdLoop_split hsplit]
      have hleft : UniqueIds (front ++ back) :=
        (hsplit.eq ▸ h).sublist (List.Sublist.append_left (List.sublist_cons_self entry back) front)
      unfold UniqueIds at hleft ⊢
      rw [List.filterMap_append] at hleft ⊢
      exact hleft
  | pop now => exact h.sublist (pop_sublist p now)

/-- One call keeps the order exactly if it is in order. -/
theorem timersOk_next_iff (h : TimersOk p.timerTasks) (e : Event Time) :
    TimersOk (next p e).timerTasks ↔ InOrder p e := by
  cases e with
  | push task => exact iff_of_true h trivial
  | pushDelayed time task =>
    refine iff_of_true ⟨descending_place h.sorted _, fun entry hentry => ?_⟩ trivial
    rcases List.mem_cons.mp ((place_perm _ _).mem_iff.mp hentry) with rfl | hentry
    · exact Option.some_ne_none task
    · exact h.full entry hentry
  | delay taskId time =>
    show TimersOk (delayLoop taskId time [] p.timerTasks) ↔ ∀ entry ∈ behind taskId p.timerTasks, entry.time ≤ time
    rcases absent_or_split taskId p.timerTasks with habsent | ⟨front, entry, back, hsplit⟩
    · rw [delayLoop_absent habsent, behind_absent habsent]
      exact iff_of_true h fun entry hentry => by cases hentry
    · rw [delayLoop_split hsplit, hsplit.behind_eq, List.append_nil]
      have hleft : Descending TimerTask.time (front.reverse.reverse ++ back) := by
        rw [List.reverse_reverse]
        exact (hsplit.eq ▸ h.sorted).sublist (List.Sublist.append_left (List.sublist_cons_self entry back) front)
      have hfull : ∀ other ∈ sift TimerTask.time { entry with time } front.reverse back, other.task ≠ none := by
        intro other hother
        rcases List.mem_cons.mp ((sift_perm _ _ _).mem_iff.mp hother) with rfl | hother
        · exact h.full entry hsplit.mem
        · refine h.full other (hsplit.eq ▸ ?_)
          rcases List.mem_append.mp hother with hother | hother
          · exact List.mem_append_left _ (List.mem_reverse.mp hother)
          · exact List.mem_append_right _ (List.mem_cons_of_mem entry hother)
      exact ⟨fun hok => (sift_descending_iff hleft).mp hok.sorted,
        fun hback => ⟨(sift_descending_iff hleft).mpr hback, hfull⟩⟩
  | cancel taskId =>
    refine iff_of_true ?_ trivial
    show TimersOk (cancelLoop taskId p.timerTasks).2
    rcases absent_or_split taskId p.timerTasks with habsent | ⟨front, entry, back, hsplit⟩
    · rw [cancelLoop_absent habsent]
      exact h
    · rw [cancelLoop_split hsplit]
      rw [hsplit.eq] at h
      exact h.sublist (List.Sublist.append_left (List.sublist_cons_self entry back) front)
  | popId taskId =>
    show TimersOk (popIdLoop taskId p.timerTasks).2 ↔ Absent taskId p.timerTasks
    rcases absent_or_split taskId p.timerTasks with habsent | ⟨front, entry, back, hsplit⟩
    · rw [popIdLoop_absent habsent]
      exact iff_of_true h habsent
    · rw [popIdLoop_split hsplit]
      refine iff_of_false (fun hok => ?_) fun habsent => habsent entry hsplit.mem hsplit.found
      exact hok.full { entry with time := entry.time, task := none }
        (List.mem_append_right _ List.mem_cons_self) rfl
  | pop now => exact iff_of_true (h.sublist (pop_sublist p now)) trivial

/-- `cancel` and `delay` do nothing to the other tasks. -/
theorem exact_of_timersOk (h : TimersOk p.timerTasks) (hunique : UniqueIds p.timerTasks) (e : Event Time) :
    Exact p e := by
  cases e with
  | push task => trivial
  | pushDelayed time task => trivial
  | popId taskId => trivial
  | pop now => trivial
  | cancel taskId =>
    show OthersKept taskId p { p with timerTasks := (cancelLoop taskId p.timerTasks).2 } ∧
      Absent taskId (cancelLoop taskId p.timerTasks).2 ∧
      ((cancelLoop taskId p.timerTasks).1 = true ↔ ∃ entry ∈ p.timerTasks, entry.task = some taskId)
    unfold OthersKept
    rcases absent_or_split taskId p.timerTasks with habsent | ⟨front, entry, back, hsplit⟩
    · rw [cancelLoop_absent habsent]
      refine ⟨⟨rfl, rfl⟩, habsent, iff_of_false Bool.false_ne_true ?_⟩
      rintro ⟨entry, hentry, htask⟩
      exact habsent entry hentry htask
    · rw [cancelLoop_split hsplit]
      have hback := hsplit.back_ne hunique
      refine ⟨⟨rfl, ?_⟩, List.forall_mem_append.mpr ⟨hsplit.front_ne, hback⟩,
        iff_of_true rfl ⟨entry, hsplit.mem, hsplit.found⟩⟩
      rw [hsplit.eq, List.filter_append, List.filter_append,
        List.filter_cons_of_neg (by simpa using hsplit.found)]
  | delay taskId time =>
    show OthersKept taskId p { p with timerTasks := delayLoop taskId time [] p.timerTasks } ∧
      (delayLoop taskId time [] p.timerTasks).filter (·.task = some taskId) =
        (p.timerTasks.filter (·.task = some taskId)).map fun entry => { entry with time }
    unfold OthersKept
    rcases absent_or_split taskId p.timerTasks with habsent | ⟨front, entry, back, hsplit⟩
    · rw [delayLoop_absent habsent]
      refine ⟨⟨rfl, rfl⟩, ?_⟩
      rw [List.reverse_nil, List.nil_append, filter_absent habsent]
      rfl
    · rw [delayLoop_split hsplit, List.append_nil]
      have hback := hsplit.back_ne hunique
      have hfront : Descending TimerTask.time front.reverse.reverse := by
        rw [List.reverse_reverse]
        exact (hsplit.eq ▸ h.sorted).sublist (List.sublist_append_left _ _)
      obtain ⟨before, after, hsift, happend⟩ :=
        @sift_split _ _ _ TimerTask.time { entry with time } back _ hfront
      rw [List.reverse_reverse] at happend
      have hothers : Absent taskId (before ++ after) := by
        rw [happend]
        exact List.forall_mem_append.mpr ⟨hsplit.front_ne, hback⟩
      obtain ⟨hbefore, hafter⟩ := List.forall_mem_append.mp hothers
      refine ⟨⟨rfl, ?_⟩, ?_⟩
      · dsimp only
        rw [hsift, hsplit.eq, List.filter_append, List.filter_append,
          List.filter_cons_of_neg (by simpa using hsplit.found),
          List.filter_cons_of_neg (by simpa using hsplit.found), ← List.filter_append, ← List.filter_append, happend]
      · rw [hsift, hsplit.eq, List.filter_append, List.filter_append,
          List.filter_cons_of_pos (by simpa using hsplit.found),
          List.filter_cons_of_pos (by simpa using hsplit.found), filter_absent hbefore, filter_absent hafter,
          filter_absent hsplit.front_ne, filter_absent hback]
        rfl

/-! ## Runs -/

/-- In every run, the order is kept and the calls are exact in all its states exactly if all its calls are in order. -/
theorem keepsOrder_iff {events : List (Event Time)} (hruns : Runs Enabled next {} events) :
    KeepsOrder events ↔ Runs InOrder next {} events := by
  have hempty : TimersOk ({} : TaskPool Time).timerTasks :=
    ⟨List.Pairwise.nil, fun entry hentry => by cases hentry⟩
  have halways := hruns.always_iff (fun p => UniqueIds p.timerTasks) (fun p => TimersOk p.timerTasks)
    List.nodup_nil hempty (fun p e hunique he => hunique.next he) fun p e _ hok _ => timersOk_next_iff hok e
  refine Iff.trans ?_ halways
  constructor
  · exact fun h before hbefore => orderly_iff.mp (h before hbefore).1
  · intro h before hbefore
    have hok := h before hbefore
    obtain ⟨rest, rfl⟩ := hbefore
    have hunique : UniqueIds (before.foldl next {} : TaskPool Time).timerTasks :=
      hruns.front.invariant (fun p => UniqueIds p.timerTasks) List.nodup_nil fun p e hp he => hp.next he
    exact ⟨orderly_iff.mpr hok, exact_of_timersOk hok hunique⟩

end Order

/-- A timer is put off behind another one, which is cancelled. -/
def putOff : List (Event ℕ) :=
  [.pushDelayed 10 1, .pushDelayed 5 2, .delay 2 20, .cancel 1, .pop 30]

theorem keepsOrder_putOff : KeepsOrder putOff := (keepsOrder_iff (by decide)).mpr (by decide)

/-- Timer 1 is brought forward: it is due at 0, and stays in front of timer 2, which is due at 5. -/
def broughtForward : List (Event ℕ) := [.pushDelayed 10 1, .pushDelayed 5 2, .delay 1 0]

/-- At clock 1 nothing comes out; and a task that is popped by its id leaves an entry without one. -/
theorem order_lost : Runs Enabled next {} broughtForward ∧ ¬KeepsOrder broughtForward ∧
    ¬KeepsOrder [Event.pushDelayed 10 1, .popId 1] := by
  refine ⟨by decide, fun h => ?_, fun h => ?_⟩
  · obtain ⟨task, htask⟩ := (h broughtForward (List.prefix_refl _)).1.pops 1
      (.inr ⟨⟨0, some 1⟩, by decide, by decide⟩)
    have hnothing : ((broughtForward.foldl next {}).pop 1).1 = none := by decide
    rw [hnothing] at htask
    cases htask
  · exact (h _ (List.prefix_refl _)).1.full ⟨10, none⟩ (by decide) rfl

end Sunshine.Tasks
