import Mathlib.Data.List.Perm.Basic
import Sunshine.Lib.Entries
import Sunshine.Lib.Transitions
import Sunshine.ThreadSafe.Mail

/-! What the calls of the mailbox return, over all orders of calls, dropped references and destructors.

Two posts of one identifier are one post while both have references. A call that finds the entry of an expired post
returns null, so the calls are never null exactly where each comes before the expiry or after the entry is erased:
`posts_iff`. Such an entry is there only until the last destructor has erased one. -/
namespace Sunshine.ThreadSafe.Mail
open Entries Transitions
set_option autoImplicit false

variable {κ β : Type} {s : State κ β}

structure Consistent (s : State κ β) : Prop where
  keys : (s.idToPost.map Prod.fst).Nodup
  posts : (s.idToPost.map Prod.snd).Nodup
  made : ∀ entry ∈ s.idToPost, entry.2 < s.made
  entry : ∀ p, 0 < s.useCount p → ∃ id, (id, p) ∈ s.idToPost
  returned : ∀ id p, (id, some p) ∈ s.returned → p < s.made ∧ (0 < s.useCount p → (id, p) ∈ s.idToPost)
  pending : s.idToPost.countP s.expired = s.destroying.length + s.cleaning.toList.length
  found : ∀ k, s.cleaning = some k → ∃ i entry, k ≤ i ∧ s.idToPost[i]? = some entry ∧ s.expired entry = true

/-- The map has an entry for the identifier whose post has expired. -/
def State.Stale (s : State κ β) (id : κ) : Prop := ∃ entry ∈ s.idToPost, entry.1 = id ∧ s.expired entry = true

def NeverNull (s : State κ β) : Prop := ∀ answer ∈ s.returned, answer.2 ≠ none

/-- Posts of one identifier that both have references are one post: what is raised on one is in the other. -/
def NeverSplit (s : State κ β) : Prop :=
  ∀ id i j, (id, some i) ∈ s.returned → (id, some j) ∈ s.returned → 0 < s.useCount i → 0 < s.useCount j →
    i = j ∧ ∀ value, (s.use i (Post.raise value)).contents j = (s.contents j).raise value

/-- A call does not find an expired post. -/
def NotStale (s : State κ β) : Access κ β → Prop
  | .event id => ¬s.Stale id
  | .queue id _ _ => ¬s.Stale id
  | _ => True

/-! ## Consistency -/

namespace Consistent

theorem neverSplit (h : Consistent s) : NeverSplit s := by
  intro id i j hi hj halive halive'
  have hinj : i = j := by
    have hmem := (h.returned id i hi).2 halive
    have hmem' := (h.returned id j hj).2 halive'
    exact congrArg Prod.snd (List.inj_on_of_nodup_map h.keys hmem hmem' rfl)
  subst hinj
  exact ⟨rfl, fun value => Function.update_self ..⟩

/-- An expired entry waits for a destructor, or for the one that holds the mutex. -/
theorem destroying_of_stale (h : Consistent s) {id : κ} (hstale : s.Stale id) :
    s.destroying ≠ [] ∨ s.cleaning ≠ none := by
  obtain ⟨entry, hentry, -, hexpired⟩ := hstale
  have hpos := List.countP_pos_iff.mpr ⟨entry, hentry, hexpired⟩
  rw [h.pending] at hpos
  by_contra hnone
  rw [not_or, not_not, not_not] at hnone
  rw [hnone.1, hnone.2] at hpos
  cases hpos

/-- What is only about which posts have references. -/
theorem of_same {s' : State κ β} (h : Consistent s) (hmap : s'.idToPost = s.idToPost) (hmade : s'.made = s.made)
    (hcount : ∀ p, s'.useCount p = 0 ↔ s.useCount p = 0) (hreturned : ∀ id p, (id, some p) ∈ s'.returned →
      (id, some p) ∈ s.returned ∨ (id, p) ∈ s.idToPost) (hdestroying : s'.destroying = s.destroying)
    (hcleaning : s'.cleaning = s.cleaning) : Consistent s' := by
  have halive : ∀ p, 0 < s'.useCount p ↔ 0 < s.useCount p := by
    intro p
    rw [Nat.pos_iff_ne_zero, Nat.pos_iff_ne_zero, not_iff_not]
    exact hcount p
  have hexpired : s'.expired = s.expired := by
    funext entry
    exact decide_eq_decide.mpr (hcount entry.2)
  constructor
  · rw [hmap]
    exact h.keys
  · rw [hmap]
    exact h.posts
  · rw [hmap, hmade]
    exact h.made
  · intro p hp
    rw [hmap]
    exact h.entry p ((halive p).mp hp)
  · intro id p hmem
    rw [hmap, hmade, halive]
    rcases hreturned id p hmem with hold | hentry
    · exact h.returned id p hold
    · exact ⟨h.made _ hentry, fun _ => hentry⟩
  · rw [hmap, hexpired, hdestroying, hcleaning]
    exact h.pending
  · rw [hmap, hexpired, hcleaning]
    exact h.found

theorem copy (h : Consistent s) {post : ℕ} (halive : 0 < s.useCount post) : Consistent (s.copy post) := by
  refine h.of_same rfl rfl (fun p => ?_) (fun id p hmem => .inl hmem) rfl rfl
  by_cases hp : p = post
  · subst hp
    simp [State.copy]
    omega
  · simp [State.copy, hp]

theorem use (h : Consistent s) (post : ℕ) (operation : Post β → Post β) : Consistent (s.use post operation) :=
  h.of_same rfl rfl (fun _ => Iff.rfl) (fun _ _ hmem => .inl hmem) rfl rfl

theorem answer_null (h : Consistent s) (id : κ) : Consistent (s.answer id none) := by
  refine h.of_same rfl rfl (fun _ => Iff.rfl) (fun id' p hmem => .inl ?_) rfl rfl
  simpa [State.answer] using hmem

theorem answer_entry (h : Consistent s) {id : κ} {post : ℕ} (hentry : (id, post) ∈ s.idToPost) :
    Consistent (s.answer id (some post)) := by
  refine h.of_same rfl rfl (fun _ => Iff.rfl) (fun id' p hmem => ?_) rfl rfl
  simp only [State.answer, List.mem_append, List.mem_singleton, Prod.mk.injEq, Option.some.injEq] at hmem
  rcases hmem with hold | ⟨rfl, rfl⟩
  · exact .inl hold
  · exact .inr hentry

/-- The expired entries when the last reference to a post is dropped. -/
theorem countP_expired_drop (h : Consistent s) {post : ℕ} (hlast : s.useCount post = 1) :
    s.idToPost.countP (s.drop post).expired = s.idToPost.countP s.expired + 1 := by
  obtain ⟨id, hentry⟩ := h.entry post (by omega)
  refine countP_succ (List.Nodup.of_map _ h.keys) hentry ?_ ?_ fun other hother hne => ?_
  · simp [State.expired, hlast]
  · simp [State.expired, State.drop, hlast]
  · have hpost : other.2 ≠ post := fun heq => hne (List.inj_on_of_nodup_map h.posts hother hentry heq)
    simp [State.expired, State.drop, hpost]

theorem drop_last (h : Consistent s) {post : ℕ} (hlast : s.useCount post = 1) : Consistent (s.drop post) := by
  have hsub : ∀ p, 0 < (s.drop post).useCount p → 0 < s.useCount p := by
    intro p hp
    by_cases heq : p = post
    · subst heq
      omega
    · simpa [State.drop, heq] using hp
  have hkeep : ∀ entry, s.expired entry = true → (s.drop post).expired entry = true := by
    intro entry hentry
    by_cases heq : entry.2 = post
    · simp [State.expired, State.drop, heq, hlast]
    · simpa [State.expired, State.drop, heq] using hentry
  constructor
  · exact h.keys
  · exact h.posts
  · exact h.made
  · exact fun p hp => h.entry p (hsub p hp)
  · exact fun id p hmem => ⟨(h.returned id p hmem).1, fun hp => (h.returned id p hmem).2 (hsub p hp)⟩
  · have hdestroying : (s.drop post).destroying = post :: s.destroying := if_pos hlast
    have hcount := h.countP_expired_drop hlast
    rw [h.pending] at hcount
    rw [hdestroying, List.length_cons, Nat.add_right_comm]
    exact hcount
  · intro k hk
    obtain ⟨i, entry, hle, hget, hentry⟩ := h.found k hk
    exact ⟨i, entry, hle, hget, hkeep entry hentry⟩

theorem drop (h : Consistent s) {post : ℕ} (halive : 0 < s.useCount post) : Consistent (s.drop post) := by
  by_cases hlast : s.useCount post = 1
  · exact h.drop_last hlast
  · refine h.of_same rfl rfl (fun p => ?_) (fun _ _ hmem => .inl hmem) (if_neg hlast) rfl
    by_cases hp : p = post
    · subst hp
      simp [State.drop]
      omega
    · simp [State.drop, hp]

theorem cleanup (h : Consistent s) {post : ℕ} (hpost : post ∈ s.destroying) (hfree : s.cleaning = none) :
    Consistent (s.cleanup post) := by
  have hlength : (s.destroying.erase post).length + 1 = s.destroying.length := List.length_erase_add_one hpost
  have hpending : s.idToPost.countP s.expired = s.destroying.length := by
    rw [h.pending, hfree]
    rfl
  constructor
  · exact h.keys
  · exact h.posts
  · exact h.made
  · exact h.entry
  · exact h.returned
  · exact hpending.trans hlength.symm
  · intro k hk
    have hpos : 0 < s.idToPost.countP s.expired := by
      rw [hpending]
      exact List.length_pos_of_mem hpost
    obtain ⟨entry, hentry, hexpired⟩ := List.countP_pos_iff.mp hpos
    obtain ⟨i, hget⟩ := List.mem_iff_getElem?.mp hentry
    exact ⟨i, entry, (Option.some.inj hk) ▸ Nat.zero_le i, hget, hexpired⟩

/-- An expired entry is erased; the posts with references stay in the map. -/
theorem erase (h : Consistent s) {i : ℕ} {entry : κ × ℕ} (hcleaning : s.cleaning = some i)
    (hget : s.idToPost[i]? = some entry) (hexpired : s.expired entry = true) :
    Consistent { s with idToPost := s.idToPost.eraseIdx i, cleaning := none } := by
  obtain ⟨hi, hentry⟩ := List.getElem?_eq_some_iff.mp hget
  have hsub := List.eraseIdx_sublist s.idToPost i
  have hperm : (entry :: s.idToPost.eraseIdx i).Perm s.idToPost := hentry ▸ List.getElem_cons_eraseIdx_perm hi
  have hstays : ∀ id p, 0 < s.useCount p → (id, p) ∈ s.idToPost → (id, p) ∈ s.idToPost.eraseIdx i := by
    intro id p hp hmem
    refine (List.mem_cons.mp (hperm.mem_iff.mpr hmem)).resolve_left fun heq => ?_
    rw [← heq, State.expired, decide_eq_true_iff] at hexpired
    exact Nat.ne_of_gt hp hexpired
  constructor
  · exact h.keys.sublist (hsub.map Prod.fst)
  · exact h.posts.sublist (hsub.map Prod.snd)
  · exact fun other hother => h.made other (hsub.subset hother)
  · intro p hp
    obtain ⟨id, hmem⟩ := h.entry p hp
    exact ⟨id, hstays id p hp hmem⟩
  · exact fun id p hmem => ⟨(h.returned id p hmem).1, fun hp => hstays id p hp ((h.returned id p hmem).2 hp)⟩
  · have hcount := hperm.countP_eq s.expired
    rw [List.countP_cons_of_pos hexpired, h.pending, hcleaning] at hcount
    exact Nat.succ.inj hcount
  · intro k hk
    cases hk

/-- The entry the iterator passes has not expired, so one behind it has. -/
theorem advance (h : Consistent s) {i : ℕ} {entry : κ × ℕ} (hcleaning : s.cleaning = some i)
    (hget : s.idToPost[i]? = some entry) (hexpired : ¬s.expired entry = true) :
    Consistent { s with cleaning := some (i + 1) } := by
  have hpending := h.pending
  rw [hcleaning] at hpending
  refine ⟨h.keys, h.posts, h.made, h.entry, h.returned, hpending, fun k hk => ?_⟩
  obtain ⟨j, found, hle, hfound, hfoundExpired⟩ := h.found i hcleaning
  have hne : i ≠ j := by
    rintro rfl
    rw [hget, Option.some.injEq] at hfound
    exact hexpired (hfound ▸ hfoundExpired)
  exact ⟨j, found, (Option.some.inj hk) ▸ Nat.lt_of_le_of_ne hle hne, hfound, hfoundExpired⟩

theorem visit (h : Consistent s) : Consistent s.visit := by
  unfold State.visit
  cases hcleaning : s.cleaning with
  | none => exact h
  | some i =>
    cases hget : s.idToPost[i]? with
    | none =>
      -- the loop does not run out of entries: one at the iterator or behind it has expired
      obtain ⟨j, found, hle, hfound, -⟩ := h.found i hcleaning
      have hlength := List.getElem?_eq_none_iff.mp hget
      have hj := (List.getElem?_eq_some_iff.mp hfound).1
      omega
    | some entry =>
      simp only [hget]
      by_cases hexpired : s.expired entry = true
      · rw [if_pos hexpired]
        exact h.erase hcleaning hget hexpired
      · rw [if_neg hexpired]
        exact h.advance hcleaning hget hexpired

theorem start : Consistent (start : State κ β) := by
  refine ⟨List.nodup_nil, List.nodup_nil, ?_, ?_, ?_, rfl, ?_⟩
  · intro entry hentry
    cases hentry
  · intro p hp
    cases hp
  · intro id p hmem
    cases hmem
  · intro k hk
    cases hk

variable [LinearOrder κ]

theorem emplace (h : Consistent s) {id : κ} (hid : s.idToPost.lookup id = none) (hfree : s.cleaning = none)
    (post : Post β) : Consistent (s.emplace id post) := by
  have hperm : (s.emplace id post).idToPost.Perm ((id, s.made) :: s.idToPost) :=
    List.perm_orderedInsert _ (id, s.made) s.idToPost
  have hcount : ∀ p ≠ s.made, (s.emplace id post).useCount p = s.useCount p := fun p hp =>
    Function.update_of_ne hp _ _
  have hnew : (s.emplace id post).useCount s.made = 1 := Function.update_self ..
  have hexpired : ∀ entry ∈ s.idToPost, (s.emplace id post).expired entry = s.expired entry := by
    intro entry hentry
    unfold State.expired
    rw [hcount entry.2 (Nat.ne_of_lt (h.made entry hentry))]
  constructor
  · rw [(hperm.map Prod.fst).nodup_iff, List.map_cons, List.nodup_cons]
    refine ⟨fun hmem => ?_, h.keys⟩
    obtain ⟨entry, hentry, rfl⟩ := List.mem_map.mp hmem
    exact lookup_of_mem hentry hid
  · rw [(hperm.map Prod.snd).nodup_iff, List.map_cons, List.nodup_cons]
    refine ⟨fun hmem => ?_, h.posts⟩
    obtain ⟨entry, hentry, hmade⟩ := List.mem_map.mp hmem
    exact Nat.ne_of_lt (h.made entry hentry) hmade
  · intro entry hentry
    rcases List.mem_cons.mp (hperm.mem_iff.mp hentry) with rfl | hold
    · exact Nat.lt_succ_self _
    · exact Nat.lt_succ_of_lt (h.made entry hold)
  · intro p hp
    by_cases hmade : p = s.made
    · exact ⟨id, hperm.mem_iff.mpr (hmade ▸ List.mem_cons_self)⟩
    · obtain ⟨id', hmem⟩ := h.entry p (hcount p hmade ▸ hp)
      exact ⟨id', hperm.mem_iff.mpr (List.mem_cons_of_mem _ hmem)⟩
  · intro id' p hmem
    obtain ⟨hmade, hentry⟩ := h.returned id' p hmem
    refine ⟨Nat.lt_succ_of_lt hmade, fun hp => hperm.mem_iff.mpr (List.mem_cons_of_mem _ (hentry ?_))⟩
    exact hcount p (Nat.ne_of_lt hmade) ▸ hp
  · rw [hperm.countP_eq, List.countP_cons_of_neg (by simp [State.expired, hnew]),
      List.countP_congr fun entry hentry => by rw [hexpired entry hentry]]
    exact h.pending
  · intro k hk
    exact absurd (hfree.symm.trans hk) (Option.some_ne_none k).symm

theorem getPost (h : Consistent s) (hfree : s.cleaning = none) (id : κ) (post : Post β) :
    Consistent (s.getPost id post) := by
  unfold State.getPost
  cases hid : s.idToPost.lookup id with
  | none =>
    refine (h.emplace hid hfree post).answer_entry ?_
    exact (List.perm_orderedInsert _ (id, s.made) s.idToPost).mem_iff.mpr List.mem_cons_self
  | some p =>
    by_cases hexpired : s.useCount p = 0
    · simp only [if_pos hexpired]
      exact h.answer_null id
    · simp only [if_neg hexpired]
      exact (h.copy (Nat.pos_of_ne_zero hexpired)).answer_entry (mem_of_lookup hid)

theorem next (h : Consistent s) (access : Access κ β) (henabled : Enabled s access) :
    Consistent (next s access) := by
  cases access with
  | event id => exact h.getPost henabled id _
  | queue id maxElements overflowPolicy => exact h.getPost henabled id _
  | copy post => exact h.copy henabled
  | drop post => exact h.drop henabled
  | use post operation => exact h.use post operation
  | cleanup post => exact h.cleanup henabled.1 henabled.2
  | visit => exact h.visit

end Consistent

/-! ## Runs -/

section Runs

theorem neverNull_answer (hnull : NeverNull s) (id : κ) (post : Option ℕ) :
    NeverNull (s.answer id post) ↔ post ≠ none := by
  constructor
  · intro h
    exact h (id, post) (List.mem_append_right _ List.mem_cons_self)
  · intro hpost answer hanswer
    rcases List.mem_append.mp hanswer with hold | hnew
    · exact hnull answer hold
    · rw [List.mem_singleton.mp hnew]
      exact hpost

theorem neverNull_visit (hnull : NeverNull s) : NeverNull s.visit := by
  unfold State.visit
  split
  · exact hnull
  · split
    · exact hnull
    · split
      · exact hnull
      · exact hnull

/-- While no destructor is under way, every call is answered with a post. -/
theorem notStale_of_quiet (h : Consistent s) (hdestroying : s.destroying = []) (hcleaning : s.cleaning = none)
    (access : Access κ β) : NotStale s access := by
  have hfresh : ∀ id, ¬s.Stale id := fun id hstale =>
    (h.destroying_of_stale hstale).elim (fun hne => hne hdestroying) fun hne => hne hcleaning
  cases access with
  | event id => exact hfresh id
  | queue id maxElements overflowPolicy => exact hfresh id
  | _ => trivial

variable [LinearOrder κ]

theorem stale_iff_of_lookup (h : Consistent s) {id : κ} {p : ℕ} (hid : s.idToPost.lookup id = some p) :
    s.Stale id ↔ s.useCount p = 0 := by
  have hmem := mem_of_lookup hid
  constructor
  · rintro ⟨entry, hentry, hkey, hexpired⟩
    have hsame : entry = (id, p) := List.inj_on_of_nodup_map h.keys hentry hmem hkey
    rw [hsame] at hexpired
    exact of_decide_eq_true hexpired
  · intro hzero
    exact ⟨(id, p), hmem, rfl, decide_eq_true hzero⟩

theorem neverNull_getPost (h : Consistent s) (hnull : NeverNull s) (id : κ) (post : Post β) :
    NeverNull (s.getPost id post) ↔ ¬s.Stale id := by
  unfold State.getPost
  cases hid : s.idToPost.lookup id with
  | none =>
    have hfresh : ¬s.Stale id := by
      rintro ⟨entry, hentry, rfl, -⟩
      exact lookup_of_mem hentry hid
    have hnull' : NeverNull (s.emplace id post) := hnull
    simp only [neverNull_answer hnull', hfresh, ne_eq, reduceCtorEq, not_false_eq_true]
  | some p =>
    rw [stale_iff_of_lookup h hid]
    by_cases hexpired : s.useCount p = 0
    · simp only [if_pos hexpired, neverNull_answer hnull]
      exact iff_of_false (fun h => h rfl) fun h => h hexpired
    · have hnull' : NeverNull (s.copy p) := hnull
      simp only [if_neg hexpired, neverNull_answer hnull']
      exact iff_of_true (Option.some_ne_none p) hexpired

theorem neverNull_next (h : Consistent s) (hnull : NeverNull s) (access : Access κ β) :
    NeverNull (next s access) ↔ NotStale s access := by
  cases access with
  | event id => exact neverNull_getPost h hnull id _
  | queue id maxElements overflowPolicy => exact neverNull_getPost h hnull id _
  | copy post => exact iff_of_true hnull trivial
  | drop post => exact iff_of_true hnull trivial
  | use post operation => exact iff_of_true hnull trivial
  | cleanup post => exact iff_of_true hnull trivial
  | visit => exact iff_of_true (neverNull_visit hnull) trivial

theorem consistent_run {accesses : List (Access κ β)} (h : Runs Enabled next start accesses) :
    Consistent (accesses.foldl next start) :=
  h.invariant Consistent Consistent.start fun _ access hs henabled => hs.next access henabled

/-- The answers are never null and never split exactly in the runs where no call finds the entry of an expired post. -/
theorem posts_iff {accesses : List (Access κ β)} (h : Runs Enabled next start accesses) :
    (∀ m, m <+: accesses → NeverNull (m.foldl next start) ∧ NeverSplit (m.foldl next start)) ↔
      Runs NotStale next start accesses := by
  have hnull : NeverNull (start : State κ β) := fun answer hanswer => nomatch hanswer
  refine h.always_iff Consistent (fun s => NeverNull s ∧ NeverSplit s) Consistent.start
    ⟨hnull, Consistent.start.neverSplit⟩ (fun s access hs => hs.next access) fun s access hs hgood henabled => ?_
  rw [← neverNull_next hs hgood.1 access]
  exact and_iff_left (hs.next access henabled).neverSplit

end Runs

/-! ## A call between the expiry and the cleanup -/

/-- The last reference goes, the identifier is asked for, and then the destructor takes the mutex. -/
def betweenExpiryAndCleanup : List (Access ℕ ℕ) :=
  [.event 7, .drop 0, .event 7, .cleanup 0, .visit, .event 7]

def afterCleanup : List (Access ℕ ℕ) :=
  [.event 7, .drop 0, .cleanup 0, .visit, .event 7, .event 7]

theorem posts_afterCleanup :
    (∀ m, m <+: afterCleanup → NeverNull (m.foldl next start) ∧ NeverSplit (m.foldl next start)) ↔
      Runs NotStale next start afterCleanup :=
  posts_iff (by decide)

theorem null_betweenExpiryAndCleanup : Runs Enabled next start betweenExpiryAndCleanup ∧
    (betweenExpiryAndCleanup.foldl next start).returned.map Prod.snd = [some 0, none, some 1] := by
  decide

end Sunshine.ThreadSafe.Mail
