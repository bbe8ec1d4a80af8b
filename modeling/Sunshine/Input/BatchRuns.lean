import Sunshine.Input.Batch

/-! Runs of the input queue under batching.

`batching_preserves` is about all queues, all arrivals between the drains and all sizes of the drains: each
device gets its packets in order, with moves and samples merged, and a packet is overtaken only by one of
another device of its type. -/
namespace Sunshine.Batching
open Coalesce Input
open scoped List
set_option autoImplicit false

/-! ## What a run preserves -/

/-- Packet `i` may be passed on before packet `j`, which does not change the mask of its predecessor. -/
def Overtakes (queued : List Packet) (i j : ℕ) : Prop :=
  ∃ p before q, queued[i]? = some p ∧ queued[j]? = some q ∧ MayOvertake p q ∧
    0 < j ∧ queued[j - 1]? = some before ∧ before.activeMask = q.activeMask

/-- The packets of a device are passed on in their order, some merged into earlier ones; each packet is
passed on once; and it is overtaken only as `Overtakes` says. -/
structure Preserved (s : State) : Prop where
  devices : ∀ d, Coalesced Merge (s.queued.filter (·.device = d))
    (((s.passed ++ s.inputQueue).map Entry.packet).filter (·.device = d))
  absorbed : ∀ e ∈ s.passed ++ s.inputQueue, ∃ p ps,
    e.origins.map (s.queued[·]?) = (p :: ps).map some ∧ Absorbs Merge p ps e.packet
  complete : (s.passed ++ s.inputQueue).flatMap Entry.origins ~ List.range s.queued.length
  overtaken : (s.passed ++ s.inputQueue).Pairwise fun e later =>
    ∀ i ∈ e.origins, ∀ j ∈ later.origins, j < i → Overtakes s.queued i j

/-- No mask changes from packet `i` to packet `k`. -/
def Steady (queued : List Packet) (i k : ℕ) : Prop :=
  ∀ m, i ≤ m → m ≤ k → (queued[m]?).map Packet.activeMask = (queued[i]?).map Packet.activeMask

structure Inv (s : State) : Prop where
  single : ∀ e ∈ s.inputQueue, ∃ i, e.origins = [i] ∧ s.queued[i]? = some e.packet
  sorted : s.inputQueue.Pairwise fun e later => ∀ i ∈ e.origins, ∀ j ∈ later.origins, i < j
  devices : ∀ d, ∃ done,
    s.queued.filter (·.device = d) = done ++ (s.inputQueue.filter (·.packet.device = d)).map Entry.packet ∧
      Coalesced Merge done ((s.passed.filter (·.packet.device = d)).map Entry.packet)
  absorbed : ∀ e ∈ s.passed, ∃ p ps,
    e.origins.map (s.queued[·]?) = (p :: ps).map some ∧ Absorbs Merge p ps e.packet
  complete : (s.passed ++ s.inputQueue).flatMap Entry.origins ~ List.range s.queued.length
  overtaken : (s.passed ++ s.inputQueue).Pairwise fun e later =>
    ∀ i ∈ e.origins, ∀ j ∈ later.origins, j < i → Overtakes s.queued i j
  steady : ∀ e ∈ s.inputQueue, ∀ i ∈ e.origins, ∀ g ∈ s.passed, ∀ k ∈ g.origins, i < k →
    Steady s.queued i k

theorem Inv.origin_lt {s : State} (h : Inv s) {e : Entry} (he : e ∈ s.passed ++ s.inputQueue) {i : ℕ}
    (hi : i ∈ e.origins) : i < s.queued.length :=
  List.mem_range.mp (h.complete.mem_iff.mp (List.mem_flatMap.mpr ⟨e, he, hi⟩))

theorem Inv.preserved {s : State} (h : Inv s) : Preserved s := by
  refine ⟨fun d => ?_, fun e he => ?_, h.complete, h.overtaken⟩
  · obtain ⟨done, hdone, hcoalesced⟩ := h.devices d
    rw [hdone, List.filter_map, List.filter_append, List.map_append]
    exact hcoalesced.append (.refl _)
  · rcases List.mem_append.mp he with hpassed | hqueue
    · exact h.absorbed e hpassed
    · obtain ⟨i, hi, hpacket⟩ := h.single e hqueue
      refine ⟨e.packet, [], ?_, .nil _⟩
      rw [hi, List.map_cons, hpacket]
      rfl

theorem inv_initial : Inv initial :=
  ⟨nofun, List.Pairwise.nil, fun _ => ⟨[], rfl, .nil⟩, nofun, List.Perm.refl _, List.Pairwise.nil, nofun⟩

/-! ## Queueing -/

section Queueing

variable {queued : List Packet} {packet : Packet}

theorem getElem?_queue {i : ℕ} (hi : i < queued.length) : (queued ++ [packet])[i]? = queued[i]? :=
  List.getElem?_append_left hi

theorem Overtakes.queue {i j : ℕ} (h : Overtakes queued i j) : Overtakes (queued ++ [packet]) i j := by
  obtain ⟨p, before, q, hi, hj, hmay, hpos, hbefore, hmask⟩ := h
  have hlt : ∀ {k : ℕ} {x : Packet}, queued[k]? = some x → (queued ++ [packet])[k]? = some x :=
    fun hk => by rwa [getElem?_queue (List.getElem?_eq_some_iff.mp hk).1]
  exact ⟨p, before, q, hlt hi, hlt hj, hmay, hpos, hlt hbefore, hmask⟩

theorem Steady.queue {i k : ℕ} (h : Steady queued i k) (hik : i ≤ k) (hk : k < queued.length) :
    Steady (queued ++ [packet]) i k := by
  intro m him hmk
  rw [getElem?_queue (by omega), getElem?_queue (by omega)]
  exact h m him hmk

end Queueing

theorem inv_passthrough {s : State} (h : Inv s) (packet : Packet) : Inv (step s (.passthrough packet)) := by
  have hlt : ∀ e ∈ s.passed ++ s.inputQueue, ∀ i ∈ e.origins, i < s.queued.length :=
    fun e he i hi => h.origin_lt he hi
  have hassoc : s.passed ++ (s.inputQueue ++ [⟨packet, [s.queued.length]⟩]) =
      (s.passed ++ s.inputQueue) ++ [⟨packet, [s.queued.length]⟩] := (List.append_assoc _ _ _).symm
  refine ⟨?_, ?_, fun d => ?_, fun e he => ?_, ?_, ?_, ?_⟩
  · refine List.forall_mem_append.mpr ⟨fun e he => ?_, List.forall_mem_singleton.mpr ?_⟩
    · obtain ⟨i, hi, hpacket⟩ := h.single e he
      refine ⟨i, hi, ?_⟩
      have hi' : i < s.queued.length := (List.getElem?_eq_some_iff.mp hpacket).1
      rw [← hpacket]
      exact getElem?_queue hi'
    · exact ⟨s.queued.length, rfl, List.getElem?_concat_length⟩
  · refine List.pairwise_append.mpr ⟨h.sorted, List.pairwise_singleton _ _, fun e he f hf i hi j hj => ?_⟩
    obtain rfl := List.mem_singleton.mp hf
    rw [List.mem_singleton.mp hj]
    exact hlt e (List.mem_append_right _ he) i hi
  · obtain ⟨done, hdone, hcoalesced⟩ := h.devices d
    refine ⟨done, ?_, hcoalesced⟩
    change (s.queued ++ [packet]).filter _ = _ ++ ((s.inputQueue ++ [_]).filter _).map _
    rw [List.filter_append, List.filter_append, List.map_append, hdone, List.append_assoc]
    congr 2
    by_cases hd : packet.device = d
    · rw [List.filter_cons_of_pos (by simpa using hd), List.filter_cons_of_pos (by simpa using hd)]
      rfl
    · rw [List.filter_cons_of_neg (by simpa using hd), List.filter_cons_of_neg (by simpa using hd)]
      rfl
  · obtain ⟨p, ps, horigins, habsorbs⟩ := h.absorbed e he
    refine ⟨p, ps, ?_, habsorbs⟩
    rw [← horigins]
    exact List.map_congr_left fun i hi => getElem?_queue (hlt e (List.mem_append_left _ he) i hi)
  · change (s.passed ++ (s.inputQueue ++ [_])).flatMap _ ~ List.range (s.queued ++ [packet]).length
    rw [hassoc, List.flatMap_append, List.length_append, List.length_singleton, List.range_succ]
    exact h.complete.append (List.Perm.refl _)
  · change (s.passed ++ (s.inputQueue ++ [_])).Pairwise _
    rw [hassoc]
    refine List.pairwise_append.mpr ⟨h.overtaken.imp fun hpair i hi j hj hji => (hpair i hi j hj hji).queue,
      List.pairwise_singleton _ _, fun e he f hf i hi j hj hji => ?_⟩
    obtain rfl := List.mem_singleton.mp hf
    have hj := List.mem_singleton.mp hj
    have hi := hlt e he i hi
    omega
  · intro e he i hi g hg k hk hik
    have hklt := hlt g (List.mem_append_left _ hg) k hk
    rcases List.mem_append.mp he with hold | hnew
    · exact (h.steady e hold i hi g hg k hk hik).queue (by omega) hklt
    · obtain rfl := List.mem_singleton.mp hnew
      have hi := List.mem_singleton.mp hi
      omega

/-! ## Taking -/

theorem absorbs_origins {a c : Entry} {l : List Entry} (h : Absorbs MergeEntry a l c) :
    c.origins = a.origins ++ l.flatMap Entry.origins := by
  induction h with
  | nil a => rw [List.flatMap_nil, List.append_nil]
  | cons hmerge _ ih => rw [ih, hmerge.2, List.flatMap_cons, List.append_assoc]

theorem merge_device {a b c : Packet} (h : Merge a b c) : c.device = a.device := by
  cases h with
  | relMouseMove | scroll | hscroll => rfl
  | sample hstate =>
    cases hstate with
    | absMouseMove | pen => rfl
    | multiController hnumber => exact congrArg Device.controller hnumber.symm
    | touch hpointer => exact congrArg Device.touch hpointer.symm
    | controllerTouch hnumber hpointer =>
      exact congrArg₂ Device.controllerTouch hnumber.symm hpointer.symm
    | controllerMotion hnumber htype =>
      exact congrArg₂ Device.controllerMotion hnumber.symm htype.symm

theorem absorbs_device {a c : Entry} {l : List Entry} (h : Absorbs MergeEntry a l c) :
    c.packet.device = a.packet.device := by
  induction h with
  | nil a => rfl
  | cons hmerge _ ih => rw [ih, merge_device hmerge.1]

/-- The entry taken absorbs what it walks over of its device. -/
structure Take (s : State) (entry : Entry) (walked rest : List Entry) (taken : Entry) : Prop where
  queue : s.inputQueue = entry :: (walked ++ rest)
  absorbs : Absorbs MergeEntry entry (walked.filter (·.packet.device = entry.packet.device)) taken
  near : ∀ e ∈ walked, Near entry.packet e.packet

def afterTake (s : State) (entry : Entry) (walked rest : List Entry) (taken : Entry) : State :=
  { s with
    inputQueue := walked.filter (·.packet.device ≠ entry.packet.device) ++ rest
    passed := s.passed ++ [taken] }

theorem passthroughNextMessage_cases (s : State) :
    passthroughNextMessage s = s ∨ ∃ entry walked rest taken, Take s entry walked rest taken ∧
      passthroughNextMessage s = afterTake s entry walked rest taken := by
  unfold passthroughNextMessage
  cases hqueue : s.inputQueue with
  | nil => exact .inl rfl
  | cons entry l =>
    obtain ⟨walked, rest, rfl, habsorbs, hleft, hnear⟩ := coalesce_walk batchEntry_respects entry l
    refine .inr ⟨entry, walked, rest, _, ⟨hqueue, habsorbs, hnear⟩, ?_⟩
    simp only [hleft]
    rfl

section Taking

variable {s : State} {entry taken : Entry} {walked rest : List Entry}

theorem Take.origins (h : Take s entry walked rest taken) {i : ℕ} (hi : i ∈ taken.origins) :
    i ∈ entry.origins ∨ ∃ e ∈ walked, e.packet.device = entry.packet.device ∧ i ∈ e.origins := by
  rw [absorbs_origins h.absorbs] at hi
  rcases List.mem_append.mp hi with hfirst | hlater
  · exact .inl hfirst
  · obtain ⟨e, he, hie⟩ := List.mem_flatMap.mp hlater
    obtain ⟨hwalked, hdevice⟩ := List.mem_filter.mp he
    exact .inr ⟨e, hwalked, of_decide_eq_true hdevice, hie⟩

theorem Take.packet (h : Take s entry walked rest taken) (hinv : Inv s) {e : Entry}
    (he : e ∈ entry :: (walked ++ rest)) {i : ℕ} (hi : i ∈ e.origins) :
    s.queued[i]? = some e.packet := by
  obtain ⟨j, hj, hpacket⟩ := hinv.single e (h.queue ▸ he)
  rw [hj] at hi
  rwa [List.mem_singleton.mp hi]

theorem Take.before (h : Take s entry walked rest taken) (hinv : Inv s) {e later : Entry}
    (he : e ∈ entry :: walked) (hlater : later ∈ rest) {i j : ℕ} (hi : i ∈ e.origins)
    (hj : j ∈ later.origins) : i < j := by
  have hsorted := hinv.sorted
  rw [h.queue, ← List.cons_append] at hsorted
  exact (List.pairwise_append.mp hsorted).2.2 e he later hlater i hi j hj

theorem Take.first_le (h : Take s entry walked rest taken) (hinv : Inv s) {e : Entry}
    (he : e ∈ entry :: (walked ++ rest)) {first i : ℕ} (hfirst : entry.origins = [first])
    (hi : i ∈ e.origins) : first ≤ i := by
  have hsorted := hinv.sorted
  rw [h.queue] at hsorted
  have hmem : first ∈ entry.origins := hfirst ▸ List.mem_singleton_self first
  rcases List.mem_cons.mp he with rfl | hrest
  · rw [hfirst] at hi
    exact Nat.le_of_eq (List.mem_singleton.mp hi).symm
  · exact Nat.le_of_lt ((List.pairwise_cons.mp hsorted).1 e hrest first hmem i hi)

/-- No mask changes up to a packet that is absorbed. -/
theorem Take.steady (h : Take s entry walked rest taken) (hinv : Inv s) {first k : ℕ}
    (hfirst : entry.origins = [first]) (hk : k ∈ taken.origins) : Steady s.queued first k := by
  intro m hfm hmk
  have hqueue : ∀ e ∈ entry :: (walked ++ rest), e ∈ s.inputQueue := fun e he => h.queue ▸ he
  have hmem : first ∈ entry.origins := hfirst ▸ List.mem_singleton_self first
  have hfirstpacket := h.packet hinv List.mem_cons_self hmem
  -- packet `k` comes from the front or from an entry walked over
  obtain ⟨last, hlast, hklast⟩ : ∃ last ∈ entry :: walked, k ∈ last.origins := by
    rcases h.origins hk with hfront | ⟨e, he, -, hke⟩
    · exact ⟨entry, List.mem_cons_self, hfront⟩
    · exact ⟨e, List.mem_cons_of_mem _ he, hke⟩
  have hmlt : m < s.queued.length := by
    have hlast' : last ∈ s.passed ++ s.inputQueue := by
      refine List.mem_append_right _ (hqueue last ?_)
      rw [← List.cons_append]
      exact List.mem_append_left _ hlast
    have := hinv.origin_lt hlast' hklast
    omega
  obtain ⟨e, he, hme⟩ := List.mem_flatMap.mp (hinv.complete.mem_iff.mpr (List.mem_range.mpr hmlt))
  rcases List.mem_append.mp he with hpassed | hin
  · rcases Nat.eq_or_lt_of_le hfm with rfl | hlt
    · rfl
    · exact hinv.steady entry (hqueue _ List.mem_cons_self) first hmem e hpassed m hme hlt m hfm
        (Nat.le_refl _)
  · rw [h.queue] at hin
    rw [h.packet hinv hin hme, hfirstpacket]
    rcases List.mem_cons.mp hin with rfl | hlater
    · rfl
    · rcases List.mem_append.mp hlater with hwalked | hrest
      · exact congrArg some (h.near e hwalked).1
      · have := h.before hinv hlast hrest hklast hme
        omega

/-- What is left behind the front is overtaken by what the front absorbed. -/
theorem Take.overtakes (h : Take s entry walked rest taken) (hinv : Inv s) {e : Entry}
    (he : e ∈ walked.filter (·.packet.device ≠ entry.packet.device) ++ rest) {i j : ℕ}
    (hi : i ∈ taken.origins) (hj : j ∈ e.origins) (hji : j < i) : Overtakes s.queued i j := by
  obtain ⟨first, hfirst, -⟩ := hinv.single entry (h.queue ▸ List.mem_cons_self)
  have hall : ∀ x ∈ walked, x ∈ entry :: (walked ++ rest) :=
    fun x hx => List.mem_cons_of_mem _ (List.mem_append_left _ hx)
  obtain ⟨x, hx, hdevice, hix⟩ : ∃ x ∈ walked, x.packet.device = entry.packet.device ∧ i ∈ x.origins := by
    rcases h.origins hi with hfront | hwalked
    · have hle : first ≤ j := by
        refine h.first_le hinv (List.mem_cons_of_mem _ ?_) hfirst hj
        rcases List.mem_append.mp he with hskipped | hrest
        · exact List.mem_append_left _ (List.mem_of_mem_filter hskipped)
        · exact List.mem_append_right _ hrest
      rw [hfirst] at hfront
      have := List.mem_singleton.mp hfront
      omega
    · exact hwalked
  rcases List.mem_append.mp he with hskipped | hrest
  · obtain ⟨hwalked, hother⟩ := List.mem_filter.mp hskipped
    have hother := of_decide_eq_true hother
    obtain ⟨hmask, hmay⟩ := h.near e hwalked
    have hlt : first < j := by
      have hsorted := hinv.sorted
      rw [h.queue] at hsorted
      exact (List.pairwise_cons.mp hsorted).1 e (List.mem_append_left _ hwalked) first
        (hfirst ▸ List.mem_singleton_self first) j hj
    have hjpacket := h.packet hinv (hall e hwalked) hj
    have hjlen : j < s.queued.length := (List.getElem?_eq_some_iff.mp hjpacket).1
    have hsteady := h.steady hinv hfirst hi
    have hbefore : s.queued[j - 1]? = some s.queued[j - 1] := List.getElem?_eq_getElem (by omega)
    have hsame := (hsteady (j - 1) (by omega) (by omega)).trans
      (hsteady j (by omega) (by omega)).symm
    rw [hbefore, hjpacket] at hsame
    exact ⟨x.packet, s.queued[j - 1], e.packet, h.packet hinv (hall x hx) hix, hjpacket,
      mayOvertake_congr hdevice.symm (h.near x hx).1.symm (hmay hother), by omega, hbefore,
      Option.some.inj hsame⟩
  · have := h.before hinv (List.mem_cons_of_mem _ hx) hrest hix hj
    omega

/-- The device of the front loses what was absorbed, and the others lose nothing. -/
theorem Take.devices (h : Take s entry walked rest taken) (d : Device) :
    (d = entry.packet.device ∧ ∃ absorbed,
        (s.inputQueue.filter (·.packet.device = d)).map Entry.packet = entry.packet :: (absorbed ++
          ((afterTake s entry walked rest taken).inputQueue.filter (·.packet.device = d)).map Entry.packet) ∧
        Absorbs Merge entry.packet absorbed taken.packet) ∨
      (d ≠ entry.packet.device ∧ s.inputQueue.filter (·.packet.device = d) =
        (afterTake s entry walked rest taken).inputQueue.filter (·.packet.device = d)) := by
  by_cases hd : d = entry.packet.device
  · subst hd
    refine .inl ⟨rfl, (walked.filter (·.packet.device = entry.packet.device)).map Entry.packet, ?_, ?_⟩
    · have hnone : (walked.filter (·.packet.device ≠ entry.packet.device)).filter
          (·.packet.device = entry.packet.device) = [] := by
        rw [List.filter_filter, List.filter_eq_nil_iff]
        intro e _
        simp
      rw [h.queue, List.filter_cons_of_pos (by simp), List.map_cons, afterTake, List.filter_append,
        List.filter_append, hnone, List.nil_append, List.map_append]
    · exact h.absorbs.map fun _ _ _ hmerge => hmerge.1
  · refine .inr ⟨hd, ?_⟩
    rw [h.queue, List.filter_cons_of_neg (by simpa using Ne.symm hd), afterTake, List.filter_append,
      List.filter_append, List.filter_filter]
    congr 1
    refine List.filter_congr fun e _ => ?_
    by_cases he : e.packet.device = d
    · simp [he, hd]
    · simp [he]

theorem Take.complete (h : Take s entry walked rest taken) :
    taken.origins ++ (walked.filter (·.packet.device ≠ entry.packet.device) ++ rest).flatMap Entry.origins ~
      s.inputQueue.flatMap Entry.origins := by
  have hsplit : walked.filter (·.packet.device = entry.packet.device) ++
      walked.filter (·.packet.device ≠ entry.packet.device) ~ walked := by
    simpa using List.filter_append_perm (fun e : Entry => decide (e.packet.device = entry.packet.device)) walked
  rw [absorbs_origins h.absorbs, h.queue, List.flatMap_cons, List.append_assoc, ← List.flatMap_append,
    ← List.append_assoc (walked.filter _)]
  exact ((hsplit.append_right rest).flatMap_right _).append_left _

theorem Take.sublist (h : Take s entry walked rest taken) :
    (afterTake s entry walked rest taken).inputQueue.Sublist s.inputQueue := by
  rw [h.queue]
  exact ((List.filter_sublist).append (List.Sublist.refl rest)).cons _

theorem Take.queued (h : Take s entry walked rest taken) {k : ℕ} (hk : k ∈ taken.origins) :
    ∃ e ∈ s.inputQueue, k ∈ e.origins := by
  rcases h.origins hk with hfront | ⟨e, he, -, hke⟩
  · exact ⟨entry, h.queue ▸ List.mem_cons_self, hfront⟩
  · exact ⟨e, h.queue ▸ List.mem_cons_of_mem _ (List.mem_append_left _ he), hke⟩

theorem Take.absorbed (h : Take s entry walked rest taken) (hinv : Inv s) : ∃ p ps,
    taken.origins.map (s.queued[·]?) = (p :: ps).map some ∧ Absorbs Merge p ps taken.packet := by
  have hsingle : ∀ l : List Entry, (∀ e ∈ l, e ∈ s.inputQueue) →
      (l.flatMap Entry.origins).map (s.queued[·]?) = (l.map Entry.packet).map some := by
    intro l
    induction l with
    | nil => exact fun _ => rfl
    | cons e l ih =>
      intro hl
      obtain ⟨i, hi, hpacket⟩ := hinv.single e (hl e List.mem_cons_self)
      rw [List.flatMap_cons, List.map_append, ih fun x hx => hl x (List.mem_cons_of_mem _ hx), hi,
        List.map_singleton, hpacket]
      rfl
  refine ⟨entry.packet, _, ?_, h.absorbs.map fun _ _ _ hmerge => hmerge.1⟩
  rw [absorbs_origins h.absorbs, ← List.flatMap_cons, ← List.map_cons]
  refine hsingle _ fun e he => ?_
  rw [h.queue]
  rcases List.mem_cons.mp he with rfl | hwalked
  · exact List.mem_cons_self
  · exact List.mem_cons_of_mem _ (List.mem_append_left _ (List.mem_of_mem_filter hwalked))

theorem inv_afterTake (h : Take s entry walked rest taken) (hinv : Inv s) :
    Inv (afterTake s entry walked rest taken) := by
  have hsub := h.sublist
  obtain ⟨first, hfirst, -⟩ := hinv.single entry (h.queue ▸ List.mem_cons_self)
  obtain ⟨hpassed, hqueue, hcross⟩ := List.pairwise_append.mp hinv.overtaken
  refine ⟨fun e he => hinv.single e (hsub.subset he), hinv.sorted.sublist hsub, fun d => ?_, ?_, ?_, ?_, ?_⟩
  · obtain ⟨done, hdone, hcoalesced⟩ := hinv.devices d
    change ∃ done, _ ∧ Coalesced Merge done (((s.passed ++ [taken]).filter _).map Entry.packet)
    have hdevice := absorbs_device h.absorbs
    rw [List.filter_append, List.map_append]
    rcases h.devices d with ⟨rfl, absorbed, hfront, habsorbs⟩ | ⟨hd, hsame⟩
    · refine ⟨done ++ entry.packet :: absorbed, ?_, ?_⟩
      · rw [List.append_assoc, List.cons_append, ← hfront]
        exact hdone
      · rw [List.filter_cons_of_pos (by simpa using hdevice)]
        exact hcoalesced.snoc habsorbs
    · refine ⟨done, ?_, ?_⟩
      · rw [← hsame]
        exact hdone
      · rw [List.filter_cons_of_neg (by simpa [hdevice] using Ne.symm hd)]
        simpa using hcoalesced
  · exact List.forall_mem_append.mpr ⟨hinv.absorbed, List.forall_mem_singleton.mpr (h.absorbed hinv)⟩
  · change ((s.passed ++ [taken]) ++ (_ ++ rest)).flatMap Entry.origins ~ _
    refine List.Perm.trans ?_ hinv.complete
    rw [List.append_assoc, List.singleton_append, List.flatMap_append, List.flatMap_append,
      List.flatMap_cons]
    exact h.complete.append_left _
  · change ((s.passed ++ [taken]) ++ (_ ++ rest)).Pairwise _
    rw [List.append_assoc, List.singleton_append]
    refine List.pairwise_append.mpr ⟨hpassed, List.pairwise_cons.mpr ⟨?_, hqueue.sublist hsub⟩, ?_⟩
    · exact fun e he i hi j hj hji => h.overtakes hinv he hi hj hji
    · refine fun g hg => List.forall_mem_cons.mpr ⟨fun i hi j hj hji => ?_, fun e he => ?_⟩
      · obtain ⟨e, he, hje⟩ := h.queued hj
        exact hcross g hg e he i hi j hje hji
      · exact hcross g hg e (hsub.subset he)
  · intro e he i hi g hg k hk hik
    rcases List.mem_append.mp hg with hold | hnew
    · exact hinv.steady e (hsub.subset he) i hi g hold k hk hik
    · obtain rfl := List.mem_singleton.mp hnew
      have hle := h.first_le hinv (h.queue ▸ hsub.subset he) hfirst hi
      have hsteady := h.steady hinv hfirst hk
      intro m him hmk
      exact (hsteady m (by omega) hmk).trans (hsteady i hle (by omega)).symm

end Taking

theorem inv_drain {s : State} (h : Inv s) (maxMessages : ℕ) :
    Inv (passthroughQueuedMessages maxMessages s) := by
  unfold passthroughQueuedMessages
  induction maxMessages generalizing s with
  | zero => exact h
  | succ n ih =>
    rw [Function.iterate_succ_apply]
    apply ih
    rcases passthroughNextMessage_cases s with heq | ⟨entry, walked, rest, taken, htake, heq⟩
    · rwa [heq]
    · rw [heq]
      exact inv_afterTake htake h

theorem inv_run (events : List Event) : Inv (events.foldl step initial) := by
  have hrun : ∀ s, Inv s → Inv (events.foldl step s) := by
    induction events with
    | nil => exact fun _ h => h
    | cons event events ih =>
      intro s h
      apply ih
      cases event with
      | passthrough packet => exact inv_passthrough h packet
      | drain maxMessages => exact inv_drain h maxMessages
  exact hrun initial inv_initial

/-- Whatever is queued, and however many messages each drain handles. -/
theorem batching_preserves (events : List Event) : Preserved (events.foldl step initial) :=
  (inv_run events).preserved

/-! ## Overtaking another controller -/

/-- A packet that does not merely move or sample its device, whose previous packet is `before`. -/
def changesState (before : Option Packet) : Packet → Bool
  | .mouseButton _ | .keyboard _ | .unicode _ => true
  | .touch packet => !packet.eventType.moves
  | .pen packet => !packet.eventType.moves
  | .controllerTouch packet => !packet.eventType.moves
  | .multiController packet =>
    match before with
    | some (.multiController before) =>
      before.buttonFlags ≠ packet.buttonFlags || before.buttonFlags2 ≠ packet.buttonFlags2 ||
        before.activeGamepadMask ≠ packet.activeGamepadMask
    | _ => true
  | _ => false

def StateChanging (queued : List Packet) (j : ℕ) : Prop :=
  ∃ q ∈ queued[j]?, changesState ((queued.take j).filter (·.device = q.device)).getLast? q = true

def controllerSample (controllerNumber : Int16) (buttonFlags : UInt16) (leftTrigger : UInt8) : Packet :=
  .multiController ⟨controllerNumber, 3, buttonFlags, leftTrigger, 0, 0, 0, 0, 0, 0⟩

/-- A button of controller 1 goes down between two samples of controller 0. -/
def twoControllers : List Event :=
  [.passthrough (controllerSample 0 0 1), .passthrough (controllerSample 1 0 0),
    .passthrough (controllerSample 1 4096 0), .passthrough (controllerSample 0 0 2), .drain 64]

theorem button_is_overtaken : ¬∀ events : List Event, (events.foldl step initial).passed.Pairwise fun e later =>
    ∀ i ∈ e.origins, ∀ j ∈ later.origins, j < i →
      ¬StateChanging (events.foldl step initial).queued j := by
  intro h
  have hpassed : (twoControllers.foldl step initial).passed =
      [⟨controllerSample 0 0 2, [0, 3]⟩, ⟨controllerSample 1 0 0, [1]⟩,
        ⟨controllerSample 1 4096 0, [2]⟩] := by decide
  have hpair := h twoControllers
  rw [hpassed] at hpair
  have hsample := (List.pairwise_cons.mp hpair).1 ⟨controllerSample 1 4096 0, [2]⟩ (by decide)
  exact hsample 3 (by decide) 2 (by decide) (by decide) ⟨controllerSample 1 4096 0, rfl, by decide⟩

end Sunshine.Batching
