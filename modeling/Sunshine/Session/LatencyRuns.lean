import Sunshine.Session.LatencyCells

/-! What a run of `collect` and `snapshot` calls keeps.

The cells are right whatever the order of the accesses. A snapshot is right if the values that it counts, those in the sum
when it is loaded, and those that its minimum and maximum stand for are the same; `values` below are those in the sum. -/
namespace Sunshine.LatencyCells
open Extremum Session Transitions
set_option autoImplicit false

/-- The values that are in the sum. -/
def values (s : State) : List ℚ := (s.collectors.filter Collector.added).map Collector.value

/-- What holds between the cells and the calls of `collect`. -/
structure Inv (s : State) : Prop where
  samples : s.cells.samples = s.collectors.length
  total : s.cells.total = (values s).sum
  range : ∀ c ∈ s.collectors, 0 ≤ c.value ∧ c.value ≤ 60000
  low : Keeps (· < ·) (s.collectors.map fun c => (c.value, c.min)) s.cells.min
  high : Keeps (· > ·) (s.collectors.map fun c => (c.value, c.max)) s.cells.max

/-- What a snapshot that is under way knows of the values in the sum. -/
def Reader.Good (values : List ℚ) : Reader → Prop
  | .counted n => 0 < n ∧ n = values.length
  | .lowest n low => (0 < n ∧ n = values.length) ∧ (∀ v ∈ values, ¬Before (· < ·) v low) ∧ ∀ a ∈ low, 0 ≤ a
  | .highest n low high => (0 < n ∧ n = values.length) ∧ (∀ v ∈ values, ¬Before (· < ·) v low) ∧ (∀ a ∈ low, 0 ≤ a) ∧
      (∀ v ∈ values, ¬Before (· > ·) v high) ∧ ∀ a ∈ high, a ≤ 60000
  | .returned result => result.Coherent

variable {s : State} {c : Collector} {front back : List Collector} {spurious : Bool} {cells : MetricAccumulator}

/-! ## The accesses of a collect -/

theorem clampSample_range (value : Option ℚ) : 0 ≤ clampSample value ∧ clampSample value ≤ 60000 := by
  unfold clampSample
  cases value with
  | none => norm_num
  | some value =>
    dsimp only
    split_ifs with hlow hhigh
    · norm_num
    · norm_num
    · exact ⟨not_lt.mp hlow, not_lt.mp hhigh⟩

/-- What one access can do: add to the sum, or go on with one of the loops. -/
theorem advance_cases (spurious : Bool) (c : Collector) (cells : MetricAccumulator) :
    (c.added = false ∧ c.advance spurious cells = ({ c with added := true }, { cells with total := cells.total + c.value })) ∨
    (c.added = true ∧ c.advance spurious cells =
      ({ c with min := (access (· < ·) spurious c.value cells.min c.min).1 },
        { cells with min := (access (· < ·) spurious c.value cells.min c.min).2 })) ∨
    (c.added = true ∧ c.advance spurious cells =
      ({ c with max := (access (· > ·) spurious c.value cells.max c.max).1 },
        { cells with max := (access (· > ·) spurious c.value cells.max c.max).2 })) := by
  unfold Collector.advance
  cases hadded : c.added with
  | false => exact Or.inl ⟨rfl, if_pos (by simp)⟩
  | true =>
    rw [if_neg (by simp)]
    by_cases hmin : c.min = .settled
    · exact Or.inr (Or.inr ⟨rfl, if_neg (by simp [hmin])⟩)
    · exact Or.inr (Or.inl ⟨rfl, if_pos hmin⟩)

theorem mem_split_iff {d : Collector} : d ∈ front ++ c :: back ↔ d ∈ front ++ back ∨ d = c := by
  simp only [List.mem_append, List.mem_cons]
  tauto

theorem values_split (cells : MetricAccumulator) (readers : List Reader) (front back : List Collector) (c : Collector) :
    values ⟨cells, front ++ c :: back, readers⟩ =
      (front.filter Collector.added).map Collector.value ++ (if c.added then [c.value] else []) ++
        (back.filter Collector.added).map Collector.value := by
  unfold values
  dsimp only
  rw [List.filter_append, List.filter_cons, List.map_append, List.append_assoc]
  cases c.added with
  | false => rfl
  | true => rfl

/-- An access that adds nothing to the sum leaves the values in it. -/
theorem values_kept {c' : Collector} {cells cells' : MetricAccumulator} {readers readers' : List Reader}
    (hvalue : c'.value = c.value) (hadded : c'.added = c.added) :
    values ⟨cells', front ++ c' :: back, readers'⟩ = values ⟨cells, front ++ c :: back, readers⟩ := by
  rw [values_split, values_split, hvalue, hadded]

/-- One access of a collect keeps the cells right. -/
theorem Inv.advance (h : Inv s) (hsplit : s.collectors = front ++ c :: back) :
    Inv { s with cells := (c.advance spurious s.cells).2, collectors := front ++ (c.advance spurious s.cells).1 :: back } := by
  obtain ⟨cells, collectors, readers⟩ := s
  obtain rfl : collectors = front ++ c :: back := hsplit
  have hsamples : cells.samples = (front ++ c :: back).length := h.samples
  have htotal : cells.total = (values ⟨cells, front ++ c :: back, readers⟩).sum := h.total
  have hrange : ∀ c' : Collector, c'.value = c.value → ∀ d ∈ front ++ c' :: back, 0 ≤ d.value ∧ d.value ≤ 60000 := by
    intro c' hvalue d hd
    obtain hother | rfl := mem_split_iff.mp hd
    · exact h.range d (mem_split_iff.mpr (Or.inl hother))
    · rw [hvalue]
      exact h.range c (mem_split_iff.mpr (Or.inr rfl))
  have hlow := h.low
  have hhigh := h.high
  simp only [List.map_append, List.map_cons] at hlow hhigh
  obtain ⟨hadded, heq⟩ | ⟨hadded, heq⟩ | ⟨hadded, heq⟩ := advance_cases spurious c cells
  · dsimp only
    rw [heq]
    constructor
    case samples => simpa using hsamples
    case total =>
      rw [values_split] at htotal ⊢
      rw [hadded] at htotal
      simp only [List.sum_append, Bool.false_eq_true, if_false, List.sum_nil, if_true, List.sum_singleton] at htotal ⊢
      rw [htotal]
      ring
    case range => exact hrange _ rfl
    case low => simpa only [List.map_append, List.map_cons] using hlow
    case high => simpa only [List.map_append, List.map_cons] using hhigh
  · dsimp only
    rw [heq]
    constructor
    case samples => simpa using hsamples
    case total =>
      rw [values_split] at htotal ⊢
      exact htotal
    case range => exact hrange _ rfl
    case low => simpa only [List.map_append, List.map_cons] using hlow.access spurious
    case high => simpa only [List.map_append, List.map_cons] using hhigh
  · dsimp only
    rw [heq]
    constructor
    case samples => simpa using hsamples
    case total =>
      rw [values_split] at htotal ⊢
      exact htotal
    case range => exact hrange _ rfl
    case low => simpa only [List.map_append, List.map_cons] using hlow
    case high => simpa only [List.map_append, List.map_cons] using hhigh.access spurious

theorem Inv.begin (h : Inv s) (value : Option ℚ) (hwrap : s.cells.samples + 1 < 4294967296) : Inv (begin value s) where
  samples := by
    unfold LatencyCells.begin
    dsimp only
    rw [Nat.mod_eq_of_lt hwrap, h.samples, List.length_append, List.length_singleton]
  total := by
    have hvalues : values (LatencyCells.begin value s) = values s := by
      simp [values, LatencyCells.begin]
    rw [hvalues]
    exact h.total
  range d hd := by
    obtain hold | hnew := List.mem_append.mp hd
    · exact h.range d hold
    · rw [List.mem_singleton.mp hnew]
      exact clampSample_range value
  low := by
    unfold LatencyCells.begin
    rw [List.map_append]
    exact h.low.offer _
  high := by
    unfold LatencyCells.begin
    rw [List.map_append]
    exact h.high.offer _

theorem inv_initial : Inv {} where
  samples := rfl
  total := rfl
  range _ hmem := absurd hmem List.not_mem_nil
  low := keeps_nil
  high := keeps_nil

/-- The next state of a `collect` that is there. -/
theorem next_collector (spurious : Bool) {i : ℕ} (hget : s.collectors[i]? = some c) :
    ∃ front back, s.collectors = front ++ c :: back ∧ next s (.collector i spurious) =
      { s with cells := (c.advance spurious s.cells).2, collectors := front ++ (c.advance spurious s.cells).1 :: back } := by
  obtain ⟨front, back, hsplit, rfl⟩ := Threads.split_of_getElem hget
  refine ⟨front, back, hsplit, ?_⟩
  have hset : s.collectors.set front.length (c.advance spurious s.cells).1 = front ++ (c.advance spurious s.cells).1 :: back := by
    rw [hsplit, List.set_append_right _ _ le_rfl, Nat.sub_self, List.set_cons_zero]
  simp only [next, hget, hset]

theorem Inv.next (h : Inv s) (event : Event) (hwrap : NoWrap s event) : Inv (next s event) := by
  cases event with
  | collect value => exact h.begin value hwrap
  | collector i spurious =>
    cases hget : s.collectors[i]? with
    | none =>
      simp only [LatencyCells.next, hget]
      exact h
    | some c =>
      obtain ⟨front, back, hsplit, hnext⟩ := next_collector spurious hget
      rw [hnext]
      exact h.advance hsplit
  | snapshot => exact ⟨h.samples, h.total, h.range, h.low, h.high⟩
  | reader j =>
    cases hget : s.readers[j]? with
    | none =>
      simp only [LatencyCells.next, hget]
      exact h
    | some r =>
      simp only [LatencyCells.next, hget]
      exact ⟨h.samples, h.total, h.range, h.low, h.high⟩

/-- With all loops through, the cell of one order has what comes first in it. -/
theorem keeps_idle {r : ℚ → ℚ → Prop} {threads : List (ℚ × Progress ℚ)} {cell : Option ℚ} (h : Keeps r threads cell)
    (hsettled : ∀ t ∈ threads, t.2 = .settled) :
    (threads = [] ∧ cell = none) ∨
      ∃ a ∈ threads.map Prod.fst, cell = some a ∧ ∀ b ∈ threads.map Prod.fst, ¬r b a := by
  by_cases hempty : threads = []
  · refine Or.inl ⟨hempty, ?_⟩
    cases cell with
    | none => rfl
    | some a =>
      obtain ⟨t, hmem, -⟩ := h.mem a rfl
      rw [hempty] at hmem
      exact absurd hmem List.not_mem_nil
  · exact Or.inr (h.foremost hsettled hempty)

/-- With all calls through, the cells have exactly the values. -/
theorem Inv.exact (h : Inv s) : ExactWhenIdle s := by
  intro hfinished
  have hparts : ∀ c ∈ s.collectors, c.added = true ∧ c.min = .settled ∧ c.max = .settled :=
    fun c hc => of_decide_eq_true (hfinished c hc)
  have hvalues : values s = s.collectors.map Collector.value := by
    unfold values
    rw [List.filter_eq_self.mpr fun c hc => (hparts c hc).1]
  constructor
  case samples => rw [h.samples, List.length_map]
  case avg =>
    have htotal : s.cells.total = (s.collectors.map Collector.value).sum := by rw [h.total, hvalues]
    have hlength : (s.collectors.map Collector.value).length = s.cells.samples := by rw [h.samples, List.length_map]
    rw [hlength, ← htotal, MetricAccumulator.snapshot]
    split_ifs with hsome
    · rfl
    · rw [Nat.eq_zero_of_not_pos hsome, Nat.cast_zero, div_zero]
  case min =>
    have hsettled : ∀ t ∈ s.collectors.map fun c => (c.value, c.min), t.2 = .settled := by
      intro t ht
      obtain ⟨c, hc, rfl⟩ := List.mem_map.mp ht
      exact (hparts c hc).2.1
    obtain ⟨hempty, hnone⟩ | ⟨a, ha, hsome, hleast⟩ := keeps_idle h.low hsettled
    · rw [hnone, List.map_eq_nil_iff.mp hempty]
      rfl
    · rw [List.map_map] at ha hleast
      rw [hsome]
      exact (List.min?_eq_some_iff.mpr ⟨ha, fun b hb => not_lt.mp (hleast b hb)⟩).symm
  case max =>
    have hsettled : ∀ t ∈ s.collectors.map fun c => (c.value, c.max), t.2 = .settled := by
      intro t ht
      obtain ⟨c, hc, rfl⟩ := List.mem_map.mp ht
      exact (hparts c hc).2.2
    obtain ⟨hempty, hnone⟩ | ⟨a, ha, hsome, hmost⟩ := keeps_idle h.high hsettled
    · rw [hnone, List.map_eq_nil_iff.mp hempty]
      rfl
    · rw [List.map_map] at ha hmost
      rw [hsome]
      exact (List.max?_eq_some_iff.mpr ⟨ha, fun b hb => not_lt.mp (hmost b hb)⟩).symm

/-! ## The loads of a snapshot -/

/-- Where nothing is added to the sum, what a snapshot knows stays so. -/
theorem good_returned {r : Reader} {old new : List ℚ} (hgood : r.Good old) (hclosed : ¬r.Open) : r.Good new := by
  cases r with
  | counted n => exact absurd trivial hclosed
  | lowest n low => exact absurd trivial hclosed
  | highest n low high => exact absurd trivial hclosed
  | returned result => exact hgood

/-- The snapshot that has loaded the sum has its numbers in order. -/
theorem coherent_of_loaded {l : List ℚ} {n : ℕ} {low high : Option ℚ} (hcount : 0 < n ∧ n = l.length)
    (hleast : ∀ v ∈ l, ¬Before (· < ·) v low) (hpos : ∀ a ∈ low, 0 ≤ a) (hmost : ∀ v ∈ l, ¬Before (· > ·) v high)
    (hcap : ∀ a ∈ high, a ≤ 60000) : Snapshot.Coherent ⟨low, high, l.sum / n, n⟩ := by
  intro _
  obtain ⟨hn, rfl⟩ := hcount
  have hlength : (0 : ℚ) < l.length := by exact_mod_cast hn
  obtain ⟨v, hv⟩ := List.exists_mem_of_length_pos hn
  cases low with
  | none => exact absurd (fun a hnone => absurd hnone (Option.not_mem_none a)) (hleast v hv)
  | some low =>
    cases high with
    | none => exact absurd (fun a hnone => absurd hnone (Option.not_mem_none a)) (hmost v hv)
    | some high =>
      have hlow : ∀ v ∈ l, low ≤ v := fun v hv => not_lt.mp fun hlt => hleast v hv fun a ha => Option.some.inj ha ▸ hlt
      have hhigh : ∀ v ∈ l, v ≤ high := fun v hv => not_lt.mp fun hlt => hmost v hv fun a ha => Option.some.inj ha ▸ hlt
      have hsumLow := List.card_nsmul_le_sum l low hlow
      have hsumHigh := List.sum_le_card_nsmul l high hhigh
      rw [nsmul_eq_mul] at hsumLow hsumHigh
      refine ⟨low, high, rfl, rfl, hpos low rfl, ?_, ?_, hcap high rfl⟩
      · rw [le_div_iff₀ hlength]
        linarith
      · rw [div_le_iff₀ hlength]
        linarith

/-- One load keeps a snapshot right, if nothing comes between. -/
theorem good_advance (h : Inv s) {r : Reader} (hgood : r.Good (values s)) (hundisturbed : r.Undisturbed s) :
    (r.advance s.cells).Good (values s) := by
  have hmem : ∀ v ∈ values s, ∃ c ∈ s.collectors, c.added = true ∧ c.value = v := by
    intro v hv
    obtain ⟨c, hc, rfl⟩ := List.mem_map.mp hv
    obtain ⟨hcollector, hadded⟩ := List.mem_filter.mp hc
    exact ⟨c, hcollector, hadded, rfl⟩
  cases r with
  | counted n =>
    refine ⟨hgood, fun v hv => ?_, fun a ha => ?_⟩
    · obtain ⟨c, hc, hadded, rfl⟩ := hmem v hv
      exact hundisturbed c hc hadded
    · obtain ⟨t, ht, rfl⟩ := h.low.mem a ha
      obtain ⟨c, hc, rfl⟩ := List.mem_map.mp ht
      exact (h.range c hc).1
  | lowest n low =>
    obtain ⟨hcount, hleast, hpos⟩ := hgood
    refine ⟨hcount, hleast, hpos, fun v hv => ?_, fun a ha => ?_⟩
    · obtain ⟨c, hc, hadded, rfl⟩ := hmem v hv
      exact hundisturbed c hc hadded
    · obtain ⟨t, ht, rfl⟩ := h.high.mem a ha
      obtain ⟨c, hc, rfl⟩ := List.mem_map.mp ht
      exact (h.range c hc).2
  | highest n low high =>
    obtain ⟨hcount, hleast, hpos, hmost, hcap⟩ := hgood
    have hcoherent := coherent_of_loaded hcount hleast hpos hmost hcap
    rw [← h.total] at hcoherent
    exact hcoherent
  | returned result => exact hgood

/-! ## Runs -/

/-- Every snapshot that is under way is good. -/
def Seen (s : State) : Prop := ∀ r ∈ s.readers, r.Good (values s)

theorem advance_added (spurious : Bool) (cells : MetricAccumulator) (hadded : c.added = true) :
    (c.advance spurious cells).1.value = c.value ∧ (c.advance spurious cells).1.added = c.added := by
  obtain ⟨hfresh, -⟩ | ⟨-, heq⟩ | ⟨-, heq⟩ := advance_cases spurious c cells
  · exact absurd (hadded.symm.trans hfresh) (by simp)
  · rw [heq]
    exact ⟨rfl, rfl⟩
  · rw [heq]
    exact ⟨rfl, rfl⟩

theorem Seen.next (h : Seen s) (hinv : Inv s) (event : Event) (hapart : Apart s event) : Seen (next s event) := by
  cases event with
  | collect value =>
    have hvalues : values (begin value s) = values s := by
      simp [values, begin]
    intro r hr
    exact hvalues ▸ h r hr
  | collector i spurious =>
    cases hget : s.collectors[i]? with
    | none =>
      simp only [LatencyCells.next, hget]
      exact h
    | some c =>
      obtain ⟨front, back, hsplit, hnext⟩ := next_collector spurious hget
      rw [hnext]
      intro r hr
      cases hadded : c.added with
      | false => exact good_returned (h r hr) (hapart c hget hadded r hr)
      | true =>
        obtain ⟨hvalue, hkept⟩ := advance_added spurious s.cells hadded
        have hvalues : values s = values ⟨s.cells, front ++ c :: back, s.readers⟩ := by
          unfold values
          rw [hsplit]
        rw [values_kept hvalue hkept, ← hvalues]
        exact h r hr
  | snapshot =>
    intro r hr
    obtain hold | hnew := List.mem_append.mp hr
    · exact h r hold
    · rw [List.mem_singleton.mp hnew, Reader.begin]
      split_ifs with hsome
      · have hvalues : values s = s.collectors.map Collector.value := by
          unfold values
          rw [List.filter_eq_self.mpr hapart]
        have hcount : s.cells.samples = (values s).length := by rw [hvalues, List.length_map, hinv.samples]
        exact ⟨hsome, hcount⟩
      · exact fun hnone => absurd hnone (by simp)
  | reader j =>
    cases hget : s.readers[j]? with
    | none =>
      simp only [LatencyCells.next, hget]
      exact h
    | some r =>
      simp only [LatencyCells.next, hget]
      intro other hother
      obtain hold | rfl := List.mem_or_eq_of_mem_set hother
      · exact h other hold
      · exact good_advance hinv (h r (List.mem_of_getElem? hget)) (hapart r hget)

theorem inv_runs {events : List Event} (hruns : Runs NoWrap next {} events) : Inv (events.foldl next {}) :=
  hruns.invariant Inv inv_initial fun _ event hinv hwrap => hinv.next event hwrap

theorem seen_runs {events : List Event} (hruns : Runs NoWrap next {} events) (hapart : Runs Apart next {} events) :
    Seen (events.foldl next {}) := by
  have hboth := (hruns.and hapart).invariant (fun s => Inv s ∧ Seen s) ⟨inv_initial, fun _ hr => absurd hr List.not_mem_nil⟩
    fun _ event h hstep => ⟨h.1.next event hstep.1, h.2.next h.1 event hstep.2⟩
  exact hboth.2

/-- In every run in which the number of samples stays within its bits the cells are exact when no call is under way; if
the loads of the snapshots are kept apart from the collects as well, every snapshot is coherent. -/
theorem snapshots_coherent (events : List Event) (hruns : Runs NoWrap next {} events) :
    ∀ m, m <+: events → ExactWhenIdle (m.foldl next {}) ∧ (Runs Apart next {} m → Coherent (m.foldl next {})) := by
  rintro m ⟨rest, rfl⟩
  have hfront := hruns.front
  exact ⟨(inv_runs hfront).exact, fun hapart result hresult => seen_runs hfront hapart _ hresult⟩

/-- A collect, and a snapshot when it is through. -/
def quiet : List Event :=
  [.collect (some 5), .collector 0 false, .collector 0 false, .collector 0 false, .collector 0 false, .collector 0 false,
    .snapshot, .reader 0, .reader 0, .reader 0]

theorem quiet_apart : Runs Apart next {} quiet := by
  have hcollected : ((quiet.take 6).foldl next {}).cells.min = some 5 ∧
      ((quiet.take 6).foldl next {}).cells.max = some 5 ∧
        ((quiet.take 6).foldl next {}).collectors.map Collector.value = [5] := by
    decide +kernel
  obtain ⟨hmin, hmax, hvalues⟩ := hcollected
  have hvalue : ∀ c ∈ ((quiet.take 6).foldl next {}).collectors, c.value = 5 := by
    intro c hc
    have hmem := List.mem_map_of_mem (f := Collector.value) hc
    rw [hvalues] at hmem
    exact List.mem_singleton.mp hmem
  have hadded : ∀ c ∈ ((quiet.take 6).foldl next {}).collectors, c.added = true := by
    intro c hc
    obtain rfl := List.mem_singleton.mp hc
    rfl
  have hnone : ∀ r, r ∉ ([] : List Reader) := fun r => List.not_mem_nil
  refine ⟨trivial, fun _ _ _ r hr => absurd hr (hnone r), fun _ _ _ r hr => absurd hr (hnone r),
    fun _ _ _ r hr => absurd hr (hnone r), fun _ _ _ r hr => absurd hr (hnone r),
    fun _ _ _ r hr => absurd hr (hnone r), hadded, ?_, ?_, ?_, trivial⟩
  · intro r hr
    obtain rfl := Option.some.inj hr
    intro c hc _ hbefore
    exact absurd (hvalue c hc) (ne_of_lt (hbefore 5 hmin))
  · intro r hr
    obtain rfl := Option.some.inj hr
    intro c hc _ hbefore
    exact absurd (hvalue c hc) (ne_of_gt (hbefore 5 hmax))
  · intro r hr
    obtain rfl := Option.some.inj hr
    trivial

theorem snapshots_coherent_quiet : ExactWhenIdle (quiet.foldl next {}) ∧ Coherent (quiet.foldl next {}) := by
  have hwrap : (0 : ℕ) + 1 < 4294967296 := by decide
  obtain ⟨hexact, hcoherent⟩ := snapshots_coherent quiet
    ⟨hwrap, trivial, trivial, trivial, trivial, trivial, trivial, trivial, trivial, trivial, trivial⟩ quiet
    List.prefix_rfl
  exact ⟨hexact, hcoherent quiet_apart⟩

/-- A snapshot behind the first access of the first collect: it reports one sample, and the infinities. -/
theorem snapshot_infinite :
    ¬∀ events : List Event, ExactWhenIdle (events.foldl next {}) ∧ Coherent (events.foldl next {}) := by
  intro hall
  obtain ⟨-, hcoherent⟩ := hall [.collect (some 5), .snapshot, .reader 0, .reader 0, .reader 0]
  have hreaders : ([.collect (some 5), .snapshot, .reader 0, .reader 0, .reader 0].foldl next {}).readers =
      [.returned ⟨none, none, (0 : ℚ) / ((1 : ℕ) : ℚ), 1⟩] := rfl
  have hresult := hreaders ▸ List.mem_singleton_self (Reader.returned ⟨none, none, (0 : ℚ) / ((1 : ℕ) : ℚ), 1⟩)
  obtain ⟨low, high, hlow, -⟩ := hcoherent _ hresult Nat.one_pos
  exact absurd hlow (by simp)

end Sunshine.LatencyCells
