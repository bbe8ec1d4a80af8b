import Mathlib.Data.List.Perm.Basic
import Mathlib.Data.List.Nodup
import Mathlib.Algebra.Order.Ring.Int
import Mathlib.Algebra.BigOperators.Group.List.Basic
import Mathlib.Tactic.Ring

/-! A rectangle of pixels laid over an image whose lines have a stride: which pixel of the one lies over which pixel of the
other, the block a loop over lines and columns draws, and what drawing leaves in the image. -/
namespace Sunshine.Overlaps
set_option autoImplicit false

/-- The lines of an image start `stride` pixels apart. -/
structure Plane where
  width : ℕ
  height : ℕ
  stride : ℕ
  inside : width ≤ stride

section Blocks
variable {β : Type} (source : ℕ → ℕ → β)

/-- The image's pixels from the first line on that a rectangle of `w` times `h` at `left` and `top` covers: their
addresses, and where the line and column of the rectangle over them are kept. -/
def overlap (p : Plane) (left top : ℤ) (w h : ℕ) : List (ℕ × β) :=
  (List.range p.height).flatMap fun j : ℕ =>
    if top ≤ j ∧ j < top + h then
      (List.range p.width).flatMap fun i : ℕ =>
        if left ≤ i ∧ i < left + w then [(j * p.stride + i, source (j - top).toNat (i - left).toNat)] else []
    else []

/-- The pixels of one line of such a loop. -/
def line (stride x y fromX fromY cols b : ℕ) : List (ℕ × β) :=
  (List.range cols).map fun a => ((y + b) * stride + (x + a), source (fromY + b) (fromX + a))

/-- `rows` lines of `cols` pixels, from a place of the rectangle on to a place of the image. -/
def block (stride x y fromX fromY cols rows : ℕ) : List (ℕ × β) :=
  (List.range rows).flatMap fun b => line source stride x y fromX fromY cols b

/-- Lines of `w` pixels one behind the other. -/
def rowMajor (w row col : ℕ) : ℕ := row * w + col

/-- How many of `len` places from `start` on lie between 0 and `size`. -/
def shown (size : ℕ) (start : ℤ) (len : ℕ) : ℕ := (min (size : ℤ) (start + len) - max 0 start).toNat

theorem length_line (stride x y fromX fromY cols b : ℕ) :
    (line source stride x y fromX fromY cols b).length = cols := by
  rw [line, List.length_map, List.length_range]

theorem length_block (stride x y fromX fromY cols rows : ℕ) :
    (block source stride x y fromX fromY cols rows).length = rows * cols := by
  unfold block
  induction rows with
  | zero => simp
  | succ rows ih =>
    rw [List.range_succ, List.flatMap_append, List.length_append, ih, List.flatMap_singleton, length_line, Nat.succ_mul]

theorem block_succ (stride x y fromX fromY cols rows : ℕ) : block source stride x y fromX fromY cols (rows + 1) =
    block source stride x y fromX fromY cols rows ++ line source stride x y fromX fromY cols rows := by
  unfold block
  rw [List.range_succ, List.flatMap_append, List.flatMap_singleton]

theorem line_nodup (stride x y fromX fromY cols b : ℕ) :
    ((line source stride x y fromX fromY cols b).map Prod.fst).Nodup := by
  unfold line
  rw [List.map_map]
  refine List.Nodup.map (fun a a' h => ?_) List.nodup_range
  have hsame : (y + b) * stride + (x + a) = (y + b) * stride + (x + a') := h
  omega

theorem flatMap_congr {α : Type} {l : List α} {f g : α → List β} (h : ∀ a ∈ l, f a = g a) :
    l.flatMap f = l.flatMap g := by
  rw [List.flatMap_def, List.flatMap_def, List.map_congr_left h]

/-- Of a range the part that lies in an interval. -/
theorem flatMap_interval (n : ℕ) (start : ℤ) (len : ℕ) (f : ℕ → List β) :
    ((List.range n).flatMap fun i : ℕ => if start ≤ i ∧ i < start + len then f i else []) =
      (List.range (shown n start len)).flatMap fun a => f (start.toNat + a) := by
  induction n with
  | zero =>
    have hnone : shown 0 start len = 0 := by
      unfold shown
      omega
    rw [hnone]
    rfl
  | succ n ih =>
    rw [List.range_succ, List.flatMap_append, ih, List.flatMap_singleton]
    by_cases hn : start ≤ n ∧ (n : ℤ) < start + len
    · have hmore : shown (n + 1) start len = shown n start len + 1 := by
        unfold shown
        omega
      have hlast : start.toNat + shown n start len = n := by
        unfold shown
        omega
      rw [if_pos hn, hmore, List.range_succ, List.flatMap_append, List.flatMap_singleton, hlast]
    · have hsame : shown (n + 1) start len = shown n start len := by
        unfold shown
        omega
      rw [if_neg hn, hsame, List.append_nil]

theorem overlap_eq_block (p : Plane) (left top : ℤ) (w h : ℕ) :
    overlap source p left top w h = block source p.stride left.toNat top.toNat (-left).toNat (-top).toNat
      (shown p.width left w) (shown p.height top h) := by
  rw [overlap, flatMap_interval p.height top h fun j : ℕ => (List.range p.width).flatMap fun i : ℕ =>
    if left ≤ i ∧ (i : ℤ) < left + w then
      [(j * p.stride + i, source ((j : ℤ) - top).toNat ((i : ℤ) - left).toNat)] else []]
  unfold block
  refine flatMap_congr fun b hb => ?_
  have hb := List.mem_range.mp hb
  rw [flatMap_interval p.width left w fun i : ℕ => [((top.toNat + b) * p.stride + i,
    source (((top.toNat + b : ℕ) : ℤ) - top).toNat ((i : ℤ) - left).toNat)]]
  unfold line
  rw [← List.flatMap_singleton' ((List.range (shown p.width left w)).map _), List.flatMap_map]
  refine flatMap_congr fun a ha => ?_
  have ha := List.mem_range.mp ha
  have hrow : (((top.toNat + b : ℕ) : ℤ) - top).toNat = (-top).toNat + b := by omega
  have hcol : (((left.toNat + a : ℕ) : ℤ) - left).toNat = (-left).toNat + a := by omega
  rw [hrow, hcol]

theorem length_overlap (p : Plane) (left top : ℤ) (w h : ℕ) :
    (overlap source p left top w h).length = shown p.height top h * shown p.width left w := by
  rw [overlap_eq_block, length_block]

theorem shown_le (size : ℕ) (start : ℤ) (len : ℕ) : shown size start len ≤ size := by
  unfold shown
  omega

theorem overlap_of_none (p : Plane) {left top : ℤ} {w h : ℕ}
    (hnone : shown p.height top h = 0 ∨ shown p.width left w = 0) : overlap source p left top w h = [] := by
  refine List.eq_nil_of_length_eq_zero ?_
  rw [length_overlap]
  cases hnone with
  | inl hrows => rw [hrows, Nat.zero_mul]
  | inr hcols => rw [hcols, Nat.mul_zero]

variable {source}

theorem mem_overlap {p : Plane} {left top : ℤ} {w h d : ℕ} {s : β} :
    (d, s) ∈ overlap source p left top w h ↔ ∃ j < p.height, ∃ i < p.width, (top ≤ j ∧ (j : ℤ) < top + h) ∧
      (left ≤ i ∧ (i : ℤ) < left + w) ∧ d = j * p.stride + i ∧ s = source ((j : ℤ) - top).toNat ((i : ℤ) - left).toNat := by
  unfold overlap
  simp only [List.mem_flatMap, List.mem_range]
  constructor
  · rintro ⟨j, hj, hd⟩
    split_ifs at hd with hrow
    · obtain ⟨i, hi, hd⟩ := List.mem_flatMap.mp hd
      split_ifs at hd with hcol
      · obtain ⟨rfl, rfl⟩ := Prod.mk.inj (List.mem_singleton.mp hd)
        exact ⟨j, hj, i, List.mem_range.mp hi, hrow, hcol, rfl, rfl⟩
      · cases hd
    · cases hd
  · rintro ⟨j, hj, i, hi, hrow, hcol, rfl, rfl⟩
    refine ⟨j, hj, ?_⟩
    rw [if_pos hrow]
    refine List.mem_flatMap.mpr ⟨i, List.mem_range.mpr hi, ?_⟩
    rw [if_pos hcol]
    exact List.mem_singleton_self _

/-- Lines do not reach into each other. -/
theorem address_inj {p : Plane} {i j i' j' : ℕ} (hi : i < p.width) (hi' : i' < p.width)
    (h : j * p.stride + i = j' * p.stride + i') : j = j' ∧ i = i' := by
  have hstride := p.inside
  have hpos : 0 < p.stride := by omega
  have hj : (j * p.stride + i) / p.stride = j := by
    rw [Nat.mul_comm, Nat.mul_add_div hpos, Nat.div_eq_of_lt (by omega), Nat.add_zero]
  have hj' : (j' * p.stride + i') / p.stride = j' := by
    rw [Nat.mul_comm, Nat.mul_add_div hpos, Nat.div_eq_of_lt (by omega), Nat.add_zero]
  have hsame : j = j' := by rw [← hj, h, hj']
  subst hsame
  exact ⟨rfl, by omega⟩

theorem overlap_nodup (p : Plane) (left top : ℤ) (w h : ℕ) : ((overlap source p left top w h).map Prod.fst).Nodup := by
  have hline : ∀ j, ∀ d ∈ ((List.range p.width).flatMap fun i : ℕ => if left ≤ i ∧ (i : ℤ) < left + w then
      [(j * p.stride + i, source ((j : ℤ) - top).toNat ((i : ℤ) - left).toNat)] else []).map Prod.fst,
      ∃ i < p.width, d = j * p.stride + i := by
    intro j d hd
    obtain ⟨pair, hpair, rfl⟩ := List.mem_map.mp hd
    obtain ⟨i, hi, hpair⟩ := List.mem_flatMap.mp hpair
    split_ifs at hpair
    · rw [List.mem_singleton.mp hpair]
      exact ⟨i, List.mem_range.mp hi, rfl⟩
    · cases hpair
  unfold overlap
  rw [List.map_flatMap, List.nodup_flatMap]
  refine ⟨fun j _ => ?_, List.nodup_range.imp fun {j j'} hne => ?_⟩
  · split_ifs
    · rw [List.map_flatMap, List.nodup_flatMap]
      refine ⟨fun i _ => ?_, List.nodup_range.imp fun {i i'} hne => ?_⟩
      · split_ifs
        · exact List.nodup_singleton _
        · exact List.nodup_nil
      · unfold Function.onFun
        dsimp only
        rw [List.disjoint_left]
        intro d hd hd'
        split_ifs at hd hd'
        · have h₁ : d = j * p.stride + i := List.mem_singleton.mp hd
          have h₂ : d = j * p.stride + i' := List.mem_singleton.mp hd'
          omega
        all_goals simp at hd hd'
    · exact List.nodup_nil
  · unfold Function.onFun
    dsimp only
    rw [List.disjoint_left]
    intro d hd hd'
    split_ifs at hd hd'
    · obtain ⟨i, hi, hdi⟩ := hline j d hd
      obtain ⟨i', hi', hdi'⟩ := hline j' d hd'
      exact hne (address_inj hi hi' (hdi.symm.trans hdi')).1
    all_goals simp at hd hd'

theorem overlap_bounds {p : Plane} {left top : ℤ} {w h : ℕ} {pair : ℕ × ℕ}
    (hpair : pair ∈ overlap (rowMajor w) p left top w h) : pair.1 < p.height * p.stride ∧ pair.2 < w * h := by
  obtain ⟨j, hj, i, hi, hrow, hcol, hd, hs⟩ := mem_overlap.mp hpair
  have hinside := p.inside
  have hrows : (j + 1) * p.stride ≤ p.height * p.stride := Nat.mul_le_mul_right _ hj
  have hline : (((j : ℤ) - top).toNat + 1) * w ≤ h * w := Nat.mul_le_mul_right _ (by omega)
  rw [Nat.succ_mul] at hrows hline
  rw [hd, hs, rowMajor, Nat.mul_comm w h]
  omega

end Blocks

/-! ## Loops over lines that can fail -/

section Collecting
variable {β : Type}

/-- The lines from the first on, as long as each is possible. -/
def collect (row : ℕ → Option (List β)) : ℕ → Option (List β)
  | 0 => some []
  | rows + 1 => do
    let front ← collect row rows
    let pairs ← row rows
    pure (front ++ pairs)

variable {row : ℕ → Option (List β)} {rows : ℕ} {pairs : List β}

theorem collect_succ (h : collect row (rows + 1) = some pairs) :
    ∃ front last, collect row rows = some front ∧ row rows = some last ∧ pairs = front ++ last := by
  obtain ⟨front, hfront, h⟩ := Option.bind_eq_some_iff.mp h
  obtain ⟨last, hlast, h⟩ := Option.bind_eq_some_iff.mp h
  exact ⟨front, last, hfront, hlast, (Option.some.inj h).symm⟩

theorem collect_eq {lines : ℕ → List β} (h : ∀ b < rows, row b = some (lines b)) :
    collect row rows = some ((List.range rows).flatMap lines) := by
  induction rows with
  | zero => rfl
  | succ rows ih =>
    rw [collect, ih fun b hb => h b (by omega), h rows (by omega), List.range_succ, List.flatMap_append,
      List.flatMap_singleton]
    rfl

theorem collect_congr {row' : ℕ → Option (List β)} (h : ∀ b < rows, row b = row' b) :
    collect row rows = collect row' rows := by
  induction rows with
  | zero => rfl
  | succ rows ih => rw [collect, collect, ih fun b hb => h b (by omega), h rows (by omega)]

/-- A line of the loop is a part of what is collected. -/
theorem row_of_collect (h : collect row rows = some pairs) {b : ℕ} (hb : b < rows) :
    ∃ part, row b = some part ∧ part.length ≤ pairs.length := by
  induction rows generalizing pairs with
  | zero => exact absurd hb (Nat.not_lt_zero b)
  | succ rows ih =>
    obtain ⟨front, last, hfront, hlast, rfl⟩ := collect_succ h
    rw [List.length_append]
    by_cases hlt : b < rows
    · obtain ⟨part, hpart, hle⟩ := ih hfront hlt
      exact ⟨part, hpart, by omega⟩
    · obtain rfl : b = rows := by omega
      exact ⟨last, hlast, by omega⟩

theorem mem_collect (h : collect row rows = some pairs) {pair : β} (hpair : pair ∈ pairs) :
    ∃ b < rows, ∃ part, row b = some part ∧ pair ∈ part := by
  induction rows generalizing pairs with
  | zero =>
    rw [← Option.some.inj h] at hpair
    cases hpair
  | succ rows ih =>
    obtain ⟨front, last, hfront, hlast, rfl⟩ := collect_succ h
    cases List.mem_append.mp hpair with
    | inl hmem =>
      obtain ⟨b, hb, part, hpart, hin⟩ := ih hfront hmem
      exact ⟨b, by omega, part, hpart, hin⟩
    | inr hmem => exact ⟨rows, by omega, last, hlast, hmem⟩

theorem length_collect (h : collect row rows = some pairs) {m : ℕ}
    (hrow : ∀ b < rows, ∀ part, row b = some part → part.length ≤ m) : pairs.length ≤ rows * m := by
  induction rows generalizing pairs with
  | zero =>
    rw [← Option.some.inj h]
    exact Nat.zero_le _
  | succ rows ih =>
    obtain ⟨front, last, hfront, hlast, rfl⟩ := collect_succ h
    have hrest := ih hfront fun b hb => hrow b (by omega)
    have hline := hrow rows (by omega) last hlast
    rw [List.length_append, Nat.succ_mul]
    omega

theorem length_collect_eq (h : collect row rows = some pairs) {m : ℕ}
    (hrow : ∀ b < rows, ∀ part, row b = some part → part.length = m) : pairs.length = rows * m := by
  induction rows generalizing pairs with
  | zero =>
    rw [← Option.some.inj h, Nat.zero_mul]
    rfl
  | succ rows ih =>
    obtain ⟨front, last, hfront, hlast, rfl⟩ := collect_succ h
    rw [List.length_append, ih hfront fun b hb => hrow b (by omega), hrow rows (by omega) last hlast, Nat.succ_mul]

end Collecting

/-! ## Drawing -/

section Drawing
variable {α β γ : Type} (combine : γ → α → α) (picture : β → γ)

/-- Each pair's pixel of the image becomes the blend of the rectangle's with it. -/
def draw (pairs : List (ℕ × β)) (data : ℕ → α) : ℕ → α :=
  pairs.foldl (fun data pair => Function.update data pair.1 (combine (picture pair.2) (data pair.1))) data

variable {combine picture} {pairs : List (ℕ × β)} {data : ℕ → α} {d : ℕ} {s : β}

theorem draw_notMem (h : d ∉ pairs.map Prod.fst) : draw combine picture pairs data d = data d := by
  induction pairs generalizing data with
  | nil => rfl
  | cons pair pairs ih =>
    rw [List.map_cons, List.mem_cons, not_or] at h
    exact (ih h.2).trans (Function.update_of_ne h.1 _ _)

theorem draw_mem (hnodup : (pairs.map Prod.fst).Nodup) (h : (d, s) ∈ pairs) :
    draw combine picture pairs data d = combine (picture s) (data d) := by
  induction pairs generalizing data with
  | nil => cases h
  | cons pair pairs ih =>
    rw [List.map_cons, List.nodup_cons] at hnodup
    rcases List.mem_cons.mp h with rfl | hrest
    · have hdrawn := @draw_notMem α β γ combine picture pairs (Function.update data d (combine (picture s) (data d))) d hnodup.1
      rw [Function.update_self] at hdrawn
      exact hdrawn
    · have hne : d ≠ pair.1 := by
        rintro rfl
        exact hnodup.1 (List.mem_map.mpr ⟨_, hrest, rfl⟩)
      have hdrawn : draw combine picture (pair :: pairs) data d =
          combine (picture s) (Function.update data pair.1 (combine (picture pair.2) (data pair.1)) d) := ih hnodup.2 hrest
      rw [hdrawn, Function.update_of_ne hne]

theorem draw_append (front back : List (ℕ × β)) (data : ℕ → α) :
    draw combine picture (front ++ back) data = draw combine picture back (draw combine picture front data) :=
  List.foldl_append

/-- Where no later line comes to, a line of a block is drawn over what the lines above have left. -/
theorem draw_block {source : ℕ → ℕ → β} {stride x y fromX fromY cols rows b a : ℕ} (hb : b < rows) (ha : a < cols)
    (hlast : a < stride ∨ rows = b + 1) :
    draw combine picture (block source stride x y fromX fromY cols rows) data ((y + b) * stride + (x + a)) =
      combine (picture (source (fromY + b) (fromX + a)))
        (draw combine picture (block source stride x y fromX fromY cols b) data ((y + b) * stride + (x + a))) := by
  induction rows, hb using Nat.le_induction with
  | base =>
    rw [block_succ, draw_append]
    exact draw_mem (line_nodup source _ _ _ _ _ _ _) (List.mem_map.mpr ⟨a, List.mem_range.mpr ha, rfl⟩)
  | succ rows hle ih =>
    have hshort : a < stride := hlast.resolve_right (by omega)
    have hlater : (y + b) * stride + (x + a) ∉ (line source stride x y fromX fromY cols rows).map Prod.fst := by
      intro hmem
      obtain ⟨pair, hpair, haddress⟩ := List.mem_map.mp hmem
      obtain ⟨a', -, rfl⟩ := List.mem_map.mp hpair
      have hbelow : (y + b + 1) * stride ≤ (y + rows) * stride := Nat.mul_le_mul_right _ (by omega)
      rw [Nat.succ_mul] at hbelow
      dsimp only at haddress
      omega
    rw [block_succ, draw_append, draw_notMem hlater]
    exact ih (.inl hshort)

/-- Under each pixel of the rectangle the image has changed as it has to for that line and column, and nowhere else, between
the lines neither. -/
def Laid (meets : ℕ → ℕ → α → α → Prop) (p : Plane) (left top : ℤ) (w h : ℕ) (data after : ℕ → α) : Prop :=
  (∀ j < p.height, ∀ i < p.width,
    if (top ≤ j ∧ (j : ℤ) < top + h) ∧ left ≤ i ∧ (i : ℤ) < left + w then
      meets ((j : ℤ) - top).toNat ((i : ℤ) - left).toNat (data (j * p.stride + i)) (after (j * p.stride + i))
    else after (j * p.stride + i) = data (j * p.stride + i)) ∧
  ∀ d, (∀ j < p.height, ∀ i < p.width, d ≠ j * p.stride + i) → after d = data d

/-- Drawing each pixel of the overlap once is enough. -/
theorem laid_draw {meets : ℕ → ℕ → α → α → Prop} {source : ℕ → ℕ → β} {p : Plane} {left top : ℤ} {w h : ℕ}
    (hperm : pairs.Perm (overlap source p left top w h))
    (hmeets : ∀ row col before, meets row col before (combine (picture (source row col)) before)) :
    Laid meets p left top w h data (draw combine picture pairs data) := by
  have hnodup : (pairs.map Prod.fst).Nodup := (hperm.map Prod.fst).nodup_iff.mpr (overlap_nodup p left top w h)
  have hcovered : ∀ d, d ∈ pairs.map Prod.fst → ∃ j < p.height, ∃ i < p.width,
      (top ≤ j ∧ (j : ℤ) < top + h) ∧ (left ≤ i ∧ (i : ℤ) < left + w) ∧ d = j * p.stride + i := by
    intro d hd
    obtain ⟨⟨d', s⟩, hpair, rfl⟩ := List.mem_map.mp hd
    obtain ⟨j, hj, i, hi, hrow, hcol, hd, -⟩ := mem_overlap.mp (hperm.mem_iff.mp hpair)
    exact ⟨j, hj, i, hi, hrow, hcol, hd⟩
  refine ⟨fun j hj i hi => ?_, fun d hd => draw_notMem fun hmem => ?_⟩
  · split_ifs with hover
    · have hmem := hperm.mem_iff.mpr (mem_overlap.mpr ⟨j, hj, i, hi, hover.1, hover.2, rfl, rfl⟩)
      rw [draw_mem hnodup hmem]
      exact hmeets _ _ _
    · refine draw_notMem fun hmem => hover ?_
      obtain ⟨j', hj', i', hi', hrow, hcol, hd⟩ := hcovered _ hmem
      obtain ⟨rfl, rfl⟩ := address_inj hi hi' hd
      exact ⟨hrow, hcol⟩
  · obtain ⟨j, hj, i, hi, -, -, hd'⟩ := hcovered d hmem
    exact hd j hj i hi hd'

end Drawing

end Sunshine.Overlaps
