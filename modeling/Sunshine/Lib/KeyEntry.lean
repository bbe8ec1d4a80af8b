import Mathlib.Data.Finset.Basic
import Mathlib.Data.Finset.Disjoint
import Mathlib.Data.Finset.SDiff
import Mathlib.Data.Nat.Digits.Defs

/-! Key events, the keys that are held behind them, and the entry of code points by control, shift and a start key: the
hexadecimal digits typed until one of the two modifiers is released are one code point. -/
namespace Sunshine.KeyEntry
set_option autoImplicit false

variable {α : Type} [DecidableEq α]

inductive KeyEvent (α : Type) where
  | press (key : α)
  | release (key : α)
  deriving DecidableEq

omit [DecidableEq α] in
/-- The same event on another name of the key. -/
def KeyEvent.map {β : Type} (f : β → α) : KeyEvent β → KeyEvent α
  | .press key => .press (f key)
  | .release key => .release (f key)

def tap {α : Type} (key : α) : List (KeyEvent α) := [.press key, .release key]

def hold (held : Finset α) : KeyEvent α → Finset α
  | .press key => insert key held
  | .release key => held.erase key

def heldAfter (held : Finset α) (events : List (KeyEvent α)) : Finset α := events.foldl hold held

theorem heldAfter_append (held : Finset α) (front back : List (KeyEvent α)) :
    heldAfter held (front ++ back) = heldAfter (heldAfter held front) back := List.foldl_append

/-- Keys that are tapped are not held behind it. -/
theorem heldAfter_taps (held : Finset α) (keys : List α) :
    heldAfter held (keys.flatMap tap) = held \ keys.toFinset := by
  induction keys generalizing held with
  | nil => simp [heldAfter]
  | cons key keys ih =>
    have htap : heldAfter held (tap key) = held.erase key := by
      ext other
      simp only [tap, heldAfter, List.foldl_cons, List.foldl_nil, hold, Finset.mem_erase, Finset.mem_insert]
      tauto
    rw [List.flatMap_cons, heldAfter_append, htap, ih]
    ext other
    simp only [Finset.mem_sdiff, Finset.mem_erase, List.mem_toFinset, List.mem_cons]
    tauto

/-! ## The convention -/

/-- The keys that have a part in it. -/
structure Layout (α : Type) where
  control : Finset α
  shift : Finset α
  start : α
  digit : α → Option ℕ

/-- `entry` holds the digits of a code point that is being entered. -/
structure Reader (α : Type) where
  held : Finset α
  entry : Option (List ℕ)
  spelled : List ℕ

/-- An entry without digits is none. -/
def entered (digits : List ℕ) : List ℕ := if digits = [] then [] else [Nat.ofDigits 16 digits.reverse]

variable (layout : Layout α)

/-- A key that is held already cannot be pressed again. -/
def Reader.press (r : Reader α) (key : α) : Reader α :=
  if key ∈ r.held then r
  else
    { r with
      held := insert key r.held
      entry := match r.entry with
        | none =>
          if key = layout.start ∧ ¬Disjoint layout.control r.held ∧ ¬Disjoint layout.shift r.held then some [] else none
        | some digits => some (digits ++ (layout.digit key).toList) }

def Reader.release (r : Reader α) (key : α) : Reader α :=
  if key ∈ r.held then
    if key ∈ layout.control ∪ layout.shift then
      ⟨r.held.erase key, none, r.spelled ++ (r.entry.map entered).getD []⟩
    else { r with held := r.held.erase key }
  else r

def Reader.next (r : Reader α) : KeyEvent α → Reader α
  | .press key => r.press layout key
  | .release key => r.release layout key

def Reader.read (r : Reader α) (events : List (KeyEvent α)) : Reader α := events.foldl (Reader.next layout) r

variable {layout} {r : Reader α} {key : α} {held : Finset α} {digits spelled : List ℕ}

theorem Reader.read_cons (event : KeyEvent α) (events : List (KeyEvent α)) :
    r.read layout (event :: events) = (r.next layout event).read layout events := rfl

theorem Reader.read_append (front back : List (KeyEvent α)) :
    r.read layout (front ++ back) = (r.read layout front).read layout back := List.foldl_append

theorem Reader.next_held (event : KeyEvent α) : (r.next layout event).held = hold r.held event := by
  cases event with
  | press key =>
    rw [Reader.next, Reader.press, hold]
    by_cases hheld : key ∈ r.held
    · rw [if_pos hheld, Finset.insert_eq_of_mem hheld]
    · rw [if_neg hheld]
  | release key =>
    rw [Reader.next, Reader.release, hold]
    split_ifs with hheld
    · rfl
    · rfl
    · exact (Finset.erase_eq_of_notMem hheld).symm

theorem Reader.read_held (events : List (KeyEvent α)) :
    (r.read layout events).held = heldAfter r.held events := by
  induction events generalizing r with
  | nil => rfl
  | cons event events ih => rw [Reader.read_cons, ih, Reader.next_held, heldAfter, heldAfter, List.foldl_cons]

/-- A digit that is tapped is behind the others, and no key is held of it. -/
theorem Reader.read_tap (hheld : key ∉ held) (hmodifier : key ∉ layout.control ∪ layout.shift) :
    (⟨held, some digits, spelled⟩ : Reader α).read layout (tap key) =
      ⟨held, some (digits ++ (layout.digit key).toList), spelled⟩ := by
  have hpress : (⟨held, some digits, spelled⟩ : Reader α).press layout key =
      ⟨insert key held, some (digits ++ (layout.digit key).toList), spelled⟩ := if_neg hheld
  rw [tap, Reader.read_cons, Reader.next, hpress, Reader.read_cons, Reader.next, Reader.release,
    if_pos (Finset.mem_insert_self key held), if_neg hmodifier]
  simp only [Finset.erase_insert hheld]
  rfl

theorem Reader.read_taps (keys : List α) (hheld : ∀ key ∈ keys, key ∉ held)
    (hmodifier : ∀ key ∈ keys, key ∉ layout.control ∪ layout.shift) :
    (⟨held, some digits, spelled⟩ : Reader α).read layout (keys.flatMap tap) =
      ⟨held, some (digits ++ keys.flatMap fun key => (layout.digit key).toList), spelled⟩ := by
  induction keys generalizing digits with
  | nil =>
    rw [List.flatMap_nil, List.flatMap_nil, List.append_nil]
    rfl
  | cons key keys ih =>
    obtain ⟨hkey, hheld⟩ := List.forall_mem_cons.mp hheld
    obtain ⟨hkey', hmodifier⟩ := List.forall_mem_cons.mp hmodifier
    rw [List.flatMap_cons, List.flatMap_cons, Reader.read_append, Reader.read_tap hkey hkey', ih hheld hmodifier,
      List.append_assoc]

/-- Control and shift around a tap of the start key and of digits: one entry, and nothing is held of it. -/
theorem Reader.read_entry {control shift : α} {keys : List α} (hcontrol : control ∈ layout.control)
    (hshift : shift ∈ layout.shift) (hne : control ≠ shift) (hstart : layout.start ∉ layout.control ∪ layout.shift)
    (hkeys : ∀ key ∈ keys, key ∉ layout.control ∪ layout.shift)
    (hheld : ∀ key ∈ control :: shift :: layout.start :: keys, key ∉ held) :
    (⟨held, none, []⟩ : Reader α).read layout
        ([.press control, .press shift, .press layout.start, .release layout.start] ++ keys.flatMap tap ++
          [.release shift, .release control]) =
      ⟨held, none, entered (keys.flatMap fun key => (layout.digit key).toList)⟩ := by
  obtain ⟨hc, hheld⟩ := List.forall_mem_cons.mp hheld
  obtain ⟨hs, hheld⟩ := List.forall_mem_cons.mp hheld
  obtain ⟨ht, hheld⟩ := List.forall_mem_cons.mp hheld
  have hs' : shift ∉ insert control held := by
    rw [Finset.mem_insert, not_or]
    exact ⟨hne.symm, hs⟩
  have hmodifiers : ∀ key, key ∉ layout.control ∪ layout.shift → key ∉ held →
      key ∉ insert shift (insert control held) := by
    intro key hkey hkeyHeld
    rw [Finset.mem_insert, Finset.mem_insert, not_or, not_or]
    refine ⟨fun e => hkey ?_, fun e => hkey ?_, hkeyHeld⟩
    · exact e ▸ Finset.mem_union_right _ hshift
    · exact e ▸ Finset.mem_union_left _ hcontrol
  have hopen : (⟨held, none, []⟩ : Reader α).read layout
      [.press control, .press shift, .press layout.start, .release layout.start] =
        ⟨insert shift (insert control held), some [], []⟩ := by
    have h₁ : (⟨held, none, []⟩ : Reader α).press layout control = ⟨insert control held, none, []⟩ := by
      rw [Reader.press, if_neg hc]
      simp only
      rw [if_neg]
      rintro ⟨rfl, -⟩
      exact hstart (Finset.mem_union_left _ hcontrol)
    have h₂ : (⟨insert control held, none, []⟩ : Reader α).press layout shift =
        ⟨insert shift (insert control held), none, []⟩ := by
      rw [Reader.press, if_neg hs']
      simp only
      rw [if_neg]
      rintro ⟨rfl, -⟩
      exact hstart (Finset.mem_union_right _ hshift)
    have h₃ : (⟨insert shift (insert control held), none, []⟩ : Reader α).press layout layout.start =
        ⟨insert layout.start (insert shift (insert control held)), some [], []⟩ := by
      rw [Reader.press, if_neg (hmodifiers _ hstart ht)]
      dsimp only
      rw [if_pos]
      refine ⟨rfl, Finset.not_disjoint_iff.mpr ⟨control, hcontrol, ?_⟩, Finset.not_disjoint_iff.mpr ⟨shift, hshift, ?_⟩⟩
      · exact Finset.mem_insert_of_mem (Finset.mem_insert_self control held)
      · exact Finset.mem_insert_self shift _
    rw [Reader.read_cons, Reader.next, h₁, Reader.read_cons, Reader.next, h₂, Reader.read_cons, Reader.next, h₃,
      Reader.read_cons, Reader.next, Reader.release, if_pos (Finset.mem_insert_self _ _), if_neg hstart]
    simp only [Finset.erase_insert (hmodifiers _ hstart ht)]
    rfl
  rw [Reader.read_append, Reader.read_append, hopen,
    Reader.read_taps keys (fun key hkey => hmodifiers key (hkeys key hkey) (hheld key hkey)) hkeys, List.nil_append]
  rw [Reader.read_cons, Reader.next, Reader.release, if_pos (Finset.mem_insert_self _ _),
    if_pos (Finset.mem_union_right _ hshift), Finset.erase_insert hs', Reader.read_cons, Reader.next, Reader.release,
    if_pos (Finset.mem_insert_self _ _), if_pos (Finset.mem_union_left _ hcontrol), Finset.erase_insert hc]
  simp [Reader.read]

/-- What is held behind such an entry: the keys it uses are not. -/
theorem heldAfter_entry (held : Finset α) (control shift start : α) (keys : List α) :
    heldAfter held ([.press control, .press shift, .press start, .release start] ++ keys.flatMap tap ++
        [.release shift, .release control]) = held \ (control :: shift :: start :: keys).toFinset := by
  rw [heldAfter_append, heldAfter_append, heldAfter_taps]
  ext key
  simp only [heldAfter, List.foldl_cons, List.foldl_nil, hold, Finset.mem_erase, Finset.mem_insert, Finset.mem_sdiff,
    List.mem_toFinset, List.mem_cons]
  tauto

end Sunshine.KeyEntry
