import Sunshine.Display.KmsPlanes

/-! The loop over the cards of `kms_display_names` in closed form: which monitors it lists, that no two of them are called
the same, and which index each one ends up with. -/
namespace Sunshine.KmsNames
open Rtsp Texts Picks Entries
set_option autoImplicit false

section Tables
variable {Kind : Type} (types : TypeNames Kind) (config : Config)

/-! ## The map from CRTCs -/

theorem isSome_lookup_iff {map : CrtcToMonitor Kind} {crtcId : ℕ} :
    (map.lookup crtcId).isSome ↔ crtcId ∈ map.map Prod.fst := by
  constructor
  · intro h
    obtain ⟨monitor, hmonitor⟩ := Option.isSome_iff_exists.mp h
    exact List.mem_map_of_mem (f := Prod.fst) (mem_of_lookup hmonitor)
  · intro h
    obtain ⟨entry, hentry, rfl⟩ := List.mem_map.mp h
    exact Option.isSome_iff_ne_none.mpr (lookup_of_mem hentry)

theorem crtcs_foldl_emplace (entries map : CrtcToMonitor Kind) (crtcId : ℕ) :
    crtcId ∈ (entries.foldl emplace map).map Prod.fst ↔ crtcId ∈ map.map Prod.fst ∨ crtcId ∈ entries.map Prod.fst := by
  induction entries generalizing map with
  | nil => simp
  | cons entry entries ih =>
    have hemplace : crtcId ∈ (emplace map entry).map Prod.fst ↔ crtcId = entry.1 ∨ crtcId ∈ map.map Prod.fst := by
      unfold emplace
      split_ifs with hthere
      · refine ⟨.inr, fun h => h.elim (fun heq => ?_) id⟩
        rw [heq]
        exact isSome_lookup_iff.mp hthere
      · rw [((List.perm_orderedInsert _ entry map).map Prod.fst).mem_iff, List.map_cons, List.mem_cons]
    rw [List.foldl_cons, ih, hemplace, List.map_cons, List.mem_cons]
    tauto

theorem nodup_foldl_emplace (entries map : CrtcToMonitor Kind)
    (h : ((map ++ entries).map fun entry => entry.2.key).Nodup) :
    ((entries.foldl emplace map).map fun entry => entry.2.key).Nodup := by
  induction entries generalizing map with
  | nil =>
    rw [List.append_nil] at h
    exact h
  | cons entry entries ih =>
    refine ih _ ?_
    unfold emplace
    split_ifs with hthere
    · have hsub : (map ++ entries).Sublist (map ++ entry :: entries) :=
        (List.Sublist.refl map).append (List.sublist_cons_self entry entries)
      exact h.sublist (hsub.map _)
    · have hperm : (map.orderedInsert (fun a b => a.1 ≤ b.1) entry ++ entries).Perm (map ++ entry :: entries) :=
        ((List.perm_orderedInsert _ entry map).append_right entries).trans List.perm_middle.symm
      exact ((hperm.map _).nodup_iff).mpr h

theorem mem_foldl_emplace {entries map : CrtcToMonitor Kind} {entry : ℕ × Monitor Kind}
    (h : entry ∈ entries.foldl emplace map) : entry ∈ map ∨ entry ∈ entries := by
  induction entries generalizing map with
  | nil => exact .inl h
  | cons first entries ih =>
    cases ih h with
    | inl hmap =>
      unfold emplace at hmap
      split_ifs at hmap with hthere
      · exact .inl hmap
      · rw [List.mem_orderedInsert] at hmap
        exact hmap.elim (fun heq => .inr (heq ▸ List.mem_cons_self)) .inl
    | inr hentries => exact .inr (List.mem_cons_of_mem _ hentries)

theorem nodup_mapCrtcToMonitor {entries : List (ℕ × Monitor Kind)} (h : (entries.map fun entry => entry.2.key).Nodup) :
    ((mapCrtcToMonitor entries).map fun entry => entry.2.key).Nodup := nodup_foldl_emplace entries [] h

theorem mem_mapCrtcToMonitor {entries : List (ℕ × Monitor Kind)} {entry : ℕ × Monitor Kind}
    (h : entry ∈ mapCrtcToMonitor entries) : entry ∈ entries := (mem_foldl_emplace h).elim (fun hmem => (by cases hmem)) id

/-! ## The named planes with their labels -/

def labelled (tables : List (Card Kind × CrtcToMonitor Kind)) : List ((Card Kind × Plane) × Option (Kind × ℕ)) :=
  tables.flatMap fun table =>
    (namedPlanes table.1 table.1.planes).map fun plane => ((table.1, plane), labelOf table.2 plane.crtcId)

def nameTables (count : ℕ) : List (Card Kind × CrtcToMonitor Kind) → List (Naming Kind) × List (CardDescriptor Kind)
  | [] => ([], [])
  | table :: rest =>
    let named := namePlanes types table.1 table.2 count table.1.planes
    let next := nameTables (count + named.1.length) rest
    (named.1 ++ next.1, { path := table.1.file, crtcToMonitor := named.2 } :: next.2)

theorem nameTables_names (count : ℕ) (tables : List (Card Kind × CrtcToMonitor Kind)) :
    (nameTables types count tables).1 = ((labelled tables).zipIdx count).map fun entry =>
      { name := labelName types entry.1.2 entry.2, card := entry.1.1.1, plane := entry.1.1.2 } := by
  induction tables generalizing count with
  | nil => rfl
  | cons table rest ih =>
    unfold labelled at ih ⊢
    rw [nameTables, List.flatMap_cons, List.zipIdx_append, List.map_append, List.length_map, ih, namePlanes_eq]
    dsimp only
    rw [List.zipIdx_map, List.map_map, List.length_map, List.length_zipIdx]
    rfl

theorem nameTables_files (count : ℕ) (tables : List (Card Kind × CrtcToMonitor Kind)) :
    (nameTables types count tables).2.map CardDescriptor.path = tables.map fun table => table.1.file := by
  induction tables generalizing count with
  | nil => rfl
  | cons table rest ih =>
    rw [nameTables, List.map_cons, List.map_cons, ih]

def listed (descriptors : List (CardDescriptor Kind)) : List (Monitor Kind) :=
  descriptors.flatMap fun descriptor => descriptor.crtcToMonitor.map Prod.snd

theorem nameTables_keys (count : ℕ) (tables : List (Card Kind × CrtcToMonitor Kind)) :
    (listed (nameTables types count tables).2).map Monitor.key =
      tables.flatMap fun table => table.2.map fun entry => entry.2.key := by
  induction tables generalizing count with
  | nil => rfl
  | cons table rest ih =>
    unfold listed at ih ⊢
    rw [nameTables, List.flatMap_cons, List.flatMap_cons, List.map_append, ih, namePlanes_eq, List.map_map]
    exact congrArg (· ++ _) (keys_stamp _ _ _)

/-- A monitor's index is the number of the last plane on it. -/
theorem nameTables_index {count k : ℕ} {tables : List (Card Kind × CrtcToMonitor Kind)} {card : Card Kind} {plane : Plane}
    {key : Kind × ℕ} (hplace : (labelled tables)[k]? = some ((card, plane), some key))
    (hlast : ∀ j entry, k < j → (labelled tables)[j]? = some entry →
      ¬(entry.1.1 = card ∧ entry.1.2.crtcId = plane.crtcId)) :
    { type := key.1, index := key.2, monitorIndex := count + k } ∈ listed (nameTables types count tables).2 := by
  induction tables generalizing count k with
  | nil => cases hplace
  | cons table rest ih =>
    unfold labelled at ih hplace hlast
    rw [List.flatMap_cons] at hplace hlast
    unfold listed at ih ⊢
    rw [nameTables, List.flatMap_cons, namePlanes_eq]
    dsimp only
    by_cases hk : k < (namedPlanes table.1 table.1.planes).length
    · refine List.mem_append_left _ ?_
      rw [List.getElem?_append_left (by rw [List.length_map]; exact hk), List.getElem?_map] at hplace
      obtain ⟨named, hnamed, heq⟩ := Option.map_eq_some_iff.mp hplace
      obtain ⟨hwhere, hlabel⟩ := Prod.mk.inj heq
      obtain ⟨rfl, rfl⟩ := Prod.mk.inj hwhere
      refine List.mem_map_of_mem (f := Prod.snd) (mem_of_lookup (lookup_stamp hnamed ?_ hlabel))
      intro j other hj hother hcrtc
      have hlt : j < (namedPlanes table.1 table.1.planes).length := (List.getElem?_eq_some_iff.mp hother).1
      refine hlast j ((table.1, other), labelOf table.2 other.crtcId) hj ?_ ⟨rfl, hcrtc⟩
      rw [List.getElem?_append_left (by rw [List.length_map]; exact hlt), List.getElem?_map, hother]
      rfl
    · refine List.mem_append_right _ ?_
      rw [List.length_map, List.length_zipIdx]
      obtain ⟨m, rfl⟩ := Nat.exists_eq_add_of_le (Nat.not_lt.mp hk)
      rw [List.getElem?_append_right (by rw [List.length_map]; omega), List.length_map, Nat.add_sub_cancel_left] at hplace
      rw [← Nat.add_assoc]
      refine ih hplace fun j entry hj hentry => hlast (_ + j) entry (Nat.add_lt_add_left hj _) ?_
      rw [List.getElem?_append_right (by rw [List.length_map]; omega), List.length_map, Nat.add_sub_cancel_left]
      exact hentry

/-! ## Counting the connectors -/

variable [DecidableEq Kind]

theorem le_update (connTypeCount : Kind → ℕ) (type kind : Kind) :
    connTypeCount kind ≤ Function.update connTypeCount type (connTypeCount type + 1) kind := by
  by_cases h : kind = type
  · subst h
    rw [Function.update_self]
    exact Nat.le_succ _
  · rw [Function.update_of_ne h]

theorem le_monitors (connTypeCount : Kind → ℕ) (connectors : List (Connector Kind)) (kind : Kind) :
    connTypeCount kind ≤ (monitors connTypeCount connectors).2 kind := by
  induction connectors generalizing connTypeCount with
  | nil => exact Nat.le_refl _
  | cons connector rest ih => exact (le_update connTypeCount connector.type kind).trans (ih _)

theorem monitors_index (connTypeCount : Kind → ℕ) (connectors : List (Connector Kind)) :
    ∀ entry ∈ (monitors connTypeCount connectors).1, connTypeCount entry.2.type < entry.2.index ∧
      entry.2.index ≤ (monitors connTypeCount connectors).2 entry.2.type := by
  induction connectors generalizing connTypeCount with
  | nil => exact fun _ hentry => (by cases hentry)
  | cons connector rest ih =>
    intro entry hentry
    cases List.mem_cons.mp hentry with
    | inl hfirst =>
      subst hfirst
      refine ⟨Nat.lt_succ_self _, ?_⟩
      have hle := le_monitors (Function.update connTypeCount connector.type (connTypeCount connector.type + 1)) rest
        connector.type
      rw [Function.update_self] at hle
      exact hle
    | inr hrest =>
      obtain ⟨hlower, hupper⟩ := ih _ entry hrest
      exact ⟨(le_update connTypeCount connector.type entry.2.type).trans_lt hlower, hupper⟩

theorem nodup_monitors (connTypeCount : Kind → ℕ) (connectors : List (Connector Kind)) :
    ((monitors connTypeCount connectors).1.map fun entry => entry.2.key).Nodup := by
  induction connectors generalizing connTypeCount with
  | nil => exact List.nodup_nil
  | cons connector rest ih =>
    refine List.nodup_cons.mpr ⟨fun hmem => ?_, ih _⟩
    obtain ⟨entry, hentry, hkey⟩ := List.mem_map.mp hmem
    obtain ⟨htype, hindex⟩ : entry.2.type = connector.type ∧ entry.2.index = connTypeCount connector.type + 1 :=
      Prod.mk.inj hkey
    have hlower := (monitors_index _ rest entry hentry).1
    rw [htype, hindex, Function.update_self] at hlower
    exact Nat.lt_irrefl _ hlower

theorem monitors_crtcs (connTypeCount : Kind → ℕ) (connectors : List (Connector Kind)) :
    (monitors connTypeCount connectors).1.map Prod.fst = connectors.map Connector.crtcId := by
  induction connectors generalizing connTypeCount with
  | nil => rfl
  | cons connector rest ih => exact congrArg (connector.crtcId :: ·) (ih _)

theorem labelOf_isSome_iff (connTypeCount : Kind → ℕ) (connectors : List (Connector Kind)) (crtcId : ℕ) :
    (labelOf (mapCrtcToMonitor (monitors connTypeCount connectors).1) crtcId).isSome ↔
      crtcId ∈ connectors.map Connector.crtcId := by
  unfold labelOf mapCrtcToMonitor
  rw [Option.isSome_map, isSome_lookup_iff, crtcs_foldl_emplace, monitors_crtcs]
  exact ⟨fun h => h.elim (fun hmem => (by cases hmem)) id, .inr⟩

/-! ## All cards -/

/-- The cards that are not left out, with their maps before the loop over the planes. -/
def tables (connTypeCount : Kind → ℕ) : List (Card Kind) → List (Card Kind × CrtcToMonitor Kind)
  | [] => []
  | card :: rest =>
    if taken config card then
      let counted := monitors connTypeCount card.connectors
      (card, mapCrtcToMonitor counted.1) :: tables counted.2 rest
    else tables connTypeCount rest

theorem tables_cards (connTypeCount : Kind → ℕ) (cards : List (Card Kind)) :
    (tables config connTypeCount cards).map Prod.fst = cards.filter (taken config) := by
  induction cards generalizing connTypeCount with
  | nil => rfl
  | cons card rest ih =>
    rw [tables]
    split_ifs with htaken
    · rw [List.filter_cons_of_pos htaken, List.map_cons, ih]
    · rw [List.filter_cons_of_neg htaken, ih]

theorem tables_label (connTypeCount : Kind → ℕ) (cards : List (Card Kind)) :
    ∀ table ∈ tables config connTypeCount cards, ∀ crtcId,
      (labelOf table.2 crtcId).isSome ↔ crtcId ∈ table.1.connectors.map Connector.crtcId := by
  induction cards generalizing connTypeCount with
  | nil => exact fun _ htable => (by cases htable)
  | cons card rest ih =>
    rw [tables]
    split_ifs with htaken
    · intro table htable crtcId
      cases List.mem_cons.mp htable with
      | inl hfirst =>
        subst hfirst
        exact labelOf_isSome_iff connTypeCount card.connectors crtcId
      | inr hrest => exact ih _ table hrest crtcId
    · exact ih _

/-- The connectors are counted over all cards, so that no two are called the same. -/
theorem nodup_keys (connTypeCount : Kind → ℕ) (cards : List (Card Kind)) :
    ((tables config connTypeCount cards).flatMap fun table => table.2.map fun entry => entry.2.key).Nodup ∧
      ∀ key ∈ (tables config connTypeCount cards).flatMap fun table => table.2.map fun entry => entry.2.key,
        connTypeCount key.1 < key.2 := by
  induction cards generalizing connTypeCount with
  | nil => exact ⟨List.nodup_nil, fun _ hkey => (by cases hkey)⟩
  | cons card rest ih =>
    rw [tables]
    split_ifs with htaken
    · obtain ⟨hnodup, hlower⟩ := ih (monitors connTypeCount card.connectors).2
      have hfirst : ∀ key ∈ (mapCrtcToMonitor (monitors connTypeCount card.connectors).1).map fun entry => entry.2.key,
          connTypeCount key.1 < key.2 ∧ key.2 ≤ (monitors connTypeCount card.connectors).2 key.1 := by
        intro key hkey
        obtain ⟨entry, hentry, rfl⟩ := List.mem_map.mp hkey
        exact monitors_index connTypeCount card.connectors entry (mem_mapCrtcToMonitor hentry)
      rw [List.flatMap_cons]
      refine ⟨List.nodup_append.mpr ⟨nodup_mapCrtcToMonitor (nodup_monitors _ _), hnodup, ?_⟩, ?_⟩
      · intro key hkey other hother heq
        subst heq
        exact absurd (hlower key hother) (Nat.not_lt.mpr (hfirst key hkey).2)
      · intro key hkey
        cases List.mem_append.mp hkey with
        | inl hkey => exact (hfirst key hkey).1
        | inr hkey => exact (le_monitors connTypeCount card.connectors key.1).trans_lt (hlower key hkey)
    · exact ih connTypeCount

theorem nameCards_eq (connTypeCount : Kind → ℕ) (count : ℕ) (cards : List (Card Kind)) :
    nameCards types config connTypeCount count cards = nameTables types count (tables config connTypeCount cards) := by
  induction cards generalizing connTypeCount count with
  | nil => rfl
  | cons card rest ih =>
    rw [nameCards, tables]
    split_ifs with htaken
    · simp only [ih]
      rfl
    · exact ih _ _

end Tables

end Sunshine.KmsNames
