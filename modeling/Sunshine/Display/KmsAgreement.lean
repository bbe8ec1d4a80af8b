import Sunshine.Display.KmsTables

/-! For which answers of the kernel each name finds the plane that it was made for. -/
namespace Sunshine.KmsNames
open Rtsp Texts Picks Entries
set_option autoImplicit false

section Agreement
variable {Kind : Type} (types : TypeNames Kind) (config : Config)

/-! ## Names -/

/-- The digits behind the last hyphen are told from what stands before it. -/
theorem hyphen_inj {front front' : Text} {m n : ℕ}
    (h : front ++ '-' :: Nat.toDigits 10 m = front' ++ '-' :: Nat.toDigits 10 n) : front = front' ∧ m = n := by
  have hyphen (k : ℕ) : '-' ∉ Nat.toDigits 10 k := fun hmem => absurd (isDigit_toDigits hmem) (by decide)
  obtain ⟨middle, hfront, hback⟩ | ⟨middle, hfront, hback⟩ := List.append_eq_append_iff.mp h
  · cases middle with
    | nil => exact ⟨(List.append_nil front ▸ hfront).symm, toDigits_injective (List.cons.inj hback).2⟩
    | cons ch middle =>
      refine absurd ?_ (hyphen m)
      rw [(List.cons.inj hback).2]
      exact List.mem_append_right _ List.mem_cons_self
  · cases middle with
    | nil => exact ⟨List.append_nil front' ▸ hfront, (toDigits_injective (List.cons.inj hback).2).symm⟩
    | cons ch middle =>
      refine absurd ?_ (hyphen n)
      rw [(List.cons.inj hback).2]
      exact List.mem_append_right _ List.mem_cons_self

theorem formatKmsConnectorName_inj {a b : Kind × ℕ}
    (h : formatKmsConnectorName types a.1 a.2 = formatKmsConnectorName types b.1 b.2) : a = b := by
  obtain ⟨hname, hindex⟩ := hyphen_inj h
  exact Prod.ext (types.name_inj hname) hindex

theorem hyphen_mem (type : Kind) (index : ℕ) : '-' ∈ formatKmsConnectorName types type index :=
  List.mem_append_right _ List.mem_cons_self

theorem format_ne_digits (type : Kind) (index count : ℕ) :
    formatKmsConnectorName types type index ≠ Nat.toDigits 10 count := by
  intro h
  exact absurd (isDigit_toDigits (h ▸ hyphen_mem types type index)) (by decide)

theorem labelName_eq_iff {a b : Option (Kind × ℕ)} {i j : ℕ} (hij : i ≠ j) :
    labelName types a i = labelName types b j ↔ a = b ∧ a.isSome := by
  cases a with
  | none =>
    refine iff_of_false (fun h => ?_) fun h => absurd h.2 (by simp)
    cases b with
    | none => exact hij (toDigits_injective h)
    | some key => exact format_ne_digits types key.1 key.2 i h.symm
  | some key =>
    cases b with
    | none => exact iff_of_false (format_ne_digits types key.1 key.2 j) fun h => absurd h.1 (by simp)
    | some other =>
      refine ⟨fun h => ⟨congrArg some (formatKmsConnectorName_inj types h), rfl⟩, fun h => ?_⟩
      rw [Option.some.inj h.1]
      rfl

theorem names_nodup_iff (labels : List (Option (Kind × ℕ))) (count : ℕ) :
    ((labels.zipIdx count).map fun entry => labelName types entry.1 entry.2).Nodup ↔
      labels.Pairwise fun a b => ¬(a = b ∧ a.isSome) := by
  induction labels generalizing count with
  | nil => exact iff_of_true List.nodup_nil List.Pairwise.nil
  | cons label labels ih =>
    rw [List.zipIdx_cons, List.map_cons, List.nodup_cons, List.pairwise_cons, ih]
    refine and_congr_left fun _ => ⟨fun hnew b hb hsame => hnew ?_, fun hnew hmem => ?_⟩
    · obtain ⟨j, hj⟩ := List.mem_iff_getElem?.mp hb
      refine List.mem_map.mpr ⟨(b, count + 1 + j), List.mem_iff_getElem?.mpr ⟨j, ?_⟩, ?_⟩
      · rw [List.getElem?_zipIdx, hj]
        rfl
      · exact ((labelName_eq_iff types (by omega)).mpr hsame).symm
    · obtain ⟨entry, hentry, hname⟩ := List.mem_map.mp hmem
      obtain ⟨j, hj⟩ := List.mem_iff_getElem?.mp hentry
      rw [List.getElem?_zipIdx] at hj
      obtain ⟨b, hb, rfl⟩ := Option.map_eq_some_iff.mp hj
      exact hnew b (List.mem_of_getElem? hb) ((labelName_eq_iff types (by dsimp only; omega)).mp hname.symm)

/-! ## Reading a name -/

theorem parseMonitorIndex_digits {count : ℕ} (h : count < 2 ^ 31) :
    parseMonitorIndex (Nat.toDigits 10 count) (-1) = count := by
  have hall : (Nat.toDigits 10 count).all isDigit := List.all_eq_true.mpr fun _ => isDigit_toDigits
  unfold parseMonitorIndex parseInteger
  rw [if_neg Nat.toDigits_ne_nil, if_pos hall, if_neg Nat.toDigits_ne_nil, fromChars_toDigits (by omega) (by omega)]
  rfl

theorem parseMonitorIndex_format (type : Kind) (index : ℕ) (fallback : ℤ) :
    parseMonitorIndex (formatKmsConnectorName types type index) fallback = fallback := by
  have hall : ¬(formatKmsConnectorName types type index).all isDigit := fun hall =>
    absurd (List.all_eq_true.mp hall '-' (hyphen_mem types type index)) (by decide)
  unfold parseMonitorIndex
  rw [if_neg (List.ne_nil_of_mem (hyphen_mem types type index)), if_neg hall]

theorem mapKmsDisplayName_digits {count : ℕ} (h : count < 2 ^ 31) (monitors : List (Monitor Kind)) :
    mapKmsDisplayName types (Nat.toDigits 10 count) monitors = count := by
  unfold mapKmsDisplayName
  rw [if_neg Nat.toDigits_ne_nil, parseMonitorIndex_digits h]
  exact if_pos (Int.natCast_nonneg count)

/-- Where no two monitors are called the same, a name is that of its monitor. -/
theorem mapKmsDisplayName_format {monitors : List (Monitor Kind)} (hnodup : (monitors.map Monitor.key).Nodup)
    {monitor : Monitor Kind} (hmem : monitor ∈ monitors) :
    mapKmsDisplayName types (formatKmsConnectorName types monitor.type monitor.index) monitors =
      monitor.monitorIndex := by
  have hname (other : Monitor Kind) (hother : other ∈ monitors)
      (h : formatKmsConnectorName types monitor.type monitor.index = formatKmsConnectorName types other.type other.index) :
      other = monitor :=
    List.inj_on_of_nodup_map hnodup hother hmem
      (formatKmsConnectorName_inj (a := other.key) (b := monitor.key) types h.symm)
  unfold mapKmsDisplayName
  rw [if_neg (List.ne_nil_of_mem (hyphen_mem types _ _)), parseMonitorIndex_format]
  dsimp only
  rw [if_neg (by omega)]
  cases hfind : monitors.find? fun other =>
      formatKmsConnectorName types monitor.type monitor.index = formatKmsConnectorName types other.type other.index with
  | none => exact absurd (decide_eq_true rfl) (List.find?_eq_none.mp hfind monitor hmem)
  | some other =>
    rw [hname other (List.mem_of_find?_eq_some hfind) (by simpa using List.find?_some hfind)]

/-! ## The search over all cards -/

/-- The places at which the search counts. -/
def usedPlaces (cards : List (Card Kind)) : List (Card Kind × Plane) :=
  (cards.filter (taken config)).flatMap fun card => (card.planes.filter isUsed).map (card, ·)

/-- The places that have names. -/
def namedPlaces (cards : List (Card Kind)) : List (Card Kind × Plane) :=
  (cards.filter (taken config)).flatMap fun card => (namedPlanes card card.planes).map (card, ·)

/-- What the search finds out at the place where it stops. -/
def status (place : Card Kind × Plane) : Status :=
  if place.1.fb place.2.fbId = none ∨ place.1.fb place.2.fbId = some 0 then .broken
  else if place.1.crtc place.2.crtcId = false then .lacking
  else .good

def toSearch (place : Option (Card Kind × Plane)) : Search Kind :=
  match place with
  | some place => .found place.1 place.2
  | none => .failed

variable {config}

theorem toSearch_iff {place : Option (Card Kind × Plane)} {card : Card Kind} {plane : Plane} :
    toSearch place = .found card plane ↔ place = some (card, plane) := by
  cases place with
  | none => exact iff_of_false (fun h => nomatch h) fun h => nomatch h
  | some place => simp [toSearch, Prod.ext_iff]

theorem searchPlanes_eq {descriptors : List (CardDescriptor Kind)} {card : Card Kind}
    (hcard : (descriptors.find? fun descriptor => descriptor.path = card.file).isSome) {index : ℕ}
    {following : ℕ → Search Kind} {tail : List (Card Kind × Plane)}
    (h : ∀ monitor ≤ index, following monitor = toSearch (pick status (index - monitor) tail)) (planes : List Plane)
    (monitor : ℕ) (hmonitor : monitor ≤ index) :
    resume (searchPlanes index descriptors card monitor planes) following =
      toSearch (pick status (index - monitor) ((planes.filter isUsed).map (card, ·) ++ tail)) := by
  induction planes generalizing monitor with
  | nil => exact h monitor hmonitor
  | cons plane rest ih =>
    rw [searchPlanes]
    by_cases hused : plane.fbId = 0 ∨ plane.isCursor
    · rw [if_pos hused, List.filter_cons_of_neg (by simp [isUsed, hused])]
      exact ih monitor hmonitor
    rw [if_neg hused, List.filter_cons_of_pos (by simp [isUsed, hused]), List.map_cons, List.cons_append]
    by_cases hskip : (monitor : ℤ) ≠ index
    · obtain ⟨skip, hindex⟩ := Nat.exists_eq_add_of_lt (show monitor < index by omega)
      have hleft : index - monitor = skip + 1 := by omega
      have hright : index - (monitor + 1) = skip := by omega
      have hrest := ih (monitor + 1) (by omega)
      rw [hright] at hrest
      rw [if_pos hskip, hleft, hrest]
      rfl
    rw [if_neg hskip]
    have hstop : index - monitor = 0 := by omega
    have hrest := ih monitor hmonitor
    rw [hstop] at hrest ⊢
    rw [pick]
    by_cases hbroken : card.fb plane.fbId = none ∨ card.fb plane.fbId = some 0
    · rw [if_pos hbroken, show status (card, plane) = .broken from if_pos hbroken]
      rfl
    rw [if_neg hbroken]
    by_cases hlacking : card.crtc plane.crtcId = false
    · rw [if_pos hlacking, show status (card, plane) = .lacking from (if_neg hbroken).trans (if_pos hlacking), hrest]
      rfl
    · rw [if_neg hlacking, if_pos hcard,
        show status (card, plane) = .good from (if_neg hbroken).trans (if_neg hlacking)]
      rfl

theorem searchCards_eq {descriptors : List (CardDescriptor Kind)} {index : ℕ} {cards : List (Card Kind)}
    (hcards : ∀ card ∈ cards.filter (taken config),
      (descriptors.find? fun descriptor => descriptor.path = card.file).isSome) (monitor : ℕ) (hmonitor : monitor ≤ index) :
    searchCards config index descriptors monitor cards =
      toSearch (pick status (index - monitor) (usedPlaces config cards)) := by
  induction cards generalizing monitor with
  | nil =>
    rw [searchCards]
    cases index - monitor <;> rfl
  | cons card rest ih =>
    rw [searchCards]
    unfold usedPlaces at ih ⊢
    split_ifs with htaken
    · rw [List.filter_cons_of_pos htaken] at hcards ⊢
      rw [List.flatMap_cons]
      exact searchPlanes_eq (hcards card List.mem_cons_self)
        (ih fun other hother => hcards other (List.mem_cons_of_mem _ hother)) card.planes monitor hmonitor
    · rw [List.filter_cons_of_neg htaken] at hcards ⊢
      exact ih hcards monitor hmonitor

theorem length_namedPlanes (card : Card Kind) (planes : List Plane) : (namedPlanes card planes).length ≤ planes.length :=
  ((List.filter_sublist.trans (List.takeWhile_sublist _)).trans List.filter_sublist).length_le

theorem length_namedPlaces (cards : List (Card Kind)) :
    (namedPlaces config cards).length ≤ (cards.map fun card => card.planes.length).sum := by
  induction cards with
  | nil => exact Nat.le_refl _
  | cons card rest ih =>
    unfold namedPlaces at ih ⊢
    rw [List.map_cons, List.sum_cons]
    by_cases htaken : taken config card = true
    · rw [List.filter_cons_of_pos htaken, List.flatMap_cons, List.length_append, List.length_map]
      exact Nat.add_le_add (length_namedPlanes card card.planes) ih
    · rw [List.filter_cons_of_neg htaken]
      exact ih.trans (Nat.le_add_left _ _)

theorem namedPlaces_nodup (kernel : Kernel Kind) : (namedPlaces config kernel.cards).Nodup := by
  unfold namedPlaces
  refine List.nodup_flatMap.mpr ⟨fun card _ => ?_, ?_⟩
  · have hplanes : (namedPlanes card card.planes).Nodup :=
      (((List.Nodup.of_map _ card.ids).filter _).sublist (List.takeWhile_sublist _)).filter _
    exact hplanes.map fun a b h => (Prod.mk.inj h).2
  · refine ((List.Nodup.of_map _ kernel.files).filter _).imp fun hne => ?_
    intro place hplace hplace'
    obtain ⟨plane, -, rfl⟩ := List.mem_map.mp hplace
    obtain ⟨plane', -, heq⟩ := List.mem_map.mp hplace'
    exact hne (Prod.mk.inj heq).1.symm

theorem namedPlaces_good {cards : List (Card Kind)} {place : Card Kind × Plane} (h : place ∈ namedPlaces config cards) :
    status place = .good := by
  obtain ⟨card, -, hplace⟩ := List.mem_flatMap.mp h
  obtain ⟨plane, hplane, rfl⟩ := List.mem_map.mp hplace
  obtain ⟨hfront, hreadable⟩ := List.mem_filter.mp hplane
  have hpermitted : card.fb plane.fbId ≠ some 0 := of_decide_eq_true (List.mem_takeWhile_imp (p := permitted card) hfront)
  obtain ⟨hfb, hcrtc⟩ := of_decide_eq_true hreadable
  have hnot : ¬(card.fb plane.fbId = none ∨ card.fb plane.fbId = some 0) := not_or.mpr ⟨hfb, hpermitted⟩
  unfold status
  rw [if_neg hnot, if_neg (by simp [hcrtc])]

/-! ## All cards -/

variable [DecidableEq Kind] (config)

def labels (kernel : Kernel Kind) : List ((Card Kind × Plane) × Option (Kind × ℕ)) :=
  labelled (tables config (fun _ => 0) kernel.cards)

/-- Both have the same monitor. -/
abbrev SharesMonitor (a b : Card Kind × Plane) : Prop :=
  a.1.file = b.1.file ∧ a.2.crtcId = b.2.crtcId ∧ a.2.crtcId ∈ a.1.connectors.map Connector.crtcId

theorem labels_places (kernel : Kernel Kind) : (labels config kernel).map Prod.fst = namedPlaces config kernel.cards := by
  unfold labels labelled namedPlaces
  rw [← tables_cards config (fun _ => 0), List.map_flatMap, List.flatMap_map]
  simp only [List.map_map, Function.comp_def]

variable {config} {kernel : Kernel Kind} {a b : (Card Kind × Plane) × Option (Kind × ℕ)}

/-- Where a label stands. -/
theorem label_table (h : a ∈ labels config kernel) : ∃ table ∈ tables config (fun _ => 0) kernel.cards,
    table.1 = a.1.1 ∧ labelOf table.2 a.1.2.crtcId = a.2 := by
  obtain ⟨table, htable, hmem⟩ := List.mem_flatMap.mp h
  obtain ⟨plane, -, rfl⟩ := List.mem_map.mp hmem
  exact ⟨table, htable, rfl, rfl⟩

theorem label_card (h : a ∈ labels config kernel) : a.1.1 ∈ kernel.cards := by
  obtain ⟨table, htable, hcard, -⟩ := label_table h
  have hmem := List.mem_map_of_mem (f := Prod.fst) htable
  rw [tables_cards, hcard] at hmem
  exact (List.mem_filter.mp hmem).1

theorem label_isSome_iff (h : a ∈ labels config kernel) :
    a.2.isSome ↔ a.1.2.crtcId ∈ a.1.1.connectors.map Connector.crtcId := by
  obtain ⟨table, htable, hcard, hlabel⟩ := label_table h
  rw [← hlabel, ← hcard]
  exact tables_label config _ _ table htable _

/-- One connector has one CRTC. -/
theorem same_crtc (ha : a ∈ labels config kernel) (hb : b ∈ labels config kernel) (hlabel : a.2 = b.2)
    (hsome : a.2.isSome) : a.1.1 = b.1.1 ∧ a.1.2.crtcId = b.1.2.crtcId := by
  obtain ⟨key, hkey⟩ := Option.isSome_iff_exists.mp hsome
  have entry {c : (Card Kind × Plane) × Option (Kind × ℕ)} (hc : c ∈ labels config kernel) (hc' : c.2 = some key) :
      ∃ entry ∈ (tables config (fun _ => 0) kernel.cards).flatMap fun table =>
        table.2.map fun entry => (table.1, entry), entry.1 = c.1.1 ∧ entry.2.1 = c.1.2.crtcId ∧ entry.2.2.key = key := by
    obtain ⟨table, htable, hcard, hlabel⟩ := label_table hc
    obtain ⟨monitor, hmonitor, hmonitor'⟩ := Option.map_eq_some_iff.mp (hlabel.trans hc')
    exact ⟨(table.1, (c.1.2.crtcId, monitor)),
      List.mem_flatMap.mpr ⟨table, htable, List.mem_map_of_mem (mem_of_lookup hmonitor)⟩, hcard, rfl, hmonitor'⟩
  have hnodup := (nodup_keys config (fun _ => 0) kernel.cards).1
  have hkeys : ((tables config (fun _ => 0) kernel.cards).flatMap fun table => table.2.map fun entry => entry.2.key) =
      ((tables config (fun _ => 0) kernel.cards).flatMap fun table =>
        table.2.map fun entry => (table.1, entry)).map fun entry => entry.2.2.key := by
    rw [List.map_flatMap]
    simp only [List.map_map, Function.comp_def]
  rw [hkeys] at hnodup
  obtain ⟨x, hx, hxcard, hxcrtc, hxkey⟩ := entry ha hkey
  obtain ⟨y, hy, hycard, hycrtc, hykey⟩ := entry hb (hlabel ▸ hkey)
  have heq : x = y := List.inj_on_of_nodup_map hnodup hx hy (hxkey.trans hykey.symm)
  subst heq
  exact ⟨hxcard.symm.trans hycard, hxcrtc.symm.trans hycrtc⟩

theorem sharesMonitor_iff (ha : a ∈ labels config kernel) (hb : b ∈ labels config kernel) :
    SharesMonitor a.1 b.1 ↔ a.2 = b.2 ∧ a.2.isSome := by
  constructor
  · rintro ⟨hfile, hcrtc, hconnector⟩
    refine ⟨?_, (label_isSome_iff ha).mpr hconnector⟩
    have hcard : a.1.1 = b.1.1 := List.inj_on_of_nodup_map kernel.files (label_card ha) (label_card hb) hfile
    obtain ⟨table, htable, hacard, halabel⟩ := label_table ha
    obtain ⟨table', htable', hbcard, hblabel⟩ := label_table hb
    have htables : ((tables config (fun _ => 0) kernel.cards).map Prod.fst).Nodup := by
      rw [tables_cards]
      exact (List.Nodup.of_map _ kernel.files).filter _
    obtain rfl : table = table' :=
      List.inj_on_of_nodup_map htables htable htable' (hacard.trans (hcard.trans hbcard.symm))
    rw [← halabel, ← hblabel, hcrtc]
  · rintro ⟨hlabel, hsome⟩
    obtain ⟨hcard, hcrtc⟩ := same_crtc ha hb hlabel hsome
    exact ⟨congrArg Card.file hcard, hcrtc, (label_isSome_iff ha).mp hsome⟩

def toNaming (entry : ((Card Kind × Plane) × Option (Kind × ℕ)) × ℕ) : Naming Kind where
  name := labelName types entry.1.2 entry.2
  card := entry.1.1.1
  plane := entry.1.1.2

theorem namings_eq (kernel : Kernel Kind) :
    namings types config kernel = (labels config kernel).zipIdx.map (toNaming types) := by
  unfold namings
  rw [nameCards_eq, nameTables_names]
  rfl

/-- The names are distinct if and only if no two named planes have the same monitor. -/
theorem kmsDisplayNames_nodup_iff (kernel : Kernel Kind) : (kmsDisplayNames types config kernel).Nodup ↔
    (namedPlaces config kernel.cards).Pairwise fun a b => ¬SharesMonitor a b := by
  have hnames : kmsDisplayNames types config kernel =
      (((labels config kernel).map Prod.snd).zipIdx).map fun entry => labelName types entry.1 entry.2 := by
    unfold kmsDisplayNames
    rw [namings_eq, List.zipIdx_map, List.map_map, List.map_map]
    rfl
  rw [hnames, names_nodup_iff, ← labels_places, List.pairwise_map, List.pairwise_map]
  exact List.Pairwise.iff_of_mem fun ha hb => not_congr (sharesMonitor_iff ha hb).symm

/-! ## The names and the search -/

theorem label_counted {k : ℕ} (h : (labels config kernel)[k]? = some a) : k < 2 ^ 31 := by
  have hlength := (List.getElem?_eq_some_iff.mp h).1
  rw [← List.length_map Prod.fst, labels_places] at hlength
  exact (hlength.trans_le (length_namedPlaces kernel.cards)).trans kernel.counted

/-- Where no two named planes have the same monitor, a name is read as its number. -/
theorem mapKmsDisplayName_label (kernel : Kernel Kind)
    (hshared : (namedPlaces config kernel.cards).Pairwise fun a b => ¬SharesMonitor a b) {k : ℕ}
    (ha : (labels config kernel)[k]? = some a) :
    mapKmsDisplayName types (labelName types a.2 k) (listed (cardDescriptors types config kernel)) = k := by
  obtain ⟨⟨card, plane⟩, label⟩ := a
  have hmem := List.mem_of_getElem? ha
  cases label with
  | none => exact mapKmsDisplayName_digits types (label_counted ha) _
  | some key =>
    unfold cardDescriptors
    rw [nameCards_eq]
    have hkeys : ((listed (nameTables types 0 (tables config (fun _ => 0) kernel.cards)).2).map Monitor.key).Nodup := by
      rw [nameTables_keys]
      exact (nodup_keys config _ kernel.cards).1
    have hlast : ∀ j b, k < j → (labels config kernel)[j]? = some b →
        ¬(b.1.1 = card ∧ b.1.2.crtcId = plane.crtcId) := by
      intro j b hj hb hsame
      -- a later plane on the CRTC would have the same monitor
      rw [← labels_places] at hshared
      obtain ⟨hkn, ha'⟩ := List.getElem?_eq_some_iff.mp ha
      obtain ⟨hjn, hb'⟩ := List.getElem?_eq_some_iff.mp hb
      have hnot := List.pairwise_iff_getElem.mp (List.pairwise_map.mp hshared) k j hkn hjn hj
      rw [ha', hb'] at hnot
      exact hnot ⟨congrArg Card.file hsame.1.symm, hsame.2.symm, (label_isSome_iff hmem).mp rfl⟩
    have hmonitor := @nameTables_index _ types 0 _ _ _ _ _ ha hlast
    rw [Nat.zero_add] at hmonitor
    exact mapKmsDisplayName_format types hkeys hmonitor

theorem init_label (kernel : Kernel Kind)
    (hshared : (namedPlaces config kernel.cards).Pairwise fun a b => ¬SharesMonitor a b) {k : ℕ}
    (ha : (labels config kernel)[k]? = some a) : init types config kernel (labelName types a.2 k) =
      toSearch (pick status k (usedPlaces config kernel.cards)) := by
  have hk : k < 2 ^ 31 := label_counted ha
  have hindex : ((k : ℤ)).bmod (2 ^ 32) = k := Int.bmod_eq_of_le (by omega) (by omega)
  have hfiles : ∀ card ∈ kernel.cards.filter (taken config),
      ((cardDescriptors types config kernel).find? fun descriptor => descriptor.path = card.file).isSome := by
    intro card hcard
    have hpaths : (cardDescriptors types config kernel).map CardDescriptor.path =
        (kernel.cards.filter (taken config)).map Card.file := by
      unfold cardDescriptors
      rw [nameCards_eq, nameTables_files, ← tables_cards config (fun _ => 0), List.map_map]
      rfl
    have hmem := List.mem_map_of_mem (f := Card.file) hcard
    rw [← hpaths] at hmem
    obtain ⟨descriptor, hdescriptor, hpath⟩ := List.mem_map.mp hmem
    exact List.find?_isSome.mpr ⟨descriptor, hdescriptor, decide_eq_true hpath⟩
  have hmap := mapKmsDisplayName_label types kernel hshared ha
  unfold listed at hmap
  unfold init
  dsimp only
  rw [hmap, hindex, searchCards_eq hfiles 0 (Nat.zero_le _), Nat.sub_zero]

theorem init_label_iff (hshared : (namedPlaces config kernel.cards).Pairwise fun a b => ¬SharesMonitor a b) {k : ℕ}
    (ha : (labels config kernel)[k]? = some a) :
    init types config kernel (labelName types a.2 k) = .found a.1.1 a.1.2 ↔
      pick status k (usedPlaces config kernel.cards) = (namedPlaces config kernel.cards)[k]? := by
  rw [init_label types kernel hshared ha, toSearch_iff, ← labels_places, List.getElem?_map, ha]
  rfl

/-- The names are distinct and each finds its own plane if and only if no two named planes have the same monitor and no
other used plane is counted between the named ones. -/
theorem kms_names_agree_iff (types : TypeNames Kind) (config : Config) (kernel : Kernel Kind) :
    ((kmsDisplayNames types config kernel).Nodup ∧
      ∀ naming ∈ namings types config kernel, init types config kernel naming.name = .found naming.card naming.plane) ↔
    (namedPlaces config kernel.cards).Pairwise (fun a b => ¬SharesMonitor a b) ∧
      Fits status (usedPlaces config kernel.cards) (namedPlaces config kernel.cards) := by
  rw [kmsDisplayNames_nodup_iff]
  refine and_congr_right fun hshared => ?_
  rw [← picks_iff (fun _ => namedPlaces_good) (namedPlaces_nodup kernel), namings_eq]
  constructor
  · intro h k hk
    rw [← labels_places, List.length_map] at hk
    obtain ⟨a, ha⟩ : ∃ a, (labels config kernel)[k]? = some a := ⟨_, List.getElem?_eq_getElem hk⟩
    have hnaming : toNaming types (a, k) ∈ (labels config kernel).zipIdx.map (toNaming types) :=
      List.mem_map_of_mem (List.mem_zipIdx_iff_getElem?.mpr ha)
    exact (init_label_iff types hshared ha).mp (h _ hnaming)
  · intro h naming hnaming
    obtain ⟨⟨a, k⟩, hentry, rfl⟩ := List.mem_map.mp hnaming
    have ha : (labels config kernel)[k]? = some a := List.mem_zipIdx_iff_getElem?.mp hentry
    have hk : k < (namedPlaces config kernel.cards).length := by
      rw [← labels_places, List.length_map]
      exact (List.getElem?_eq_some_iff.mp ha).1
    exact (init_label_iff types hshared ha).mpr (h k hk)

/-- An overlay on the CRTC of the primary plane. -/
def overlaidCard : Card Unit where
  file := ['c', 'a', 'r', 'd', '0']
  opens := true
  isNvidia := false
  planes := [⟨31, 70, 50, false⟩, ⟨32, 71, 50, false⟩]
  connectors := [⟨(), 50⟩]
  fb := fun _ => some 1
  crtc := fun _ => true
  ids := by decide

def overlaidKernel : Kernel Unit where
  cards := [overlaidCard]
  files := List.nodup_singleton _
  counted := by decide

def displayPort : TypeNames Unit where
  name := fun _ => ['D', 'P']
  name_inj := fun _ _ _ => rfl

theorem overlay_named_twice : ¬((kmsDisplayNames displayPort ⟨.unknown, false⟩ overlaidKernel).Nodup ∧
    ∀ naming ∈ namings displayPort ⟨.unknown, false⟩ overlaidKernel,
      init displayPort ⟨.unknown, false⟩ overlaidKernel naming.name = .found naming.card naming.plane) := by
  rintro ⟨hnodup, -⟩
  have hnames : kmsDisplayNames displayPort ⟨.unknown, false⟩ overlaidKernel = [['D', 'P', '-', '1'], ['D', 'P', '-', '1']] := by
    decide +kernel
  rw [hnames] at hnodup
  exact absurd hnodup (by decide)

end Agreement

end Sunshine.KmsNames
