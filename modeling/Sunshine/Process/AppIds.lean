import Mathlib.Algebra.Order.Ring.Nat
import Mathlib.Data.List.Perm.Basic
import Mathlib.Logic.Encodable.Basic
import Mathlib.Logic.Equiv.List
import Sunshine.Process.Parse

/-! The ids of the apps are pairwise distinct exactly if no app falls back on a text that was given out.

With an injective hash the ids are distinct if the texts they are given for are; `givenTexts` are
those, and `Unclaimed` says of the apps' own texts that every fallback is a new one. -/
namespace Sunshine.Process
set_option autoImplicit false

/-! ## Numbers as texts -/

theorem toText_natCast (n : ℕ) : toText (n : ℤ) = Nat.toDigits 10 n := by
  show (toString (n : ℤ)).toList = _
  have hrepr : toString (n : ℤ) = n.repr := rfl
  rw [hrepr, Nat.toList_repr]

theorem toText_natCast_injective : Function.Injective fun n : ℕ => toText (n : ℤ) := by
  intro m n h
  simp only [toText_natCast] at h
  rw [← Nat.ofDigitChars_toDigits (b := 10) (n := m) (by decide) (by decide), h,
    Nat.ofDigitChars_toDigits (by decide) (by decide)]

/-! ## Given texts -/

/-- The text an app's id is the hash of. -/
def givenText (used : List Text) (i : ℕ) (text : Text) : Text :=
  chooseId used (text, text ++ toText i)

def givenTexts (used : List Text) (i : ℕ) : List Text → List Text
  | [] => []
  | text :: rest => givenText used i text :: givenTexts (givenText used i text :: used) (i + 1) rest

/-- Where an app's text was given to an earlier app, the one with its index was not. -/
def Unclaimed (used : List Text) (i : ℕ) : List Text → Prop
  | [] => True
  | text :: rest => (text ∈ used → text ++ toText i ∉ used) ∧
    Unclaimed (givenText used i text :: used) (i + 1) rest

instance decidableUnclaimed : ∀ (used : List Text) (i : ℕ) (texts : List Text),
    Decidable (Unclaimed used i texts)
  | _, _, [] => inferInstanceAs (Decidable True)
  | used, i, text :: rest =>
    @instDecidableAnd _ _ (inferInstanceAs (Decidable (text ∈ used → text ++ toText i ∉ used)))
      (decidableUnclaimed (givenText used i text :: used) (i + 1) rest)

theorem givenText_new_iff (used : List Text) (i : ℕ) (text : Text) :
    givenText used i text ∉ used ↔ (text ∈ used → text ++ toText i ∉ used) := by
  unfold givenText chooseId
  by_cases h : text ∈ used
  · simp [h]
  · simp [h]

/-- The given texts are new and distinct if and only if every fallback is new. -/
theorem givenTexts_distinct_iff (texts used : List Text) (i : ℕ) :
    ((∀ text ∈ givenTexts used i texts, text ∉ used) ∧ (givenTexts used i texts).Nodup) ↔
      Unclaimed used i texts := by
  induction texts generalizing used i with
  | nil => simp [givenTexts, Unclaimed]
  | cons text rest ih =>
    unfold givenTexts Unclaimed
    rw [← givenText_new_iff, ← ih]
    generalize givenText used i text = given
    simp only [List.mem_cons, forall_eq_or_imp, List.nodup_cons, not_or]
    constructor
    · rintro ⟨⟨hnew, hrest⟩, hnot, hnodup⟩
      exact ⟨hnew, fun t ht => ⟨fun heq => hnot (heq ▸ ht), hrest t ht⟩, hnodup⟩
    · rintro ⟨hnew, hrest, hnodup⟩
      exact ⟨⟨hnew, fun t ht => (hrest t ht).2⟩, fun hmem => (hrest _ hmem).1 rfl, hnodup⟩

/-! ## Ids -/

section
variable (fs : FileSystem) (hash : Text → ℕ) (globalPrepCmds : List PrepCmd)

/-- The id for a text. -/
def idOf (text : Text) : Text := toText (hash text)

theorem idOf_injective (hinj : Function.Injective hash) : Function.Injective (idOf hash) :=
  toText_natCast_injective.comp hinj

/-- The text of an app, of its name and its image. -/
def appText (app : Ctx) : Text := hashedText fs app.name app.imagePath

theorem chooseId_eq (hinj : Function.Injective hash) (used : List Text) (name imagePath : Text)
    (i : ℕ) :
    chooseId (used.map (idOf hash)) (calculateAppId fs hash name imagePath i) =
      idOf hash (givenText used i (hashedText fs name imagePath)) := by
  unfold givenText calculateAppId chooseId
  have hmem : toText (hash (hashedText fs name imagePath)) ∈ used.map (idOf hash) ↔
      hashedText fs name imagePath ∈ used :=
    List.mem_map_of_injective (idOf_injective hash hinj)
  simp only [hmem]
  split
  · rfl
  · rfl

/-- The ids are those of the texts that are given. -/
theorem parseApps_ids (hinj : Function.Injective hash) (env : Environment) (nodes : List AppNode)
    (used : List Text) (i : ℕ) (apps : List Ctx)
    (h : parseApps fs hash globalPrepCmds env nodes (used.map (idOf hash)) i = some apps) :
    apps.map Ctx.id = (givenTexts used i (apps.map (appText fs))).map (idOf hash) := by
  induction nodes generalizing used i apps with
  | nil =>
    simp only [parseApps, Option.some.injEq] at h
    subst h
    rfl
  | cons node rest ih =>
    simp only [parseApps, Option.bind_eq_bind, Option.bind_eq_some_iff] at h
    obtain ⟨ctx, -, apps', hrest, happs⟩ := h
    rw [chooseId_eq fs hash hinj, ← List.map_cons] at hrest
    have hids := ih _ _ _ hrest
    simp only [Option.pure_def, Option.some.injEq] at happs
    subst happs
    have htext : ∀ id, appText fs { ctx with id } = hashedText fs ctx.name ctx.imagePath := fun _ => rfl
    rw [List.map_cons, List.map_cons, htext, givenTexts, List.map_cons, ← hids, chooseId_eq fs hash hinj]

variable {Nv : Type} (lib : Library) (tune : Nv → ℤ → Nv)

/-- The ids tell the apps apart, and what is asked for by an app's id is that app. -/
structure DistinctApps (apps : List Ctx) : Prop where
  ids : (apps.map Ctx.id).Nodup
  executes : ∀ app ∈ apps, ∀ appId, toText appId = app.id → ∀ session answers (s : State Nv),
    s.proc.apps = apps → execute lib tune appId session answers s =
      launchApp lib tune appId app session answers (terminate answers.groupRunning s)
  image : ∀ app ∈ apps, ∀ appId, toText appId = app.id →
    getAppImage fs apps appId = validateAppImagePath fs app.imagePath

theorem find_of_nodup (apps : List Ctx) (h : (apps.map Ctx.id).Nodup) (app : Ctx) (hmem : app ∈ apps)
    (appId : ℤ) (hid : toText appId = app.id) :
    (apps.find? fun a => a.id = toText appId) = some app := by
  induction apps with
  | nil => simp at hmem
  | cons a rest ih =>
    rw [List.map_cons, List.nodup_cons] at h
    rw [List.mem_cons] at hmem
    rw [List.find?_cons]
    by_cases ha : a.id = toText appId
    · simp only [ha, decide_true]
      rcases hmem with rfl | hrest
      · rfl
      · -- a later app with the id of the first
        exact absurd (List.mem_map_of_mem (f := Ctx.id) hrest) (by rw [← hid, ← ha]; exact h.1)
    · simp only [ha, decide_false]
      rcases hmem with rfl | hrest
      · exact absurd hid.symm ha
      · exact ih h.2 hrest

theorem distinctApps_of_nodup (apps : List Ctx) (h : (apps.map Ctx.id).Nodup) :
    DistinctApps fs lib tune apps := by
  constructor
  · exact h
  · intro app hmem appId hid session answers s hs
    have hfind := find_of_nodup apps h app hmem appId hid
    have happs : (terminate answers.groupRunning s).proc.apps = apps := hs
    unfold execute launch
    rw [happs, hfind]
  · intro app hmem appId hid
    unfold getAppImage
    rw [find_of_nodup apps h app hmem appId hid]

/-- The apps of a file are told apart by their ids exactly if every app whose text was given out before
falls back on a text that was not. -/
theorem apps_distinct_iff (hinj : Function.Injective hash) (this : Environment) (tree : AppsTree)
    (env : Environment) (apps : List Ctx)
    (h : parse fs hash globalPrepCmds this tree = some (env, apps)) :
    DistinctApps fs lib tune apps ↔ Unclaimed [] 0 (apps.map (appText fs)) := by
  simp only [parse, Option.bind_eq_bind, Option.bind_eq_some_iff, Option.pure_def,
    Option.some.injEq, Prod.mk.injEq] at h
  obtain ⟨nodes, -, vars, -, env', -, apps', happs, rfl, rfl⟩ := h
  have hids := parseApps_ids fs hash globalPrepCmds hinj env' nodes [] 0 apps' happs
  have hnodup : (apps'.map Ctx.id).Nodup ↔ (givenTexts [] 0 (apps'.map (appText fs))).Nodup := by
    rw [hids]
    exact List.nodup_map_iff (idOf_injective hash hinj)
  have hdistinct := givenTexts_distinct_iff (apps'.map (appText fs)) [] 0
  rw [← hdistinct, ← hnodup]
  constructor
  · exact fun hd => ⟨fun _ _ => List.not_mem_nil, hd.ids⟩
  · exact fun hd => distinctApps_of_nodup fs lib tune apps' hd.2

end

/-! ## Examples of files -/

/-- An injective hash that is the truncated CRC-32 on the texts of the files below. -/
def sampleCrc (text : Text) : ℕ :=
  if text = "Desktop".toList then 958645192
  else if text = "Desktop1".toList then 1424454891
  else if text = "Desktop2".toList then 840030895
  else if text = "Steam Big Picture".toList then 870779643
  else 2 ^ 31 + Encodable.encode (text.map Char.toNat)

/-- Four texts with codes of their own below those of all others. -/
theorem codes_injective {a b t₁ t₂ t₃ t₄ : Text} {x y : ℕ}
    (h : (if a = t₁ then 958645192 else if a = t₂ then 1424454891 else if a = t₃ then 840030895
        else if a = t₄ then 870779643 else 2 ^ 31 + x) =
      if b = t₁ then 958645192 else if b = t₂ then 1424454891 else if b = t₃ then 840030895
        else if b = t₄ then 870779643 else 2 ^ 31 + y) : a = b ∨ x = y := by
  grind

theorem sampleCrc_injective : Function.Injective sampleCrc := by
  intro a b h
  rcases codes_injective h with heq | hcode
  · exact heq
  · exact List.map_injective_iff.mpr (fun _ _ hch => Char.ext (UInt32.toNat_inj.mp hch))
      (Encodable.encode_injective hcode)

/-- No file but the apps file. -/
def noFiles : FileSystem := ⟨fun _ => false, fun _ => none, fun _ => none⟩

/-- A file with these names of apps. -/
def namedApps (names : List String) : AppsTree :=
  { apps := some (names.map fun name => { name := some name.toList }), env := some [] }

def appsOf (names : List String) : List Ctx :=
  match parse noFiles sampleCrc [] [] (namedApps names) with
  | none => []
  | some result => result.2

/-- A repeated name is no harm as long as the fallback is new. -/
theorem apps_distinct_repeated :
    DistinctApps noFiles (⟨none, 1⟩ : Library) (fun (_ : Unit) _ => ())
      (appsOf ["Desktop", "Desktop", "Steam Big Picture"]) := by
  apply (apps_distinct_iff noFiles sampleCrc [] ⟨none, 1⟩ (fun (_ : Unit) _ => ())
    sampleCrc_injective [] (namedApps ["Desktop", "Desktop", "Steam Big Picture"]) [] _ ?_).mpr
  · decide +kernel
  · decide +kernel

/-- The third app falls back on the text of the first: an id twice, and the image and the program of
the first app for the third. -/
theorem apps_not_distinct : Function.Injective sampleCrc ∧
    (appsOf ["Desktop2", "Desktop", "Desktop"]).map Ctx.id =
      ["840030895".toList, "958645192".toList, "840030895".toList] ∧
    ¬DistinctApps noFiles (⟨none, 1⟩ : Library) (fun (_ : Unit) _ => ())
      (appsOf ["Desktop2", "Desktop", "Desktop"]) := by
  have hids : (appsOf ["Desktop2", "Desktop", "Desktop"]).map Ctx.id =
      ["840030895".toList, "958645192".toList, "840030895".toList] := by decide +kernel
  refine ⟨sampleCrc_injective, hids, fun h => ?_⟩
  have hnodup := h.ids
  rw [hids] at hnodup
  simp at hnodup

end Sunshine.Process
