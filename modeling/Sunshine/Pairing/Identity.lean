import Mathlib.Algebra.Order.Ring.Int
import Mathlib.Data.List.MinMax
import Mathlib.Logic.Function.Basic
import Sunshine.Lib.Transitions

/-! The host's TLS identity: the pair of key and certificate that a start finds in the credentials directory or creates
there, where neither is configured.

A file knows the call of `create_creds` that has written it, and whether it was written to its end.
`identity_kept_iff` says in which runs of starts the identity stays. -/
namespace Sunshine.Identity
open Transitions
set_option autoImplicit false

abbrev Text := List Char

/-! ## The directory -/

section Files
variable {Call : Type}

inductive Entry (Call : Type) where
  | directory
  | file (time : ℤ) (call : Call) (whole : Bool)
  deriving DecidableEq

abbrev Files (Call : Type) := Text → Option (Entry Call)

variable (files : Files Call)

def present (name : Text) : Bool := (files name).isSome

def isDirectory (name : Text) : Bool :=
  match files name with
  | some .directory => true
  | _ => false

def isRegularFile (name : Text) : Bool :=
  match files name with
  | some (.file _ _ _) => true
  | _ => false

def lastWriteTime (name : Text) : ℤ :=
  match files name with
  | some (.file time _ _) => time
  | _ => 0

def pkeyName (suffix : Text) : Text := ['p', 'k', 'e', 'y', '-'] ++ suffix

def certName (suffix : Text) : Text := ['c', 'e', 'r', 't', '-'] ++ suffix

/-! ## Creating -/

/-- How far `write_file` comes. -/
inductive Write where
  | unopened
  | unfinished
  | finished
  deriving DecidableEq

/-- No directory can be opened for writing. -/
def writeFile (name : Text) (time : ℤ) (call : Call) : Write → Files Call × Bool
  | .unopened => (files, false)
  | .unfinished =>
    if isDirectory files name then (files, false) else (Function.update files name (some (.file time call false)), false)
  | .finished =>
    if isDirectory files name then (files, false) else (Function.update files name (some (.file time call true)), true)

/-- A call of `create_creds`: what becomes of each of its steps, and when the files are written. -/
structure Creation (Call : Type) where
  call : Call
  directories : Bool
  pkeyWrite : Write
  pkeyTime : ℤ
  crash : Bool
  certWrite : Write
  certTime : ℤ
  permissions : Bool

/-- The files that are left, and whether the call has come back with 0. -/
def createCreds (pkey cert : Text) (creation : Creation Call) : Files Call × Bool :=
  if creation.directories then
    let written := writeFile files pkey creation.pkeyTime creation.call creation.pkeyWrite
    if written.2 ∧ creation.crash = false then
      let both := writeFile written.1 cert creation.certTime creation.call creation.certWrite
      (both.1, both.2 && creation.permissions)
    else (written.1, false)
  else (files, false)

/-! ## Starting -/

/-- A start: the names in the order of the directory's iterator, the UUID that is drawn if one is needed, and the call
that is made if one is. -/
structure Start (Call : Type) where
  listed : List Text
  uuid : Text
  creation : Creation Call

structure Chosen where
  pkey : Text
  cert : Text
  uniqueId : Text
  generated : Bool
  deriving DecidableEq

def existingPkies (listed : List Text) : List Text :=
  listed.filter fun name => isRegularFile files name && ['p', 'k', 'e', 'y', '-'].isPrefixOf name

/-- The first of the newest keys. -/
def newest (listed : List Text) : Option Text :=
  @List.argmax Text ℤ Int.instLinearOrder.toPreorder Int.instLinearOrder.toDecidableLT (lastWriteTime files)
    (existingPkies files listed)

def generate (uuid : Text) : Chosen := ⟨pkeyName uuid, certName uuid, uuid, true⟩

def choose (listed : List Text) (uuid : Text) : Chosen :=
  match newest files listed with
  | some pkey =>
    if present files (certName (pkey.drop 5)) then ⟨pkey, certName (pkey.drop 5), pkey.drop 5, false⟩ else generate uuid
  | none => generate uuid

structure Started (Call : Type) where
  chosen : Chosen
  files : Files Call
  ok : Bool

/-- Both paths lead to files. -/
def served (chosen : Chosen) : Bool :=
  !(isDirectory files chosen.cert || !isRegularFile files chosen.cert) &&
    !(isDirectory files chosen.pkey || !isRegularFile files chosen.pkey)

def finish (chosen : Chosen) (creation : Creation Call) : Started Call :=
  if !present files chosen.pkey || !present files chosen.cert then
    let created := createCreds files chosen.pkey chosen.cert creation
    ⟨chosen, created.1, created.2 && served created.1 chosen⟩
  else ⟨chosen, files, served files chosen⟩

/-- `init`, up to the name and password of the user. -/
def init (start : Start Call) : Started Call := finish files (choose files start.listed start.uuid) start.creation

/-- The directory after a start. -/
def next (files : Files Call) (start : Start Call) : Files Call := (init files start).files

/-- The iterator yields what is in the directory. -/
def Lists (files : Files Call) (start : Start Call) : Prop := ∀ name, name ∈ start.listed ↔ present files name = true

/-! ## Pairs -/

/-- The key and the certificate of the suffix are there, both written to their end by one call. -/
def Matched (suffix : Text) : Prop := ∃ pkeyTime certTime call,
  files (pkeyName suffix) = some (.file pkeyTime call true) ∧ files (certName suffix) = some (.file certTime call true)

/-- The suffix of a newest pair. -/
def NewestPair (suffix : Text) : Prop := Matched files suffix ∧
  ∀ other, Matched files other → lastWriteTime files (pkeyName other) ≤ lastWriteTime files (pkeyName suffix)

def Chosen.Names (chosen : Chosen) (suffix : Text) : Prop := chosen.pkey = pkeyName suffix ∧ chosen.cert = certName suffix

/-- A start that succeeds ends with a pair. -/
def EndsPaired (start : Start Call) : Prop := (init files start).ok = true →
  ∃ suffix, (init files start).chosen.Names suffix ∧ Matched (init files start).files suffix

/-- A start generates nothing, leaves the directory as it is, and succeeds with a newest pair. -/
def Adopts (start : Start Call) : Prop := (init files start).chosen.generated = false ∧ (init files start).files = files ∧
  (init files start).ok = true ∧ ∃ suffix, (init files start).chosen.Names suffix ∧ NewestPair files suffix

/-- Every start that succeeds ends with a pair, and behind the first pair all starts adopt one. -/
structure IdentityKept (files : Files Call) (starts : List (Start Call)) : Prop where
  paired : ∀ front start rest, starts = front ++ start :: rest → EndsPaired (front.foldl next files) start
  adopts : ∀ front middle start rest, starts = front ++ (middle ++ start :: rest) →
    (∃ suffix, Matched (front.foldl next files) suffix) → Adopts ((front ++ middle).foldl next files) start

/-- The newest key has its certificate; or there is no pair, the certificate of that key is no file, and the UUID in its
place does not name two files. -/
def NewestPaired (files : Files Call) (start : Start Call) : Prop :=
  ∀ suffix, newest files start.listed = some (pkeyName suffix) → Matched files suffix ∨
    ((∀ other, ¬Matched files other) ∧ isRegularFile files (certName suffix) = false ∧
      (present files (certName suffix) = false →
        ¬(isRegularFile files (pkeyName start.uuid) = true ∧ isRegularFile files (certName start.uuid) = true)))

end Files

/-! ## Names -/

section Steps
variable {Call : Type} {files : Files Call} {start : Start Call} {suffix other : Text} {chosen : Chosen}
  {creation : Creation Call}

theorem pkeyName_inj : pkeyName suffix = pkeyName other ↔ suffix = other := List.append_right_inj _

theorem certName_ne_pkeyName (suffix other : Text) : certName suffix ≠ pkeyName other :=
  fun h => absurd (List.cons.inj h).1 (by decide)

theorem isRegularFile_iff {name : Text} :
    isRegularFile files name = true ↔ ∃ time call whole, files name = some (.file time call whole) := by
  unfold isRegularFile
  cases hentry : files name with
  | none => simp
  | some entry => cases entry <;> simp

theorem present_of_isRegularFile {name : Text} (h : isRegularFile files name = true) : present files name = true := by
  obtain ⟨time, call, whole, hentry⟩ := isRegularFile_iff.mp h
  rw [present, hentry]
  rfl

theorem Matched.isRegularFile_pkey (h : Matched files suffix) : isRegularFile files (pkeyName suffix) = true :=
  let ⟨time, _, call, hpkey, _⟩ := h
  isRegularFile_iff.mpr ⟨time, call, true, hpkey⟩

theorem Matched.isRegularFile_cert (h : Matched files suffix) : isRegularFile files (certName suffix) = true :=
  let ⟨_, time, call, _, hcert⟩ := h
  isRegularFile_iff.mpr ⟨time, call, true, hcert⟩

/-! ## Creating -/

theorem writeFile_true {name : Text} {time : ℤ} {call : Call} {write : Write}
    (h : (writeFile files name time call write).2 = true) :
    (writeFile files name time call write).1 = Function.update files name (some (.file time call true)) := by
  cases write with
  | unopened => cases h
  | unfinished =>
    unfold writeFile at h
    dsimp only at h
    split_ifs at h
  | finished =>
    unfold writeFile at h ⊢
    dsimp only at h ⊢
    split_ifs with hdirectory
    · rw [if_pos hdirectory] at h
      cases h
    · rfl

/-- A call that comes back with 0 has written a pair. -/
theorem matched_createCreds (h : (createCreds files (pkeyName suffix) (certName suffix) creation).2 = true) :
    Matched (createCreds files (pkeyName suffix) (certName suffix) creation).1 suffix := by
  unfold createCreds at h ⊢
  dsimp only at h ⊢
  split_ifs at h ⊢ with hdirectories hwritten
  · have hcert := writeFile_true (Bool.and_eq_true _ _ ▸ h).1
    rw [hcert, writeFile_true hwritten.1]
    refine ⟨creation.pkeyTime, creation.certTime, creation.call, ?_, Function.update_self _ _ _⟩
    rw [Function.update_of_ne (certName_ne_pkeyName suffix suffix).symm, Function.update_self]

/-! ## Choosing -/

theorem mem_existingPkies {listed : List Text} {name : Text} : name ∈ existingPkies files listed ↔
    name ∈ listed ∧ isRegularFile files name = true ∧ ∃ suffix, name = pkeyName suffix := by
  unfold existingPkies
  rw [List.mem_filter, Bool.and_eq_true, List.isPrefixOf_iff_prefix]
  refine and_congr_right fun _ => and_congr_right fun _ => ?_
  exact ⟨fun ⟨suffix, h⟩ => ⟨suffix, h.symm⟩, fun ⟨suffix, h⟩ => ⟨suffix, h.symm⟩⟩

/-- The key that is chosen is a file, and none is newer. -/
theorem newest_some (hlists : Lists files start) {name : Text} (h : newest files start.listed = some name) :
    ∃ suffix, name = pkeyName suffix ∧ isRegularFile files (pkeyName suffix) = true ∧
      ∀ other, isRegularFile files (pkeyName other) = true →
        lastWriteTime files (pkeyName other) ≤ lastWriteTime files (pkeyName suffix) := by
  obtain ⟨-, hregular, suffix, rfl⟩ := mem_existingPkies.mp (List.argmax_mem h)
  refine ⟨suffix, rfl, hregular, fun other hother => List.le_of_mem_argmax ?_ h⟩
  exact mem_existingPkies.mpr ⟨(hlists _).mpr (present_of_isRegularFile hother), hother, other, rfl⟩

theorem newest_none (hlists : Lists files start) (h : newest files start.listed = none) (suffix : Text) :
    isRegularFile files (pkeyName suffix) = false := by
  have hnil := List.argmax_eq_none.mp h
  by_contra hregular
  rw [Bool.not_eq_false] at hregular
  have hmem := mem_existingPkies.mpr ⟨(hlists _).mpr (present_of_isRegularFile hregular), hregular, suffix, rfl⟩
  rw [hnil] at hmem
  exact List.not_mem_nil hmem

theorem choose_adopt (h : newest files start.listed = some (pkeyName suffix))
    (hcert : present files (certName suffix) = true) :
    choose files start.listed start.uuid = ⟨pkeyName suffix, certName suffix, suffix, false⟩ := by
  unfold choose
  rw [h]
  exact if_pos hcert

theorem choose_generate (h : newest files start.listed = some (pkeyName suffix))
    (hcert : present files (certName suffix) = false) : choose files start.listed start.uuid = generate start.uuid := by
  unfold choose
  rw [h]
  exact if_neg (Bool.eq_false_iff.mp hcert)

theorem choose_empty (h : newest files start.listed = none) :
    choose files start.listed start.uuid = generate start.uuid := by
  unfold choose
  rw [h]

/-! ## Finishing -/

theorem served_iff : served files chosen = true ↔
    isRegularFile files chosen.cert = true ∧ isRegularFile files chosen.pkey = true := by
  have hnot : ∀ name, isRegularFile files name = true → isDirectory files name = false := by
    intro name hregular
    obtain ⟨time, call, whole, hentry⟩ := isRegularFile_iff.mp hregular
    rw [isDirectory, hentry]
  unfold served
  constructor
  · intro h
    simp only [Bool.and_eq_true, Bool.not_eq_true', Bool.or_eq_false_iff, Bool.not_eq_false'] at h
    exact ⟨h.1.2, h.2.2⟩
  · rintro ⟨hcert, hpkey⟩
    rw [hnot _ hcert, hnot _ hpkey, hcert, hpkey]
    rfl

/-- Where both are there nothing is created. -/
theorem finish_present (hpkey : present files chosen.pkey = true) (hcert : present files chosen.cert = true) :
    finish files chosen creation = ⟨chosen, files, served files chosen⟩ := by
  rw [finish, hpkey, hcert]
  rfl

theorem finish_chosen : (finish files chosen creation).chosen = chosen := by
  unfold finish
  dsimp only
  split_ifs
  · rfl
  · rfl

/-- A start that has to create succeeds with a pair, one that has not if it finds two files. -/
theorem finish_ok (hnames : chosen.Names suffix) (h : (finish files chosen creation).ok = true) :
    Matched (finish files chosen creation).files suffix ∨ (finish files chosen creation).files = files ∧
      isRegularFile files (pkeyName suffix) = true ∧ isRegularFile files (certName suffix) = true := by
  unfold finish at h ⊢
  dsimp only at h ⊢
  rw [hnames.1, hnames.2] at h ⊢
  split_ifs at h ⊢ with hmissing
  · left
    exact matched_createCreds (Bool.and_eq_true _ _ ▸ h).1
  · right
    have hserved := served_iff.mp h
    rw [hnames.1, hnames.2] at hserved
    exact ⟨rfl, hserved.2, hserved.1⟩

/-! ## A start -/

theorem init_adopt (h : newest files start.listed = some (pkeyName suffix))
    (hpkey : isRegularFile files (pkeyName suffix) = true) (hcert : present files (certName suffix) = true) :
    init files start = ⟨⟨pkeyName suffix, certName suffix, suffix, false⟩, files,
      served files ⟨pkeyName suffix, certName suffix, suffix, false⟩⟩ := by
  rw [init, choose_adopt h hcert]
  exact finish_present (present_of_isRegularFile hpkey) hcert

/-- The newest key's pair is adopted. -/
theorem adopts_matched (hlists : Lists files start) (h : newest files start.listed = some (pkeyName suffix))
    (hmatched : Matched files suffix) : Adopts files start := by
  obtain ⟨suffix', hname, hpkey, hnewest⟩ := newest_some hlists h
  obtain rfl := pkeyName_inj.mp hname
  have hinit := init_adopt h hpkey (present_of_isRegularFile hmatched.isRegularFile_cert)
  unfold Adopts
  rw [hinit]
  refine ⟨rfl, rfl, served_iff.mpr ⟨hmatched.isRegularFile_cert, hpkey⟩, suffix, ⟨rfl, rfl⟩, hmatched, ?_⟩
  exact fun other hother => hnewest other hother.isRegularFile_pkey

theorem Adopts.endsPaired (h : Adopts files start) : EndsPaired files start := by
  obtain ⟨-, hfiles, -, suffix, hnames, hnewest⟩ := h
  refine fun _ => ⟨suffix, hnames, ?_⟩
  rw [hfiles]
  exact hnewest.1

theorem Adopts.next_eq (h : Adopts files start) : next files start = files := h.2.1

/-- What a start that generates ends with. -/
theorem endsPaired_generate_iff
    (hchoose : choose files start.listed start.uuid = generate start.uuid) (hnone : ∀ other, ¬Matched files other) :
    EndsPaired files start ↔
      ¬(isRegularFile files (pkeyName start.uuid) = true ∧ isRegularFile files (certName start.uuid) = true) := by
  have hnames : (generate start.uuid).Names start.uuid := ⟨rfl, rfl⟩
  unfold EndsPaired init
  rw [hchoose]
  constructor
  · rintro hends ⟨hpkey, hcert⟩
    have hfinish := @finish_present _ files (generate start.uuid) start.creation (present_of_isRegularFile hpkey)
      (present_of_isRegularFile hcert)
    rw [hfinish] at hends
    obtain ⟨suffix, -, hmatched⟩ := hends (served_iff.mpr ⟨hcert, hpkey⟩)
    exact hnone suffix hmatched
  · intro hnot hok
    obtain hmatched | ⟨-, hboth⟩ := finish_ok hnames hok
    · exact ⟨start.uuid, by rw [finish_chosen]; exact hnames, hmatched⟩
    · exact absurd hboth hnot

/-- One start keeps the identity. -/
def Kept (files : Files Call) (start : Start Call) : Prop :=
  EndsPaired files start ∧ ((∃ suffix, Matched files suffix) → Adopts files start)

theorem newestPaired_iff (hnewest : newest files start.listed = some (pkeyName suffix)) : NewestPaired files start ↔
    Matched files suffix ∨ ((∀ other, ¬Matched files other) ∧ isRegularFile files (certName suffix) = false ∧
      (present files (certName suffix) = false →
        ¬(isRegularFile files (pkeyName start.uuid) = true ∧ isRegularFile files (certName start.uuid) = true))) := by
  refine ⟨fun h => h suffix hnewest, fun h suffix' hsome => ?_⟩
  rw [hnewest] at hsome
  obtain rfl := pkeyName_inj.mp (Option.some.inj hsome)
  exact h

theorem kept_empty (hlists : Lists files start) (hnewest : newest files start.listed = none) : Kept files start := by
  have hnone : ∀ other, ¬Matched files other := fun other hother =>
    Bool.eq_false_iff.mp (newest_none hlists hnewest other) hother.isRegularFile_pkey
  have hends := (endsPaired_generate_iff (choose_empty hnewest) hnone).mpr fun h =>
    Bool.eq_false_iff.mp (newest_none hlists hnewest start.uuid) h.1
  exact ⟨hends, fun ⟨other, hother⟩ => absurd hother (hnone other)⟩

/-- Where the newest key has a certificate that is not its own. -/
theorem kept_present_iff (hnewest : newest files start.listed = some (pkeyName suffix))
    (hpkey : isRegularFile files (pkeyName suffix) = true) (hmatched : ¬Matched files suffix)
    (hcert : present files (certName suffix) = true) :
    Kept files start ↔ (∀ other, ¬Matched files other) ∧ isRegularFile files (certName suffix) = false := by
  have hinit := init_adopt hnewest hpkey hcert
  constructor
  · rintro ⟨hends, hadopts⟩
    have hnone : ∀ other, ¬Matched files other := by
      intro other hother
      obtain ⟨-, -, -, suffix', hnames, hpair⟩ := hadopts ⟨other, hother⟩
      rw [hinit] at hnames
      obtain rfl := pkeyName_inj.mp hnames.1
      exact hmatched hpair.1
    refine ⟨hnone, ?_⟩
    by_contra hregular
    rw [Bool.not_eq_false] at hregular
    unfold EndsPaired at hends
    rw [hinit] at hends
    obtain ⟨suffix', -, hpair⟩ := hends (served_iff.mpr ⟨hregular, hpkey⟩)
    exact hnone suffix' hpair
  · rintro ⟨hnone, hregular⟩
    refine ⟨fun hok => ?_, fun ⟨other, hother⟩ => absurd hother (hnone other)⟩
    rw [hinit] at hok
    exact absurd (served_iff.mp hok).1 (Bool.eq_false_iff.mp hregular)

/-- Where the newest key has no certificate. -/
theorem kept_missing_iff (hnewest : newest files start.listed = some (pkeyName suffix))
    (hcert : present files (certName suffix) = false) : Kept files start ↔ (∀ other, ¬Matched files other) ∧
      ¬(isRegularFile files (pkeyName start.uuid) = true ∧ isRegularFile files (certName start.uuid) = true) := by
  have hchoose := choose_generate hnewest hcert
  constructor
  · rintro ⟨hends, hadopts⟩
    have hnone : ∀ other, ¬Matched files other := by
      intro other hother
      have hgenerated := (hadopts ⟨other, hother⟩).1
      rw [init, hchoose, finish_chosen] at hgenerated
      cases hgenerated
    exact ⟨hnone, (endsPaired_generate_iff hchoose hnone).mp hends⟩
  · rintro ⟨hnone, huuid⟩
    exact ⟨(endsPaired_generate_iff hchoose hnone).mpr huuid, fun ⟨other, hother⟩ => absurd hother (hnone other)⟩

theorem start_kept_iff (hlists : Lists files start) : Kept files start ↔ NewestPaired files start := by
  cases hnewest : newest files start.listed with
  | none =>
    refine iff_of_true (kept_empty hlists hnewest) fun suffix hsome => ?_
    rw [hnewest] at hsome
    cases hsome
  | some name =>
    obtain ⟨suffix, rfl, hpkey, -⟩ := newest_some hlists hnewest
    rw [newestPaired_iff hnewest]
    by_cases hmatched : Matched files suffix
    · have hadopts := adopts_matched hlists hnewest hmatched
      exact iff_of_true ⟨hadopts.endsPaired, fun _ => hadopts⟩ (.inl hmatched)
    · rw [or_iff_right hmatched]
      cases hcert : present files (certName suffix) with
      | true =>
        rw [kept_present_iff hnewest hpkey hmatched hcert]
        exact and_congr_right fun _ => (and_iff_left fun h => Bool.noConfusion h).symm
      | false =>
        have hregular : isRegularFile files (certName suffix) = false :=
          Bool.eq_false_iff.mpr fun h => Bool.eq_false_iff.mp hcert (present_of_isRegularFile h)
        rw [kept_missing_iff hnewest hcert]
        exact and_congr_right fun _ => ⟨fun h => ⟨hregular, fun _ => h⟩, fun h => h.2 rfl⟩

end Steps

/-! ## Runs -/

section Run
variable {Call : Type}

/-- A pair stays where all starts that find one adopt one. -/
theorem matched_foldl {files : Files Call} {starts : List (Start Call)} (h : Runs Kept next files starts)
    (hpair : ∃ suffix, Matched files suffix) : ∃ suffix, Matched (starts.foldl next files) suffix := by
  refine h.invariant (fun files => ∃ suffix, Matched files suffix) hpair fun files start hpair hkept => ?_
  rw [(hkept.2 hpair).next_eq]
  exact hpair

theorem identityKept_iff_kept {files : Files Call} {starts : List (Start Call)} :
    IdentityKept files starts ↔ Runs Kept next files starts := by
  constructor
  · rintro ⟨hpaired, hadopts⟩
    refine runs_iff_each.mpr fun front start rest hsplit => ⟨hpaired front start rest hsplit, fun hpair => ?_⟩
    have hadopt := hadopts front [] start rest hsplit hpair
    rwa [List.append_nil] at hadopt
  · intro h
    refine ⟨fun front start rest hsplit => (runs_iff_each.mp h front start rest hsplit).1, ?_⟩
    intro front middle start rest hsplit hpair
    have hmiddle : Runs Kept next (front.foldl next files) middle := by
      rw [hsplit] at h
      exact (Runs.append_iff.mp h).2.front
    have hlast := runs_iff_each.mp h (front ++ middle) start rest (by rw [hsplit, List.append_assoc])
    refine hlast.2 ?_
    rw [List.foldl_append]
    exact matched_foldl hmiddle hpair

/-- The identity is kept in a run of starts exactly if each of them finds the newest key in its pair, or no pair. -/
theorem identity_kept_iff (files : Files Call) (starts : List (Start Call)) (h : Runs Lists next files starts) :
    IdentityKept files starts ↔ Runs NewestPaired next files starts := by
  rw [identityKept_iff_kept]
  constructor
  · intro hkept
    exact (h.and hkept).imp fun files start ⟨hlists, hkept⟩ => (start_kept_iff hlists).mp hkept
  · intro hpaired
    exact (h.and hpaired).imp fun files start ⟨hlists, hpaired⟩ => (start_kept_iff hlists).mpr hpaired

end Run

/-! ## Starts on a directory -/

section Starts

theorem present_update {Call : Type} {files : Files Call} {name other : Text} {entry : Entry Call} :
    present (Function.update files name (some entry)) other = true ↔ other = name ∨ present files other = true := by
  unfold present
  rw [Function.update_apply]
  split_ifs with h
  · exact iff_of_true rfl (.inl h)
  · exact (or_iff_right h).symm

def empty : Files ℕ := fun _ => none

/-- The call is cut off behind the key. -/
def firstStart : Start ℕ := ⟨[], ['a'], ⟨0, true, .finished, 1, true, .finished, 1, true⟩⟩

def keyLeft : Files ℕ := Function.update empty (pkeyName ['a']) (some (.file 1 0 true))

def secondStart : Start ℕ := ⟨[pkeyName ['a']], ['b'], ⟨1, true, .finished, 2, false, .finished, 2, true⟩⟩

def pairLeft : Files ℕ :=
  Function.update (Function.update keyLeft (pkeyName ['b']) (some (.file 2 1 true))) (certName ['b']) (some (.file 2 1 true))

def thirdStart : Start ℕ := ⟨[certName ['b'], pkeyName ['b'], pkeyName ['a']], ['c'],
  ⟨2, true, .finished, 3, false, .finished, 3, true⟩⟩

theorem next_firstStart : next empty firstStart = keyLeft := rfl

theorem next_secondStart : next keyLeft secondStart = pairLeft := rfl

theorem unmatched_keyLeft (suffix : Text) : ¬Matched keyLeft suffix := by
  intro hmatched
  have hpresent := present_of_isRegularFile hmatched.isRegularFile_cert
  obtain hname | hnothing := present_update.mp hpresent
  · exact certName_ne_pkeyName suffix ['a'] hname
  · cases hnothing

/-- A start that is cut off, one that creates a pair, and one that adopts it. -/
theorem three_starts_keep : IdentityKept empty [firstStart, secondStart, thirdStart] := by
  refine (identity_kept_iff empty [firstStart, secondStart, thirdStart] ⟨?_, ?_, ?_, trivial⟩).mpr ⟨?_, ?_, ?_, trivial⟩
  · exact fun name => iff_of_false List.not_mem_nil Bool.false_ne_true
  · intro name
    rw [next_firstStart, keyLeft, present_update]
    simp [secondStart, present, empty]
  · intro name
    rw [next_firstStart, next_secondStart, pairLeft, present_update, present_update, keyLeft, present_update]
    simp [thirdStart, present, empty]
  · intro suffix hsome
    cases hsome
  · rw [next_firstStart]
    have hnewest : newest keyLeft secondStart.listed = some (pkeyName ['a']) := rfl
    refine (newestPaired_iff hnewest).mpr (.inr ⟨unmatched_keyLeft, rfl, fun _ h => ?_⟩)
    cases h.1
  · rw [next_firstStart, next_secondStart]
    have hnewest : newest pairLeft thirdStart.listed = some (pkeyName ['b']) := rfl
    exact (newestPaired_iff hnewest).mpr (.inl ⟨2, 2, 1, rfl, rfl⟩)

/-- A pair, and a newer key without certificate. -/
def orphaned : Files ℕ := fun name =>
  if name = pkeyName ['a'] then some (.file 1 0 true)
  else if name = certName ['a'] then some (.file 1 0 true)
  else if name = pkeyName ['b'] then some (.file 2 1 true)
  else none

def orphanedStart : Start ℕ := ⟨[pkeyName ['a'], certName ['a'], pkeyName ['b']], ['c'],
  ⟨2, true, .finished, 3, false, .finished, 3, true⟩⟩

theorem lists_orphaned : Lists orphaned orphanedStart := by
  intro name
  unfold present orphaned
  split_ifs with hpkey hcert horphan
  · simp [orphanedStart, hpkey]
  · simp [orphanedStart, hcert]
  · simp [orphanedStart, horphan]
  · simp [orphanedStart, hpkey, hcert, horphan]

/-- Beside a newer key without certificate, the pair is left for another. -/
theorem orphan_unpairs : ¬∀ (files : Files ℕ) (starts : List (Start ℕ)), Runs Lists next files starts →
    IdentityKept files starts := by
  intro hall
  have hkept := hall orphaned [orphanedStart] ⟨lists_orphaned, trivial⟩
  have hadopts := hkept.adopts [] [] orphanedStart [] rfl ⟨['a'], 1, 1, 0, rfl, rfl⟩
  have hgenerated : (init orphaned orphanedStart).chosen.generated = true := rfl
  exact absurd hadopts.1 (by rw [List.append_nil, List.foldl_nil, hgenerated]; decide)

end Starts

end Sunshine.Identity
