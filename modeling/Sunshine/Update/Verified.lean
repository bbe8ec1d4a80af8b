import Sunshine.Update.Phases

/-! What is installed.

`apply` checks the phase first and takes the flag then. Where no download has failed between the two, and no
extraction goes over another one, only the payload that was verified last is installed (`install_verified`). A
download that breaks off between them leaves a part of its archive to be installed (`install_notVerified`). -/
namespace Sunshine.Updater
open Threads Transitions Texts
set_option autoImplicit false

section Payload

variable {Tarball : Type} {sha256 : Tarball → Text}

/-! ## The payload -/

/-- The tarball has the digest that `SHA256SUMS` lists for it. -/
def Listed (sha256 : Tarball → Text) (body : Text) (tarball : Tarball) : Prop :=
  ∃ expected, find (parseSha256sums body) tarballName = some expected ∧ iequals (sha256 tarball) expected = true

/-- The payload directory is what the download worker started last has extracted, and nothing else. -/
def Verified (sha256 : Tarball → Text) (g : Shared Tarball) : Prop :=
  ∃ tarball, g.work.payload = [⟨g.generation, tarball, true⟩] ∧ Listed sha256 g.work.sums tarball

/-- An `apply` that takes the flag finds the payload of the last download staged, and an extraction finds the
payload directory removed. -/
def Careful (s : System Tarball) : Event Tarball → Prop
  | .run i _ =>
    (s.threads[i]? = some (.apply true .take) ∨ s.threads[i]? = some (.apply false .take) →
      s.shared.workerRunning = false → s.shared.staged = true) ∧
    (s.threads[i]? = some (.download .extract) → s.shared.work.payload = [])
  | _ => True

instance decidableCareful : ∀ (s : System Tarball) (e : Event Tarball), Decidable (Careful s e)
  | _, .call _ => isTrue trivial
  | s, .run i _ =>
    inferInstanceAs (Decidable
      ((s.threads[i]? = some (.apply true .take) ∨ s.threads[i]? = some (.apply false .take) →
        s.shared.workerRunning = false → s.shared.staged = true) ∧
      (s.threads[i]? = some (.download .extract) → s.shared.work.payload = [])))
  | _, .sessions _ => isTrue trivial

/-! ## One step -/

/-- What the download worker has done so far. -/
def DownloadPrepared (sha256 : Tarball → Text) (g : Shared Tarball) : DownloadAt → Prop
  | .hash expected => g.staged = false ∧ find (parseSha256sums g.work.sums) tarballName = some expected
  | .extract => g.staged = false ∧ ∃ tarball, g.work.tarball = some tarball ∧ Listed sha256 g.work.sums tarball
  | .inspect => g.staged = false ∧ (g.work.payload = [] ∨ Verified sha256 g)
  | .stage => Verified sha256 g
  | .ready | .free => g.staged = true
  | .fail _ | .failed => True
  | _ => g.staged = false

/-- A thread that has the flag to install has it with the last download staged. -/
def Prepared (sha256 : Tarball → Text) (t : Thread) (g : Shared Tarball) : Prop :=
  match t with
  | .download place => DownloadPrepared sha256 g place
  | .apply _ .check | .apply _ .take => True
  | .apply _ _ | .wait _ | .applyNow _ => g.staged = true
  | _ => True

structure Keeps (sha256 : Tarball → Text) (g : Shared Tarball) (move : Step Tarball) : Prop where
  thread : Prepared sha256 move.thread move.shared
  child : ∀ c ∈ move.child, Prepared sha256 c move.shared
  verified : move.shared.staged = true → Verified sha256 move.shared

/-- A step that leaves the files alone. -/
theorem keeps_of_same {g : Shared Tarball} {move : Step Tarball} (hverified : g.staged = true → Verified sha256 g)
    (hwork : move.shared.work = g.work) (hgeneration : move.shared.generation = g.generation)
    (hstaged : move.shared.staged = g.staged) (hthread : Prepared sha256 move.thread move.shared)
    (hchild : ∀ c ∈ move.child, Prepared sha256 c move.shared) : Keeps sha256 g move := by
  refine ⟨hthread, hchild, fun h => ?_⟩
  rw [Verified, hwork, hgeneration]
  exact hverified (hstaged ▸ h)

theorem keeps_start {g : Shared Tarball} {place : StartAt} (hverified : g.staged = true → Verified sha256 g) :
    Keeps sha256 g (start g place) := by
  cases place with
  | take =>
    rw [start]
    split_ifs <;> exact keeps_of_same hverified rfl rfl rfl trivial (by simp)
  | reset => exact keeps_of_same hverified rfl rfl rfl trivial (by simp [start])
  | spawn =>
    refine ⟨trivial, fun c hc => ?_, by simp [start, record]⟩
    cases hc
    rfl

theorem keeps_apply {g : Shared Tarball} {whenIdle : Bool} {place : ApplyAt}
    (hverified : g.staged = true → Verified sha256 g) (h : Prepared sha256 (.apply whenIdle place) g)
    (htake : place = .take → g.workerRunning = false → g.staged = true) :
    Keeps sha256 g (apply whenIdle g place) := by
  cases place with
  | check =>
    rw [apply]
    split_ifs <;> exact keeps_of_same hverified rfl rfl rfl trivial (by simp)
  | take =>
    cases hrunning : g.workerRunning with
    | true =>
      rw [apply, if_pos hrunning]
      exact keeps_of_same hverified rfl rfl rfl trivial (by simp)
    | false =>
      rw [apply, if_neg (by simp [hrunning])]
      exact keeps_of_same hverified rfl rfl rfl (htake rfl hrunning) (by simp)
  | sessions =>
    rw [apply]
    split_ifs <;> exact keeps_of_same hverified rfl rfl rfl h (by simp)
  | refuse => exact keeps_of_same hverified rfl rfl rfl trivial (by simp [apply])
  | arm => exact keeps_of_same hverified rfl rfl rfl h (by simp [apply])
  | spawnWait | spawn =>
    refine keeps_of_same hverified rfl rfl rfl trivial fun c hc => ?_
    cases hc
    exact h

theorem keeps_cancel {g : Shared Tarball} {place : CancelAt} (hverified : g.staged = true → Verified sha256 g) :
    Keeps sha256 g (cancel g place) := by
  cases place with
  | enter | look =>
    rw [cancel]
    split_ifs <;> exact keeps_of_same hverified rfl rfl rfl trivial (by simp)
  | complete => exact keeps_of_same hverified rfl rfl rfl trivial (by simp [cancel])

theorem keeps_wait {g : Shared Tarball} {place : WaitAt} (hverified : g.staged = true → Verified sha256 g)
    (h : g.staged = true) : Keeps sha256 g (waitIdleThenApply g place) := by
  cases place with
  | begin => exact keeps_of_same hverified rfl rfl rfl h (by simp [waitIdleThenApply])
  | loop | sessions | recheck =>
    rw [waitIdleThenApply]
    split_ifs <;> exact keeps_of_same hverified rfl rfl rfl h (by simp)
  | cancelled => exact keeps_of_same hverified rfl rfl rfl trivial (by simp [waitIdleThenApply])

theorem keeps_applyNow {o : Outcome Tarball} {g : Shared Tarball} {place : ApplyNowAt}
    (hverified : g.staged = true → Verified sha256 g) (h : g.staged = true) :
    Keeps sha256 g (applyNow o g place) := by
  cases place with
  | enter fromWaitingIdle =>
    rw [applyNow]
    split_ifs <;> exact keeps_of_same hverified rfl rfl rfl h (by simp)
  | look claimed payload =>
    rw [applyNow]
    split_ifs <;> exact keeps_of_same hverified rfl rfl rfl h (by simp)
  | installing =>
    rw [applyNow]
    split <;> exact keeps_of_same hverified rfl rfl rfl h (by simp)
  | giveUp | free => exact keeps_of_same hverified rfl rfl rfl trivial (by simp [applyNow])
  | claim | missing | phase | begin | failed | restarting =>
    exact keeps_of_same hverified rfl rfl rfl h (by simp [applyNow])

/-- A step of the download worker before the payload is staged. -/
theorem keeps_of_notStaged {g : Shared Tarball} {move : Step Tarball} (hstaged : move.shared.staged = false)
    (hchild : move.child = none) (hthread : Prepared sha256 move.thread move.shared) : Keeps sha256 g move :=
  ⟨hthread, by simp [hchild], by simp [hstaged]⟩

theorem keeps_extract {o : Outcome Tarball} {g : Shared Tarball} (h : DownloadPrepared sha256 g .extract)
    (hempty : g.work.payload = []) : Keeps sha256 g (downloadTry sha256 o g .extract) := by
  obtain ⟨hstaged, tarball, htarball, hlisted⟩ := h
  cases hdone : o.done with
  | false => exact keeps_of_notStaged hstaged rfl (by simp [downloadTry, hdone, Prepared, DownloadPrepared])
  | true =>
    refine keeps_of_notStaged hstaged rfl ?_
    cases hleft : o.left with
    | false =>
      have hwork : extract o g.work g.generation = g.work := by simp [extract, hleft]
      simp only [downloadTry, hdone, if_true, hwork]
      exact ⟨hstaged, .inl hempty⟩
    | true =>
      have hwork : extract o g.work g.generation = { g.work with payload := [⟨g.generation, tarball, true⟩] } := by
        simp [extract, hleft, htarball, hempty, hdone]
      simp only [downloadTry, hdone, if_true, hwork]
      exact ⟨hstaged, .inr ⟨tarball, rfl, hlisted⟩⟩

theorem keeps_downloadTry {o : Outcome Tarball} {g : Shared Tarball} {place : DownloadAt}
    (hverified : g.staged = true → Verified sha256 g) (h : DownloadPrepared sha256 g place)
    (hempty : place = .extract → g.work.payload = []) : Keeps sha256 g (downloadTry sha256 o g place) := by
  cases place with
  | checking | phaseSums | phaseTarball | phaseVerify => exact keeps_of_notStaged h rfl h
  | remove =>
    cases hdone : o.done with
    | false => exact keeps_of_notStaged (by simp [downloadTry, hdone]; exact h) rfl (by simp [downloadTry, hdone]; exact h)
    | true => exact keeps_of_notStaged (by simp [downloadTry, hdone]; exact h) rfl (by simp [downloadTry, hdone]; exact h)
  | fetchRelease | readRelease =>
    rw [downloadTry]
    split_ifs
    · exact keeps_of_notStaged h rfl h
    · exact keeps_of_notStaged h rfl trivial
  | fetchSums | fetchTarball =>
    cases hdone : o.done with
    | false => exact keeps_of_notStaged h rfl (by simp [downloadTry, hdone, Prepared, DownloadPrepared])
    | true =>
      refine keeps_of_notStaged h rfl ?_
      simp only [downloadTry, hdone, if_true]
      exact h
  | readSums =>
    rw [downloadTry]
    split
    · exact keeps_of_notStaged h rfl trivial
    · exact keeps_of_notStaged h rfl ⟨h, ‹_›⟩
  | hash expected =>
    obtain ⟨hstaged, hfind⟩ := h
    rw [downloadTry]
    split
    · exact keeps_of_notStaged hstaged rfl trivial
    · rename_i actual hactual
      split_ifs with hequal
      · rw [Option.ite_none_right_eq_some, Option.map_eq_some_iff] at hactual
        obtain ⟨-, tarball, htarball, rfl⟩ := hactual
        exact keeps_of_notStaged hstaged rfl ⟨hstaged, tarball, htarball, expected, hfind, hequal⟩
      · exact keeps_of_notStaged hstaged rfl trivial
  | extract => exact keeps_extract h (hempty rfl)
  | inspect =>
    obtain ⟨hstaged, hpayload⟩ := h
    rw [downloadTry]
    split_ifs with hmissing
    · exact keeps_of_notStaged hstaged rfl trivial
    · refine keeps_of_notStaged hstaged rfl (hpayload.resolve_left fun hnone => hmissing (.inr hnone))
  | stage => exact ⟨rfl, by simp [downloadTry], fun _ => h⟩
  | ready => exact keeps_of_same hverified rfl rfl rfl h (by simp [downloadTry])
  | fail | free | failed => exact keeps_of_same hverified rfl rfl rfl trivial (by simp [downloadTry])

theorem keeps_advance {o : Outcome Tarball} {t : Thread} {g : Shared Tarball}
    (hverified : g.staged = true → Verified sha256 g) (h : Prepared sha256 t g)
    (htake : ∀ whenIdle, t = .apply whenIdle .take → g.workerRunning = false → g.staged = true)
    (hempty : t = .download .extract → g.work.payload = []) : Keeps sha256 g (advance sha256 o t g) := by
  cases t with
  | start place => exact keeps_start hverified
  | apply whenIdle place => exact keeps_apply hverified h fun hplace => htake whenIdle (by rw [hplace])
  | cancel place => exact keeps_cancel hverified
  | download place =>
    refine downloadWorker_cases o g place (keeps_downloadTry hverified h fun hplace => hempty (by rw [hplace]))
      fun message => keeps_of_same hverified rfl rfl rfl trivial (by simp)
  | wait place => exact keeps_wait hverified h
  | applyNow place => exact keeps_applyNow hverified h
  | ended result => exact keeps_of_same hverified rfl rfl rfl trivial (by simp [advance])

/-- The directory is changed by a download worker alone. -/
theorem work_of_not_download {o : Outcome Tarball} {t : Thread} {g : Shared Tarball}
    (h : ∀ place, t ≠ .download place) : (advance sha256 o t g).shared.work = g.work := by
  cases t with
  | start place => cases place <;> simp only [advance, start] <;> (repeat' split) <;> rfl
  | apply whenIdle place => cases place <;> simp only [advance, apply] <;> (repeat' split) <;> rfl
  | cancel place => cases place <;> simp only [advance, cancel] <;> (repeat' split) <;> rfl
  | download place => exact absurd rfl (h place)
  | wait place => cases place <;> simp only [advance, waitIdleThenApply] <;> (repeat' split) <;> rfl
  | applyNow place => cases place <;> simp only [advance, applyNow] <;> (repeat' split) <;> rfl
  | ended result => rfl

theorem prepared_of_not_holds {t : Thread} (h : (program sha256).holds t = false) (g : Shared Tarball) :
    Prepared sha256 t g := by
  cases t with
  | apply whenIdle place => cases place <;> trivial
  | start | cancel | ended => trivial
  | _ => cases h

/-- A thread without the flag leaves the files alone. -/
theorem files_of_not_holds {o : Outcome Tarball} {t : Thread} {g : Shared Tarball}
    (h : (program sha256).holds t = false) :
    (advance sha256 o t g).shared.work = g.work ∧ (advance sha256 o t g).shared.generation = g.generation ∧
      (advance sha256 o t g).shared.staged = g.staged := by
  cases t with
  | start place =>
    cases place with
    | take =>
      simp only [advance, start]
      split_ifs <;> exact ⟨rfl, rfl, rfl⟩
    | _ => cases h
  | apply whenIdle place =>
    cases place with
    | check | take =>
      simp only [advance, apply]
      split_ifs <;> exact ⟨rfl, rfl, rfl⟩
    | _ => cases h
  | cancel place =>
    cases place <;> simp only [advance, cancel] <;> (repeat' split) <;> exact ⟨rfl, rfl, rfl⟩
  | ended result => exact ⟨rfl, rfl, rfl⟩
  | _ => cases h

theorem prepared_of_same {t : Thread} {g g' : Shared Tarball} (h : Prepared sha256 t g) (hwork : g'.work = g.work)
    (hgeneration : g'.generation = g.generation) (hstaged : g'.staged = g.staged) : Prepared sha256 t g' := by
  cases t with
  | download place =>
    cases place <;> simp only [Prepared, DownloadPrepared, Verified, hwork, hgeneration, hstaged] at h ⊢ <;> exact h
  | apply whenIdle place => cases place <;> simp only [Prepared, hstaged] at h ⊢ <;> exact h
  | wait place | applyNow place => exact hstaged.trans h
  | start | cancel | ended => trivial

/-! ## Runs -/

structure Installs (sha256 : Tarball → Text) (s : System Tarball) : Prop where
  verified : s.shared.staged = true → Verified sha256 s.shared
  each : ∀ t ∈ s.threads, Prepared sha256 t s.shared

theorem installs_next {s : System Tarball} {e : Event Tarball} (hinv : Inv sha256 s) (h : Installs sha256 s)
    (henabled : Enabled sha256 s e) (hcareful : Careful s e) : Installs sha256 (next sha256 s e) := by
  cases e with
  | call c =>
    refine ⟨h.verified, List.forall_mem_append.mpr ⟨h.each, List.forall_mem_singleton.mpr ?_⟩⟩
    cases c <;> trivial
  | sessions count =>
    exact ⟨h.verified, fun t ht => prepared_of_same (h.each t ht) rfl rfl rfl⟩
  | run i o =>
    obtain ⟨front, t, back, hsplit, rfl, hfree⟩ := henabled.split
    have ht : t ∈ s.threads := by simp [hsplit]
    rw [Careful, getElem_of_split hsplit] at hcareful
    have hkeeps : Keeps sha256 s.shared (advance sha256 o t s.shared) := by
      refine keeps_advance h.verified (h.each t ht) (fun whenIdle hplace => hcareful.1 ?_) fun hplace => hcareful.2 ?_
      · cases whenIdle <;> simp [hplace]
      · rw [hplace]
    constructor
    · rw [next, run_split o hsplit]
      exact hkeeps.verified
    · refine hinv.counted.each_run hsplit hfree o (Prepared sha256) h.each hkeeps.thread hkeeps.child ?_
      intro u _ hu hholds _
      cases hholding : (program sha256).holds t with
      | false =>
        obtain ⟨hwork, hgeneration, hstaged⟩ := files_of_not_holds (o := o) (g := s.shared) hholding
        exact prepared_of_same hu hwork hgeneration hstaged
      | true => exact prepared_of_not_holds (hholds hholding) _

/-- Nothing touches the directory while a thread installs from it. -/
theorem work_of_installing {s : System Tarball} {e : Event Tarball} (hinv : Inv sha256 s)
    (hinstalling : Thread.applyNow .installing ∈ s.threads) (henabled : Enabled sha256 s e) :
    (next sha256 s e).shared.work = s.shared.work := by
  cases e with
  | call c => rfl
  | sessions count => rfl
  | run i o =>
    obtain ⟨front, t, back, hsplit, rfl, -⟩ := henabled.split
    rw [next, run_split o hsplit]
    refine work_of_not_download fun place hplace => ?_
    have hothers := hinv.counted.not_holds_others hsplit (by rw [hplace]; rfl)
    rw [hsplit, hplace] at hinstalling
    have hmem : Thread.applyNow .installing ∈ front ++ back := by simpa using hinstalling
    cases hothers _ hmem

theorem install_verified (sha256 : Tarball → Text) (work : Work Tarball) (l : List (Event Tarball))
    (h : Runs (fun s e => Enabled sha256 s e ∧ Careful s e) (next sha256) (initial work) l)
    (hinstalling : Thread.applyNow .installing ∈ (l.foldl (next sha256) (initial work)).threads) :
    Verified sha256 (l.foldl (next sha256) (initial work)).shared ∧
      ∀ e, Enabled sha256 (l.foldl (next sha256) (initial work)) e →
        (next sha256 (l.foldl (next sha256) (initial work)) e).shared.work =
          (l.foldl (next sha256) (initial work)).shared.work := by
  have hkept := h.invariant (fun s => Inv sha256 s ∧ Installs sha256 s) ⟨inv_initial work, ?_⟩ ?_
  · exact ⟨hkept.2.verified (hkept.2.each _ hinstalling), fun e => work_of_installing hkept.1 hinstalling⟩
  · exact ⟨fun hstaged => (by cases hstaged), by simp [initial]⟩
  · rintro s e ⟨hinv, hinstalls⟩ ⟨henabled, hcareful⟩
    exact ⟨inv_next hinv henabled, installs_next hinv hinstalls henabled hcareful⟩

end Payload

/-- A download and the installation of what it has staged. -/
def upgrade : List (Event ℕ) := downloads ++ List.replicate 4 (.run 1 fine) ++ List.replicate 4 (.run 2 fine)

theorem install_verified_upgrade :
    Verified digestOf (upgrade.foldl (next digestOf) (initial nothing)).shared :=
  (install_verified digestOf nothing upgrade (by decide +kernel) (by decide +kernel)).1

def brokenOff : Outcome ℕ := { fine with done := false }

/-- The call of `apply` at the end of the first download has found the phase `ready` when a second `start` comes,
whose extraction breaks off; then it takes the flag. -/
def secondStart : List (Event ℕ) :=
  downloads ++ .run 1 fine :: .call .start :: List.replicate 3 (.run 2 fine) ++ List.replicate 11 (.run 3 fine) ++
    .run 3 brokenOff :: List.replicate 2 (.run 3 fine) ++ List.replicate 3 (.run 1 fine) ++
    List.replicate 4 (.run 4 fine)

theorem install_notVerified :
    Runs (Enabled digestOf) (next digestOf) (initial nothing) secondStart ∧
      Thread.applyNow .installing ∈ (secondStart.foldl (next digestOf) (initial nothing)).threads ∧
      (secondStart.foldl (next digestOf) (initial nothing)).shared.work.payload = [⟨2, 0, false⟩] ∧
      ¬Verified digestOf (secondStart.foldl (next digestOf) (initial nothing)).shared := by
  have hpayload : (secondStart.foldl (next digestOf) (initial nothing)).shared.work.payload = [⟨2, 0, false⟩] := by
    decide +kernel
  refine ⟨by decide +kernel, by decide +kernel, hpayload, ?_⟩
  rintro ⟨tarball, hwhole, -⟩
  rw [hpayload] at hwhole
  simp at hwhole

end Sunshine.Updater
