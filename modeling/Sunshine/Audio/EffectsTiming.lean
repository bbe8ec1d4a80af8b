import Mathlib.Algebra.Order.BigOperators.Group.List
import Mathlib.Data.Int.Log
import Mathlib.Data.List.Induction
import Mathlib.Data.Rat.Floor
import Mathlib.Tactic.Linarith
import Sunshine.Audio.Effects

/-! The times and the bounds of the audio effects.

The gain control's hold timer is compared with the frames since the last raise, the detector's counters are the
lengths of the runs that lie behind it. -/
namespace Sunshine.AudioFx
open Clamps Smoothing Transitions
set_option autoImplicit false

variable {m : Maths} {f : Frame} {frames front back : List Frame}

/-! ## Frames -/

def countSamples (frames : List Frame) : ℚ := ((taken frames).map fun f => (f.frameCount : ℚ)).sum

theorem durationMs_taken (rate : Rate) (frames : List Frame) :
    durationMs rate (taken frames) = countSamples frames / rate * 1000 := rfl

theorem taken_concat (hempty : f.isEmpty = false) : taken (frames ++ [f]) = taken frames ++ [f] := by
  simp [taken, hempty]

theorem taken_concat_empty (hempty : f.isEmpty = true) : taken (frames ++ [f]) = taken frames := by
  simp [taken, hempty]

theorem countSamples_concat (hempty : f.isEmpty = false) :
    countSamples (frames ++ [f]) = countSamples frames + f.frameCount := by
  simp [countSamples, taken_concat hempty]

theorem countSamples_concat_empty (hempty : f.isEmpty = true) : countSamples (frames ++ [f]) = countSamples frames := by
  rw [countSamples, taken_concat_empty hempty, countSamples]

/-- The exponential is a part of one where its argument is not positive. -/
def Maths.Damps (m : Maths) : Prop := ∀ x ≤ 0, 0 ≤ m.exp x ∧ m.exp x ≤ 1

theorem msToAlpha_mem (hexp : m.Damps) (tauMs frameMs : ℚ) : 0 ≤ msToAlpha m tauMs frameMs ∧ msToAlpha m tauMs frameMs ≤ 1 := by
  unfold msToAlpha
  split
  · exact ⟨zero_le_one, le_rfl⟩
  · rename_i hpos
    obtain ⟨htau, hframe⟩ := not_or.mp hpos
    have hneg : -frameMs / tauMs ≤ 0 :=
      div_nonpos_of_nonpos_of_nonneg (neg_nonpos.mpr (not_le.mp hframe).le) (not_le.mp htau).le
    obtain ⟨hlow, hhigh⟩ := hexp _ hneg
    constructor <;> linarith

theorem smooth_between (hexp : m.Damps) (current target tauMs frameMs : ℚ) :
    min current target ≤ smooth current target (msToAlpha m tauMs frameMs) ∧
      smooth current target (msToAlpha m tauMs frameMs) ≤ max current target :=
  smooth_mem (msToAlpha_mem hexp tauMs frameMs).1 (msToAlpha_mem hexp tauMs frameMs).2
    ⟨min_le_left _ _, le_max_left _ _⟩ ⟨min_le_right _ _, le_max_right _ _⟩

/-! ## Gain control -/

section GainControl

variable {agc : Agc}

theorem Agc.process_empty (hempty : f.isEmpty = true) : (agc.process m f).1 = agc := by
  rw [process, if_pos hempty]

theorem Agc.process_cfg (m : Maths) (agc : Agc) (f : Frame) : (agc.process m f).1.cfg = agc.cfg := by
  unfold process
  split
  · rfl
  · rfl

def Agc.fullHold (agc : Agc) : ℚ := agc.cfg.holdMs / 1000 * agc.cfg.sampleRate

/-- The gain in its bounds. -/
def Agc.Bounded (agc : Agc) : Prop := 1 / 100 ≤ agc.currentGainLinear ∧ agc.currentGainLinear ≤ 8

theorem Agc.process_full (hempty : f.isEmpty = false) : (agc.process m f).1 =
    { agc with
      currentGainLinear := clamp (agc.moved m f).1 (1 / 100) 8
      holdRemainingSamples := (agc.moved m f).2 } := by
  rw [process, if_neg (by simp [hempty])]

/-- What one frame does: it raises the gain and sets the timer, lowers it with the timer run out, or counts. -/
theorem Agc.moved_cases (m : Maths) (agc : Agc) (f : Frame) :
    agc.currentGainLinear < agc.targetGainLinear m f ∧ (agc.moved m f).2 = agc.fullHold ∨
    agc.targetGainLinear m f ≤ agc.currentGainLinear ∧
      (agc.holdRemainingSamples ≤ 0 ∧ (agc.moved m f).2 = agc.holdRemainingSamples ∨
        (agc.moved m f).1 = agc.currentGainLinear ∧
          (agc.moved m f).2 = max 0 (agc.holdRemainingSamples - f.frameCount)) := by
  unfold moved
  by_cases hraise : agc.currentGainLinear < agc.targetGainLinear m f
  · rw [if_pos hraise]
    exact .inl ⟨hraise, rfl⟩
  · by_cases hhold : agc.holdRemainingSamples ≤ 0
    · rw [if_neg hraise, if_pos hhold]
      exact .inr ⟨not_lt.mp hraise, .inl ⟨hhold, rfl⟩⟩
    · rw [if_neg hraise, if_neg hhold]
      exact .inr ⟨not_lt.mp hraise, .inr ⟨rfl, rfl⟩⟩

theorem Agc.moved_between (hexp : m.Damps) (agc : Agc) (f : Frame) :
    min agc.currentGainLinear (agc.targetGainLinear m f) ≤ (agc.moved m f).1 ∧
      (agc.moved m f).1 ≤ max agc.currentGainLinear (agc.targetGainLinear m f) := by
  unfold moved
  dsimp only
  split_ifs
  · exact smooth_between hexp _ _ _ _
  · exact smooth_between hexp _ _ _ _
  · exact ⟨min_le_left _ _, le_max_left _ _⟩

theorem Agc.process_between (hexp : m.Damps) (hbounded : agc.Bounded) (f : Frame) :
    min agc.currentGainLinear (agc.targetGainLinear m f) ≤ (agc.process m f).1.currentGainLinear ∧
      (agc.process m f).1.currentGainLinear ≤ max agc.currentGainLinear (agc.targetGainLinear m f) := by
  cases hempty : f.isEmpty with
  | true =>
    rw [process_empty hempty]
    exact ⟨min_le_left _ _, le_max_left _ _⟩
  | false =>
    rw [process_full hempty]
    exact clamp_between hbounded.1 hbounded.2 (moved_between hexp agc f)

theorem Agc.process_bounded (hbounded : agc.Bounded) (f : Frame) : (agc.process m f).1.Bounded := by
  cases hempty : f.isEmpty with
  | true =>
    rw [process_empty hempty]
    exact hbounded
  | false =>
    rw [process_full hempty]
    exact ⟨low_le_clamp (by norm_num), clamp_le_high (by norm_num)⟩

/-- A frame that raises the gain sets the timer. -/
theorem Agc.hold_of_raise (hexp : m.Damps) (hbounded : agc.Bounded)
    (hraise : agc.currentGainLinear < (agc.process m f).1.currentGainLinear) :
    (agc.process m f).1.holdRemainingSamples = agc.fullHold := by
  cases hempty : f.isEmpty with
  | true =>
    rw [process_empty hempty] at hraise
    exact absurd hraise (lt_irrefl _)
  | false =>
    have hbetween := (process_between hexp hbounded f).2
    rcases moved_cases m agc f with ⟨-, hfull⟩ | ⟨htarget, -⟩
    · rw [process_full hempty]
      exact hfull
    · rw [max_eq_left htarget] at hbetween
      exact absurd hraise (not_lt.mpr hbetween)

/-- A frame that lowers the gain finds the timer run out. -/
theorem Agc.hold_of_lower (hexp : m.Damps) (hbounded : agc.Bounded)
    (hlower : (agc.process m f).1.currentGainLinear < agc.currentGainLinear) : agc.holdRemainingSamples ≤ 0 := by
  cases hempty : f.isEmpty with
  | true =>
    rw [process_empty hempty] at hlower
    exact absurd hlower (lt_irrefl _)
  | false =>
    have hbetween := (process_between hexp hbounded f).1
    rcases moved_cases m agc f with ⟨hraise, -⟩ | ⟨-, ⟨hover, -⟩ | ⟨hsame, -⟩⟩
    · rw [min_eq_left hraise.le] at hbetween
      exact absurd hlower (not_lt.mpr hbetween)
    · exact hover
    · rw [process_full hempty] at hlower
      dsimp only at hlower
      rw [hsame, clamp_of_mem hbounded.1 hbounded.2] at hlower
      exact absurd hlower (lt_irrefl _)

/-- What the timer has still to run, and the frames since it was set, make up the whole time. -/
theorem Agc.hold_step {spent : ℚ} (hspent : 0 ≤ spent) (h : agc.fullHold ≤ agc.holdRemainingSamples + spent)
    (hempty : f.isEmpty = false) :
    agc.fullHold ≤ (agc.process m f).1.holdRemainingSamples + (spent + f.frameCount) := by
  have hcount : (0 : ℚ) ≤ f.frameCount := Nat.cast_nonneg _
  rw [process_full hempty]
  dsimp only
  rcases moved_cases m agc f with ⟨-, hfull⟩ | ⟨-, ⟨-, hkept⟩ | ⟨-, hcounted⟩⟩
  · rw [hfull]
    linarith
  · rw [hkept]
    linarith
  · have hless := le_max_right 0 (agc.holdRemainingSamples - f.frameCount)
    rw [hcounted]
    linarith

end GainControl

section GainRuns

variable {cfg : Agc.Config (Option ℚ)}

theorem Agc.run_concat (m : Maths) (cfg : Agc.Config (Option ℚ)) (frames : List Frame) (f : Frame) :
    run m cfg (frames ++ [f]) = ((run m cfg frames).process m f).1 := by
  rw [run, List.foldl_concat, run]

theorem Agc.run_bounded (m : Maths) (cfg : Agc.Config (Option ℚ)) (frames : List Frame) : (run m cfg frames).Bounded := by
  induction frames using List.reverseRecOn with
  | nil => exact ⟨by norm_num [run, new], by norm_num [run, new]⟩
  | append_singleton frames f ih =>
    rw [run_concat]
    exact process_bounded ih f

theorem Agc.run_cfg (m : Maths) (cfg : Agc.Config (Option ℚ)) (frames : List Frame) :
    (run m cfg frames).cfg = (new cfg).cfg := by
  induction frames using List.reverseRecOn with
  | nil => rfl
  | append_singleton frames f ih =>
    rw [run_concat, process_cfg]
    exact ih

theorem Agc.run_fullHold (m : Maths) (cfg : Agc.Config (Option ℚ)) (frames : List Frame) :
    (run m cfg frames).fullHold = (new cfg).fullHold := by
  rw [fullHold, run_cfg, fullHold]

theorem countSamples_nonneg (frames : List Frame) : 0 ≤ countSamples frames :=
  List.sum_nonneg fun x hx => by
    obtain ⟨f, -, rfl⟩ := List.mem_map.mp hx
    exact Nat.cast_nonneg _

/-- The timer behind a raise. -/
theorem Agc.hold_since (hexp : m.Damps) (before : List Frame) (raised : Frame) (between : List Frame)
    (hraise : (run m cfg before).currentGainLinear < (run m cfg (before ++ [raised])).currentGainLinear) :
    (new cfg).fullHold ≤
      (run m cfg (before ++ raised :: between)).holdRemainingSamples + countSamples between := by
  induction between using List.reverseRecOn with
  | nil =>
    rw [run_concat] at hraise ⊢
    rw [hold_of_raise hexp (run_bounded m cfg before) hraise, run_fullHold]
    exact le_add_of_nonneg_right (countSamples_nonneg [])
  | append_singleton between f ih =>
    have hsplit : before ++ raised :: (between ++ [f]) = before ++ raised :: between ++ [f] := by simp
    rw [hsplit, run_concat]
    cases hempty : f.isEmpty with
    | true =>
      rw [process_empty hempty, countSamples_concat_empty hempty]
      exact ih
    | false =>
      rw [countSamples_concat hempty]
      have hstep := hold_step (m := m) (countSamples_nonneg between) ((run_fullHold m cfg _).trans_le ih) hempty
      rw [run_fullHold] at hstep
      exact hstep

theorem Agc.timed (hexp : m.Damps) (cfg : Agc.Config (Option ℚ)) : Timed m cfg where
  held before raised between lowered hraise hlower := by
    rw [run_concat m cfg (before ++ raised :: between) lowered] at hlower
    have hover := hold_of_lower hexp (run_bounded m cfg _) hlower
    have hsince := hold_since hexp before raised between hraise
    have hrate : (0 : ℚ) < (new cfg).cfg.sampleRate := (new cfg).cfg.sampleRate.property
    have hspent : (new cfg).fullHold ≤ countSamples between := by linarith
    unfold fullHold at hspent
    rw [durationMs_taken, ← div_le_iff₀ (by norm_num), le_div_iff₀ hrate]
    exact hspent
  aimed before f := by
    rw [run_concat]
    exact process_between hexp (run_bounded m cfg before) f
  bounded frames := run_bounded m cfg frames

end GainRuns

/-! ## Voice detection -/

section VoiceRuns

variable {vad : Vad} {cfg : Vad.Config (Option ℚ)}

theorem Vad.process_empty (hempty : f.isEmpty = true) : vad.process m f = vad := by
  rw [process, if_pos hempty]

theorem Vad.process_cfg (m : Maths) (vad : Vad) (f : Frame) : (vad.process m f).cfg = vad.cfg := by
  unfold process
  dsimp only
  split_ifs <;> rfl

/-- The counter is the length of a run of frames at `level` that ends here. -/
def CountsRun (level : Frame → Prop) (count : ℚ) (frames : List Frame) : Prop :=
  ∃ front back, frames = front ++ back ∧ (∀ f ∈ taken back, level f) ∧ count = countSamples back

theorem CountsRun.nil (level : Frame → Prop) (frames : List Frame) : CountsRun level 0 frames :=
  ⟨frames, [], (List.append_nil frames).symm, fun f hf => (by cases hf), rfl⟩

theorem CountsRun.skip {level : Frame → Prop} {count : ℚ} (h : CountsRun level count frames) (hempty : f.isEmpty = true) :
    CountsRun level count (frames ++ [f]) := by
  obtain ⟨front, back, rfl, hlevel, rfl⟩ := h
  refine ⟨front, back ++ [f], List.append_assoc _ _ _, ?_, (countSamples_concat_empty hempty).symm⟩
  rw [taken_concat_empty hempty]
  exact hlevel

theorem CountsRun.count {level : Frame → Prop} {count : ℚ} (h : CountsRun level count frames) (hempty : f.isEmpty = false)
    (hf : level f) : CountsRun level (count + f.frameCount) (frames ++ [f]) := by
  obtain ⟨front, back, rfl, hlevel, rfl⟩ := h
  refine ⟨front, back ++ [f], List.append_assoc _ _ _, ?_, (countSamples_concat hempty).symm⟩
  rw [taken_concat hempty]
  exact List.forall_mem_append.mpr ⟨hlevel, List.forall_mem_singleton.mpr hf⟩

theorem CountsRun.endsRun {level : Frame → Prop} {count ms : ℚ} {rate : Rate} (h : CountsRun level count frames)
    (hempty : f.isEmpty = false) (hf : level f) (hlong : ms ≤ (count + f.frameCount) / rate * 1000) :
    EndsRun level rate ms frames f := by
  obtain ⟨front, back, rfl, hlevel, rfl⟩ := h
  refine ⟨hempty, front, back, rfl, ?_, ?_⟩
  · rw [taken_concat hempty]
    exact List.forall_mem_append.mpr ⟨hlevel, List.forall_mem_singleton.mpr hf⟩
  · rw [durationMs_taken, countSamples_concat hempty]
    exact hlong

/-- The counter that is used next belongs to the run that is under way. -/
structure Vad.Counts (m : Maths) (vad : Vad) (frames : List Frame) : Prop where
  speech : vad.isSpeech = false → CountsRun (fun f => vad.enterThreshold ≤ rmsDb m f) vad.speechSamples frames
  silence : vad.isSpeech = true → CountsRun (fun f => rmsDb m f ≤ vad.exitThreshold) vad.silenceSamples frames

theorem Vad.process_speaking (hspeech : vad.isSpeech = true) (hempty : f.isEmpty = false) : vad.process m f =
    if rmsDb m f ≤ vad.exitThreshold then
      if (vad.silenceSamples + f.frameCount) / vad.cfg.sampleRate * 1000 ≥ vad.cfg.minSilenceMs then
        { vad with isSpeech := false, speechSamples := 0, silenceSamples := 0 }
      else { vad with silenceSamples := vad.silenceSamples + f.frameCount }
    else { vad with silenceSamples := 0 } := by
  rw [process, if_neg (by simp [hempty]), if_pos hspeech]

theorem Vad.process_silent (hspeech : vad.isSpeech = false) (hempty : f.isEmpty = false) : vad.process m f =
    if rmsDb m f ≥ vad.enterThreshold then
      if (vad.speechSamples + f.frameCount) / vad.cfg.sampleRate * 1000 ≥ vad.cfg.minSpeechMs then
        { vad with isSpeech := true, speechSamples := vad.speechSamples + f.frameCount, silenceSamples := 0 }
      else { vad with speechSamples := vad.speechSamples + f.frameCount, silenceSamples := 0 }
    else { vad with speechSamples := 0 } := by
  rw [process, if_neg (by simp [hempty]), if_neg (by simp [hspeech])]

theorem Vad.Counts.process (h : Counts m vad frames) (f : Frame) : Counts m (vad.process m f) (frames ++ [f]) := by
  cases hempty : f.isEmpty with
  | true =>
    rw [process_empty hempty]
    exact ⟨fun hsilent => (h.speech hsilent).skip hempty, fun hspeech => (h.silence hspeech).skip hempty⟩
  | false =>
    cases hspeech : vad.isSpeech with
    | true =>
      rw [process_speaking hspeech hempty]
      split_ifs with hexit hlong
      · exact ⟨fun _ => .nil _ _, fun hon => (by cases hon)⟩
      · exact ⟨fun hoff => (by cases hspeech.symm.trans hoff), fun _ => (h.silence hspeech).count hempty hexit⟩
      · exact ⟨fun hoff => (by cases hspeech.symm.trans hoff), fun _ => .nil _ _⟩
    | false =>
      rw [process_silent hspeech hempty]
      split_ifs with henter hlong
      · exact ⟨fun hoff => (by cases hoff), fun _ => .nil _ _⟩
      · exact ⟨fun _ => (h.speech hspeech).count hempty henter, fun hon => (by cases hspeech.symm.trans hon)⟩
      · exact ⟨fun _ => .nil _ _, fun hon => (by cases hspeech.symm.trans hon)⟩

theorem Vad.run_concat (m : Maths) (cfg : Vad.Config (Option ℚ)) (frames : List Frame) (f : Frame) :
    run m cfg (frames ++ [f]) = (run m cfg frames).process m f := by
  rw [run, List.foldl_concat, run]

theorem Vad.run_counts (m : Maths) (cfg : Vad.Config (Option ℚ)) (frames : List Frame) :
    Counts m (run m cfg frames) frames := by
  induction frames using List.reverseRecOn with
  | nil => exact ⟨fun _ => .nil _ _, fun hon => by cases hon⟩
  | append_singleton frames f ih =>
    rw [run_concat]
    exact ih.process f

theorem Vad.run_cfg (m : Maths) (cfg : Vad.Config (Option ℚ)) (frames : List Frame) :
    (run m cfg frames).cfg = (new cfg).cfg := by
  induction frames using List.reverseRecOn with
  | nil => rfl
  | append_singleton frames f ih =>
    rw [run_concat, process_cfg]
    exact ih

theorem Vad.timed (m : Maths) (cfg : Vad.Config (Option ℚ)) : Timed m cfg where
  on before f hoff hon := by
    have hcounts := (run_counts m cfg before).speech hoff
    have hcfg := run_cfg m cfg before
    rw [run_concat] at hon
    cases hempty : f.isEmpty with
    | true =>
      rw [process_empty hempty, hoff] at hon
      cases hon
    | false =>
      rw [process_silent hoff hempty] at hon
      split_ifs at hon with henter hlong
      · unfold enterThreshold at hcounts henter ⊢
        rw [hcfg] at hcounts henter hlong
        exact hcounts.endsRun hempty henter hlong
      · exact absurd hon (by simp [hoff])
      · exact absurd hon (by simp [hoff])
  off before f hon hoff := by
    have hcounts := (run_counts m cfg before).silence hon
    have hcfg := run_cfg m cfg before
    rw [run_concat] at hoff
    cases hempty : f.isEmpty with
    | true =>
      rw [process_empty hempty, hon] at hoff
      cases hoff
    | false =>
      rw [process_speaking hon hempty] at hoff
      split_ifs at hoff with hexit hlong
      · unfold exitThreshold at hcounts hexit ⊢
        rw [hcfg] at hcounts hexit hlong
        exact hcounts.endsRun hempty hexit hlong
      · exact absurd hoff (by simp [hon])
      · exact absurd hoff (by simp [hon])

end VoiceRuns

/-! ## Ducking -/

theorem Ducker.process_mem (hexp : m.Damps) {ducker : Ducker}
    (h : min 0 ducker.cfg.targetAttenuationDb ≤ ducker.currentGainDb ∧
      ducker.currentGainDb ≤ max 0 ducker.cfg.targetAttenuationDb) (f : Frame) (voiceActive : Bool) :
    (ducker.process m f voiceActive).1.cfg = ducker.cfg ∧
      min 0 ducker.cfg.targetAttenuationDb ≤ (ducker.process m f voiceActive).1.currentGainDb ∧
      (ducker.process m f voiceActive).1.currentGainDb ≤ max 0 ducker.cfg.targetAttenuationDb := by
  unfold process
  split
  · exact ⟨rfl, h⟩
  · refine ⟨rfl, smooth_mem (msToAlpha_mem hexp _ _).1 (msToAlpha_mem hexp _ _).2 h ?_⟩
    cases voiceActive with
    | true => exact ⟨min_le_right _ _, le_max_right _ _⟩
    | false => exact ⟨min_le_left _ _, le_max_left _ _⟩

theorem Ducker.timed (hexp : m.Damps) (cfg : Ducker.Config (Option ℚ)) : Timed m cfg := by
  intro steps
  have hboth : (run m cfg steps).cfg = (new cfg).cfg ∧ min 0 cfg.targetAttenuationDb ≤ (run m cfg steps).currentGainDb ∧
      (run m cfg steps).currentGainDb ≤ max 0 cfg.targetAttenuationDb := by
    induction steps using List.reverseRecOn with
    | nil => exact ⟨rfl, min_le_left _ _, le_max_left _ _⟩
    | append_singleton steps step ih =>
      obtain ⟨hcfg, hmem⟩ := ih
      have htarget : (run m cfg steps).cfg.targetAttenuationDb = cfg.targetAttenuationDb := by rw [hcfg]; rfl
      rw [← htarget] at hmem
      obtain ⟨hcfg', hmem'⟩ := process_mem hexp hmem step.1 step.2
      rw [htarget] at hmem'
      rw [run, List.foldl_concat]
      exact ⟨hcfg'.trans hcfg, hmem'⟩
  exact hboth.2

/-! ## The pre-processor -/

section Stages

variable {p : PreProcessor}

theorem PreProcessor.next_refused (h : f.refused = true) : p.next m f = p := by
  rw [next, process, if_pos h]

theorem PreProcessor.next_taken (h : f.refused = false) : p.next m f =
    let heard := (p.controlled m f).2
    { p with
      agc := (p.controlled m f).1
      vad := (p.observed m heard).1
      noiseGateGain := (p.gated m heard).1
      ducker := (p.ducked m (p.gated m heard).2 (p.observed m heard).2).1 } := by
  rw [next, process, if_neg (by simp [h])]

theorem PreProcessor.next_agc (m : Maths) (p : PreProcessor) (f : Frame) : (p.next m f).agc =
    (p.agcInput f).toList.foldl (fun agc f => (agc.process m f).1) p.agc := by
  cases hrefused : f.refused with
  | true => simp [next_refused hrefused, agcInput, hrefused]
  | false =>
    rw [next_taken hrefused]
    cases henabled : p.enableAgc <;> simp [agcInput, controlled, hrefused, henabled]

theorem PreProcessor.next_vad (m : Maths) (p : PreProcessor) (f : Frame) : (p.next m f).vad =
    (p.vadInput m f).toList.foldl (Vad.process m) p.vad := by
  cases hrefused : f.refused with
  | true => simp [next_refused hrefused, vadInput, hrefused]
  | false =>
    rw [next_taken hrefused]
    cases henabled : p.enableVad <;> simp [vadInput, observed, hrefused, henabled]

theorem PreProcessor.next_ducker (m : Maths) (p : PreProcessor) (f : Frame) : (p.next m f).ducker =
    (p.duckerInput m f).toList.foldl (fun ducker step => (ducker.process m step.1 step.2).1) p.ducker := by
  cases hrefused : f.refused with
  | true => simp [next_refused hrefused, duckerInput, hrefused]
  | false =>
    rw [next_taken hrefused]
    cases henabled : p.enableDucking <;> simp [duckerInput, ducked, hrefused, henabled]

theorem PreProcessor.next_gate (hexp : m.Damps) (h : 0 ≤ p.noiseGateGain ∧ p.noiseGateGain ≤ 1) (f : Frame) :
    0 ≤ (p.next m f).noiseGateGain ∧ (p.next m f).noiseGateGain ≤ 1 := by
  cases hrefused : f.refused with
  | true =>
    rw [next_refused hrefused]
    exact h
  | false =>
    rw [next_taken hrefused]
    dsimp only
    unfold gated
    dsimp only
    split_ifs
    · exact smooth_mem (msToAlpha_mem hexp _ _).1 (msToAlpha_mem hexp _ _).2 h ⟨le_rfl, zero_le_one⟩
    · exact smooth_mem (msToAlpha_mem hexp _ _).1 (msToAlpha_mem hexp _ _).2 h ⟨zero_le_one, le_rfl⟩
    · exact h

theorem PreProcessor.timed (hexp : m.Damps) (cfg : PreProcessor.Config) : Timed m cfg where
  agc frames := part_foldl (next_agc m) (new cfg) frames
  vad frames := part_foldl (next_vad m) (new cfg) frames
  ducker frames := part_foldl (next_ducker m) (new cfg) frames
  gate frames := by
    induction frames using List.reverseRecOn with
    | nil => exact ⟨zero_le_one, le_rfl⟩
    | append_singleton frames f ih =>
      rw [run, List.foldl_concat]
      exact next_gate hexp ih f

theorem Agc.process_reset (m : Maths) (agc : Agc) (f : Frame) : (agc.process m f).1.reset = agc.reset := by
  rw [reset, process_cfg, reset]

theorem Vad.process_reset (m : Maths) (vad : Vad) (f : Frame) : (vad.process m f).reset = vad.reset := by
  rw [reset, process_cfg, reset]

theorem Ducker.process_reset (m : Maths) (ducker : Ducker) (f : Frame) (voiceActive : Bool) :
    (ducker.process m f voiceActive).1.reset = ducker.reset := by
  unfold process
  split <;> rfl

theorem PreProcessor.next_reset (m : Maths) (p : PreProcessor) (f : Frame) : (p.next m f).reset = p.reset := by
  cases hrefused : f.refused with
  | true => rw [next_refused hrefused]
  | false =>
    have hagc : (p.controlled m f).1.reset = p.agc.reset := by
      unfold controlled
      split
      · exact Agc.process_reset m p.agc f
      · rfl
    have hvad : ∀ heard, (p.observed m heard).1.reset = p.vad.reset := by
      intro heard
      unfold observed
      split
      · exact Vad.process_reset m p.vad heard
      · rfl
    have hducker : ∀ heard speech, (p.ducked m heard speech).1.reset = p.ducker.reset := by
      intro heard speech
      unfold ducked
      split
      · exact Ducker.process_reset m p.ducker heard speech
      · rfl
    rw [next_taken hrefused, reset, reset]
    simp only [hagc, hvad, hducker]

/-- Behind a reset the pre-processor is as the constructor makes it. -/
theorem PreProcessor.reset_run (m : Maths) (cfg : PreProcessor.Config) (frames : List Frame) :
    (run m cfg frames).reset = new cfg := by
  induction frames using List.reverseRecOn with
  | nil => rfl
  | append_singleton frames f ih =>
    rw [run, List.foldl_concat, next_reset]
    exact ih

end Stages

theorem effects_keep_time (m : Maths) (hexp : ∀ x ≤ 0, 0 ≤ m.exp x ∧ m.exp x ≤ 1) :
    (∀ cfg, Agc.Timed m cfg) ∧ (∀ cfg, Vad.Timed m cfg) ∧ (∀ cfg, Ducker.Timed m cfg) ∧ ∀ cfg, PreProcessor.Timed m cfg :=
  ⟨Agc.timed hexp, Vad.timed m, Ducker.timed hexp, PreProcessor.timed hexp⟩

/-- The exponential by the first terms of its reciprocal, the others exact on powers of ten. -/
def roughMaths : Maths where
  exp x := 1 / (1 - x + x ^ 2 / 2)
  log10 x := Int.log 10 x
  pow10 x := 10 ^ ⌊x⌋

theorem effects_keep_time_rough : (∀ cfg, Agc.Timed roughMaths cfg) ∧ (∀ cfg, Vad.Timed roughMaths cfg) ∧
    (∀ cfg, Ducker.Timed roughMaths cfg) ∧ ∀ cfg, PreProcessor.Timed roughMaths cfg := by
  refine effects_keep_time roughMaths fun x hx => ?_
  have hone : 1 ≤ 1 - x + x ^ 2 / 2 := by linarith [sq_nonneg x]
  exact ⟨div_nonneg zero_le_one (zero_le_one.trans hone), div_le_one_of_le₀ hone (zero_le_one.trans hone)⟩

end Sunshine.AudioFx
