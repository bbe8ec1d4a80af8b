import Sunshine.Input.Dispatch

/-! Which vectors of a client are dispatched inside their bytes.

`run_complete` is about every run of complete vectors, and `inside_iff_complete` says that among complete ones
exactly a complete vector is always dispatched inside its bytes and theirs. -/
namespace Sunshine.Casts
open Coalesce Input Outcomes
set_option autoImplicit false

/-! ## Text -/

theorem unicodeLength_eq {size : Vec} (h : magicSize ≤ (bigUInt32 size).toNat) :
    unicodeLength size = (bigUInt32 size).toNat - magicSize := by
  have hlt := (bigUInt32 size).toNat_lt
  unfold unicodeLength
  unfold magicSize at h ⊢
  omega

/-- A size below that of the magic wraps around to a length that no string has. -/
theorem unicodeLength_iff (size : Vec) :
    ¬maxStringSize < unicodeLength size ↔ magicSize ≤ (bigUInt32 size).toNat := by
  have hlt := (bigUInt32 size).toNat_lt
  unfold unicodeLength maxStringSize magicSize
  omega

theorem yields_readText {v : Vec} {text length : ℕ} :
    Yields (readText v text length) (fun _ => True) ↔ text + length ≤ v.length := by
  unfold readText
  by_cases h : text + length ≤ v.length
  · simp [h]
  · simp [h]

theorem printUnicode_iff (L : Layout) (v : Vec) :
    Yields (printUnicode L v) (fun _ => True) ↔ L.header.size.stop ≤ v.length ∧ magicSize ≤ sizeAt L v ∧
      L.unicode.text + (sizeAt L v - magicSize) ≤ v.length := by
  unfold printUnicode
  rw [yields_bind, yields_read]
  refine and_congr_right fun _ => ?_
  by_cases hlong : maxStringSize < unicodeLength (slice v L.header.size)
  · have hsmall : ¬magicSize ≤ sizeAt L v := fun h => (unicodeLength_iff _).mpr h hlong
    rw [if_pos hlong, yields_error]
    exact iff_of_false id fun h => hsmall h.1
  · have hsize : magicSize ≤ sizeAt L v := (unicodeLength_iff _).mp hlong
    rw [if_neg hlong, yields_readText, unicodeLength_eq hsize]
    exact ⟨fun h => ⟨hsize, h⟩, fun h => h.2⟩

/-- The length as an `int`. -/
theorem intLength_eq {size : Vec} (h : magicSize ≤ (bigUInt32 size).toNat) :
    Int.bmod (unicodeLength size) (2 ^ 32) =
      if (bigUInt32 size).toNat - magicSize ≤ 2147483647 then (((bigUInt32 size).toNat - magicSize : ℕ) : ℤ)
      else (((bigUInt32 size).toNat - magicSize : ℕ) : ℤ) - 2 ^ 32 := by
  have hlt := (bigUInt32 size).toNat_lt
  rw [unicodeLength_eq h, Int.bmod_def]
  unfold magicSize
  split_ifs <;> omega

theorem passthroughUnicode_of_text {L : Layout} {env : Env} {v : Vec} (hsize : L.header.size.stop ≤ v.length)
    (htext : TextInside L v) : Yields (passthroughUnicode L env v) fun _ => True := by
  obtain ⟨hmin, hfits, hint⟩ := htext
  have hlength : Int.bmod (unicodeLength (slice v L.header.size)) (2 ^ 32) = (sizeAt L v - magicSize : ℕ) := by
    rw [intLength_eq hmin]
    exact if_pos hint
  unfold passthroughUnicode
  rw [yields_ite, yields_bind, yields_read]
  refine ⟨fun _ => ⟨hsize, ?_⟩, fun _ => yields_pure.mpr trivial⟩
  simp only
  rw [yields_ite, hlength, if_neg (Int.not_lt.mpr (Int.natCast_nonneg _)), Int.toNat_natCast, yields_readText]
  exact ⟨fun _ => hfits, fun _ => yields_pure.mpr trivial⟩

theorem text_of_passthroughUnicode {L : Layout} {env : Env} {v : Vec} (hkeyboard : env.keyboard = true)
    (htypes : env.typesUnicode = true) (hmin : magicSize ≤ sizeAt L v)
    (h : Yields (passthroughUnicode L env v) fun _ => True) : sizeAt L v - magicSize ≤ 2147483647 := by
  unfold passthroughUnicode at h
  rw [if_pos hkeyboard, yields_bind, yields_read] at h
  obtain ⟨-, h⟩ := h
  simp only at h
  rw [if_pos htypes, yields_ite, intLength_eq hmin] at h
  by_contra hlong
  unfold sizeAt at hlong
  have hlt := (bigUInt32 (slice v L.header.size)).toNat_lt
  refine yields_error.mp (h.1 ?_)
  rw [if_neg hlong]
  unfold magicSize
  omega

/-! ## Complete vectors -/

theorem Complete.covered {L : Layout} {v : Vec} {m : Magic} (hv : Complete L v) (hm : magicAt L v = m)
    {fields : List Field} (hsub : fields ⊆ L.header.magic :: L.fields m) : ∀ f ∈ fields, f.stop ≤ v.length := by
  intro f hf
  rcases List.mem_cons.mp (hsub hf) with rfl | hmem
  · exact hv.header
  · rw [← hm] at hmem
    exact hv.fields f hmem

theorem yields_log {enabled : Bool} {v : Vec} {fields : List Field} (h : ∀ f ∈ fields, f.stop ≤ v.length) :
    Yields (log enabled v fields) fun _ => True := by
  unfold log
  rw [yields_ite]
  exact ⟨fun _ => yields_readAll.mpr h, fun _ => yields_pure.mpr trivial⟩

theorem print_complete {L : Layout} {v : Vec} (env : Env) (hv : Complete L v) :
    Yields (print L env v) fun _ => True := by
  unfold print
  rw [yields_bind, yields_read]
  refine ⟨hv.header, ?_⟩
  change Yields (printAs L env v (magicAt L v)) fun _ => True
  cases hm : magicAt L v with
  | utf8Text =>
    obtain ⟨hmin, hfits, -⟩ := hv.text hm
    exact (printUnicode_iff L v).mpr ⟨hv.fields _ (by simp [hm, Layout.fields]), hmin, hfits⟩
  | other => exact yields_pure.mpr trivial
  | _ => exact yields_log (hv.covered hm (by simp [Layout.fields]))

theorem yields_passthroughFields {enabled : Bool} {v : Vec} {fields : List Field}
    (h : ∀ f ∈ fields, f.stop ≤ v.length) : Yields (passthroughFields enabled v fields) fun _ => True :=
  yields_log h

theorem yields_passthroughToPort {env : Env} {v : Vec} {coords fields : List Field}
    (hcoords : ∀ f ∈ coords, f.stop ≤ v.length) (hfields : ∀ f ∈ fields, f.stop ≤ v.length) :
    Yields (passthroughToPort env v coords fields) fun _ => True := by
  unfold passthroughToPort
  rw [yields_ite, yields_bind]
  refine ⟨fun _ => (yields_readAll.mpr hcoords).mono fun _ _ => ?_, fun _ => yields_pure.mpr trivial⟩
  exact yields_log hfields

theorem yields_passthroughToGamepad {wanted : Bool} {env : Env} {v : Vec} {controllerNumber : Field}
    {fields : List Field} (h : ∀ f ∈ controllerNumber :: fields, f.stop ≤ v.length) :
    Yields (passthroughToGamepad wanted env v controllerNumber fields) fun _ => True := by
  obtain ⟨hnumber, hfields⟩ := List.forall_mem_cons.mp h
  unfold passthroughToGamepad
  rw [yields_ite, yields_bind, yields_read]
  refine ⟨fun _ => ⟨hnumber, ?_⟩, fun _ => yields_pure.mpr trivial⟩
  rw [yields_ite, yields_ite]
  exact ⟨fun _ => yields_pure.mpr trivial, fun _ =>
    ⟨fun _ => yields_readAll.mpr hfields, fun _ => yields_pure.mpr trivial⟩⟩

theorem passthroughAbsMouseMove_complete {L : Layout} {v : Vec} (env : Env) (hv : Complete L v)
    (hm : magicAt L v = .mouseMoveAbs) : Yields (passthroughAbsMouseMove L env v) fun _ => True := by
  have hcoords : ∀ f ∈ [L.absMouseMove.x, L.absMouseMove.y], f.stop ≤ v.length :=
    hv.covered hm (by simp [Layout.fields])
  have hrange : ∀ f ∈ [L.absMouseMove.width, L.absMouseMove.height], f.stop ≤ v.length :=
    hv.covered hm (by simp [Layout.fields])
  obtain ⟨hwidth, hheight⟩ := List.forall_mem_cons.mp hrange
  unfold passthroughAbsMouseMove
  rw [yields_ite, yields_bind]
  refine ⟨fun _ => (yields_readAll.mpr hcoords).mono fun _ _ => ?_, fun _ => yields_pure.mpr trivial⟩
  rw [yields_bind, yields_read]
  refine ⟨hwidth, ?_⟩
  rw [yields_ite]
  exact ⟨fun _ => yields_pure.mpr trivial, fun _ => yields_readAll.mpr hheight⟩

theorem passthroughMultiController_complete {L : Layout} {v : Vec} (env : Env) (hv : Complete L v)
    (hm : magicAt L v = .multiController) : Yields (passthroughMultiController L env v) fun _ => True := by
  have hstate : ∀ f ∈ [L.multiController.buttonFlags, L.multiController.buttonFlags2,
      L.multiController.leftTrigger, L.multiController.rightTrigger, L.multiController.leftStickX,
      L.multiController.leftStickY, L.multiController.rightStickX, L.multiController.rightStickY],
      f.stop ≤ v.length := hv.covered hm (by simp [Layout.fields])
  have hnumber := hv.fields L.multiController.controllerNumber (by simp [hm, Layout.fields])
  have hmask := hv.fields L.multiController.activeGamepadMask (by simp [hm, Layout.fields])
  have hpure : Yields (pure () : Except Fault Unit) fun _ => True := yields_pure.mpr trivial
  unfold passthroughMultiController
  rw [yields_ite, yields_bind, yields_read]
  refine ⟨fun _ => ⟨hnumber, ?_⟩, fun _ => hpure⟩
  simp only
  rw [yields_ite, yields_bind, yields_read]
  refine ⟨fun _ => hpure, fun _ => ⟨hmask, ?_⟩⟩
  rw [yields_ite, yields_ite, yields_ite, yields_ite]
  have hread := yields_readAll.mpr hstate
  exact ⟨fun _ => ⟨fun _ => hread, fun _ => hpure⟩, fun _ =>
    ⟨fun _ => ⟨fun _ => hread, fun _ => hpure⟩, fun _ => hpure⟩⟩

theorem passthrough_complete {L : Layout} {v : Vec} (env : Env) (hv : Complete L v) :
    Yields (passthrough L env v) fun _ => True := by
  unfold passthrough
  rw [yields_bind, yields_read]
  refine ⟨hv.header, ?_⟩
  change Yields (passthroughAs L env v (magicAt L v)) fun _ => True
  cases hm : magicAt L v with
  | mouseMoveAbs => exact passthroughAbsMouseMove_complete env hv hm
  | utf8Text => exact passthroughUnicode_of_text (hv.fields _ (by simp [hm, Layout.fields])) (hv.text hm)
  | multiController => exact passthroughMultiController_complete env hv hm
  | touch =>
    exact yields_passthroughToPort (hv.covered hm (by simp [Layout.fields]))
      (hv.covered hm (by simp [Layout.fields]))
  | pen =>
    exact yields_passthroughToPort (hv.covered hm (by simp [Layout.fields]))
      (hv.covered hm (by simp [Layout.fields]))
  | controllerArrival => exact yields_passthroughToGamepad (hv.covered hm (by simp [Layout.fields]))
  | controllerTouch => exact yields_passthroughToGamepad (hv.covered hm (by simp [Layout.fields]))
  | controllerMotion => exact yields_passthroughToGamepad (hv.covered hm (by simp [Layout.fields]))
  | controllerBattery => exact yields_passthroughToGamepad (hv.covered hm (by simp [Layout.fields]))
  | other => exact yields_pure.mpr trivial
  | _ => exact yields_passthroughFields (hv.covered hm (by simp [Layout.fields]))

/-! ## Batching keeps vectors complete -/

/-- Of the same length and magic. -/
def Like (L : Layout) (v w : Vec) : Prop :=
  w.length = v.length ∧ slice w L.header.magic = slice v L.header.magic

theorem Like.magicAt_eq {L : Layout} {v w : Vec} (h : Like L v w) : magicAt L w = magicAt L v := by
  unfold magicAt
  rw [h.2]

theorem Like.complete {L : Layout} {v w : Vec} (h : Like L v w) (hv : Complete L v)
    (htext : magicAt L v ≠ .utf8Text) : Complete L w where
  header := by
    rw [h.1]
    exact hv.header
  fields := by
    rw [h.magicAt_eq, h.1]
    exact hv.fields
  text := fun hm => absurd (h.magicAt_eq.symm.trans hm) htext

theorem Like.refl {L : Layout} (v : Vec) : Like L v v := ⟨rfl, rfl⟩

/-- A field behind the header is written. -/
theorem Like.write {L : Layout} {v w : Vec} (h : Like L v w) {f : Field} (bytes : Vec)
    (hf : f.stop ≤ v.length) (hbehind : L.header.magic.stop ≤ f.offset)
    {rest : Vec → Except Fault (Verdict Vec)} {post : Verdict Vec → Prop}
    (hrest : ∀ w', Like L v w' → Yields (rest w') post) : Yields (write w f bytes >>= rest) post := by
  have hfw : f.stop ≤ w.length := by
    rw [h.1]
    exact hf
  rw [yields_bind, yields_write]
  exact ⟨hfw, hrest _ ⟨(length_overwrite bytes hfw).trans h.1,
    (slice_overwrite_before bytes hfw hbehind).trans h.2⟩⟩

def Keeps (L : Layout) (dest : Vec) (verdict : Verdict Vec) : Prop :=
  ∀ c, verdict = .batched c → Like L dest c

section Batch

variable {L : Layout} {dest src : Vec} {f : Field}

theorem keeps_terminate : Yields (pure .terminateBatch : Except Fault (Verdict Vec)) (Keeps L dest) :=
  yields_pure.mpr nofun

theorem keeps_notBatchable : Yields (pure .notBatchable : Except Fault (Verdict Vec)) (Keeps L dest) :=
  yields_pure.mpr nofun

theorem keeps_batched {c : Vec} (h : Like L dest c) :
    Yields (pure (.batched c) : Except Fault (Verdict Vec)) (Keeps L dest) := by
  refine yields_pure.mpr fun c' hc => ?_
  obtain rfl := Verdict.batched.inj hc
  exact h

theorem yields_differ {x y : Except Fault (Verdict Vec)} {post : Verdict Vec → Prop}
    (hdest : f.stop ≤ dest.length) (hsrc : f.stop ≤ src.length)
    (hx : Yields x post) (hy : Yields y post) :
    Yields (do if ← differ dest src f then x else y) post := by
  unfold differ
  rw [yields_bind, yields_bind, yields_read]
  refine ⟨hdest, ?_⟩
  rw [yields_bind, yields_read]
  refine ⟨hsrc, ?_⟩
  rw [yields_pure, yields_ite]
  exact ⟨fun _ => hx, fun _ => hy⟩

theorem yields_changesState {v : Vec} {x y : Except Fault (Verdict Vec)} {post : Verdict Vec → Prop}
    (hv : f.stop ≤ v.length) (hx : Yields x post) (hy : Yields y post) :
    Yields (do if ← changesState L v f then x else y) post := by
  unfold changesState
  rw [yields_bind, yields_bind, yields_read]
  refine ⟨hv, ?_⟩
  rw [yields_pure, yields_ite]
  exact ⟨fun _ => hx, fun _ => hy⟩

theorem yields_addOverflow {post : Option Int16 → Prop} : Yields (addOverflow dest src f) post ↔
    f.stop ≤ dest.length ∧ f.stop ≤ src.length ∧
      post (Batching.addOverflow (bigShort (slice dest f)) (bigShort (slice src f))) := by
  unfold addOverflow
  rw [yields_bind, yields_read, yields_bind, yields_read, yields_pure]

theorem keeps_assign {sizeof : ℕ} (hdest : sizeof ≤ dest.length) (hsrc : sizeof ≤ src.length)
    (hheader : L.header.magic.stop ≤ sizeof) (hsame : slice src L.header.magic = slice dest L.header.magic) :
    Yields (assign dest src sizeof) (Keeps L dest) := by
  have hstop : (whole sizeof).stop = sizeof := Nat.zero_add sizeof
  unfold assign
  rw [yields_bind, yields_read, yields_bind, yields_write, hstop]
  exact ⟨hsrc, hdest, keeps_batched ⟨length_overwrite _ (hstop.trans_le hdest),
    (slice_overwrite_whole hsrc hheader).trans hsame⟩⟩

/-- What two packets of a kind need to be batched. -/
structure Batchable (L : Layout) (m : Magic) (dest src : Vec) : Prop where
  inDest : ∀ f ∈ L.fields m, f.stop ≤ dest.length
  inSrc : ∀ f ∈ L.fields m, f.stop ≤ src.length
  same : slice src L.header.magic = slice dest L.header.magic

theorem Batchable.assign {m : Magic} (h : Batchable L m dest src) {sizeof : ℕ} (hmem : whole sizeof ∈ L.fields m)
    (hheader : L.header.magic.stop ≤ sizeof) : Yields (assign dest src sizeof) (Keeps L dest) := by
  have hstop : (whole sizeof).stop = sizeof := Nat.zero_add sizeof
  exact keeps_assign (hstop.symm.trans_le (h.inDest _ hmem)) (hstop.symm.trans_le (h.inSrc _ hmem)) hheader h.same

theorem Batchable.differ {m : Magic} (h : Batchable L m dest src) (hmem : f ∈ L.fields m)
    {x y : Except Fault (Verdict Vec)} {post : Verdict Vec → Prop} (hx : Yields x post) (hy : Yields y post) :
    Yields (do if ← differ dest src f then x else y) post :=
  yields_differ (h.inDest f hmem) (h.inSrc f hmem) hx hy

theorem batchRelMouseMove_keeps (hL : L.Packed) (h : Batchable L .mouseMoveRel dest src) :
    Yields (batchRelMouseMove L dest src) (Keeps L dest) := by
  have hx : L.relMouseMove.deltaX ∈ L.fields .mouseMoveRel := by simp [Layout.fields]
  have hy : L.relMouseMove.deltaY ∈ L.fields .mouseMoveRel := by simp [Layout.fields]
  unfold batchRelMouseMove
  rw [yields_bind, yields_addOverflow]
  refine ⟨h.inDest _ hx, h.inSrc _ hx, ?_⟩
  cases Batching.addOverflow _ _ with
  | none => exact keeps_terminate
  | some deltaX =>
    simp only
    rw [yields_bind, yields_addOverflow]
    refine ⟨h.inDest _ hy, h.inSrc _ hy, ?_⟩
    cases Batching.addOverflow _ _ with
    | none => exact keeps_terminate
    | some deltaY =>
      refine (Like.refl dest).write _ (h.inDest _ hx) (hL.behindHeader _ (by simp)) fun first hfirst => ?_
      refine hfirst.write _ (h.inDest _ hy) (hL.behindHeader _ (by simp)) fun second hsecond => ?_
      exact keeps_batched hsecond

theorem batchAbsMouseMove_keeps (hL : L.Packed) (h : Batchable L .mouseMoveAbs dest src) :
    Yields (batchAbsMouseMove L dest src) (Keeps L dest) := by
  obtain ⟨hheader, hends⟩ := hL.ends (L.absMouseMove.height, L.absMouseMove.sizeof) (by simp)
  unfold batchAbsMouseMove
  refine h.differ (by simp [Layout.fields]) keeps_terminate ?_
  refine h.differ (by simp [Layout.fields]) keeps_terminate ?_
  exact h.assign (by simp [Layout.fields]) (hheader.trans hends.le)

theorem batchScroll_keeps (hL : L.Packed) (h : Batchable L .scroll dest src) :
    Yields (batchScroll L dest src) (Keeps L dest) := by
  have h1 : L.scroll.scrollAmt1 ∈ L.fields .scroll := by simp [Layout.fields]
  have h2 : L.scroll.scrollAmt2 ∈ L.fields .scroll := by simp [Layout.fields]
  unfold batchScroll
  rw [yields_bind, yields_addOverflow]
  refine ⟨h.inDest _ h1, h.inSrc _ h1, ?_⟩
  cases Batching.addOverflow _ _ with
  | none => exact keeps_terminate
  | some scrollAmt =>
    refine (Like.refl dest).write _ (h.inDest _ h1) (hL.behindHeader _ (by simp)) fun first hfirst => ?_
    refine hfirst.write _ (h.inDest _ h2) (hL.behindHeader _ (by simp)) fun second hsecond => ?_
    exact keeps_batched hsecond

theorem batchHScroll_keeps (hL : L.Packed) (h : Batchable L .hscroll dest src) :
    Yields (batchHScroll L dest src) (Keeps L dest) := by
  have hmem : L.hscroll.scrollAmount ∈ L.fields .hscroll := by simp [Layout.fields]
  unfold batchHScroll
  rw [yields_bind, yields_addOverflow]
  refine ⟨h.inDest _ hmem, h.inSrc _ hmem, ?_⟩
  cases Batching.addOverflow _ _ with
  | none => exact keeps_terminate
  | some scrollAmt =>
    exact (Like.refl dest).write _ (h.inDest _ hmem) (hL.behindHeader _ (by simp)) fun _ => keeps_batched

theorem batchMultiController_keeps (hL : L.Packed) (h : Batchable L .multiController dest src) :
    Yields (batchMultiController L dest src) (Keeps L dest) := by
  unfold batchMultiController
  refine h.differ (by simp [Layout.fields]) keeps_terminate ?_
  refine h.differ (by simp [Layout.fields]) keeps_notBatchable ?_
  refine h.differ (by simp [Layout.fields]) keeps_terminate ?_
  refine h.differ (by simp [Layout.fields]) keeps_terminate ?_
  exact h.assign (by simp [Layout.fields]) hL.controller

theorem batchTouch_keeps (hL : L.Packed) (h : Batchable L .touch dest src) :
    Yields (batchTouch L dest src) (Keeps L dest) := by
  obtain ⟨hheader, hends⟩ := hL.ends (L.touch.contactAreaMinor, L.touch.sizeof) (by simp)
  have hevent : L.touch.eventType ∈ L.fields .touch := by simp [Layout.fields]
  unfold batchTouch
  refine yields_changesState (h.inDest _ hevent) keeps_terminate ?_
  refine yields_changesState (h.inSrc _ hevent) keeps_terminate ?_
  refine h.differ (by simp [Layout.fields]) keeps_notBatchable ?_
  refine h.differ hevent keeps_terminate ?_
  exact h.assign (by simp [Layout.fields]) (hheader.trans hends.le)

theorem batchPen_keeps (hL : L.Packed) (h : Batchable L .pen dest src) :
    Yields (batchPen L dest src) (Keeps L dest) := by
  obtain ⟨hheader, hends⟩ := hL.ends (L.pen.contactAreaMinor, L.pen.sizeof) (by simp)
  unfold batchPen
  refine yields_changesState (h.inDest _ (by simp [Layout.fields])) keeps_terminate ?_
  refine h.differ (by simp [Layout.fields]) keeps_terminate ?_
  refine h.differ (by simp [Layout.fields]) keeps_terminate ?_
  refine h.differ (by simp [Layout.fields]) keeps_terminate ?_
  exact h.assign (by simp [Layout.fields]) (hheader.trans hends.le)

theorem batchControllerTouch_keeps (hL : L.Packed) (h : Batchable L .controllerTouch dest src) :
    Yields (batchControllerTouch L dest src) (Keeps L dest) := by
  obtain ⟨hheader, hends⟩ := hL.ends (L.controllerTouch.pressure, L.controllerTouch.sizeof) (by simp)
  have hevent : L.controllerTouch.eventType ∈ L.fields .controllerTouch := by simp [Layout.fields]
  unfold batchControllerTouch
  refine yields_changesState (h.inDest _ hevent) keeps_terminate ?_
  refine h.differ (by simp [Layout.fields]) keeps_notBatchable ?_
  refine yields_changesState (h.inSrc _ hevent) keeps_terminate ?_
  refine h.differ (by simp [Layout.fields]) keeps_notBatchable ?_
  refine h.differ hevent keeps_terminate ?_
  exact h.assign (by simp [Layout.fields]) (hheader.trans hends.le)

theorem batchControllerMotion_keeps (hL : L.Packed) (h : Batchable L .controllerMotion dest src) :
    Yields (batchControllerMotion L dest src) (Keeps L dest) := by
  obtain ⟨hheader, hends⟩ := hL.ends (L.controllerMotion.z, L.controllerMotion.sizeof) (by simp)
  unfold batchControllerMotion
  refine h.differ (by simp [Layout.fields]) keeps_notBatchable ?_
  refine h.differ (by simp [Layout.fields]) keeps_notBatchable ?_
  exact h.assign (by simp [Layout.fields]) (hheader.trans hends.le)

/-- Text is not batched. -/
theorem batchAs_keeps (hL : L.Packed) {m : Magic} (h : Batchable L m dest src) :
    Yields (batchAs L dest src m) fun verdict => Keeps L dest verdict ∧ (m = .utf8Text → ∀ c, verdict ≠ .batched c) := by
  cases m with
  | mouseMoveRel => exact (batchRelMouseMove_keeps hL h).mono fun _ hk => ⟨hk, nofun⟩
  | mouseMoveAbs => exact (batchAbsMouseMove_keeps hL h).mono fun _ hk => ⟨hk, nofun⟩
  | scroll => exact (batchScroll_keeps hL h).mono fun _ hk => ⟨hk, nofun⟩
  | hscroll => exact (batchHScroll_keeps hL h).mono fun _ hk => ⟨hk, nofun⟩
  | multiController => exact (batchMultiController_keeps hL h).mono fun _ hk => ⟨hk, nofun⟩
  | touch => exact (batchTouch_keeps hL h).mono fun _ hk => ⟨hk, nofun⟩
  | pen => exact (batchPen_keeps hL h).mono fun _ hk => ⟨hk, nofun⟩
  | controllerTouch => exact (batchControllerTouch_keeps hL h).mono fun _ hk => ⟨hk, nofun⟩
  | controllerMotion => exact (batchControllerMotion_keeps hL h).mono fun _ hk => ⟨hk, nofun⟩
  | _ => exact yields_pure.mpr ⟨nofun, fun _ => nofun⟩

theorem batch_complete (hL : L.Packed) (hdest : Complete L dest) (hsrc : Complete L src) :
    Yields (batch L dest src) fun verdict => ∀ c, verdict = .batched c → Complete L c := by
  unfold batch differ
  rw [yields_bind, yields_bind, yields_read]
  refine ⟨hdest.header, ?_⟩
  rw [yields_bind, yields_read]
  refine ⟨hsrc.header, ?_⟩
  rw [yields_pure, yields_ite]
  refine ⟨fun _ => yields_pure.mpr nofun, fun hdiffer => ?_⟩
  have hsame : slice src L.header.magic = slice dest L.header.magic := by
    rw [decide_eq_true_eq, not_not] at hdiffer
    exact hdiffer.symm
  have hmagic : magicAt L src = magicAt L dest := by
    unfold magicAt
    rw [hsame]
  rw [yields_bind, yields_read]
  refine ⟨hdest.header, ?_⟩
  refine (batchAs_keeps (m := magicAt L dest) hL ⟨hdest.fields, hmagic ▸ hsrc.fields, hsame⟩).mono ?_
  rintro verdict ⟨hkeeps, htext⟩ c hc
  exact (hkeeps c hc).complete hdest fun hm => htext hm c hc

end Batch

/-! ## Runs -/

theorem dispatch_complete {L : Layout} (hL : L.Packed) (env : Env) {entry : Vec} {rest : List Vec}
    (hentry : Complete L entry) (hrest : ∀ v ∈ rest, Complete L v) :
    Yields (dispatch L env entry rest) fun inputQueue => ∀ v ∈ inputQueue, Complete L v := by
  unfold dispatch
  rw [yields_bind]
  refine (yields_coalesceM (fun a b => batch_complete hL) hentry hrest).mono ?_
  rintro taken ⟨hfront, hback⟩
  rw [yields_bind]
  refine (print_complete env hfront).mono fun _ _ => ?_
  rw [yields_bind]
  exact (passthrough_complete env hfront).mono fun _ _ => yields_pure.mpr hback

theorem step_complete {L : Layout} (hL : L.Packed) {inputQueue : List Vec} (event : Event)
    (hevent : ∀ v, event = .passthrough v → Complete L v) (hqueue : ∀ v ∈ inputQueue, Complete L v) :
    Yields (step L inputQueue event) fun inputQueue => ∀ v ∈ inputQueue, Complete L v := by
  cases event with
  | passthrough inputData =>
    refine yields_pure.mpr fun v hv => ?_
    rcases List.mem_append.mp hv with hmem | hmem
    · exact hqueue v hmem
    · obtain rfl := List.mem_singleton.mp hmem
      exact hevent v rfl
  | dispatch env =>
    cases inputQueue with
    | nil => exact yields_pure.mpr nofun
    | cons entry rest =>
      obtain ⟨hentry, hrest⟩ := List.forall_mem_cons.mp hqueue
      exact dispatch_complete hL env hentry hrest

theorem run_complete {L : Layout} (hL : L.Packed) {events : List Event}
    (hevents : ∀ v, .passthrough v ∈ events → Complete L v) : Inside L events := by
  have hrun : Yields (run L events) fun inputQueue => ∀ v ∈ inputQueue, Complete L v :=
    yields_foldlM nofun fun event hmem inputQueue hqueue =>
      step_complete hL event (fun v hv => hevents v (hv ▸ hmem)) hqueue
  obtain ⟨inputQueue, hok, -⟩ := hrun
  exact ⟨inputQueue, hok⟩

/-! ## What dispatching needs -/

/-- Everything is logged, enabled and there. -/
def Env.all : Env := ⟨true, true, true, true, true, true, true, fun _ => true, true⟩

theorem slice_append {v : Vec} {f : Field} (w : Vec) (h : f.stop ≤ v.length) : slice (v ++ w) f = slice v f := by
  unfold Field.stop at h
  unfold slice
  rw [List.drop_append_of_le_length (by omega), List.take_append_of_le_length (by rw [List.length_drop]; omega)]

theorem print_of_alone {L : Layout} {v : Vec} (h : Inside L [.passthrough v, .dispatch .all]) :
    Yields (print L .all v) (fun _ => True) ∧ Yields (passthrough L .all v) fun _ => True := by
  obtain ⟨inputQueue, hrun⟩ := h
  have hdispatch : Yields (dispatch L .all v []) fun _ => True := ⟨inputQueue, by simpa [run, step] using hrun, trivial⟩
  unfold dispatch at hdispatch
  rw [coalesceM, yields_bind, yields_pure, yields_bind] at hdispatch
  refine ⟨hdispatch.mono fun _ _ => trivial, ?_⟩
  obtain ⟨_, -, hpass⟩ := hdispatch
  rw [yields_bind] at hpass
  exact hpass.mono fun _ _ => trivial

theorem batch_of_pair {L : Layout} {v u : Vec} {env : Env}
    (h : Inside L [.passthrough v, .passthrough u, .dispatch env]) :
    Yields (batch L v u) fun _ => True := by
  obtain ⟨inputQueue, hrun⟩ := h
  have hdispatch : Yields (dispatch L env v [u]) fun _ => True := ⟨inputQueue, by simpa [run, step] using hrun, trivial⟩
  unfold dispatch at hdispatch
  rw [coalesceM, yields_bind, yields_bind] at hdispatch
  exact hdispatch.mono fun _ _ => trivial

theorem batchAs_of_pair {L : Layout} {v u : Vec} (hsame : slice u L.header.magic = slice v L.header.magic)
    (h : Yields (batch L v u) fun _ => True) : Yields (batchAs L v u (magicAt L v)) fun _ => True := by
  unfold batch differ at h
  rw [yields_bind, yields_bind, yields_read, yields_bind, yields_read, yields_pure, yields_ite] at h
  obtain ⟨-, -, -, h⟩ := h
  rw [yields_bind, yields_read] at h
  exact (h (by simp [hsame])).2

/-- A complete scroll packet that leaves the amount as it is. -/
def stillScroll (L : Layout) (v : Vec) : Vec :=
  v.take L.scroll.scrollAmt1.offset ++ List.replicate (L.scroll.scrollAmt1.stop + L.scroll.scrollAmt2.stop) 0

theorem big_replicate (n : ℕ) : big (List.replicate n 0) = 0 := by
  unfold big
  rw [List.reverse_replicate]
  induction n with
  | zero => rfl
  | succ n ih =>
    rw [List.replicate_succ, Bytes.leValue, ih]
    rfl

theorem stillScroll_amount {L : Layout} {v : Vec} (h : L.scroll.scrollAmt1.stop ≤ v.length) :
    bigShort (slice (stillScroll L v) L.scroll.scrollAmt1) = 0 := by
  have hzeros : slice (stillScroll L v) L.scroll.scrollAmt1 = List.replicate L.scroll.scrollAmt1.width 0 := by
    unfold Field.stop at h
    unfold slice stillScroll Field.stop
    rw [List.drop_left' (by rw [List.length_take]; omega), List.take_replicate, Nat.min_eq_left (by omega)]
  unfold bigShort
  rw [hzeros, big_replicate]
  rfl

theorem addOverflow_zero (a : Int16) : Batching.addOverflow a 0 = some a := by
  have hsum : a.toInt + (0 : Int16).toInt = a.toInt := Int.add_zero a.toInt
  have hmin := a.le_toInt
  have hmax := a.toInt_lt
  unfold Batching.addOverflow
  rw [hsum, if_pos (by omega), Int16.ofInt_toInt]

theorem stillScroll_header {L : Layout} (hL : L.Packed) {v : Vec} (h : L.scroll.scrollAmt1.stop ≤ v.length) :
    slice (stillScroll L v) L.header.magic = slice v L.header.magic := by
  have hbehind := hL.behindHeader L.scroll.scrollAmt1 (by simp)
  unfold Field.stop at h hbehind
  have htake : slice (v.take L.scroll.scrollAmt1.offset) L.header.magic = slice v L.header.magic := by
    unfold slice
    rw [List.drop_take, List.take_take, Nat.min_eq_left (by omega)]
  rw [← htake]
  refine slice_append _ ?_
  rw [List.length_take]
  unfold Field.stop
  omega

theorem stillScroll_complete {L : Layout} (hL : L.Packed) {v : Vec} (hm : magicAt L v = .scroll)
    (h : L.scroll.scrollAmt1.stop ≤ v.length) : Complete L (stillScroll L v) := by
  have hbehind := hL.behindHeader L.scroll.scrollAmt1 (by simp)
  have hmagic : magicAt L (stillScroll L v) = .scroll := by
    unfold magicAt at hm ⊢
    rw [stillScroll_header hL h, hm]
  have hlength : L.scroll.scrollAmt1.stop + L.scroll.scrollAmt2.stop ≤ (stillScroll L v).length := by
    unfold stillScroll
    rw [List.length_append, List.length_replicate]
    omega
  refine ⟨?_, ?_, fun htext => by rw [hmagic] at htext; cases htext⟩
  · unfold Field.stop at hlength ⊢ hbehind
    omega
  · rw [hmagic]
    refine List.forall_mem_cons.mpr ⟨by omega, List.forall_mem_singleton.mpr (by omega)⟩

theorem scrollAmt2_of_inside {L : Layout} (hL : L.Packed) {v : Vec} (hm : magicAt L v = .scroll)
    (hamt1 : L.scroll.scrollAmt1.stop ≤ v.length)
    (h : ∀ u, Complete L u → Inside L [.passthrough v, .passthrough u, .dispatch .all]) :
    L.scroll.scrollAmt2.stop ≤ v.length := by
  have hbatch := batchAs_of_pair (stillScroll_header hL hamt1)
    (batch_of_pair (h _ (stillScroll_complete hL hm hamt1)))
  rw [hm] at hbatch
  change Yields (batchScroll L v (stillScroll L v)) _ at hbatch
  unfold batchScroll at hbatch
  rw [yields_bind, yields_addOverflow, stillScroll_amount hamt1, addOverflow_zero] at hbatch
  obtain ⟨-, -, hwrite⟩ := hbatch
  simp only at hwrite
  rw [yields_bind, yields_write, yields_bind, yields_write, length_overwrite _ hamt1] at hwrite
  exact hwrite.2.1

theorem of_same {dest src : Vec} {f : Field} {x y : Except Fault (Verdict Vec)} {post : Verdict Vec → Prop}
    (hsame : slice dest f = slice src f) (h : Yields (do if ← differ dest src f then x else y) post) :
    Yields y post := by
  unfold differ at h
  rw [yields_bind, yields_bind, yields_read, yields_bind, yields_read, yields_pure, yields_ite] at h
  exact h.2.2.2 (by simp [hsame])

/-- A controller packet behind which the same state follows with its padding. -/
theorem sizeof_of_inside {L : Layout} {v : Vec} (hm : magicAt L v = .multiController)
    (hheader : L.header.magic.stop ≤ v.length)
    (hfields : ∀ f ∈ (L.fields .multiController).dropLast, f.stop ≤ v.length)
    (h : ∀ u, Complete L u → Inside L [.passthrough v, .passthrough u, .dispatch .all]) :
    (whole L.multiController.sizeof).stop ≤ v.length := by
  have hsame : ∀ {f : Field}, f.stop ≤ v.length →
      slice v f = slice (v ++ List.replicate L.multiController.sizeof 0) f := fun hf => (slice_append _ hf).symm
  have hmagic : magicAt L (v ++ List.replicate L.multiController.sizeof 0) = .multiController := by
    unfold magicAt at hm ⊢
    rw [← hsame hheader, hm]
  have hcomplete : Complete L (v ++ List.replicate L.multiController.sizeof 0) := by
    refine ⟨?_, ?_, fun htext => by rw [hmagic] at htext; cases htext⟩
    · rw [List.length_append]
      omega
    · rw [hmagic, List.length_append, List.length_replicate]
      intro f hf
      rw [show L.fields .multiController = (L.fields .multiController).dropLast ++
        [whole L.multiController.sizeof] from rfl] at hf
      rcases List.mem_append.mp hf with hmem | hmem
      · exact (hfields f hmem).trans (Nat.le_add_right _ _)
      · obtain rfl := List.mem_singleton.mp hmem
        exact (Nat.zero_add _).trans_le (Nat.le_add_left _ _)
  have hbatch := batchAs_of_pair (hsame hheader).symm (batch_of_pair (h _ hcomplete))
  rw [hm] at hbatch
  change Yields (batchMultiController L v _) _ at hbatch
  unfold batchMultiController at hbatch
  have hassign := of_same (hsame (hfields _ (by simp [Layout.fields]))) <|
    of_same (hsame (hfields _ (by simp [Layout.fields]))) <|
    of_same (hsame (hfields _ (by simp [Layout.fields]))) <|
    of_same (hsame (hfields _ (by simp [Layout.fields]))) hbatch
  unfold assign at hassign
  rw [yields_bind, yields_read, yields_bind, yields_write] at hassign
  exact hassign.2.1

/-! ## Exactly the complete vectors -/

theorem yields_log_true {v : Vec} {fields : List Field} :
    Yields (log true v fields) (fun _ => True) ↔ ∀ f ∈ fields, f.stop ≤ v.length := yields_readAll

theorem text_of_inside {L : Layout} {v : Vec} (hm : magicAt L v = .utf8Text)
    (h : Inside L [.passthrough v, .dispatch .all]) : L.header.size.stop ≤ v.length ∧ TextInside L v := by
  obtain ⟨hprint, hpass⟩ := print_of_alone h
  unfold print at hprint
  unfold passthrough at hpass
  rw [yields_bind, yields_read] at hprint hpass
  have hprint : Yields (printAs L .all v (magicAt L v)) fun _ => True := hprint.2
  have hpass : Yields (passthroughAs L .all v (magicAt L v)) fun _ => True := hpass.2
  rw [hm] at hprint hpass
  obtain ⟨hsize, hmin, hfits⟩ := (printUnicode_iff L v).mp hprint
  exact ⟨hsize, hmin, hfits, text_of_passthroughUnicode rfl rfl hmin hpass⟩

/-- The fields are printed, except for the packet as a whole, which ends with its last field. -/
theorem fields_of_printed {v : Vec} {printed : List Field} (hprint : Yields (log true v printed) fun _ => True)
    (fields : List Field) (hsub : fields ⊆ printed) {last : Field} {sizeof : ℕ} (hlast : last ∈ printed)
    (hends : last.stop = sizeof) : ∀ f ∈ fields ++ [whole sizeof], f.stop ≤ v.length := by
  have hread := yields_log_true.mp hprint
  intro f hf
  rcases List.mem_append.mp hf with hmem | hmem
  · exact hread f (hsub hmem)
  · obtain rfl := List.mem_singleton.mp hmem
    calc (whole sizeof).stop = last.stop := (Nat.zero_add _).trans hends.symm
      _ ≤ v.length := hread last hlast

theorem fields_of_inside {L : Layout} (hL : L.Packed) {v : Vec} {m : Magic} (hm : magicAt L v = m)
    (hheader : L.header.magic.stop ≤ v.length) (hprint : Yields (printAs L .all v m) fun _ => True)
    (htext : m = .utf8Text → L.header.size.stop ≤ v.length)
    (hpair : ∀ u, Complete L u → Inside L [.passthrough v, .passthrough u, .dispatch .all]) :
    ∀ f ∈ L.fields m, f.stop ≤ v.length := by
  cases m with
  | scroll =>
    have hamt1 := yields_log_true.mp hprint L.scroll.scrollAmt1 List.mem_cons_self
    exact List.forall_mem_cons.mpr ⟨hamt1, List.forall_mem_singleton.mpr (scrollAmt2_of_inside hL hm hamt1 hpair)⟩
  | utf8Text => exact List.forall_mem_singleton.mpr (htext rfl)
  | other => exact nofun
  | multiController =>
    have hstate : ∀ f ∈ (L.fields .multiController).dropLast, f.stop ≤ v.length := by
      intro f hf
      refine yields_log_true.mp hprint f ?_
      simp only [Layout.fields, List.dropLast, List.mem_cons, List.not_mem_nil, or_false] at hf ⊢
      tauto
    intro f hf
    rcases List.mem_append.mp (show f ∈ (L.fields .multiController).dropLast ++ [whole _] from hf) with h | h
    · exact hstate f h
    · obtain rfl := List.mem_singleton.mp h
      exact sizeof_of_inside hm hheader hstate hpair
  | mouseMoveAbs =>
    exact fields_of_printed hprint (L.fields .mouseMoveAbs).dropLast (by simp [Layout.fields]) (by simp)
      (hL.ends (L.absMouseMove.height, L.absMouseMove.sizeof) (by simp)).2
  | touch =>
    exact fields_of_printed hprint (L.fields .touch).dropLast (by simp [Layout.fields]) (by simp)
      (hL.ends (L.touch.contactAreaMinor, L.touch.sizeof) (by simp)).2
  | pen =>
    exact fields_of_printed hprint (L.fields .pen).dropLast (by simp [Layout.fields]) (by simp)
      (hL.ends (L.pen.contactAreaMinor, L.pen.sizeof) (by simp)).2
  | controllerTouch =>
    exact fields_of_printed hprint (L.fields .controllerTouch).dropLast (by simp [Layout.fields]) (by simp)
      (hL.ends (L.controllerTouch.pressure, L.controllerTouch.sizeof) (by simp)).2
  | controllerMotion =>
    exact fields_of_printed hprint (L.fields .controllerMotion).dropLast (by simp [Layout.fields]) (by simp)
      (hL.ends (L.controllerMotion.z, L.controllerMotion.sizeof) (by simp)).2
  | _ =>
    refine fun f hf => yields_log_true.mp hprint f ?_
    simp only [Layout.fields, List.mem_cons, List.not_mem_nil, or_false] at hf ⊢
    tauto

/-- When the other vectors are complete, exactly a complete vector is always dispatched inside its bytes and
theirs. -/
theorem inside_iff_complete (L : Layout) (hL : L.Packed) (v : Vec) :
    (∀ events, (∀ u, .passthrough u ∈ events → u = v ∨ Complete L u) → Inside L events) ↔ Complete L v := by
  constructor
  · intro h
    have halone : Inside L [.passthrough v, .dispatch .all] := h _ fun u hu => .inl (by simpa using hu)
    have hpair : ∀ u, Complete L u → Inside L [.passthrough v, .passthrough u, .dispatch .all] :=
      fun u hu => h _ fun w hw => by
        have hw : w = v ∨ w = u := by simpa using hw
        rcases hw with rfl | rfl
        · exact .inl rfl
        · exact .inr hu
    have hprint := (print_of_alone halone).1
    unfold print at hprint
    rw [yields_bind, yields_read] at hprint
    obtain ⟨hheader, hprint⟩ := hprint
    exact ⟨hheader, fields_of_inside hL rfl hheader hprint (fun hm => (text_of_inside hm halone).1) hpair,
      fun hm => (text_of_inside hm halone).2⟩
  · intro hv events hevents
    exact run_complete hL fun u hu => (hevents u hu).elim (fun huv => huv ▸ hv) id

/-! ## The packets of the client -/

def limelightMagic (magic : ℕ) : Magic :=
  match magic with
  | 0x00000007 => .mouseMoveRel
  | 0x00000005 => .mouseMoveAbs
  | 0x00000008 => .mouseButtonDown
  | 0x00000009 => .mouseButtonUp
  | 0x0000000A => .scroll
  | 0x55000001 => .hscroll
  | 0x00000003 => .keyDown
  | 0x00000004 => .keyUp
  | 0x00000017 => .utf8Text
  | 0x0000000C => .multiController
  | 0x55000002 => .touch
  | 0x55000003 => .pen
  | 0x55000004 => .controllerArrival
  | 0x55000005 => .controllerTouch
  | 0x55000006 => .controllerMotion
  | 0x55000007 => .controllerBattery
  | _ => .other

/-- The structs without gaps between their fields, behind a header of two 32-bit numbers. -/
def limelight : Layout where
  header := ⟨⟨0, 4⟩, ⟨4, 4⟩⟩
  relMouseMove := ⟨⟨8, 2⟩, ⟨10, 2⟩⟩
  absMouseMove := ⟨⟨8, 2⟩, ⟨10, 2⟩, ⟨14, 2⟩, ⟨16, 2⟩, 18⟩
  mouseButton := ⟨⟨8, 1⟩⟩
  scroll := ⟨⟨8, 2⟩, ⟨10, 2⟩⟩
  hscroll := ⟨⟨8, 2⟩⟩
  keyboard := ⟨⟨8, 1⟩, ⟨9, 2⟩, ⟨11, 1⟩⟩
  unicode := ⟨8⟩
  multiController := ⟨⟨10, 2⟩, ⟨12, 2⟩, ⟨16, 2⟩, ⟨18, 1⟩, ⟨19, 1⟩, ⟨20, 2⟩, ⟨22, 2⟩, ⟨24, 2⟩, ⟨26, 2⟩, ⟨30, 2⟩, 34⟩
  touch := ⟨⟨8, 1⟩, ⟨10, 2⟩, ⟨12, 4⟩, ⟨16, 4⟩, ⟨20, 4⟩, ⟨24, 4⟩, ⟨28, 4⟩, ⟨32, 4⟩, 36⟩
  pen := ⟨⟨8, 1⟩, ⟨9, 1⟩, ⟨10, 1⟩, ⟨12, 4⟩, ⟨16, 4⟩, ⟨20, 4⟩, ⟨24, 2⟩, ⟨26, 1⟩, ⟨28, 4⟩, ⟨32, 4⟩, 36⟩
  controllerArrival := ⟨⟨8, 1⟩, ⟨9, 1⟩, ⟨10, 2⟩, ⟨12, 4⟩⟩
  controllerTouch := ⟨⟨8, 1⟩, ⟨9, 1⟩, ⟨12, 4⟩, ⟨16, 4⟩, ⟨20, 4⟩, ⟨24, 4⟩, 28⟩
  controllerMotion := ⟨⟨8, 1⟩, ⟨9, 1⟩, ⟨12, 4⟩, ⟨16, 4⟩, ⟨20, 4⟩, 24⟩
  controllerBattery := ⟨⟨8, 1⟩, ⟨9, 1⟩, ⟨10, 1⟩⟩
  magicOf := limelightMagic
  touchEventHover := 0
  touchEventMove := 3

theorem limelight_packed : limelight.Packed where
  behindHeader := by decide
  controller := by decide
  ends := by decide

/-- A relative mouse move of twelve bytes. -/
def mouseMove : Vec := [0, 0, 0, 8, 7, 0, 0, 0, 0, 1, 0, 1]

theorem mouseMoves_inside :
    Inside limelight [.passthrough mouseMove, .passthrough mouseMove, .dispatch .all, .dispatch .all] :=
  (inside_iff_complete limelight limelight_packed mouseMove).mpr
    ⟨by decide, by decide, fun hm => absurd hm (by decide)⟩ _ fun u hu => .inl (by simpa using hu)

/-- Eight bytes of text that claim a text of 252 bytes behind them. -/
theorem text_read_beyond : ¬∀ (L : Layout), L.Packed → ∀ events, Inside L events := by
  intro h
  obtain ⟨inputQueue, hrun⟩ := h limelight limelight_packed
    [.passthrough [0, 0, 1, 0, 0x17, 0, 0, 0], .dispatch .all]
  have hfault : run limelight [.passthrough [0, 0, 1, 0, 0x17, 0, 0, 0], .dispatch .all] =
      .error .outOfBounds := by decide +kernel
  rw [hfault] at hrun
  cases hrun

end Sunshine.Casts
